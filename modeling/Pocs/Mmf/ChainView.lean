import Pocs.Mmf.Notes

/-! # The view of the chain

`ChainView::sync` rebuilds from the pool's events what the wallets and the transfer agent read. The
tree contract, the nullifiers and the register feed of a run can all be read off its log
(`Run.viewInv`): every leaf has one record, with the feed its creator was checked to have sent under
the register key of the record's version. The outflows of the token are not pool events and are an
argument here. -/

namespace Pocs.Mmf

open Compliance (BnField Word Address merkleHash)
open TransferParams (inputs)

/-! ## Records -/

structure NoteRecord (F : Type) where
  commitment : F
  leafIndex : Nat
  /-- Output position in its operation, which selects the keystream and the payload element. -/
  output : Nat
  feedR : F × F
  feedCt : Fin feedFields → F
  payload : List UInt8
  /-- The register key version when the note was created; 0 is the key set at deployment. -/
  keyVersion : UInt64

structure SpendRecord (F : Type) where
  nullifiers : List F
  outputs : List F
  withdrawnUnits : Option UInt64

structure Outflow where
  toAddress : Address
  shares : Nat
  byWithdrawal : Bool

/-- What an actor has read of the chain. -/
structure ChainView (F : Type) where
  /-- The leaves of the tree. -/
  commitments : List F
  notes : List (NoteRecord F)
  nullifiers : List F
  spends : List (SpendRecord F)
  outflows : List Outflow

inductive ChainError where
  | nonCanonical (word : Word)
  deriving DecidableEq, Repr

namespace ChainView
variable {F : Type} [FeedField F]

def empty : ChainView F := ⟨[], [], [], [], []⟩

/-- `fr_of_b256` and `fr_of_u256`. -/
def frOf (word : Word) : Except ChainError F := do
  failIf (BnField.canonical F word = false) (.nonCanonical word)
  pure (Scalar.ofNat word)

/-- `point_of`. -/
def pointOfWords (r : Word × Word) : Except ChainError (F × F) := do
  let x ← frOf r.1
  let y ← frOf r.2
  pure (x, y)

/-- `ct_slice`, whose slots are checked in their order. -/
def feedSlice (ct : Fin feedFields → Word) : Except ChainError (Fin feedFields → F) := do
  (List.finRange feedFields).forM fun i =>
    failIf (BnField.canonical F (ct i) = false) (.nonCanonical (ct i))
  pure fun i => Scalar.ofNat (ct i)

def pushNote (view : ChainView F) (commitment : F) (output : Nat) (feedR : F × F)
    (feedCt : Fin feedFields → F) (payload : List UInt8) (keyVersion : UInt64) : ChainView F :=
  { view with
    commitments := view.commitments ++ [commitment]
    notes := view.notes ++ [⟨commitment, view.commitments.length, output, feedR, feedCt, payload, keyVersion⟩] }

/-- The record of output `j` of an event. -/
def readNote (view : ChainView F) (commitment : F) (j : Nat) (feedR : Word × Word)
    (feedCt : Fin feedFields → Word) (payload : List UInt8) (keyVersion : UInt64) :
    Except ChainError (ChainView F) := do
  let r ← pointOfWords feedR
  let ct ← feedSlice feedCt
  pure (view.pushNote commitment j r ct payload keyVersion)

local instance neZero_outputs : NeZero 2 := ⟨by decide⟩

/-- One log of the pool; the second component is `key_version`. -/
def readEvent (st : ChainView F × UInt64) : PoolEvent → Except ChainError (ChainView F × UInt64)
  | .deposit commitment _ _ feedR feedCt payload => do
    let commitment ← frOf commitment
    let view ← st.1.readNote commitment 0 feedR feedCt payload st.2
    pure (view, st.2)
  | .transfer nullifier0 nullifier1 commitment0 commitment1 feedR feedCt payload => do
    let n0 ← frOf nullifier0
    let n1 ← frOf nullifier1
    let view := { st.1 with nullifiers := st.1.nullifiers ++ [n0, n1] }
    let c0 ← frOf commitment0
    let c1 ← frOf commitment1
    let view ← view.readNote c0 0 feedR (ctSlice feedCt 0) payload st.2
    let view ← view.readNote c1 1 feedR (ctSlice feedCt 1) payload st.2
    pure ({ view with spends := view.spends ++ [⟨[n0, n1], [c0, c1], none⟩] }, st.2)
  | .withdraw nullifier _ units _ => do
    let n ← frOf nullifier
    pure ({ st.1 with
      nullifiers := st.1.nullifiers ++ [n]
      spends := st.1.spends ++ [⟨[n], [], some units⟩] }, st.2)
  | .registerKeyRotated version _ => pure (st.1, version)
  | _ => pure st

def readLogs (logs : List PoolEvent) : Except ChainError (ChainView F × UInt64) :=
  logs.foldlM readEvent (empty, 0)

def sync (logs : List PoolEvent) (outflows : List Outflow) : Except ChainError (ChainView F) := do
  let (view, _) ← readLogs logs
  pure { view with outflows }

/-! ## Views of a longer log -/

variable {view view' : ChainView F} {st st' : ChainView F × UInt64}

theorem readNote_ok {commitment : F} {j : Nat} {feedR : Word × Word}
    {feedCt : Fin feedFields → Word} {payload : List UInt8} {keyVersion : UInt64}
    (h : view.readNote commitment j feedR feedCt payload keyVersion = .ok view') :
    view' = view.pushNote commitment j (pointOf feedR) (fun i => Scalar.ofNat (feedCt i)) payload
      keyVersion := by
  simp only [readNote, pointOfWords, frOf, feedSlice, bind_eq_ok, pure_eq_ok] at h
  obtain ⟨_, ⟨_, ⟨_, -, rfl⟩, _, ⟨_, -, rfl⟩, rfl⟩, _, ⟨_, -, rfl⟩, rfl⟩ := h
  rfl

theorem readNote_eq {commitment : F} {j : Nat} {feedR : Word × Word}
    {feedCt : Fin feedFields → Word} {payload : List UInt8} {keyVersion : UInt64}
    (hx : BnField.canonical F feedR.1 = true) (hy : BnField.canonical F feedR.2 = true)
    (hct : ∀ i, BnField.canonical F (feedCt i) = true) :
    view.readNote commitment j feedR feedCt payload keyVersion = .ok
      (view.pushNote commitment j (pointOf feedR) (fun i => Scalar.ofNat (feedCt i)) payload keyVersion) := by
  simp only [readNote, pointOfWords, frOf, feedSlice, bind_eq_ok, pure_eq_ok, failIf_eq_ok,
    forM_eq_ok, Bool.not_eq_false]
  exact ⟨_, ⟨_, ⟨(), hx, rfl⟩, _, ⟨(), hy, rfl⟩, rfl⟩, _, ⟨(), fun i _ => hct i, rfl⟩, rfl⟩

theorem frOf_eq {word : Word} (h : BnField.canonical F word = true) :
    (frOf word : Except ChainError F) = .ok (Scalar.ofNat word) := by
  rw [frOf, failIf_neg (Bool.not_eq_false _ ▸ h)]
  rfl

/-- A log only adds records. -/
theorem notes_prefix_of_readEvent {e : PoolEvent} (h : readEvent st e = .ok st') :
    st.1.notes <+: st'.1.notes := by
  cases e with
  | deposit =>
    simp only [readEvent, bind_eq_ok, pure_eq_ok] at h
    obtain ⟨_, -, _, hnote, rfl⟩ := h
    rw [readNote_ok hnote]
    exact List.prefix_append _ _
  | transfer =>
    simp only [readEvent, bind_eq_ok, pure_eq_ok] at h
    obtain ⟨_, -, _, -, _, -, _, -, _, hnote0, _, hnote1, rfl⟩ := h
    rw [readNote_ok hnote1, readNote_ok hnote0]
    exact (List.prefix_append _ _).trans (List.prefix_append _ _)
  | withdraw =>
    simp only [readEvent, bind_eq_ok, pure_eq_ok] at h
    obtain ⟨_, -, rfl⟩ := h
    exact List.prefix_rfl
  | registerKeyRotated | checkpoint | halted | haltCleared | grantRecorded | verifierSet
  | claimKeyHashSet | transferAgentSet | pausedSet | guardianRearmed =>
    cases pure_eq_ok.mp h
    exact List.prefix_rfl

theorem notes_prefix_of_foldlM {logs : List PoolEvent} (h : logs.foldlM readEvent st = .ok st') :
    st.1.notes <+: st'.1.notes := by
  induction logs generalizing st with
  | nil =>
    cases pure_eq_ok.mp h
    exact List.prefix_rfl
  | cons e logs ih =>
    rw [List.foldlM_cons, bind_eq_ok] at h
    obtain ⟨next, hnext, hrest⟩ := h
    exact (notes_prefix_of_readEvent hnext).trans (ih hrest)

/-- The records of a view are those of the views of every later log. -/
theorem notes_prefix_of_sync {logs logs' : List PoolEvent} {outflows : List Outflow}
    {final : ChainView F × UInt64} (hpre : logs <+: logs') (h : sync logs outflows = .ok view)
    (h' : readLogs logs' = .ok final) : view.notes <+: final.1.notes := by
  obtain ⟨rest, rfl⟩ := hpre
  simp only [sync, bind_eq_ok, pure_eq_ok] at h
  obtain ⟨⟨mid, version⟩, hmid, rfl⟩ := h
  rw [readLogs, List.foldlM_append, bind_eq_ok] at h'
  obtain ⟨mid', hmid', hrest⟩ := h'
  cases hmid.symm.trans hmid'
  exact notes_prefix_of_foldlM hrest

theorem sync_of_readLogs {logs : List PoolEvent} (outflows : List Outflow)
    (h : readLogs logs = .ok st) : sync logs outflows = .ok { st.1 with outflows } := by
  simp only [sync, bind_eq_ok, pure_eq_ok]
  exact ⟨st, h, rfl⟩

end ChainView

open ChainView

/-! ## The log of a run -/

def Step.events : Step → List PoolEvent
  | .pool _ _ events => events
  | _ => []

def logOf (tr : List Step) : List PoolEvent := tr.reverse.flatMap Step.events

@[simp] theorem logOf_cons (st : Step) (tr : List Step) : logOf (st :: tr) = logOf tr ++ st.events := by
  simp [logOf]

/-- An event that neither creates nor spends notes nor rotates the register key. -/
def PoolEvent.Silent : PoolEvent → Prop
  | .deposit .. | .transfer .. | .withdraw .. | .registerKeyRotated .. => False
  | _ => True

variable {F T τ : Type} [FeedField F] {D : Deployment F T τ} {w w' : World T τ} {tr : List Step}
  {sender : Address} {events : List PoolEvent} {call : PoolCall}

/-- What an accepted call logged, and what became of the register key. -/
inductive Logged (D : Deployment F T τ) (sender : Address) (w w' : World T τ) : List PoolEvent → Prop where
  | deposit {p m shares} (accepted : DepositAccepted D sender w w' p m shares) : Logged D sender w w'
      [.deposit p.commitment p.units shares p.feedR p.feedCt p.recipientPayload]
  | transfer {p} (accepted : TransferAccepted D w w' p) :
    Logged D sender w w' [.transfer p.nullifier0 p.nullifier1 p.commitmentOut0 p.commitmentOut1
      p.feedR p.feedCt p.recipientPayload]
  | withdraw {p m shares} (accepted : WithdrawAccepted D w w' p m shares) :
    Logged D sender w w' [.withdraw p.nullifier p.recipient p.units shares]
  | rotated {version key} (governed : Governed w w')
    (next : version.toNat = w.pool.registerKeyVersion.toNat + 1)
    (registerKey : w'.pool.registerKey = key)
    (registerKeyVersion : w'.pool.registerKeyVersion = version) :
    Logged D sender w w' [.registerKeyRotated version key]
  | silent {events : List PoolEvent} (governed : Governed w w') (silent : ∀ e ∈ events, e.Silent)
    (registerKey : w'.pool.registerKey = w.pool.registerKey)
    (registerKeyVersion : w'.pool.registerKeyVersion = w.pool.registerKeyVersion) :
    Logged D sender w w' events

omit [FeedField F] in
theorem checkpoint_silent {registerHash : Word} {expectedUnits : Nat}
    (h : checkpoint D w sender registerHash expectedUnits = .ok (w', events)) :
    (∀ e ∈ events, e.Silent) ∧ w'.pool.registerKey = w.pool.registerKey ∧
      w'.pool.registerKeyVersion = w.pool.registerKeyVersion := by
  simp only [checkpoint, bind_eq_ok, pure_eq_ok] at h
  obtain ⟨_, -, _, -, m, -, h⟩ := h
  split at h
  · split at h <;> cases h <;> simp [PoolEvent.Silent, World.setPool]
  · cases h
    simp [PoolEvent.Silent, World.setPool]

omit [FeedField F] in
theorem pause_silent {untilEpoch : Nat} (h : pause D w sender untilEpoch = .ok (w', events)) :
    (∀ e ∈ events, e.Silent) ∧ w'.pool.registerKey = w.pool.registerKey ∧
      w'.pool.registerKeyVersion = w.pool.registerKeyVersion := by
  simp only [pause, bind_eq_ok, pure_eq_ok, Prod.mk.injEq] at h
  obtain ⟨_, -, _, -, _, -, _, -, rfl, rfl⟩ := h
  split <;> split <;> simp [PoolEvent.Silent, World.setPool]

theorem setRegisterKey_logged {key : Word × Word} {version : UInt64}
    (h : setRegisterKey w sender key version = .ok (w', events)) : Logged D sender w w' events := by
  simp only [setRegisterKey, bind_eq_ok, failIf_eq_ok, pure_eq_ok, Prod.mk.injEq, exists_const,
    not_not, Nat.not_le] at h
  obtain ⟨_, -, hlt, hversion, -, rfl, rfl⟩ := h
  refine .rotated (.setPool rfl rfl rfl rfl) ?_ rfl rfl
  rw [hversion, UInt64.toNat_add]
  exact Nat.mod_eq_of_lt hlt

theorem PoolCall.run_logged (h : PoolCall.run D sender w call = .ok (w', events)) :
    Logged D sender w w' events := by
  cases call with
  | deposit p =>
    obtain ⟨m, shares, accepted, rfl⟩ := deposit_accepted h
    exact .deposit accepted
  | transfer p =>
    obtain ⟨accepted, rfl⟩ := transfer_accepted h
    exact .transfer accepted
  | withdraw p =>
    obtain ⟨m, shares, accepted, rfl⟩ := withdraw_accepted h
    exact .withdraw accepted
  | setRegisterKey => exact setRegisterKey_logged h
  | checkpoint =>
    obtain ⟨hsilent, hkey, hversion⟩ := checkpoint_silent h
    exact .silent (checkpoint_governed h) hsilent hkey hversion
  | pause =>
    obtain ⟨hsilent, hkey, hversion⟩ := pause_silent h
    exact .silent (pause_governed h) hsilent hkey hversion
  | recordGrant =>
    obtain ⟨_, -, h⟩ := bind_eq_ok.mp h
    cases pure_eq_ok.mp h
    exact .silent ⟨rfl, rfl, rfl, rfl, rfl, rfl, rfl⟩ (by simp [PoolEvent.Silent]) rfl rfl
  | rearmGuardian | grantRole | revokeRole | renounceRole =>
    obtain ⟨_, -, h⟩ := bind_eq_ok.mp h
    cases pure_eq_ok.mp h
    exact .silent (.setPool rfl rfl rfl rfl) (by simp [PoolEvent.Silent]) rfl rfl
  | setVerifier | setClaimKeyHash | setTransferAgent =>
    obtain ⟨_, -, h⟩ := bind_eq_ok.mp h
    obtain ⟨_, -, h⟩ := bind_eq_ok.mp h
    cases pure_eq_ok.mp h
    exact .silent (.setPool rfl rfl rfl rfl) (by simp [PoolEvent.Silent]) rfl rfl
  | clearHalt =>
    obtain ⟨_, -, h⟩ := bind_eq_ok.mp h
    obtain ⟨_, -, h⟩ := bind_eq_ok.mp h
    obtain ⟨_, -, h⟩ := bind_eq_ok.mp h
    obtain ⟨_, -, h⟩ := bind_eq_ok.mp h
    cases pure_eq_ok.mp h
    exact .silent (.setPool rfl rfl rfl rfl) (by simp [PoolEvent.Silent]) rfl rfl

/-! ## Register keys -/

/-- The register key of a version: the one set at deployment, or the one of a rotation. -/
def KeyOf (first : Word × Word) (logs : List PoolEvent) (version : UInt64) (key : Word × Word) :
    Prop :=
  version = 0 ∧ key = first ∨ .registerKeyRotated version key ∈ logs

theorem KeyOf.append {first key : Word × Word} {logs : List PoolEvent} {version : UInt64}
    (h : KeyOf first logs version key) (more : List PoolEvent) : KeyOf first (logs ++ more) version key :=
  h.imp_right (List.mem_append_left _)

structure KeyInv (first : Word × Word) (logs : List PoolEvent) (pool : ShieldedPool T) : Prop where
  current : KeyOf first logs pool.registerKeyVersion pool.registerKey
  version : ∀ {version key}, .registerKeyRotated version key ∈ logs →
    0 < version.toNat ∧ version.toNat ≤ pool.registerKeyVersion.toNat
  unique : ∀ {version key key'}, .registerKeyRotated version key ∈ logs →
    .registerKeyRotated version key' ∈ logs → key = key'

variable {first : Word × Word} {logs : List PoolEvent}

/-- Events that are no rotations. -/
theorem KeyInv.keep {pool pool' : ShieldedPool T} (inv : KeyInv first logs pool)
    (hevents : ∀ version key, .registerKeyRotated version key ∉ events)
    (registerKey : pool'.registerKey = pool.registerKey)
    (registerKeyVersion : pool'.registerKeyVersion = pool.registerKeyVersion) :
    KeyInv first (logs ++ events) pool' := by
  have hmem : ∀ {version key}, .registerKeyRotated version key ∈ logs ++ events →
      .registerKeyRotated version key ∈ logs := fun h =>
    (List.mem_append.mp h).resolve_right (hevents _ _)
  refine ⟨?_, fun h => ?_, fun h h' => inv.unique (hmem h) (hmem h')⟩
  · rw [registerKey, registerKeyVersion]
    exact inv.current.append events
  · rw [registerKeyVersion]
    exact inv.version (hmem h)

theorem Logged.keyInv (h : Logged D sender w w' events) (inv : KeyInv first logs w.pool) :
    KeyInv first (logs ++ events) w'.pool := by
  cases h with
  | deposit accepted | transfer accepted | withdraw accepted =>
    exact inv.keep (by simp) accepted.registerKey accepted.registerKeyVersion
  | silent _ silent registerKey registerKeyVersion =>
    exact inv.keep (fun _ _ h => silent _ h) registerKey registerKeyVersion
  | @rotated version key _ next registerKey registerKeyVersion =>
    -- the new version is above every version of the log
    have hnew : ∀ {key'}, .registerKeyRotated version key' ∉ logs := fun hmem => by
      have hle := (inv.version hmem).2
      omega
    have hcases : ∀ {version' key'},
        .registerKeyRotated version' key' ∈ logs ++ [.registerKeyRotated version key] →
        .registerKeyRotated version' key' ∈ logs ∨ version' = version ∧ key' = key := fun h => by
      rcases List.mem_append.mp h with h | h
      · exact .inl h
      · exact .inr (PoolEvent.registerKeyRotated.inj (List.mem_singleton.mp h))
    refine ⟨?_, fun hmem => ?_, fun hmem hmem' => ?_⟩
    · rw [registerKey, registerKeyVersion]
      exact .inr (List.mem_append_right _ List.mem_cons_self)
    · rw [registerKeyVersion]
      rcases hcases hmem with hold | ⟨rfl, -⟩
      · have hbound := inv.version hold
        omega
      · omega
    · rcases hcases hmem with hold | ⟨rfl, rfl⟩
      · rcases hcases hmem' with hold' | ⟨rfl, -⟩
        · exact inv.unique hold hold'
        · exact absurd hold hnew
      · rcases hcases hmem' with hold' | ⟨-, rfl⟩
        · exact absurd hold' hnew
        · rfl

theorem Run.keyInv {w₀ : World T τ} (h₀ : Deployed D w₀) (hrun : Run (Transition D) w₀ tr w) :
    KeyInv w₀.pool.registerKey (logOf tr) w.pool := by
  refine hrun.invariant (I := fun tr w => KeyInv w₀.pool.registerKey (logOf tr) w.pool) ?_ ?_
  · obtain ⟨_, _, hnew⟩ := h₀.pool_new
    obtain ⟨-, -, -, -, -, -, -, hversion⟩ := ShieldedPool.new_ok hnew
    exact ⟨.inl ⟨hversion, rfl⟩, fun h => by simp [logOf] at h, fun h => by simp [logOf] at h⟩
  · intro tr w st w' _ hstep inv
    rw [logOf_cons]
    cases hstep with
    | pool _ ok => exact (PoolCall.run_logged ok).keyInv inv
    | registry | poolReverted | registryReverted | tick | inflow =>
      exact inv.keep (fun _ _ h => by cases h) rfl rfl

/-! ## What the records say -/

/-- The record of a note: its feed carries the note and its lock terms under the register key of the
record's version. -/
structure Fed (P : Primitives F) (first : Word × Word) (logs : List PoolEvent) (r : NoteRecord F)
    (note : Note F) (terms : LockOpening F) : Prop where
  commitment : r.commitment = note.commitment P
  lock : Terms P note.lock terms
  sent : ∃ key secret k, KeyOf first logs r.keyVersion key ∧
    derive P secret (pointOf key) = .ok (r.feedR, k) ∧ r.feedCt = encrypt P k note terms r.output

theorem Fed.append {P : Primitives F} {r : NoteRecord F} {note : Note F} {terms : LockOpening F}
    (h : Fed P first logs r note terms) (more : List PoolEvent) : Fed P first (logs ++ more) r note terms := by
  obtain ⟨key, secret, k, hkey, hderive, hct⟩ := h.sent
  exact ⟨h.commitment, h.lock, key, secret, k, hkey.append more, hderive, hct⟩

/-- The agent reads the record with any secret of the key. -/
theorem Fed.decrypt {P : Primitives F} (hE : P.curve.Commutes) {r : NoteRecord F} {note : Note F}
    {terms : LockOpening F} (h : Fed P first logs r note terms) {tk : Nat}
    (htk : ∀ key, KeyOf first logs r.keyVersion key → P.curve.fixedBaseMul tk = pointOf key) :
    Mmf.decrypt P tk r.feedR r.feedCt r.output = feedRecord note terms := by
  obtain ⟨key, secret, k, hkey, hderive, hct⟩ := h.sent
  rw [← htk key hkey] at hderive
  rw [hct]
  exact decrypt_encrypt hE hderive note terms r.output

/-- Each leaf has its record, at its own index. -/
structure ChainView.Indexed (view : ChainView F) : Prop where
  commitments : view.notes.map NoteRecord.commitment = view.commitments
  leafIndex : ∀ {i : Nat} {r : NoteRecord F}, view.notes[i]? = some r → r.leafIndex = i

namespace ChainView
variable {view : ChainView F}

omit [FeedField F] in
theorem indexed_empty : (empty : ChainView F).Indexed := ⟨rfl, fun h => by cases h⟩

omit [FeedField F] in
theorem Indexed.length (h : view.Indexed) : view.notes.length = view.commitments.length := by
  rw [← h.commitments, List.length_map]

omit [FeedField F] in
theorem Indexed.pushNote (h : view.Indexed) (commitment : F) (output : Nat) (feedR : F × F)
    (feedCt : Fin feedFields → F) (payload : List UInt8) (keyVersion : UInt64) :
    (view.pushNote commitment output feedR feedCt payload keyVersion).Indexed := by
  refine ⟨?_, fun {i r} hr => ?_⟩
  · simp [ChainView.pushNote, h.commitments]
  · rcases Nat.lt_or_ge i view.notes.length with hlt | hge
    · rw [ChainView.pushNote, List.getElem?_append_left hlt] at hr
      exact h.leafIndex hr
    · rw [ChainView.pushNote, List.getElem?_append_right hge, List.getElem?_singleton] at hr
      split at hr
      · next hzero =>
        cases hr
        have hlength := h.length
        show view.commitments.length = i
        omega
      · cases hr

end ChainView

/-- What the view of a log says about the chain it was read from. -/
structure ViewInv (D : Deployment F T τ) (first : Word × Word) (logs : List PoolEvent)
    (w : World T τ) (st : ChainView F × UInt64) : Prop where
  version : st.2 = w.pool.registerKeyVersion
  indexed : st.1.Indexed
  commitments : st.1.commitments = D.imt.leaves w.pool.tree
  nullifiers : ∀ x, x ∈ st.1.nullifiers ↔ w.pool.nullifiers (Scalar.toNat x) = true
  fed : ∀ r ∈ st.1.notes, ∃ note terms, Fed D.toPrimitives first logs r note terms

theorem ViewInv.step {st st' : ChainView F × UInt64} {ns ls : List Word} (new : List (NoteRecord F))
    (inv : ViewInv D first logs w st) (hL : D.imt.Lawful (merkleHash D.hash))
    (adm : Admitted D w w' ns ls) (version : st'.2 = w'.pool.registerKeyVersion) (indexed : st'.1.Indexed)
    (commitments : st'.1.commitments = st.1.commitments ++ ls.map Scalar.ofNat)
    (nullifiers : st'.1.nullifiers = st.1.nullifiers ++ ns.map Scalar.ofNat)
    (notes : st'.1.notes = st.1.notes ++ new)
    (fed : ∀ r ∈ new, ∃ note terms, Fed D.toPrimitives first (logs ++ events) r note terms) :
    ViewInv D first (logs ++ events) w' st' := by
  refine ⟨version, indexed, ?_, fun x => ?_, fun r hr => ?_⟩
  · rw [commitments, inv.commitments, hL.insertAll adm.tree]
  · rw [nullifiers, List.mem_append, inv.nullifiers, adm.marks, or_comm]
    refine or_congr_left ⟨fun hx => ?_, fun hx => ?_⟩
    · obtain ⟨n, hn, rfl⟩ := List.mem_map.mp hx
      rwa [BnField.toNat_ofNat_of_canonical (adm.canonical n (List.mem_append_left _ hn))]
    · exact List.mem_map.mpr ⟨_, hx, BnField.ofNat_toNat x⟩
  · rw [notes, List.mem_append] at hr
    rcases hr with hr | hr
    · obtain ⟨note, terms, hfed⟩ := inv.fed r hr
      exact ⟨note, terms, hfed.append events⟩
    · exact fed r hr

/-- A step that logs nothing the view reads. -/
theorem ViewInv.keep {view : ChainView F} {before version : UInt64}
    (inv : ViewInv D first logs w (view, before)) (tree : w'.pool.tree = w.pool.tree)
    (nullifiers : w'.pool.nullifiers = w.pool.nullifiers) (hversion : version = w'.pool.registerKeyVersion) :
    ViewInv D first (logs ++ events) w' (view, version) where
  version := hversion
  indexed := inv.indexed
  commitments := by rw [tree, inv.commitments]
  nullifiers x := by rw [nullifiers, inv.nullifiers]
  fed r hr := by
    obtain ⟨note, terms, hfed⟩ := inv.fed r hr
    exact ⟨note, terms, hfed.append events⟩

theorem readEvent_silent {e : PoolEvent} (h : e.Silent) (st : ChainView F × UInt64) :
    readEvent st e = .ok st := by
  cases e <;> first | exact h.elim | rfl

theorem readEvents_silent (hevents : ∀ e ∈ events, e.Silent) (st : ChainView F × UInt64) :
    events.foldlM readEvent st = .ok st := by
  induction events with
  | nil => rfl
  | cons e events ih =>
    rw [List.foldlM_cons, readEvent_silent (hevents e List.mem_cons_self)]
    exact ih fun e' he' => hevents e' (List.mem_cons_of_mem _ he')

section
variable {st : ChainView F × UInt64} (hV : D.Sound) (hL : D.imt.Lawful (merkleHash D.hash))
  (inv : ViewInv D first logs w st) (keys : KeyInv first logs w.pool)
include hV hL inv keys

theorem DepositAccepted.view {p : DepositParams} {m shares : Nat}
    (accepted : DepositAccepted D sender w w' p m shares) : ∃ st',
      readEvent st (.deposit p.commitment p.units shares p.feedR p.feedCt
        p.recipientPayload) = .ok st' ∧ ViewInv D first (logs ++ events) w' st' := by
  obtain ⟨wit, hmain, -⟩ := accepted.proved hV
  have ok := depositMain_ok hmain
  obtain ⟨k, hderive, hct⟩ := ok.feed
  have hread := @readNote_eq F _ st.1 (Scalar.ofNat p.commitment) 0 p.feedR p.feedCt
    p.recipientPayload st.2 (accepted.canonical _ (by simp [DepositParams.inputs]))
    (accepted.canonical _ (by simp [DepositParams.inputs]))
    (fun i => accepted.canonical _ (by simp [DepositParams.inputs, List.mem_ofFn]))
  simp only [readEvent, hread, ok_bind,
    frOf_eq (accepted.canonical p.commitment (by simp [DepositParams.inputs]))]
  refine ⟨_, rfl, ?_⟩
  refine inv.step _ hL accepted.admitted (inv.version.trans accepted.registerKeyVersion.symm)
    (inv.indexed.pushNote ..) rfl (List.append_nil _).symm rfl (fun r hr => ?_)
  obtain rfl := List.mem_singleton.mp hr
  refine ⟨_, noLock, ok.commitment, ⟨fun _ => rfl, fun h => absurd rfl h⟩, w.pool.registerKey,
    wit.feedSecret, k, ?_, hderive, hct⟩
  rw [inv.version]
  exact keys.current.append _

theorem TransferAccepted.view {p : TransferParams} (accepted : TransferAccepted D w w' p) : ∃ st',
      readEvent st (.transfer p.nullifier0 p.nullifier1 p.commitmentOut0 p.commitmentOut1
        p.feedR p.feedCt p.recipientPayload) = .ok st' ∧ ViewInv D first (logs ++ events) w' st' := by
  obtain ⟨wit, hmain, -⟩ := accepted.proved hV
  have ok := transferMain_ok hmain
  obtain ⟨k, hderive, hct⟩ := ok.feed
  have hread : ∀ (view : ChainView F) (c : F) (j : Fin 2), view.readNote c j.val p.feedR
      (ctSlice p.feedCt j) p.recipientPayload st.2 = .ok (view.pushNote c j.val (pointOf p.feedR)
        (fun i => Scalar.ofNat (ctSlice p.feedCt j i)) p.recipientPayload st.2) := fun view c j =>
    readNote_eq (accepted.canonical _ (by simp [inputs]))
      (accepted.canonical _ (by simp [inputs]))
      (fun i => accepted.canonical _ (by simp [inputs, List.mem_ofFn, ctSlice]))
  have hread0 := fun view c => hread view c 0
  have hread1 := fun view c => hread view c 1
  simp only [Fin.val_zero, Fin.val_one] at hread0 hread1
  simp only [readEvent, hread0, hread1, ok_bind, frOf_eq (accepted.canonical p.nullifier0 (by simp [inputs])),
    frOf_eq (accepted.canonical p.nullifier1 (by simp [inputs])),
    frOf_eq (accepted.canonical p.commitmentOut0 (by simp [inputs])),
    frOf_eq (accepted.canonical p.commitmentOut1 (by simp [inputs]))]
  refine ⟨_, rfl, ?_⟩
  have hindexed : ({ st.1 with nullifiers := st.1.nullifiers ++
      [Scalar.ofNat p.nullifier0, Scalar.ofNat p.nullifier1] } : ChainView F).Indexed :=
    ⟨inv.indexed.commitments, inv.indexed.leafIndex⟩
  have hpushed := (hindexed.pushNote (Scalar.ofNat p.commitmentOut0) 0 (pointOf p.feedR)
    (fun i => Scalar.ofNat (ctSlice p.feedCt 0 i)) p.recipientPayload st.2).pushNote
    (Scalar.ofNat p.commitmentOut1) 1 (pointOf p.feedR)
    (fun i => Scalar.ofNat (ctSlice p.feedCt 1 i)) p.recipientPayload st.2
  refine inv.step [⟨Scalar.ofNat p.commitmentOut0, st.1.commitments.length, 0, pointOf p.feedR,
      fun i => Scalar.ofNat (ctSlice p.feedCt 0 i), p.recipientPayload, st.2⟩,
    ⟨Scalar.ofNat p.commitmentOut1, (st.1.commitments ++ [Scalar.ofNat p.commitmentOut0]).length, 1,
      pointOf p.feedR, fun i => Scalar.ofNat (ctSlice p.feedCt 1 i), p.recipientPayload, st.2⟩]
    hL accepted.admitted (inv.version.trans accepted.registerKeyVersion.symm)
    ⟨hpushed.commitments, hpushed.leafIndex⟩ ?_ rfl ?_ (fun r hr => ?_)
  · simp [ChainView.pushNote, PoolCall.leaves]
  · simp only [ChainView.pushNote, List.append_assoc, List.singleton_append]
  · have hkey : KeyOf first (logs ++ events) st.2 w.pool.registerKey := by
      rw [inv.version]
      exact keys.current.append _
    simp only [List.mem_cons, List.not_mem_nil, or_false] at hr
    rcases hr with rfl | rfl
    · exact ⟨wit.outputs 0, wit.outputLocks 0, ok.out0, ok.terms 0, w.pool.registerKey,
        wit.feedSecret, k, hkey, hderive, hct 0⟩
    · exact ⟨wit.outputs 1, wit.outputLocks 1, ok.out1, ok.terms 1, w.pool.registerKey,
        wit.feedSecret, k, hkey, hderive, hct 1⟩

theorem Logged.view (h : Logged D sender w w' events) : ∃ st',
    events.foldlM readEvent st = .ok st' ∧ ViewInv D first (logs ++ events) w' st' := by
  cases h with
  | @deposit p m shares accepted =>
    obtain ⟨st', hread, inv'⟩ := accepted.view hV hL inv keys
    exact ⟨st', by rw [List.foldlM_cons, hread]; rfl, inv'⟩
  | @transfer p accepted =>
    obtain ⟨st', hread, inv'⟩ := accepted.view hV hL inv keys
    exact ⟨st', by rw [List.foldlM_cons, hread]; rfl, inv'⟩
  | @withdraw p m shares accepted =>
    have hcanonical := accepted.canonical p.nullifier (by simp [WithdrawParams.inputs])
    refine ⟨({ st.1 with
      nullifiers := st.1.nullifiers ++ [Scalar.ofNat p.nullifier]
      spends := st.1.spends ++ [⟨[Scalar.ofNat p.nullifier], [], some p.units⟩] }, st.2), ?_,
      inv.step [] hL accepted.admitted (inv.version.trans accepted.registerKeyVersion.symm)
      ⟨inv.indexed.commitments, inv.indexed.leafIndex⟩ (List.append_nil _).symm rfl
      (List.append_nil _).symm (by simp)⟩
    rw [List.foldlM_cons, readEvent, frOf_eq hcanonical]
    rfl
  | rotated governed _ _ registerKeyVersion =>
    exact ⟨_, rfl, inv.keep governed.tree governed.nullifiers registerKeyVersion.symm⟩
  | silent governed silent _ registerKeyVersion =>
    exact ⟨st, readEvents_silent silent st, inv.keep governed.tree governed.nullifiers
      (inv.version.trans registerKeyVersion.symm)⟩

end

/-- Every log of a run can be read, and the view is that of the chain. -/
theorem Run.viewInv (hV : D.Sound) (hL : D.imt.Lawful (merkleHash D.hash)) {w₀ : World T τ}
    (h₀ : Deployed D w₀) (hrun : Run (Transition D) w₀ tr w) : ∃ st, readLogs (logOf tr) = .ok st ∧
      ViewInv D w₀.pool.registerKey (logOf tr) w st := by
  refine hrun.invariant (I := fun tr w => ∃ st, readLogs (logOf tr) = .ok st ∧
    ViewInv D w₀.pool.registerKey (logOf tr) w st) ?_ ?_
  · obtain ⟨_, _, hnew⟩ := h₀.pool_new
    obtain ⟨-, htree, -, hnull, -, -, -, hversion⟩ := ShieldedPool.new_ok hnew
    refine ⟨_, rfl, hversion.symm, ChainView.indexed_empty, ?_, fun x => ?_, fun r hr => ?_⟩
    · rw [htree, hL.leaves_empty]
      rfl
    · simp [ChainView.empty, hnull]
    · cases hr
  · intro tr w st w' hrun hstep ⟨view, hread, inv⟩
    rw [logOf_cons]
    cases hstep with
    | pool _ ok =>
      obtain ⟨view', hread', inv'⟩ :=
        (PoolCall.run_logged ok).view hV hL inv (Run.keyInv h₀ hrun)
      refine ⟨view', ?_, inv'⟩
      rw [readLogs, List.foldlM_append, bind_eq_ok]
      exact ⟨view, hread, hread'⟩
    | registry | poolReverted | registryReverted | tick | inflow =>
      refine ⟨view, ?_, ?_⟩
      · show readLogs (logOf tr ++ []) = .ok view
        rwa [List.append_nil]
      · exact inv.keep rfl rfl inv.version

end Pocs.Mmf

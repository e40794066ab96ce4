import Pocs.Mmf.Claims
import Pocs.Mmf.Completeness

/-! # The chain and the agent that spends

`Desk` adds to `Office` what the agent signs: the seed's deposit and freezes, claims and hand-outs, each
from a view of the caller's choice. A view's spends are those of the log (`spendsOf`), no two of which
share a nullifier or an output. Without its claim records, a desk is an office (`Run.forget`). -/

namespace Pocs.Mmf

open Compliance (BnField Word Address Ideal merkleHash)
open TransferAgent

/-! ## The spends of a log -/

section
variable {F : Type} [FeedField F]

def PoolEvent.spend : PoolEvent → Option (SpendRecord F)
  | .transfer nullifier0 nullifier1 commitment0 commitment1 _ _ _ =>
    some ⟨[Scalar.ofNat nullifier0, Scalar.ofNat nullifier1],
      [Scalar.ofNat commitment0, Scalar.ofNat commitment1], none⟩
  | .withdraw nullifier _ units _ => some ⟨[Scalar.ofNat nullifier], [], some units⟩
  | _ => none

def spendsOf (F : Type) [FeedField F] (logs : List PoolEvent) : List (SpendRecord F) :=
  logs.filterMap PoolEvent.spend

theorem spendsOf_append (logs more : List PoolEvent) :
    spendsOf F (logs ++ more) = spendsOf F logs ++ spendsOf F more :=
  List.filterMap_append

theorem mem_spendsOf_of_prefix {logs logs' : List PoolEvent} (h : logs <+: logs') {s : SpendRecord F}
    (hs : s ∈ spendsOf F logs) : s ∈ spendsOf F logs' := by
  obtain ⟨rest, rfl⟩ := h
  rw [spendsOf_append]
  exact List.mem_append_left _ hs

namespace ChainView
variable {view : ChainView F} {st st' : ChainView F × UInt64} {logs : List PoolEvent}

theorem spends_of_readEvent {e : PoolEvent} (h : readEvent st e = .ok st') :
    st'.1.spends = st.1.spends ++ spendsOf F [e] ∧
      st'.1.nullifiers = st.1.nullifiers ++ (spendsOf F [e]).flatMap SpendRecord.nullifiers := by
  cases e with
  | deposit =>
    simp only [readEvent, bind_eq_ok, pure_eq_ok] at h
    obtain ⟨_, -, _, hnote, rfl⟩ := h
    rw [readNote_ok hnote]
    exact ⟨(List.append_nil _).symm, (List.append_nil _).symm⟩
  | transfer =>
    simp only [readEvent, frOf, bind_eq_ok, pure_eq_ok] at h
    obtain ⟨_, ⟨_, -, rfl⟩, _, ⟨_, -, rfl⟩, _, ⟨_, -, rfl⟩, _, ⟨_, -, rfl⟩, _, hnote0, _, hnote1, rfl⟩ := h
    rw [readNote_ok hnote1, readNote_ok hnote0]
    exact ⟨rfl, rfl⟩
  | withdraw =>
    simp only [readEvent, frOf, bind_eq_ok, pure_eq_ok] at h
    obtain ⟨_, ⟨_, -, rfl⟩, rfl⟩ := h
    exact ⟨rfl, rfl⟩
  | registerKeyRotated | checkpoint | halted | haltCleared | grantRecorded | verifierSet
  | claimKeyHashSet | transferAgentSet | pausedSet | guardianRearmed =>
    cases pure_eq_ok.mp h
    exact ⟨(List.append_nil _).symm, (List.append_nil _).symm⟩

theorem spends_of_foldlM (h : logs.foldlM readEvent st = .ok st') :
    st'.1.spends = st.1.spends ++ spendsOf F logs ∧
      st'.1.nullifiers = st.1.nullifiers ++ (spendsOf F logs).flatMap SpendRecord.nullifiers := by
  induction logs generalizing st with
  | nil =>
    cases pure_eq_ok.mp h
    exact ⟨(List.append_nil _).symm, (List.append_nil _).symm⟩
  | cons e logs ih =>
    rw [List.foldlM_cons, bind_eq_ok] at h
    obtain ⟨next, hnext, hrest⟩ := h
    obtain ⟨hspends, hnullifiers⟩ := spends_of_readEvent hnext
    obtain ⟨hspends', hnullifiers'⟩ := ih hrest
    have hcons : spendsOf F (e :: logs) = spendsOf F [e] ++ spendsOf F logs := spendsOf_append [e] logs
    rw [hcons, List.flatMap_append, hspends', hnullifiers', hspends, hnullifiers]
    exact ⟨List.append_assoc .., List.append_assoc ..⟩

/-- What a view says about spends is what the log says. -/
theorem spends_of_sync {outflows : List Outflow} (h : sync logs outflows = .ok view) :
    view.spends = spendsOf F logs ∧ view.nullifiers = (spendsOf F logs).flatMap SpendRecord.nullifiers := by
  simp only [sync, bind_eq_ok, pure_eq_ok] at h
  obtain ⟨st, hread, rfl⟩ := h
  exact spends_of_foldlM hread

end ChainView
end

variable {F T τ : Type} [FeedField F] {D : Deployment F T τ} {w w' : World T τ} {tr : List Step}
  {sender : Address} {logs events : List PoolEvent}

/-- The spends of a log share no nullifier and no output, and their nullifiers are those the pool
recorded. -/
structure SpendsInv (D : Deployment F T τ) (logs : List PoolEvent) (w : World T τ) : Prop where
  nodup : ((spendsOf F logs).flatMap SpendRecord.nullifiers).Nodup
  marked : ∀ x, x ∈ (spendsOf F logs).flatMap SpendRecord.nullifiers ↔ w.pool.nullifiers (Scalar.toNat x) = true
  outputs : ((spendsOf F logs).flatMap SpendRecord.outputs).Sublist (D.imt.leaves w.pool.tree)

theorem SpendsInv.step (hL : D.imt.Lawful (merkleHash D.hash)) (inv : SpendsInv D logs w)
    {ns ls : List Word} (adm : Admitted D w w' ns ls)
    (nullifiers : (spendsOf F events).flatMap SpendRecord.nullifiers = ns.map Scalar.ofNat)
    (outputs : ((spendsOf F events).flatMap SpendRecord.outputs).Sublist (ls.map Scalar.ofNat)) :
    SpendsInv D (logs ++ events) w' := by
  have hcanonical : ∀ n ∈ ns, BnField.canonical F n = true := fun n hn =>
    adm.canonical n (List.mem_append_left _ hn)
  have hword : ∀ n ∈ ns, Scalar.toNat (Scalar.ofNat n : F) = n := fun n hn =>
    BnField.toNat_ofNat_of_canonical (hcanonical n hn)
  refine ⟨?_, fun x => ?_, ?_⟩
  · rw [spendsOf_append, List.flatMap_append, nullifiers, List.nodup_append]
    refine ⟨inv.nodup, adm.nodup.map_on fun n hn n' hn' heq => ?_, fun x hx y hy heq => ?_⟩
    · rw [← hword n hn, ← hword n' hn', heq]
    · obtain ⟨n, hn, rfl⟩ := List.mem_map.mp hy
      have hmarked := (inv.marked x).mp hx
      rw [heq, hword n hn, adm.fresh n hn] at hmarked
      cases hmarked
  · rw [spendsOf_append, List.flatMap_append, nullifiers, List.mem_append, inv.marked, adm.marks, or_comm]
    refine or_congr_left ⟨fun hx => ?_, fun hx => ?_⟩
    · obtain ⟨n, hn, rfl⟩ := List.mem_map.mp hx
      rwa [hword n hn]
    · exact List.mem_map.mpr ⟨_, hx, BnField.ofNat_toNat x⟩
  · rw [spendsOf_append, List.flatMap_append, hL.insertAll adm.tree]
    exact inv.outputs.append outputs

theorem Logged.spendsInv (hL : D.imt.Lawful (merkleHash D.hash)) (inv : SpendsInv D logs w)
    (h : Logged D sender w w' events) : SpendsInv D (logs ++ events) w' := by
  cases h with
  | deposit accepted | withdraw accepted => exact inv.step hL accepted.admitted rfl (List.nil_sublist _)
  | transfer accepted => exact inv.step hL accepted.admitted rfl (List.Sublist.refl _)
  | rotated governed => exact inv.step hL governed.admitted rfl (List.nil_sublist _)
  | silent governed silent =>
    have hnone : spendsOf F events = [] := List.filterMap_eq_nil_iff.mpr fun e he => by
      have hne := silent e he
      cases e <;> first | rfl | exact hne.elim
    refine inv.step hL governed.admitted ?_ ?_ <;> rw [hnone]
    · rfl
    · exact List.nil_sublist _

theorem Run.spendsInv (hL : D.imt.Lawful (merkleHash D.hash)) {w₀ : World T τ} (h₀ : Deployed D w₀)
    (hrun : Run (Transition D) w₀ tr w) : SpendsInv D (logOf tr) w := by
  refine hrun.invariant (I := fun tr w => SpendsInv D (logOf tr) w) ?_ ?_
  · obtain ⟨_, _, hnew⟩ := h₀.pool_new
    obtain ⟨-, htree, -, hnull, -⟩ := ShieldedPool.new_ok hnew
    refine ⟨List.nodup_nil, fun x => ?_, List.nil_sublist _⟩
    rw [hnull]
    exact ⟨fun hx => absurd hx List.not_mem_nil, fun h => by cases h⟩
  · intro tr w st w' _ hstep inv
    rw [logOf_cons]
    cases hstep with
    | pool _ ok => exact (PoolCall.run_logged ok).spendsInv hL inv
    | registry | poolReverted | registryReverted | tick | inflow =>
      show SpendsInv D (logOf tr ++ []) _
      rw [List.append_nil]
      exact ⟨inv.nodup, inv.marked, inv.outputs⟩

/-- A nullifier stands in one spend. -/
theorem SpendsInv.eq_of_mem (inv : SpendsInv D logs w) {s s' : SpendRecord F}
    (hs : s ∈ spendsOf F logs) (hs' : s' ∈ spendsOf F logs) {n : F} (hn : n ∈ s.nullifiers)
    (hn' : n ∈ s'.nullifiers) : s = s' := by
  obtain ⟨i, hi⟩ := List.mem_iff_getElem?.mp hs
  obtain ⟨j, hj⟩ := List.mem_iff_getElem?.mp hs'
  obtain rfl := index_eq_of_mem inv.nodup hi hj hn hn'
  exact Option.some.inj (hi.symm.trans hj)

/-! ## What the agent builds -/

section
variable {P : Primitives F}

/-- A transfer of the note with the commitment, padded, into the outputs. -/
structure SpendsOne (P : Primitives F) (commitment nk : F) (claim : Bool) (notes : Fin 2 → Note F)
    (built : BuiltTransfer F) : Prop where
  nullifier0 : built.pub.nullifier0 = nullifier P commitment nk
  padded : ∃ padding : Note F, padding.units = 0 ∧ built.pub.nullifier1 = nullifier P (padding.commitment P) nk
  claim : built.witness.claim = claim
  outputs : built.witness.outputs = notes
  out0 : built.pub.commitmentOut0 = (notes 0).commitment P
  out1 : built.pub.commitmentOut1 = (notes 1).commitment P

theorem buildTransfer_spendsOne {payloadCommitment : List UInt8 → F} {spec : TransferSpec F}
    {first : OwnedNote F} (hinputs : spec.inputs = [first]) {signer : PlanSigner F} {draws : Draws F}
    {view : AttestedView F} {env : PoolEnv F} {built : BuiltTransfer F}
    (h : buildTransfer P payloadCommitment spec signer draws view env = .ok built) :
    SpendsOne P first.commitment spec.nk spec.claim (spec.notes P env draws) built := by
  simp only [buildTransfer, prepareTransfer, hinputs, PendingTransfer.finish, bind_eq_ok, pure_eq_ok,
    exists_eq_left'] at h
  obtain ⟨_, -, _, -, _, -, _, -, _, -, _, -, _, -, rfl⟩ := h
  exact ⟨rfl, ⟨_, rfl, rfl⟩, rfl, rfl, rfl, rfl⟩

/-- One of its nullifiers is that of the note. -/
def BuiltTransfer.Spends (P : Primitives F) (built : BuiltTransfer F) (note : Note F) : Prop :=
  note.Nullifies P built.pub.nullifier0 ∨ note.Nullifies P built.pub.nullifier1

/-- A note of positive units that it spends is the one it was built for. -/
theorem SpendsOne.commitment_eq (H : Ideal P.hash) {commitment nk : F} {claim : Bool}
    {notes : Fin 2 → Note F} {built : BuiltTransfer F} (h : SpendsOne P commitment nk claim notes built)
    {note : Note F} (hunits : note.units ≠ 0) (hspends : built.Spends P note) :
    note.commitment P = commitment := by
  rcases hspends with ⟨_, _, -, hn⟩ | ⟨_, _, -, hn⟩
  · rw [h.nullifier0] at hn
    exact (H.hash2_inj hn).1.symm
  · obtain ⟨padding, hzero, hpadded⟩ := h.padded
    rw [hpadded] at hn
    obtain rfl := Note.commitment_inj H (H.hash2_inj hn).1
    exact absurd hzero hunits

/-- What `build_claim` was asked for, and the record it left. -/
structure ClaimBuilt (P : Primitives F) (a a' : KeyedAgent F) (target : F) (action : ClaimAction F)
    (built : BuiltTransfer F) : Prop where
  spends : ∃ e ∈ a.register, e.commitment = target ∧ ∃ record, a.keysOf P e.note.owner = .ok record ∧
    ∃ env draws, SpendsOne P target record.nk true
      (TransferSpec.notes P ⟨true, record.pk, record.nk, a.claimKey.publicKey,
        [⟨e.note, e.opening, e.commitment, e.leafIndex, false⟩],
        KeyedAgent.claimOutputs e.note action⟩ env draws) built
  agent : a' = { a with pendingClaims := a.pendingClaims ++
    [⟨target, (built.pub.commitmentOut0, built.pub.commitmentOut1)⟩] }

section
variable {a a' : KeyedAgent F} {payloadCommitment : List UInt8 → F} {draws : Draws F}
  {view : AttestedView F} {env : PoolEnv F} {built : BuiltTransfer F} {target : F}
  {action : ClaimAction F}

theorem buildClaim_ok (h : a.buildClaim P payloadCommitment draws view env target action = .ok (a', built)) :
    ClaimBuilt P a a' target action built := by
  simp only [KeyedAgent.buildClaim, bind_eq_ok, okOr_eq_ok, pure_eq_ok, Prod.mk.injEq] at h
  obtain ⟨e, hfind, record, hrecord, built', hbuilt, rfl, rfl⟩ := h
  have hmem := List.mem_of_find?_eq_some hfind
  have hfound := List.find?_some hfind
  simp only [decide_eq_true_eq] at hfound
  have hspends := buildTransfer_spendsOne rfl hbuilt
  obtain ⟨rfl, -⟩ := hfound
  exact ⟨⟨e, hmem, rfl, record, hrecord, env, draws, hspends⟩, rfl⟩

theorem claim_ok (h : a.claim P payloadCommitment draws view env target action = .ok (a', built)) :
    a.isSeed target = false ∧ ClaimBuilt P a a' target action built := by
  simp only [KeyedAgent.claim, bind_eq_ok, failIf_eq_ok, Bool.not_eq_true, exists_const] at h
  exact ⟨h.1, buildClaim_ok h.2⟩

theorem freezeSeed_ok (h : a.freezeSeed P payloadCommitment draws view env = .ok (a', built)) :
    ∃ deposit, a.seedDeposit = some deposit ∧ ClaimBuilt P a a' deposit .freeze built := by
  simp only [KeyedAgent.freezeSeed, bind_eq_ok, okOr_eq_ok] at h
  obtain ⟨deposit, hdeposit, hbuilt⟩ := h
  exact ⟨deposit, hdeposit, buildClaim_ok hbuilt⟩

/-- What `hand_out_transfer` checked of its source. -/
structure HandOutBuilt (P : Primitives F) (a : KeyedAgent F) (view : ChainView F) (source : F)
    (built : BuiltTransfer F) : Prop where
  seed : a.isSeed source = false
  pending : ∀ r ∈ a.redemptions P view, r.commitment ≠ source
  spends : ∃ claim notes, SpendsOne P source a.wallet.nk claim notes built

theorem handOutTransfer_ok {source : OwnedNote F} {outputs : Fin 2 → Output F}
    (h : a.handOutTransfer P payloadCommitment draws view env source outputs = .ok built) :
    HandOutBuilt P a view.toChainView source.commitment built := by
  simp only [KeyedAgent.handOutTransfer, bind_eq_ok, failIf_eq_ok, exists_const, not_not, not_exists,
    not_and, Bool.not_eq_true] at h
  obtain ⟨-, hseed, -, hpending, hbuilt⟩ := h
  exact ⟨hseed, hpending, _, _, buildTransfer_spendsOne rfl hbuilt⟩

/-- The seed's deposit, and that nothing else of the agent changed. -/
theorem depositSeed_ok {units : UInt64} {funder : Address} {pub : DepositPublic F}
    {witness : DepositWitness F} {payload : List UInt8} (h : a.depositSeed P payloadCommitment draws
      view env units funder = .ok (a', pub, witness, payload)) :
    a.seedDeposit = none ∧ a' = { a with seedDeposit := some pub.commitment } ∧
      pub.commitment = (depositNote P pub witness).commitment P ∧
      (depositNote P pub witness).owner = a.owner P ∧ (depositNote P pub witness).lock = 0 := by
  simp only [KeyedAgent.depositSeed, bind_eq_ok, failIf_eq_ok, exists_const, Bool.not_eq_true,
    Option.isSome_eq_false_iff, Option.isNone_iff_eq_none] at h
  obtain ⟨hnone, h⟩ := h
  split at h
  · cases h
  · simp only [Wallet.deposit, PendingDeposit.finish, bind_eq_ok, pure_eq_ok, Prod.mk.injEq] at h
    obtain ⟨_, ⟨_, -, _, -, _, -, rfl⟩, rfl, rfl, rfl, rfl⟩ := h
    exact ⟨hnone, rfl, rfl, rfl, rfl⟩

end

end

/-! ## Runs -/

/-- The chain with the agent that spends, and what it has returned so far. -/
structure Desk (F T τ : Type) where
  office : Office F T τ
  signer : PlanSigner F
  claimKey : PlanSigner F
  seedDeposit : Option F
  /-- The note of the seed's deposit. -/
  seed : Option (Note F)
  freezes : List (BuiltTransfer F)
  claims : List (BuiltTransfer F)
  handOuts : List (BuiltTransfer F)

namespace Desk

def agent (d : Desk F T τ) : KeyedAgent F :=
  { d.office.agent with signer := d.signer, claimKey := d.claimKey, seedDeposit := d.seedDeposit }

def setAgent (d : Desk F T τ) (a : KeyedAgent F) : Desk F T τ :=
  { d with office := { d.office with agent := a.toTransferAgent }, seedDeposit := a.seedDeposit }

/-- What `claim` and `hand_out_transfer` returned. -/
def returned (d : Desk F T τ) : List (BuiltTransfer F) := d.claims ++ d.handOuts

/-- What the agent does, and what the chain does. -/
inductive Act (F : Type) where
  | office (act : Office.Act F)
  | depositSeed (note : Note F)
  | freezeSeed (built : BuiltTransfer F)
  | claim (view : ChainView F) (target : F) (built : BuiltTransfer F)
  | handOut (view : ChainView F) (built : BuiltTransfer F)

/-- The agent has built nothing yet. -/
inductive Start (D : Deployment F T τ) : Desk F T τ → Prop where
  | mk {office signer claimKey} (start : Office.Start D office) :
    Start D ⟨office, signer, claimKey, none, none, [], [], []⟩

/-- A call that fails changes nothing. -/
inductive Next (D : Deployment F T τ) (d : Desk F T τ) : Act F → Desk F T τ → Prop where
  | office {act office} (step : Office.Next D Office.Taken d.office act office) :
    Next D d (.office act) { d with office }
  | depositSeed {payloadCommitment draws view env units funder a pub witness payload}
    (ok : d.agent.depositSeed D.toPrimitives payloadCommitment draws view env units funder =
      .ok (a, pub, witness, payload)) :
    Next D d (.depositSeed (depositNote D.toPrimitives pub witness))
      { d.setAgent a with seed := some (depositNote D.toPrimitives pub witness) }
  | freezeSeed {payloadCommitment draws view env a built}
    (ok : d.agent.freezeSeed D.toPrimitives payloadCommitment draws view env = .ok (a, built)) :
    Next D d (.freezeSeed built) { d.setAgent a with freezes := d.freezes ++ [built] }
  | claim {payloadCommitment draws env target action a built} {view : AttestedView F}
    (ok : d.agent.claim D.toPrimitives payloadCommitment draws view env target action = .ok (a, built)) :
    Next D d (.claim view.toChainView target built) { d.setAgent a with claims := d.claims ++ [built] }
  | handOut {payloadCommitment draws env source outputs built} {view : AttestedView F}
    (ok : d.agent.handOutTransfer D.toPrimitives payloadCommitment draws view env source outputs = .ok built) :
    Next D d (.handOut view.toChainView built) { d with handOuts := d.handOuts ++ [built] }

end Desk

/-! ## The office under the desk -/

def TransferAgent.forget (a : TransferAgent F) : TransferAgent F :=
  { a with pendingClaims := [], claims := [] }

def Office.forget (o : Office F T τ) : Office F T τ := { o with agent := o.agent.forget }

theorem readRecord_forget (P : Primitives F) (a : TransferAgent F) (r : NoteRecord F) :
    a.forget.readRecord P r = (a.readRecord P r).forget := by
  have hholds : a.forget.holds r.commitment = a.holds r.commitment := rfl
  have hkeys : a.forget.keysFor r.keyVersion = a.keysFor r.keyVersion := rfl
  unfold readRecord
  rw [hholds, hkeys]
  split
  · rfl
  · split <;> rfl

theorem readRecords_forget (P : Primitives F) (rs : List (NoteRecord F)) (a : TransferAgent F) :
    rs.foldl (readRecord P) a.forget = (rs.foldl (readRecord P) a).forget := by
  induction rs generalizing a with
  | nil => rfl
  | cons r rs ih =>
    rw [List.foldl_cons, List.foldl_cons, readRecord_forget]
    exact ih _

/-- What is read does not depend on the claim records. -/
theorem readFeed_forget (P : Primitives F) (a : TransferAgent F) (view : ChainView F) :
    a.forget.readFeed P view = (a.readFeed P view).forget := by
  let settle (a : TransferAgent F) : TransferAgent F :=
    { (a.markSpent P view).settleClaims view with
      wallet := ((a.markSpent P view).settleClaims view).wallet.scan P view }
  have hsettle : ∀ a : TransferAgent F, settle a.forget = (settle a).forget := fun _ => rfl
  show settle (view.notes.foldl (readRecord P) (forget { a with unreadableNotes := [] })) = _
  rw [readRecords_forget, hsettle]
  rfl

theorem commitRegisterKey_forget {P : Primitives F} {a a' : TransferAgent F}
    {rotation : RegisterKeyRotation F} (h : a.commitRegisterKey P rotation = .ok a') :
    a.forget.commitRegisterKey P rotation = .ok a'.forget := by
  simp only [TransferAgent.commitRegisterKey, bind_eq_ok, failIf_eq_ok, okOr_eq_ok, pure_eq_ok] at h ⊢
  obtain ⟨u, hversion, found, hfind, rfl⟩ := h
  exact ⟨u, hversion, found, hfind, rfl⟩

theorem commitRegisterKey_forget_error {P : Primitives F} {a : TransferAgent F}
    {rotation : RegisterKeyRotation F} {e : ActorError} (h : a.commitRegisterKey P rotation = .error e) :
    ∃ e', a.forget.commitRegisterKey P rotation = .error e' := by
  cases hforget : a.forget.commitRegisterKey P rotation with
  | ok a' =>
    simp only [TransferAgent.commitRegisterKey, bind_eq_ok, failIf_eq_ok, okOr_eq_ok, pure_eq_ok] at hforget
    obtain ⟨u, hversion, found, hfind, -⟩ := hforget
    have hok : ∃ a', a.commitRegisterKey P rotation = .ok a' := by
      simp only [TransferAgent.commitRegisterKey, bind_eq_ok, failIf_eq_ok, okOr_eq_ok, pure_eq_ok]
      exact ⟨_, u, hversion, found, hfind, rfl⟩
    obtain ⟨a', hok⟩ := hok
    cases hok.symm.trans h
  | error e' => exact ⟨e', rfl⟩

open Office (Taken)

theorem Office.Next.forget {o o' : Office F T τ} {act : Office.Act F}
    (h : Office.Next D Taken o act o') : Office.Next D Taken o.forget act o'.forget := by
  cases h with
  | chain step offered => exact .chain step offered
  | newRegisterKey secret => exact .newRegisterKey secret
  | commitRegisterKey may ok => exact .commitRegisterKey may (commitRegisterKey_forget ok)
  | commitRefused may err =>
    obtain ⟨e, herr⟩ := commitRegisterKey_forget_error err
    exact .commitRefused may herr
  | @readFeed logs outflows view earlier sync =>
    have hread := @Office.Next.readFeed _ _ _ _ D Taken o.forget _ _ _ earlier sync
    rwa [show o.forget.agent = o.agent.forget from rfl, readFeed_forget] at hread
  | recordOwner holder pk nk => exact .recordOwner holder pk nk

/-- What claims, freezes and hand-outs leave alone. -/
theorem ClaimBuilt.forget {P : Primitives F} {a a' : KeyedAgent F} {target : F}
    {action : ClaimAction F} {built : BuiltTransfer F} (h : ClaimBuilt P a a' target action built) :
    a'.toTransferAgent.forget = a.toTransferAgent.forget := by
  rw [h.agent]
  rfl

/-- The office under a run of the desk. -/
theorem Run.forget {d d₀ : Desk F T τ} {acts : List (Desk.Act F)} (hstart : Desk.Start D d₀)
    (hrun : Run (Desk.Next D) d₀ acts d) :
    Office.Start D d₀.office ∧ ∃ acts', Run (Office.Next D Taken) d₀.office acts' d.office.forget := by
  obtain ⟨hoffice⟩ := hstart
  refine ⟨hoffice, ?_⟩
  refine hrun.invariant (I := fun _ d => ∃ acts', Run (Office.Next D Taken) _ acts' d.office.forget) ?_ ?_
  · obtain ⟨_, _⟩ := hoffice
    exact ⟨[], .nil⟩
  · intro acts d act d' _ hnext ⟨acts', hacts⟩
    have hsame : ∀ {a : KeyedAgent F}, a.toTransferAgent.forget = d.office.agent.forget →
        (d.setAgent a).office.forget = d.office.forget := fun h => by
      simp only [Office.forget, Desk.setAgent, h]
    cases hnext with
    | office step => exact ⟨_, hacts.cons step.forget⟩
    | depositSeed ok =>
      obtain ⟨-, rfl, -⟩ := depositSeed_ok ok
      exact ⟨acts', hacts⟩
    | freezeSeed ok =>
      obtain ⟨_, -, hbuilt⟩ := freezeSeed_ok ok
      exact ⟨acts', hsame hbuilt.forget ▸ hacts⟩
    | claim ok => exact ⟨acts', hsame (claim_ok ok).2.forget ▸ hacts⟩
    | handOut => exact ⟨acts', hacts⟩

section
variable {d d₀ : Desk F T τ} {acts : List (Desk.Act F)}

theorem Run.deskChain (hstart : Desk.Start D d₀) (hrun : Run (Desk.Next D) d₀ acts d) :
    Deployed D d₀.office.world ∧
      ∃ tr, Run (Transition D) d₀.office.world tr d.office.world ∧ logOf tr = d.office.logs := by
  obtain ⟨hoffice, _, hforget⟩ := Run.forget hstart hrun
  obtain ⟨deployed, tr, hchain, hlog⟩ := Run.chain hoffice hforget
  exact ⟨deployed, tr, hchain, hlog⟩

theorem Run.deskSpends (hL : D.imt.Lawful (merkleHash D.hash)) (hstart : Desk.Start D d₀)
    (hrun : Run (Desk.Next D) d₀ acts d) : SpendsInv D d.office.logs d.office.world := by
  obtain ⟨deployed, tr, hchain, hlog⟩ := Run.deskChain hstart hrun
  exact hlog ▸ Run.spendsInv hL deployed hchain

/-- The register under a run of the desk holds notes of the tree. -/
theorem Run.deskRegister (hV : D.Sound) (H : Ideal D.hash) (hL : D.imt.Lawful (merkleHash D.hash))
    (hstart : Desk.Start D d₀) (hrun : Run (Desk.Next D) d₀ acts d) :
    RegisterInv D d.office.world d.office.agent.register := by
  obtain ⟨hoffice, _, hforget⟩ := Run.forget hstart hrun
  have hregister : RegisterInv D d.office.forget.world d.office.forget.agent.register :=
    Run.registerInv hV H hL hoffice hforget
  exact hregister

end

/-! ## Claim records -/

section
variable {P : Primitives F}

theorem readRecord_claims (a : TransferAgent F) (r : NoteRecord F) :
    (a.readRecord P r).pendingClaims = a.pendingClaims ∧ (a.readRecord P r).claims = a.claims := by
  unfold readRecord
  split
  · exact ⟨rfl, rfl⟩
  · split <;> exact ⟨rfl, rfl⟩

theorem readRecords_claims (rs : List (NoteRecord F)) (a : TransferAgent F) :
    (rs.foldl (readRecord P) a).pendingClaims = a.pendingClaims ∧
      (rs.foldl (readRecord P) a).claims = a.claims := by
  induction rs generalizing a with
  | nil => exact ⟨rfl, rfl⟩
  | cons r rs ih =>
    obtain ⟨hpending, hclaims⟩ := readRecord_claims (P := P) a r
    obtain ⟨hpending', hclaims'⟩ := ih (a.readRecord P r)
    exact ⟨hpending'.trans hpending, hclaims'.trans hclaims⟩

/-- An entry that a read marks as spent has its nullifier in the view. -/
theorem readFeed_spent {a : TransferAgent F} {view : ChainView F} {e : RegisterEntry F}
    (he : e ∈ (a.readFeed P view).register) (hspent : e.spent = true) :
    ∃ nk, a.nkOf P e.note.owner = some nk ∧ nullifier P e.commitment nk ∈ view.nullifiers := by
  have hclear : SameKeys a { a with unreadableNotes := [] } := ⟨rfl, rfl, rfl, rfl, rfl⟩
  have hsame := hclear.trans (readRecords_sameKeys P view.notes _)
  obtain ⟨e', -, rfl⟩ := List.mem_map.mp he
  simp only [isSpent, hsame.nkOf] at hspent
  split at hspent
  · next nk hnk => exact ⟨nk, hnk, of_decide_eq_true hspent⟩
  · cases hspent

structure ReadClaims (P : Primitives F) (a a' : TransferAgent F) (view : ChainView F) : Prop where
  kept : a.claims ⊆ a'.claims
  pending : ∀ c ∈ a.pendingClaims, c ∈ a'.claims ∨ c ∈ a'.pendingClaims ∨
    (∀ s ∈ view.spends, s.outputs ≠ [c.outputs.1, c.outputs.2]) ∧
      ∃ e ∈ a'.register, e.commitment = c.target ∧ e.spent = true
  only : ∀ c ∈ a'.pendingClaims ++ a'.claims, c ∈ a.pendingClaims ++ a.claims

theorem readFeed_claims (a : TransferAgent F) (view : ChainView F) :
    ReadClaims P a (a.readFeed P view) view := by
  obtain ⟨hpending, hclaims⟩ := readRecords_claims (P := P) view.notes { a with unreadableNotes := [] }
  refine ⟨fun c hc => ?_, fun c hc => ?_, fun c hc => ?_⟩
  · refine List.mem_append_left _ ?_
    show c ∈ (view.notes.foldl (readRecord P) { a with unreadableNotes := [] }).claims
    rw [hclaims]
    exact hc
  · have hc' : c ∈ (view.notes.foldl (readRecord P) { a with unreadableNotes := [] }).pendingClaims := by
      rw [hpending]
      exact hc
    by_cases hmined : (view.spends.any fun s => s.outputs = [c.outputs.1, c.outputs.2]) = true
    · exact .inl (List.mem_append_right _ (List.mem_filter.mpr ⟨hc', hmined⟩))
    · by_cases hspent : ((a.readFeed P view).register.any fun e =>
          e.commitment = c.target && e.spent) = true
      · refine .inr (.inr ⟨fun s hs heq => hmined (List.any_eq_true.mpr ⟨s, hs, decide_eq_true heq⟩), ?_⟩)
        obtain ⟨e, he, h⟩ := List.any_eq_true.mp hspent
        rw [Bool.and_eq_true, decide_eq_true_eq] at h
        exact ⟨e, he, h⟩
      · refine .inr (.inl (List.mem_filter.mpr ⟨hc', ?_⟩))
        rw [Bool.not_eq_true] at hmined hspent
        rw [Bool.and_eq_true, Bool.not_eq_true', Bool.not_eq_true']
        exact ⟨hmined, hspent⟩
  · have hof : c ∈ (view.notes.foldl (readRecord P)
        { a with unreadableNotes := [] }).pendingClaims ++ (view.notes.foldl (readRecord P)
        { a with unreadableNotes := [] }).claims := by
      rcases List.mem_append.mp hc with h | h
      · exact List.mem_append_left _ (List.mem_of_mem_filter h)
      · rcases List.mem_append.mp h with h | h
        · exact List.mem_append_right _ h
        · exact List.mem_append_left _ (List.mem_of_mem_filter h)
    rwa [hpending, hclaims] at hof

/-- What the spend of the transfer puts into the tree. -/
def BuiltTransfer.outputs (built : BuiltTransfer F) : List F :=
  [built.pub.commitmentOut0, built.pub.commitmentOut1]

/-- Another transfer of the log spent the first input. -/
def Superseded (logs : List PoolEvent) (built : BuiltTransfer F) : Prop :=
  ∃ s ∈ spendsOf F logs, built.pub.nullifier0 ∈ s.nullifiers ∧ s.outputs ≠ built.outputs

theorem Superseded.mono {logs logs' : List PoolEvent} (h : logs <+: logs') {built : BuiltTransfer F}
    (hs : Superseded logs built) : Superseded logs' built := by
  obtain ⟨s, hmem, hother⟩ := hs
  exact ⟨s, mem_spendsOf_of_prefix h hmem, hother⟩

def TransferAgent.Records (a : TransferAgent F) (target : F) (built : BuiltTransfer F) : Prop :=
  ⟨target, (built.pub.commitmentOut0, built.pub.commitmentOut1)⟩ ∈ a.pendingClaims ++ a.claims

omit [FeedField F] in
theorem TransferAgent.Records.append {a : TransferAgent F} {target : F} {built : BuiltTransfer F}
    (h : a.Records target built) (cs : List (ClaimRecord F)) :
    TransferAgent.Records { a with pendingClaims := a.pendingClaims ++ cs } target built := by
  rcases List.mem_append.mp h with hpending | hclaimed
  · exact List.mem_append_left _ (List.mem_append_left _ hpending)
  · exact List.mem_append_right _ hclaimed

/-- A record is dropped only after another transfer spent its target. -/
theorem readFeed_records (H : Ideal P.hash) {a : TransferAgent F} {logs : List PoolEvent}
    {outflows : List Outflow} {view : ChainView F} (hsync : ChainView.sync logs outflows = .ok view)
    (hregister : ∀ e ∈ (a.readFeed P view).register, e.commitment = e.note.commitment P) {note : Note F}
    (hkeys : ∀ nk, a.nkOf P note.owner = some nk → ∃ key, note.owner = ownerValue P key nk)
    {built : BuiltTransfer F} (hnullifies : note.Nullifies P built.pub.nullifier0)
    (hrecorded : a.Records (note.commitment P) built) :
    Superseded logs built ∨ (a.readFeed P view).Records (note.commitment P) built := by
  have hread := readFeed_claims (P := P) a view
  rcases List.mem_append.mp hrecorded with hpending | hclaimed
  · rcases hread.pending _ hpending with hmined | hkept | ⟨hnone, e, he, htarget, hspent⟩
    · exact .inr (List.mem_append_right _ hmined)
    · exact .inr (List.mem_append_left _ hkept)
    · obtain ⟨hspends, hnullifiers⟩ := ChainView.spends_of_sync hsync
      obtain rfl := Note.commitment_inj H ((hregister e he).symm.trans htarget)
      obtain ⟨nk, hnk, hmarked⟩ := readFeed_spent he hspent
      obtain ⟨key, howner⟩ := hkeys nk hnk
      have hsame : e.note.Nullifies P (nullifier P e.commitment nk) :=
        ⟨key, nk, howner, by rw [hregister e he]⟩
      rw [hsame.unique H hnullifies, hnullifiers] at hmarked
      obtain ⟨s, hs, hmem⟩ := List.mem_flatMap.mp hmarked
      exact .inl ⟨s, hs, hmem, hnone s (hspends ▸ hs)⟩
  · exact .inr (List.mem_append_right _ (hread.kept hclaimed))

end

end Pocs.Mmf

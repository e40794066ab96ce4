import Pocs.Mmf.Agent

/-! # The register is complete from the chain alone

The chain and the transfer agent run side by side: the pool is called by anyone, while the agent
prepares register keys, commits those the pool has taken, and reads the feed of any prefix of the log.
`KeysInv` says that the agent always holds a key for every version of the log, and `RegisterInv` that
its entries are the notes of the tree. -/

namespace Pocs.Mmf

open Compliance (Word Ideal ofU64)
open TransferAgent (lastRegisterKey readRecord tryKey)

variable {F T τ : Type} [FeedField F]

/-! ## What a key opens -/

section
variable {P : Primitives F}

theorem small_ofU64 (x : UInt64) : small (ofU64 x : F) = some x := by
  have htoNat : Scalar.toNat (ofU64 x : F) = x.toNat := Scalar.toNat_ofNat x.toNat_lt
  rw [small, htoNat, if_pos x.toNat_lt, UInt64.ofNat_toNat]

/-- The reason of checked terms is a machine integer. -/
theorem Terms.reason_eq {lock : F} {terms : LockOpening F} (h : Terms P lock terms) :
    ∃ x : UInt64, terms.reason = ofU64 x := by
  by_cases hlock : lock = 0
  · exact ⟨0, by rw [h.unlocked hlock]; rfl⟩
  · rcases (h.locked hlock).2 with hreason | hreason
    · exact ⟨1, hreason⟩
    · exact ⟨2, hreason⟩

/-- `open` is the inverse of the feed record. -/
theorem openFeed_feedRecord {note : Note F} {terms : LockOpening F} (h : Terms P note.lock terms) :
    openFeed (feedRecord note terms) = some (note, terms) := by
  obtain ⟨x, hx⟩ := h.reason_eq
  obtain ⟨reason, releaseAfter, claimParty⟩ := terms
  cases hx
  show (do
    let units ← small (ofU64 note.units : F)
    let reason ← small (ofU64 x : F)
    let releaseAfter ← small (ofU64 releaseAfter : F)
    pure ((⟨note.token, units, note.owner, note.salt, note.lock⟩,
      ⟨ofU64 reason, releaseAfter, claimParty⟩) : Note F × LockOpening F)) = _
  rw [small_ofU64, small_ofU64, small_ofU64]
  rfl

theorem openFeed_token {f : Fin 8 → F} {note : Note F} {terms : LockOpening F}
    (h : openFeed f = some (note, terms)) : f 0 = note.token := by
  simp only [openFeed, Option.bind_eq_bind, Option.bind_eq_some_iff, Option.pure_def,
    Option.some.injEq, Prod.mk.injEq] at h
  obtain ⟨_, -, _, -, _, -, rfl, -⟩ := h
  rfl

theorem tryKey_eq_some {r : NoteRecord F} {tk : Nat} {note : Note F} {terms : LockOpening F} :
    tryKey P r tk = some (note, terms) ↔
      openFeed (decrypt P tk r.feedR r.feedCt r.output) = some (note, terms) ∧
        note.commitment P = r.commitment := by
  simp [tryKey, Option.filter_eq_some_iff]

variable {first : Word × Word} {logs : List PoolEvent} {r : NoteRecord F} {note : Note F}
  {terms : LockOpening F}

/-- A key that opens the commitment of a record is the key it was encrypted with. -/
theorem key_of_tryKey (H : Ideal P.hash) {k : F} (hcommitment : r.commitment = note.commitment P)
    (hct : r.feedCt = encrypt P k note terms r.output) {tk : Nat} {note' : Note F}
    {terms' : LockOpening F} (hopen : tryKey P r tk = some (note', terms')) :
    note' = note ∧ feedKey P (P.curve.mul tk r.feedR) = k := by
  obtain ⟨hopened, hcommitment'⟩ := tryKey_eq_some.mp hopen
  obtain rfl : note' = note := Note.commitment_inj H (hcommitment'.trans hcommitment)
  -- the token is the same, so the keystream is the same, so the key is
  have htoken := openFeed_token hopened
  have hsame : FeedField.sub (r.feedCt ⟨0, by decide⟩) (keystream P k r.output ⟨0, by decide⟩) =
      note'.token := by
    rw [hct]
    exact FeedField.sub_add _ _
  exact ⟨rfl, keystream_inj H (htoken.trans hsame.symm)⟩

/-- Whatever key opens the commitment of a record opens what was sent. -/
theorem Fed.tryKey_sound (H : Ideal P.hash) (h : Fed P first logs r note terms) {tk : Nat}
    {note' : Note F} {terms' : LockOpening F}
    (hopen : tryKey P r tk = some (note', terms')) : note' = note ∧ terms' = terms := by
  obtain ⟨key, secret, k, -, -, hct⟩ := h.sent
  obtain ⟨rfl, hkey⟩ := key_of_tryKey H h.commitment hct hopen
  have hopened := (tryKey_eq_some.mp hopen).1
  have hdecrypt : Mmf.decrypt P tk r.feedR r.feedCt r.output = feedRecord note' terms := by
    funext i
    rw [Mmf.decrypt, hkey, hct]
    exact FeedField.sub_add _ _
  rw [hdecrypt, openFeed_feedRecord h.lock] at hopened
  exact ⟨rfl, (Prod.mk.inj (Option.some.inj hopened)).2.symm⟩

/-- A secret of the record's register key opens it. -/
theorem Fed.tryKey_complete (hE : P.curve.Commutes) (h : Fed P first logs r note terms) {tk : Nat}
    (htk : ∀ key, KeyOf first logs r.keyVersion key → P.curve.fixedBaseMul tk = pointOf key) :
    tryKey P r tk = some (note, terms) := by
  rw [tryKey_eq_some, h.decrypt hE htk, openFeed_feedRecord h.lock]
  exact ⟨rfl, h.commitment.symm⟩

end

/-! ## The chain and the agent side by side -/

/-- The chain with its log, the agent, and the rotations it has handed to its operator. -/
structure Office (F T τ : Type) where
  world : World T τ
  logs : List PoolEvent
  agent : TransferAgent F
  offered : List (RegisterKeyRotation F)

namespace Office

inductive Act (F : Type) where
  | chain (st : Step)
  | newRegisterKey (secret : Nat)
  | commitRegisterKey (rotation : RegisterKeyRotation F)
  | readFeed (view : ChainView F)
  | recordOwner (holder : Holder) (pk : SpendKey) (nk : F)

/-- The agent's key of version 0 is the one of the deployment. -/
inductive Start (D : Deployment F T τ) : Office F T τ → Prop where
  | mk {w₀ wallet secret} (deployed : Deployed D w₀)
    (key : D.curve.fixedBaseMul secret = pointOf w₀.pool.registerKey) :
    Start D ⟨w₀, [], .new wallet secret, []⟩

/-- Every rotation of the pool uses a key the agent prepared, and the agent commits the rotations that
`May` allows. -/
inductive Next (D : Deployment F T τ) (May : Office F T τ → RegisterKeyRotation F → Prop)
    (o : Office F T τ) : Act F → Office F T τ → Prop where
  | chain {st w'} (step : Transition D o.world st w')
    (offered : ∀ version key, .registerKeyRotated version key ∈ st.events →
      ∃ rotation ∈ o.offered, rotation.version = version ∧ rotation.publicKey = pointOf key) :
    Next D May o (.chain st) { o with world := w', logs := o.logs ++ st.events }
  | newRegisterKey (secret : Nat) : Next D May o (.newRegisterKey secret) { o with
      agent := (o.agent.newRegisterKey D.toPrimitives secret).1
      offered := o.offered ++ [(o.agent.newRegisterKey D.toPrimitives secret).2] }
  | commitRegisterKey {rotation agent} (may : May o rotation)
    (ok : o.agent.commitRegisterKey D.toPrimitives rotation = .ok agent) :
    Next D May o (.commitRegisterKey rotation) { o with agent }
  | commitRefused {rotation e} (may : May o rotation)
    (err : o.agent.commitRegisterKey D.toPrimitives rotation = .error e) :
    Next D May o (.commitRegisterKey rotation) o
  | readFeed {logs outflows view} (earlier : logs <+: o.logs)
    (sync : ChainView.sync logs outflows = .ok view) : Next D May o (.readFeed view)
    { o with agent := o.agent.readFeed D.toPrimitives view }
  | recordOwner (holder : Holder) (pk : SpendKey) (nk : F) : Next D May o (.recordOwner holder pk nk)
      { o with agent := o.agent.recordOwner D.toPrimitives holder pk nk }

/-- The pool took the rotation. -/
def Taken (o : Office F T τ) (rotation : RegisterKeyRotation F) : Prop :=
  ∃ key, .registerKeyRotated rotation.version key ∈ o.logs ∧ rotation.publicKey = pointOf key

end Office

open Office (Act Start Next Taken)

variable {D : Deployment F T τ} {May : Office F T τ → RegisterKeyRotation F → Prop}
  {o o₀ : Office F T τ} {acts : List (Act F)}

theorem Run.chain (hstart : Start D o₀) (hrun : Run (Next D May) o₀ acts o) :
    Deployed D o₀.world ∧ ∃ tr, Run (Transition D) o₀.world tr o.world ∧ logOf tr = o.logs := by
  have deployed : Deployed D o₀.world := by
    obtain ⟨deployed, -⟩ := hstart
    exact deployed
  refine ⟨deployed, ?_⟩
  refine hrun.invariant (I := fun _ o => ∃ tr, Run (Transition D) o₀.world tr o.world ∧ logOf tr = o.logs) ?_ ?_
  · obtain ⟨-, -⟩ := hstart
    exact ⟨[], .nil, rfl⟩
  intro acts o act o' _ hnext ⟨tr, hchain, hlog⟩
  cases hnext with
  | @chain st w' step offered =>
    exact ⟨st :: tr, .cons hchain step, by rw [logOf_cons, hlog]⟩
  | newRegisterKey | commitRegisterKey | commitRefused | readFeed | recordOwner =>
    exact ⟨tr, hchain, hlog⟩

/-- A run of the chain that rotates no key is one of the office. -/
theorem Run.office (o : Office F T τ) {tr : List Step} {w w' : World T τ} (hrun : Run (Transition D) w tr w')
    (hkeys : ∀ st ∈ tr, ∀ version key, .registerKeyRotated version key ∉ st.events) :
    Run (Next D May) { o with world := w } (tr.map .chain)
      { o with world := w', logs := o.logs ++ logOf tr } := by
  induction hrun with
  | nil =>
    rw [show logOf [] = [] from rfl, List.append_nil]
    exact .nil
  | cons run hstep ih =>
    rw [logOf_cons, ← List.append_assoc]
    exact .cons (ih fun st hst => hkeys st (List.mem_cons_of_mem _ hst))
      (.chain hstep fun version key hmem => absurd hmem (hkeys _ List.mem_cons_self version key))

/-! ## The register keys -/

/-- What reading the feed leaves alone. -/
structure SameKeys (a a' : TransferAgent F) : Prop where
  registerKeys : a'.registerKeys = a.registerKeys
  preparedRegisterKeys : a'.preparedRegisterKeys = a.preparedRegisterKeys
  investors : a'.investors = a.investors
  pk : a'.wallet.pk = a.wallet.pk
  nk : a'.wallet.nk = a.wallet.nk

namespace SameKeys
variable {P : Primitives F} {a a' a'' : TransferAgent F}

omit [FeedField F] in
theorem rfl' (a : TransferAgent F) : SameKeys a a := ⟨rfl, rfl, rfl, rfl, rfl⟩

omit [FeedField F] in
theorem trans (h : SameKeys a a') (h' : SameKeys a' a'') : SameKeys a a'' :=
  ⟨h'.1.trans h.1, h'.2.trans h.2, h'.3.trans h.3, h'.4.trans h.4, h'.5.trans h.5⟩

omit [FeedField F] in
theorem keysFor (h : SameKeys a a') (version : UInt64) : a'.keysFor version = a.keysFor version := by
  rw [TransferAgent.keysFor, TransferAgent.keysFor, h.registerKeys, h.preparedRegisterKeys]

theorem nkOf (h : SameKeys a a') (owner : F) : a'.nkOf P owner = a.nkOf P owner := by
  rw [TransferAgent.nkOf, TransferAgent.nkOf, TransferAgent.owner, TransferAgent.owner, Wallet.owner,
    Wallet.owner, h.investors, h.pk, h.nk]

end SameKeys

theorem readRecord_sameKeys (P : Primitives F) (a : TransferAgent F) (r : NoteRecord F) :
    SameKeys a (a.readRecord P r) := by
  unfold readRecord
  split
  · exact .rfl' a
  · split
    · exact ⟨rfl, rfl, rfl, rfl, rfl⟩
    · refine ⟨rfl, rfl, rfl, ?_, ?_⟩ <;> simp only <;> split <;> rfl

theorem readRecords_sameKeys (P : Primitives F) (rs : List (NoteRecord F)) (a : TransferAgent F) :
    SameKeys a (rs.foldl (readRecord P) a) := by
  induction rs generalizing a with
  | nil => exact .rfl' a
  | cons r rs ih => exact (readRecord_sameKeys P a r).trans (ih _)

theorem scanRecord_keys (P : Primitives F) (wallet : Wallet F) (r : NoteRecord F) :
    (wallet.scanRecord P r).pk = wallet.pk ∧ (wallet.scanRecord P r).nk = wallet.nk := by
  unfold Wallet.scanRecord
  split
  · exact ⟨rfl, rfl⟩
  · split
    · exact ⟨rfl, rfl⟩
    · split <;> exact ⟨rfl, rfl⟩

theorem scan_keys (P : Primitives F) (wallet : Wallet F) (view : ChainView F) :
    (wallet.scan P view).pk = wallet.pk ∧ (wallet.scan P view).nk = wallet.nk := by
  have hfold : ∀ (rs : List (NoteRecord F)) (wallet : Wallet F),
      (rs.foldl (Wallet.scanRecord P) wallet).pk = wallet.pk ∧
        (rs.foldl (Wallet.scanRecord P) wallet).nk = wallet.nk := by
    intro rs
    induction rs with
    | nil => exact fun _ => ⟨rfl, rfl⟩
    | cons r rs ih =>
      intro wallet
      obtain ⟨hpk, hnk⟩ := ih (wallet.scanRecord P r)
      obtain ⟨hpk', hnk'⟩ := scanRecord_keys P wallet r
      exact ⟨hpk.trans hpk', hnk.trans hnk'⟩
  exact hfold view.notes wallet

theorem readFeed_sameKeys (P : Primitives F) (a : TransferAgent F) (view : ChainView F) :
    SameKeys a (a.readFeed P view) := by
  have hclear : SameKeys a { a with unreadableNotes := [] } := ⟨rfl, rfl, rfl, rfl, rfl⟩
  have hread := hclear.trans (readRecords_sameKeys P view.notes _)
  have hscan := scan_keys P (view.notes.foldl (readRecord P) { a with unreadableNotes := [] }).wallet view
  exact hread.trans ⟨rfl, rfl, rfl, hscan.1, hscan.2⟩

/-- The agent holds a key for every version of the log: the committed ones, and a prepared one for a
version it has not committed yet. -/
structure KeysInv (D : Deployment F T τ) (first : Word × Word) (o : Office F T τ) : Prop where
  committed_le : o.agent.lastRegisterKey.1.toNat ≤ o.world.pool.registerKeyVersion.toNat
  last : ∀ e ∈ o.agent.registerKeys, e.1.toNat ≤ o.agent.lastRegisterKey.1.toNat
  committed : ∀ version : UInt64, version.toNat ≤ o.agent.lastRegisterKey.1.toNat →
    ∃ tk, o.agent.registerKeys.lookup version = some tk ∧
      ∀ key, KeyOf first o.logs version key → D.curve.fixedBaseMul tk = pointOf key
  prepared : ∀ version key, .registerKeyRotated version key ∈ o.logs →
    o.agent.lastRegisterKey.1.toNat < version.toNat →
      ∃ tk, (version, tk) ∈ o.agent.preparedRegisterKeys ∧ D.curve.fixedBaseMul tk = pointOf key
  offered : ∀ rotation ∈ o.offered, rotation.version.toNat ≤ o.agent.lastRegisterKey.1.toNat ∨
      ∃ tk, (rotation.version, tk) ∈ o.agent.preparedRegisterKeys ∧ D.curve.fixedBaseMul tk = rotation.publicKey
  investors : ∀ owner record, o.agent.investors owner = some record →
    owner = ownerValue D.toPrimitives record.pk record.nk

section
variable {first : Word × Word}

omit [FeedField F] in
theorem lastRegisterKey_eq {a a' : TransferAgent F} (h : a'.registerKeys = a.registerKeys) :
    a'.lastRegisterKey = a.lastRegisterKey := by
  simp only [lastRegisterKey, h]

theorem KeysInv.agent {agent : TransferAgent F} (inv : KeysInv D first o)
    (h : SameKeys o.agent agent) : KeysInv D first { o with agent } := by
  have hlast := lastRegisterKey_eq h.registerKeys
  obtain ⟨hkeys, hprepared, hinvestors, -, -⟩ := h
  refine ⟨?_, ?_, ?_, ?_, ?_, ?_⟩ <;> simp only [hlast, hkeys, hprepared, hinvestors]
  · exact inv.committed_le
  · exact inv.last
  · exact inv.committed
  · exact inv.prepared
  · exact inv.offered
  · exact inv.investors

theorem KeysInv.newRegisterKey (inv : KeysInv D first o) (secret : Nat) : KeysInv D first { o with
      agent := (o.agent.newRegisterKey D.toPrimitives secret).1
      offered := o.offered ++ [(o.agent.newRegisterKey D.toPrimitives secret).2] } := by
  refine ⟨inv.committed_le, inv.last, inv.committed, fun version key hmem hlt => ?_,
    fun rotation hmem => ?_, inv.investors⟩
  · obtain ⟨tk, htk, hpoint⟩ := inv.prepared version key hmem hlt
    exact ⟨tk, List.mem_append_left _ htk, hpoint⟩
  · rcases List.mem_append.mp hmem with hold | hnew
    · rcases inv.offered rotation hold with hle | ⟨tk, htk, hpoint⟩
      · exact .inl hle
      · exact .inr ⟨tk, List.mem_append_left _ htk, hpoint⟩
    · obtain rfl := List.mem_singleton.mp hnew
      exact .inr ⟨secret, List.mem_append_right _ List.mem_cons_self, rfl⟩

theorem KeysInv.chain (inv : KeysInv D first o) {w' : World T τ} {events : List PoolEvent}
    (hversion : o.world.pool.registerKeyVersion.toNat ≤ w'.pool.registerKeyVersion.toNat)
    (hnew : ∀ version key, .registerKeyRotated version key ∈ events →
      o.world.pool.registerKeyVersion.toNat < version.toNat ∧
        ∃ rotation ∈ o.offered, rotation.version = version ∧ rotation.publicKey = pointOf key) :
    KeysInv D first { o with world := w', logs := o.logs ++ events } := by
  refine ⟨inv.committed_le.trans hversion, inv.last,
    fun version (hle : version.toNat ≤ o.agent.lastRegisterKey.1.toNat) => ?_,
    fun version key hmem hlt => ?_, inv.offered, inv.investors⟩
  · obtain ⟨tk, hlookup, htk⟩ := inv.committed version hle
    refine ⟨tk, hlookup, fun key hkey => htk key ?_⟩
    refine hkey.imp_right fun hmem => ?_
    rcases List.mem_append.mp hmem with hold | hrotated
    · exact hold
    · -- a committed version is not rotated again
      have hlt := (hnew version key hrotated).1
      have hbound := inv.committed_le
      omega
  · rcases List.mem_append.mp hmem with hold | hrotated
    · exact inv.prepared version key hold hlt
    · obtain ⟨-, rotation, hoffered, rfl, hpoint⟩ := hnew version key hrotated
      rcases inv.offered rotation hoffered with hle | ⟨tk, htk, hpublic⟩
      · exact absurd hle (Nat.not_le.mpr hlt)
      · exact ⟨tk, htk, hpublic.trans hpoint⟩

/-- A rotation that the pool has taken is committed. -/
theorem KeysInv.commitRegisterKey (inv : KeysInv D first o)
    (keys : KeyInv first o.logs o.world.pool) {rotation : RegisterKeyRotation F}
    (htaken : Taken o rotation) {agent : TransferAgent F}
    (ok : o.agent.commitRegisterKey D.toPrimitives rotation = .ok agent) :
    KeysInv D first { o with agent } := by
  obtain ⟨key, hrotated, hpublic⟩ := htaken
  obtain ⟨hpos, hle⟩ := keys.version hrotated
  simp only [TransferAgent.commitRegisterKey, bind_eq_ok, failIf_eq_ok, okOr_eq_ok, pure_eq_ok,
    exists_const, not_not] at ok
  obtain ⟨hversion, ⟨_, secret⟩, hfind, rfl⟩ := ok
  have hfound := List.find?_some hfind
  simp only [decide_eq_true_eq] at hfound
  obtain ⟨rfl, hsecret⟩ := hfound
  -- the version is one more than the last committed one, without wrapping
  have hnext : rotation.version.toNat = o.agent.lastRegisterKey.1.toNat + 1 := by
    have hmod : rotation.version.toNat = (o.agent.lastRegisterKey.1.toNat + 1) % 2 ^ 64 := by
      rw [hversion, TransferAgent.nextRegisterKeyVersion, UInt64.toNat_add]
      rfl
    have hlt := o.agent.lastRegisterKey.1.toNat_lt
    omega
  have hkeys : SortedMap.insert rotation.version secret o.agent.registerKeys =
      o.agent.registerKeys ++ [(rotation.version, secret)] := by
    refine SortedMap.insert_of_last (fun e he hlt => ?_) (fun e he heq => ?_)
    · have hbound := inv.last e he
      have hltNat : rotation.version.toNat < e.1.toNat := hlt
      omega
    · have hbound := inv.last e he
      rw [← heq] at hbound
      omega
  have hlast : ∀ h, (SortedMap.insert rotation.version secret o.agent.registerKeys).getLast h =
      (rotation.version, secret) := by
    rw [hkeys]
    exact fun _ => List.getLast_append_singleton _
  refine ⟨?_, ?_, ?_, ?_, ?_, inv.investors⟩ <;> simp only [lastRegisterKey, hlast]
  · exact hle
  · intro e he
    rw [hkeys, List.mem_append, List.mem_singleton] at he
    rcases he with hold | rfl
    · have hbound := inv.last e hold
      omega
    · exact Nat.le_refl _
  · intro version hversion'
    by_cases heq : version = rotation.version
    · subst heq
      refine ⟨secret, SortedMap.lookup_insert_self, fun key' hkey' => ?_⟩
      rcases hkey' with ⟨hzero, -⟩ | hrotated'
      · rw [hzero] at hpos
        cases hpos
      · rw [hsecret, hpublic, keys.unique hrotated hrotated']
    · rw [SortedMap.lookup_insert_of_ne heq]
      refine inv.committed version ?_
      have hne : version.toNat ≠ rotation.version.toNat := fun h => heq (UInt64.toNat_inj.mp h)
      omega
  · intro version key' hmem hlt
    obtain ⟨tk, htk, hpoint⟩ := inv.prepared version key' hmem (by omega)
    refine ⟨tk, List.mem_filter.mpr ⟨htk, ?_⟩, hpoint⟩
    exact decide_eq_true (UInt64.lt_iff_toNat_lt.mpr hlt)
  · intro rotation' hmem
    rcases inv.offered rotation' hmem with hold | ⟨tk, htk, hpoint⟩
    · exact .inl (by omega)
    · rcases Nat.lt_or_ge rotation.version.toNat rotation'.version.toNat with hlt | hge
      · refine .inr ⟨tk, List.mem_filter.mpr ⟨htk, ?_⟩, hpoint⟩
        exact decide_eq_true (UInt64.lt_iff_toNat_lt.mpr hlt)
      · exact .inl hge

theorem KeysInv.recordOwner (inv : KeysInv D first o) (holder : Holder) (pk : SpendKey) (nk : F) :
    KeysInv D first { o with agent := o.agent.recordOwner D.toPrimitives holder pk nk } := by
  refine ⟨inv.committed_le, inv.last, inv.committed, inv.prepared, inv.offered, fun owner record h => ?_⟩
  rcases eq_or_ne owner (ownerValue D.toPrimitives pk nk) with rfl | hne
  · simp only [TransferAgent.recordOwner, Function.update_self, Option.some.injEq] at h
    rw [← h]
  · simp only [TransferAgent.recordOwner, Function.update_of_ne hne] at h
    exact inv.investors owner record h

/-- A step of the chain only goes up in versions. -/
theorem Transition.rotations {w w' : World T τ} {st : Step} (h : Transition D w st w') :
    w.pool.registerKeyVersion.toNat ≤ w'.pool.registerKeyVersion.toNat ∧
      ∀ version key, .registerKeyRotated version key ∈ st.events →
        w.pool.registerKeyVersion.toNat < version.toNat := by
  cases h with
  | pool _ ok =>
    cases PoolCall.run_logged ok with
    | deposit accepted | transfer accepted | withdraw accepted =>
      exact ⟨Nat.le_of_eq (by rw [accepted.registerKeyVersion]), by simp [Step.events]⟩
    | rotated _ next _ registerKeyVersion =>
      refine ⟨by rw [registerKeyVersion]; omega, fun version' key' hmem => ?_⟩
      obtain ⟨rfl, -⟩ := PoolEvent.registerKeyRotated.inj (List.mem_singleton.mp hmem)
      omega
    | silent _ silent _ registerKeyVersion =>
      exact ⟨Nat.le_of_eq (by rw [registerKeyVersion]), fun _ _ hmem => (silent _ hmem).elim⟩
  | registry | poolReverted | registryReverted | tick | inflow =>
    exact ⟨Nat.le_refl _, fun _ _ hmem => by cases hmem⟩

theorem Run.keysInv (hstart : Start D o₀) (hrun : Run (Next D Taken) o₀ acts o) :
    KeysInv D o₀.world.pool.registerKey o := by
  refine hrun.invariant (I := fun _ o => KeysInv D o₀.world.pool.registerKey o) ?_ ?_
  · obtain ⟨deployed, hkey⟩ := hstart
    refine ⟨Nat.zero_le _, fun e he => ?_, fun version hle => ?_,
      fun _ _ hmem => absurd hmem List.not_mem_nil, fun _ hmem => absurd hmem List.not_mem_nil,
      fun _ _ h => absurd h (Option.some_ne_none _).symm⟩
    · obtain rfl := List.mem_singleton.mp he
      exact Nat.le_refl _
    · obtain rfl : version = 0 := UInt64.toNat_inj.mp (Nat.le_zero.mp hle)
      refine ⟨_, rfl, fun key hkey' => ?_⟩
      rcases hkey' with ⟨-, rfl⟩ | hmem
      · exact hkey
      · cases hmem
  · intro acts o act o' hrun hnext inv
    cases hnext with
    | chain step offered =>
      obtain ⟨hle, hnew⟩ := step.rotations
      exact inv.chain hle fun version key hmem => ⟨hnew version key hmem, offered version key hmem⟩
    | newRegisterKey secret => exact inv.newRegisterKey secret
    | commitRegisterKey may ok =>
      obtain ⟨deployed, tr, hchain, hlog⟩ := Run.chain hstart hrun
      exact inv.commitRegisterKey (hlog ▸ Run.keyInv deployed hchain) may ok
    | commitRefused => exact inv
    | readFeed => exact inv.agent (readFeed_sameKeys _ _ _)
    | recordOwner holder pk nk => exact inv.recordOwner holder pk nk

/-- One of the keys the agent tries is a secret of the record's register key. -/
theorem KeysInv.exists_key (inv : KeysInv D first o) (keys : KeyInv first o.logs o.world.pool)
    {version : UInt64} (h : ∃ key, KeyOf first o.logs version key) : ∃ tk ∈ o.agent.keysFor version,
      ∀ key, KeyOf first o.logs version key → D.curve.fixedBaseMul tk = pointOf key := by
  rcases Nat.lt_or_ge o.agent.lastRegisterKey.1.toNat version.toNat with hlt | hle
  · -- not committed: a rotation of the log, whose key is prepared
    have hnone : o.agent.registerKeys.lookup version = none := by
      rw [List.lookup_eq_none_iff]
      intro e he
      have hbound := inv.last e he
      have hne : version ≠ e.1 := fun heq => by
        rw [← heq] at hbound
        omega
      exact bne_iff_ne.mpr hne
    have hpos : version ≠ 0 := fun hzero => by
      rw [hzero] at hlt
      cases hlt
    have hrotated : ∀ {key}, KeyOf first o.logs version key → .registerKeyRotated version key ∈ o.logs :=
      fun hkey => hkey.resolve_left fun hzero => hpos hzero.1
    obtain ⟨key, hkey⟩ := h
    obtain ⟨tk, hmem, hpoint⟩ := inv.prepared version key (hrotated hkey) hlt
    refine ⟨tk, ?_, fun key' hkey' => ?_⟩
    · rw [TransferAgent.keysFor, hnone]
      exact List.mem_map.mpr ⟨_, List.mem_filter.mpr ⟨hmem, decide_eq_true rfl⟩, rfl⟩
    · rw [hpoint, keys.unique (hrotated hkey) (hrotated hkey')]
  · obtain ⟨tk, hlookup, htk⟩ := inv.committed version hle
    refine ⟨tk, ?_, htk⟩
    rw [TransferAgent.keysFor, hlookup]
    exact List.mem_singleton_self _

end

end Pocs.Mmf

import Pocs.Mmf.Conservation
import Pocs.Mmf.Register

/-! # The register agrees with the pool

Reading a record either finds it in the register, or adds the note its creator committed to, or lists
it as unreadable; the last does not happen while the agent holds the keys of the log. After a read of
the whole log the register is the tree, its unspent units are the pool's total, and the agent
reconciles. -/

namespace Pocs.Mmf

open Compliance (Word Address Ideal merkleHash idealHash idealHash_ideal)
open Office (Act Start Next Taken)
open TransferAgent

variable {F T τ : Type} [FeedField F] {D : Deployment F T τ} {w w' : World T τ}
  {o o₀ : Office F T τ} {acts : List (Act F)} {first : Word × Word} {logs : List PoolEvent}

/-- An entry is a note of the tree with the terms of its lock. -/
structure EntryOk (D : Deployment F T τ) (w : World T τ) (e : RegisterEntry F) : Prop where
  commitment : e.commitment = e.note.commitment D.toPrimitives
  opening : Terms D.toPrimitives e.note.lock e.opening
  leaf : (D.imt.leaves w.pool.tree)[e.leafIndex]? = some e.commitment

structure RegisterInv (D : Deployment F T τ) (w : World T τ) (register : List (RegisterEntry F)) : Prop where
  nodup : (register.map RegisterEntry.commitment).Nodup
  entry : ∀ e ∈ register, EntryOk D w e

/-- The leaves only grow. -/
theorem Transition.leaves_prefix (hL : D.imt.Lawful (merkleHash D.hash)) {st : Step}
    (h : Transition D w st w') : D.imt.leaves w.pool.tree <+: D.imt.leaves w'.pool.tree := by
  cases h with
  | pool _ ok =>
    rw [hL.insertAll (PoolCall.run_step ok).admitted.tree]
    exact List.prefix_append _ _
  | registry | poolReverted | registryReverted | tick | inflow => exact List.prefix_rfl

theorem RegisterInv.mono {register : List (RegisterEntry F)} (inv : RegisterInv D w register)
    (h : D.imt.leaves w.pool.tree <+: D.imt.leaves w'.pool.tree) : RegisterInv D w' register := by
  refine ⟨inv.nodup, fun e he => ?_⟩
  obtain ⟨hcommitment, hopening, hleaf⟩ := inv.entry e he
  refine ⟨hcommitment, hopening, ?_⟩
  obtain ⟨rest, hrest⟩ := h
  obtain ⟨hlt, -⟩ := List.getElem?_eq_some_iff.mp hleaf
  rw [← hrest, List.getElem?_append_left hlt, hleaf]

/-! ## Reading records -/

/-- A record of the chain: what was sent, and where its leaf stands. -/
structure RecordOk (D : Deployment F T τ) (first : Word × Word) (logs : List PoolEvent)
    (w : World T τ) (r : NoteRecord F) (note : Note F) (terms : LockOpening F) : Prop where
  fed : Fed D.toPrimitives first logs r note terms
  leaf : (D.imt.leaves w.pool.tree)[r.leafIndex]? = some r.commitment

omit [FeedField F] in
theorem ChainView.Indexed.getElem_commitments {view : ChainView F} (h : view.Indexed)
    {r : NoteRecord F} (hr : r ∈ view.notes) : view.commitments[r.leafIndex]? = some r.commitment := by
  obtain ⟨i, hi⟩ := List.mem_iff_getElem?.mp hr
  rw [h.leafIndex hi, ← h.commitments, List.getElem?_map, hi]
  rfl

theorem ViewInv.recordOk {st : ChainView F × UInt64} (inv : ViewInv D first logs w st)
    {r : NoteRecord F} (hr : r ∈ st.1.notes) : ∃ note terms, RecordOk D first logs w r note terms := by
  obtain ⟨note, terms, hfed⟩ := inv.fed r hr
  exact ⟨note, terms, hfed, inv.commitments ▸ inv.indexed.getElem_commitments hr⟩

inductive Read (D : Deployment F T τ) (a a' : TransferAgent F) (r : NoteRecord F) : Prop where
  | held (held : r.commitment ∈ a.register.map RegisterEntry.commitment) (same : a' = a)
  | unreadable (new : r.commitment ∉ a.register.map RegisterEntry.commitment)
    (closed : (a.keysFor r.keyVersion).findSome? (tryKey D.toPrimitives r) = none)
    (register : a'.register = a.register)
  | opened {note opening holder tk} (new : r.commitment ∉ a.register.map RegisterEntry.commitment)
    (opens : tryKey D.toPrimitives r tk = some (note, opening))
    (register : a'.register = a.register ++ [⟨note, opening, r.commitment, r.leafIndex, holder, false⟩])
    (unreadableNotes : a'.unreadableNotes = a.unreadableNotes)

theorem holds_iff {a : TransferAgent F} {c : F} :
    a.holds c = true ↔ c ∈ a.register.map RegisterEntry.commitment := by
  simp [holds]

theorem readRecord_read (a : TransferAgent F) (r : NoteRecord F) :
    Read D a (a.readRecord D.toPrimitives r) r := by
  unfold readRecord
  split
  · next hheld => exact .held (holds_iff.mp hheld) rfl
  · next hnew =>
    replace hnew := fun h => hnew (holds_iff.mpr h)
    split
    · next hclosed => exact .unreadable hnew hclosed rfl
    · next note opening hopened =>
      obtain ⟨tk, -, hopens⟩ := List.exists_of_findSome?_eq_some hopened
      exact .opened hnew hopens rfl rfl

theorem Read.registerInv (H : Ideal D.hash) {a a' : TransferAgent F} {r : NoteRecord F}
    (h : Read D a a' r) {note : Note F} {terms : LockOpening F}
    (hr : RecordOk D first logs w r note terms) (inv : RegisterInv D w a.register) :
    RegisterInv D w a'.register := by
  cases h with
  | held _ same => exact same ▸ inv
  | unreadable _ _ register => exact register ▸ inv
  | @opened note' opening holder tk new opens register =>
    obtain ⟨rfl, rfl⟩ := hr.fed.tryKey_sound H opens
    rw [register]
    refine ⟨?_, fun e he => ?_⟩
    · rw [List.map_append, List.nodup_append]
      refine ⟨inv.nodup, List.nodup_singleton _, fun c hc c' hc' heq => ?_⟩
      have hnew : c' = r.commitment := List.mem_singleton.mp hc'
      rw [heq, hnew] at hc
      exact new hc
    · rcases List.mem_append.mp he with hold | hnew
      · exact inv.entry e hold
      · obtain rfl := List.mem_singleton.mp hnew
        exact ⟨hr.fed.commitment, hr.fed.lock, hr.leaf⟩

/-- The register keeps what it has. -/
theorem Read.subset {a a' : TransferAgent F} {r : NoteRecord F} (h : Read D a a' r) :
    a.register.map RegisterEntry.commitment ⊆ a'.register.map RegisterEntry.commitment := by
  cases h with
  | held _ same => rw [same]; exact List.Subset.refl _
  | unreadable _ _ register => rw [register]; exact List.Subset.refl _
  | opened _ _ register =>
    rw [register, List.map_append]
    exact List.subset_append_left _ _

/-- With a key that opens it, a record ends up in the register. -/
theorem Read.complete {a a' : TransferAgent F} {r : NoteRecord F} (h : Read D a a' r)
    (hkey : ∃ tk ∈ a.keysFor r.keyVersion, (tryKey D.toPrimitives r tk).isSome = true) :
    r.commitment ∈ a'.register.map RegisterEntry.commitment ∧ a'.unreadableNotes = a.unreadableNotes := by
  cases h with
  | held held same =>
    subst same
    exact ⟨held, rfl⟩
  | unreadable _ closed =>
    obtain ⟨tk, hmem, hsome⟩ := hkey
    rw [List.findSome?_eq_none_iff.mp closed tk hmem] at hsome
    cases hsome
  | opened _ _ register unreadableNotes =>
    refine ⟨?_, unreadableNotes⟩
    rw [register, List.map_append]
    exact List.mem_append_right _ List.mem_cons_self

section
variable {rs : List (NoteRecord F)}

theorem readRecords_registerInv (H : Ideal D.hash) {a : TransferAgent F}
    (hrs : ∀ r ∈ rs, ∃ note terms, RecordOk D first logs w r note terms) (inv : RegisterInv D w a.register) :
    RegisterInv D w (rs.foldl (readRecord D.toPrimitives) a).register := by
  induction rs generalizing a with
  | nil => exact inv
  | cons r rs ih =>
    obtain ⟨note, terms, hr⟩ := hrs r List.mem_cons_self
    exact ih (fun r' hr' => hrs r' (List.mem_cons_of_mem _ hr')) ((readRecord_read a r).registerInv H hr inv)

theorem readRecords_subset (a : TransferAgent F) : a.register.map RegisterEntry.commitment ⊆
    (rs.foldl (readRecord D.toPrimitives) a).register.map RegisterEntry.commitment := by
  induction rs generalizing a with
  | nil => exact List.Subset.refl _
  | cons r rs ih => exact List.Subset.trans (readRecord_read a r).subset (ih _)

theorem readRecords_complete {a : TransferAgent F} (hkeys : ∀ r ∈ rs, ∃ tk ∈ a.keysFor r.keyVersion,
      (tryKey D.toPrimitives r tk).isSome = true) :
    (∀ r ∈ rs, r.commitment ∈ (rs.foldl (readRecord D.toPrimitives) a).register.map RegisterEntry.commitment) ∧
    (rs.foldl (readRecord D.toPrimitives) a).unreadableNotes = a.unreadableNotes := by
  induction rs generalizing a with
  | nil => exact ⟨by simp, rfl⟩
  | cons r rs ih =>
    obtain ⟨hmem, hunreadable⟩ :=
      (readRecord_read (D := D) a r).complete (hkeys r List.mem_cons_self)
    -- the keys are those of the agent before
    have hrest := @ih (a.readRecord D.toPrimitives r) fun r' hr' => by
      rw [(readRecord_sameKeys D.toPrimitives a r).keysFor]
      exact hkeys r' (List.mem_cons_of_mem _ hr')
    refine ⟨fun r' hr' => ?_, hrest.2.trans hunreadable⟩
    rcases List.mem_cons.mp hr' with rfl | hr'
    · exact readRecords_subset (a.readRecord D.toPrimitives r') hmem
    · exact hrest.1 r' hr'

end

theorem readFeed_commitments (P : Primitives F) (a : TransferAgent F) (view : ChainView F) :
    (a.readFeed P view).register.map RegisterEntry.commitment =
      (view.notes.foldl (readRecord P) { a with unreadableNotes := [] }).register.map
        RegisterEntry.commitment := by
  simp only [TransferAgent.readFeed, settleClaims, markSpent, List.map_map]
  rfl

theorem readFeed_registerInv (H : Ideal D.hash) {a : TransferAgent F} {view : ChainView F}
    (hview : ∀ r ∈ view.notes, ∃ note terms, RecordOk D first logs w r note terms)
    (inv : RegisterInv D w a.register) : RegisterInv D w (a.readFeed D.toPrimitives view).register := by
  have hread := readRecords_registerInv (a := { a with unreadableNotes := [] }) H hview inv
  refine ⟨?_, fun e he => ?_⟩
  · rw [readFeed_commitments]
    exact hread.nodup
  · obtain ⟨e', he', rfl⟩ := List.mem_map.mp he
    obtain ⟨hcommitment, hopening, hleaf⟩ := hread.entry e' he'
    exact ⟨hcommitment, hopening, hleaf⟩

theorem Run.registerInv (hV : D.Sound) (H : Ideal D.hash) (hL : D.imt.Lawful (merkleHash D.hash))
    (hstart : Start D o₀) {May : Office F T τ → RegisterKeyRotation F → Prop}
    (hrun : Run (Next D May) o₀ acts o) : RegisterInv D o.world o.agent.register := by
  refine hrun.invariant (I := fun _ o => RegisterInv D o.world o.agent.register) ?_ ?_
  · obtain ⟨-, -⟩ := hstart
    exact ⟨List.nodup_nil, fun e he => absurd he List.not_mem_nil⟩
  · intro acts o act o' hrun hnext inv
    cases hnext with
    | chain step => exact inv.mono (step.leaves_prefix hL)
    | newRegisterKey | commitRefused | recordOwner => exact inv
    | commitRegisterKey _ ok =>
      simp only [TransferAgent.commitRegisterKey, bind_eq_ok, pure_eq_ok] at ok
      obtain ⟨_, -, _, -, rfl⟩ := ok
      exact inv
    | @readFeed logs outflows view earlier sync =>
      obtain ⟨deployed, tr, hchain, hlog⟩ := Run.chain hstart hrun
      obtain ⟨st, hread, hinv⟩ := Run.viewInv hV hL deployed hchain
      have hpre := ChainView.notes_prefix_of_sync earlier sync (hlog ▸ hread)
      exact readFeed_registerInv H (fun r hr => hinv.recordOk (hpre.subset hr)) inv

theorem KeysInv.ownerValue_of_nkOf (inv : KeysInv D first o) {owner nk : F}
    (h : o.agent.nkOf D.toPrimitives owner = some nk) : ∃ key, owner = ownerValue D.toPrimitives key nk := by
  unfold nkOf at h
  split at h
  · next howner =>
    cases h
    exact ⟨_, howner⟩
  · obtain ⟨record, hrecord, rfl⟩ := Option.map_eq_some_iff.mp h
    exact ⟨record.pk, inv.investors owner record hrecord⟩

theorem isSpent_iff (H : Ideal D.hash) {a : TransferAgent F} {view : ChainView F}
    (hnullifiers : ∀ x, x ∈ view.nullifiers ↔ w.pool.nullifiers (Scalar.toNat x) = true)
    {e : RegisterEntry F} (hcommitment : e.commitment = e.note.commitment D.toPrimitives) {nk : F}
    (hnk : a.nkOf D.toPrimitives e.note.owner = some nk) {key : SpendKey}
    (howner : e.note.owner = ownerValue D.toPrimitives key nk) :
    a.isSpent D.toPrimitives view e = true ↔ Spent D w e.note := by
  have hnullifies : e.note.Nullifies D.toPrimitives (nullifier D.toPrimitives e.commitment nk) :=
    ⟨key, nk, howner, by rw [hcommitment]⟩
  rw [isSpent, hnk, decide_eq_true_iff, hnullifiers]
  constructor
  · exact fun hmarked => ⟨_, hnullifies, hmarked⟩
  · intro ⟨n, hn, hmarked⟩
    rwa [hn.unique H hnullifies] at hmarked

/-! ## Agreement -/

/-- The register after a read of the whole log. -/
structure Complete (D : Deployment F T τ) (w : World T τ) (a : TransferAgent F) : Prop where
  /-- Every note of the tree, exactly once. -/
  perm : (a.register.map RegisterEntry.commitment).Perm (D.imt.leaves w.pool.tree)
  entry : ∀ e ∈ a.register, EntryOk D w e
  unreadableNotes : a.unreadableNotes = []
  /-- For an owner the agent knows. -/
  spent : ∀ e ∈ a.register, (a.nkOf D.toPrimitives e.note.owner).isSome = true →
    (e.spent = true ↔ Spent D w e.note)

theorem readFeed_complete (H : Ideal D.hash) (hE : D.curve.Commutes) {st : ChainView F × UInt64}
    (inv : ViewInv D first o.logs o.world st) (keys : KeyInv first o.logs o.world.pool)
    (held : KeysInv D first o) (register : RegisterInv D o.world o.agent.register)
    (nodup : (D.imt.leaves o.world.pool.tree).Nodup) (view : ChainView F)
    (notes : view.notes = st.1.notes) (nullifiers : view.nullifiers = st.1.nullifiers) :
    Complete D o.world (o.agent.readFeed D.toPrimitives view) := by
  have hok : ∀ r ∈ view.notes, ∃ note terms, RecordOk D first o.logs o.world r note terms :=
    fun r hr => inv.recordOk (notes ▸ hr)
  have hregister := readFeed_registerInv H hok register
  -- every record has a key that opens it
  have hkeys : ∀ r ∈ view.notes, ∃ tk ∈ o.agent.keysFor r.keyVersion,
      (tryKey D.toPrimitives r tk).isSome = true := by
    intro r hr
    obtain ⟨note, terms, hr⟩ := hok r hr
    obtain ⟨key, -, -, hkey, -⟩ := hr.fed.sent
    obtain ⟨tk, hmem, htk⟩ := held.exists_key keys ⟨key, hkey⟩
    exact ⟨tk, hmem, Option.isSome_iff_exists.mpr ⟨_, hr.fed.tryKey_complete hE htk⟩⟩
  obtain ⟨hheld, hunreadable⟩ :=
    readRecords_complete (a := { o.agent with unreadableNotes := [] }) hkeys
  refine ⟨?_, hregister.entry, hunreadable, fun e he hknown => ?_⟩
  · refine (List.perm_ext_iff_of_nodup hregister.nodup nodup).mpr fun c => ⟨fun hc => ?_, fun hc => ?_⟩
    · obtain ⟨e, he, rfl⟩ := List.mem_map.mp hc
      exact List.mem_of_getElem? (hregister.entry e he).leaf
    · rw [← inv.commitments, ← inv.indexed.commitments, ← notes] at hc
      obtain ⟨r, hr, rfl⟩ := List.mem_map.mp hc
      rw [readFeed_commitments]
      exact hheld r hr
  · have hsame := readFeed_sameKeys D.toPrimitives o.agent view
    obtain ⟨nk, hnk⟩ := Option.isSome_iff_exists.mp hknown
    rw [hsame.nkOf] at hnk
    obtain ⟨key, howner⟩ := held.ownerValue_of_nkOf hnk
    obtain ⟨e', he', rfl⟩ := List.mem_map.mp he
    -- the flags are computed before the claims and the wallet are updated
    have hclear : SameKeys o.agent { o.agent with unreadableNotes := [] } :=
      ⟨rfl, rfl, rfl, rfl, rfl⟩
    have hread := hclear.trans (readRecords_sameKeys D.toPrimitives view.notes _)
    refine isSpent_iff H (fun x => ?_) (hregister.entry _ he).commitment ?_ howner
    · rw [nullifiers, inv.nullifiers]
    · rw [hread.nkOf]
      exact hnk

theorem Complete.totalUnits {a : TransferAgent F} {notes : List (Note F)} (h : Complete D w a)
    (H : Ideal D.hash) (ledger : Ledger D w notes)
    (hknown : ∀ e ∈ a.register, (a.nkOf D.toPrimitives e.note.owner).isSome = true) :
    a.totalUnits = w.pool.totalUnits := by
  have hcommitments : a.register.map RegisterEntry.commitment =
      (a.register.map RegisterEntry.note).map (Note.commitment D.toPrimitives) := by
    rw [List.map_map]
    exact List.map_congr_left fun e he => (h.entry e he).commitment
  have hperm : (a.register.map RegisterEntry.note).Perm notes := by
    refine (List.map_perm_map_iff (f := Note.commitment D.toPrimitives) ?_).mp ?_
    · exact fun _ _ => Note.commitment_inj H
    · rw [← hcommitments, ← ledger.leaves]
      exact h.perm
  have hsum : (a.unspentEntries.map fun e => e.note.units.toNat).sum =
      unspent (fun note : Note F => note.units.toNat) (Spent D w) (a.register.map RegisterEntry.note) :=
    @sum_unflagged _ (fun note : Note F => note.units.toNat) (Spent D w) _ a.register
      RegisterEntry.note RegisterEntry.spent fun e he => h.spent e he (hknown e he)
  rw [TransferAgent.totalUnits, hsum, unspent_perm hperm, ledger.units]

omit [FeedField F] in
/-- The notes cannot withdraw more than the pool has. -/
theorem remainder_isSome {a : TransferAgent F} {m : Nat} (hm : multiplier D w = .ok m)
    (hunits : a.totalUnits = w.pool.totalUnits) : (a.remainder (w.balance D) m).isSome = true := by
  have hbacked : Backed multiplierScale (w.balance D) w.pool.totalUnits m := by
    rw [multiplier_ok hm]
    exact backed_price _ _ _ _
  have hsum : ((a.unspentEntries.map fun e => e.note.units.toNat).map fun u =>
      u * m / multiplierScale).sum ≤ w.balance D :=
    hbacked.sum_payout_le multiplierScale_pos (Nat.le_of_eq hunits)
  rw [List.map_map] at hsum
  -- wrapping only lowers what is withdrawable
  have hwrap : (a.unspentEntries.map fun e =>
      e.note.units.toNat * m % 2 ^ 256 / multiplierScale).sum ≤ w.balance D := by
    refine le_trans (List.sum_le_sum fun e _ => ?_) hsum
    exact Nat.div_le_div_right (Nat.mod_le _ _)
  rw [TransferAgent.remainder, if_pos ((Nat.mod_le _ _).trans hwrap)]
  rfl

/-- In every history in which the rotations of the pool use keys the agent prepared and the agent
commits those the pool has taken, whatever it reads in between: the whole log can be read, and after
reading it the register is the tree. With the owners known, its units are the pool's, and the agent
reconciles against the pool's own totals. -/
theorem register_complete (hV : D.Sound) (H : Ideal D.hash) (hL : D.imt.Lawful (merkleHash D.hash))
    (hE : D.curve.Commutes) (hstart : Start D o₀) (hrun : Run (Next D Taken) o₀ acts o)
    (outflows : List Outflow) : ∃ view, ChainView.sync o.logs outflows = .ok view ∧
      Complete D o.world (o.agent.readFeed D.toPrimitives view) ∧
      ((∀ e ∈ (o.agent.readFeed D.toPrimitives view).register,
          (o.agent.nkOf D.toPrimitives e.note.owner).isSome = true) →
        (o.agent.readFeed D.toPrimitives view).totalUnits = o.world.pool.totalUnits ∧
        ∀ m, multiplier D o.world = .ok m → ∃ reconciliation, (o.agent.reconcile D.toPrimitives view
            ⟨o.world.pool.totalUnits, o.world.balance D, m⟩).1 = .ok reconciliation) := by
  obtain ⟨deployed, tr, hchain, hlog⟩ := Run.chain hstart hrun
  obtain ⟨st, hread, inv⟩ := Run.viewInv hV hL deployed hchain
  have keys := Run.keyInv deployed hchain
  obtain ⟨notes, ledger⟩ := Run.ledger hV H hL deployed hchain
  rw [hlog] at hread inv keys
  have hcomplete := readFeed_complete H hE inv keys (Run.keysInv hstart hrun)
    (Run.registerInv hV H hL hstart hrun) (Run.poolInv hL deployed hchain).nodup
    { st.1 with outflows } rfl rfl
  have hsync := ChainView.sync_of_readLogs outflows hread
  generalize ({ st.1 with outflows } : ChainView F) = view at hcomplete hsync
  refine ⟨view, hsync, hcomplete, fun hknown => ?_⟩
  have hunits := hcomplete.totalUnits H ledger fun e he => by
    rw [(readFeed_sameKeys D.toPrimitives o.agent view).nkOf]
    exact hknown e he
  refine ⟨hunits, fun m hm => ?_⟩
  obtain ⟨remainder, hremainder⟩ := Option.isSome_iff_exists.mp (remainder_isSome hm hunits)
  refine ⟨⟨remainder, unexplainedOutflows view⟩, ?_⟩
  simp only [reconcile, bind_eq_ok, failIf_eq_ok, okOr_eq_ok, pure_eq_ok, not_not, exists_const]
  exact ⟨hcomplete.unreadableNotes, hunits, remainder, hremainder, rfl⟩

/-! ## A deposit after a rotation -/

namespace Sample

def wallet : Wallet Unbounded := ⟨ownerKey, nk, fun _ _ => none, []⟩

def office (w₀ : World (LeanImtTree (merkleHash idealHash)) (Address → Nat)) :
    Office Unbounded (LeanImtTree (merkleHash idealHash)) (Address → Nat) :=
  ⟨w₀, [], .new wallet 2, []⟩

theorem office_start {w₀ : World (LeanImtTree (merkleHash idealHash)) (Address → Nat)}
    (h₀ : Deployed sample w₀) (hkey : w₀.pool.registerKey = words 2) :
    Start sample (office w₀) :=
  .mk h₀ (by rw [hkey]; exact fixedBaseMul_eq 2)

theorem setupSteps_events (st : Step) (h : st ∈ setupSteps idealHash) : st.events = [] := by
  simp only [setupSteps, List.mem_cons, List.not_mem_nil, or_false] at h
  rcases h with rfl | rfl <;> rfl

/-- The pool after the agent's rotation to `words 3`. -/
def rotated (w : World (LeanImtTree (merkleHash idealHash)) (Address → Nat)) :
    World (LeanImtTree (merkleHash idealHash)) (Address → Nat) :=
  w.setPool { w.pool with registerKey := words 3, registerKeyVersion := 1 }

theorem setRegisterKey_ok {w : World (LeanImtTree (merkleHash idealHash)) (Address → Nat)}
    (h : Fresh idealHash 2 w.pool) (hversion : w.pool.registerKeyVersion = 0) :
    setRegisterKey w agent (words 3) 1 = .ok (rotated w, [.registerKeyRotated 1 (words 3)]) := by
  simp only [setRegisterKey, onlyTransferAgent, bind_eq_ok, failIf_eq_ok, pure_eq_ok, exists_const,
    hversion, not_not]
  refine ⟨h.transferAgent.symm, by decide, by decide, ?_, rfl⟩
  rw [onGrumpkin_words.2.2]
  exact Bool.noConfusion

theorem Fresh.rotated {w : World (LeanImtTree (merkleHash idealHash)) (Address → Nat)}
    (h : Fresh idealHash 2 w.pool) : Fresh idealHash 3 (rotated w).pool :=
  ⟨h.tree, h.nullifiers, h.totalUnits, h.lastMultiplier, h.halted, h.transferAgent, rfl, h.claimKeyHash, h.open_⟩

def prepared : TransferAgent Unbounded :=
  { TransferAgent.new wallet 2 with preparedRegisterKeys := [(1, 3), (1, 1)] }

def committed (k : Nat) : TransferAgent Unbounded :=
  { TransferAgent.new wallet 2 with
    registerKeys := [(0, 2), (1, k)]
    registerKeys_ne := List.cons_ne_nil _ _ }

theorem commitRegisterKey_ok {k : Nat} (hk : k = 1 ∨ k = 3) : prepared.commitRegisterKey sample.toPrimitives
    ⟨1, sample.curve.fixedBaseMul k⟩ = .ok (committed k) := by
  have hfind : prepared.preparedRegisterKeys.find? (fun e =>
      e.1 = 1 ∧ curve.fixedBaseMul e.2 = curve.fixedBaseMul k) = some (1, k) := by
    simp only [fixedBaseMul_eq]
    rcases hk with rfl | rfl
    · decide
    · decide
  simp only [TransferAgent.commitRegisterKey, bind_eq_ok, failIf_eq_ok, okOr_eq_ok, pure_eq_ok]
  rcases hk with rfl | rfl
  · exact ⟨(), by decide, (1, 1), hfind, rfl⟩
  · exact ⟨(), by decide, (1, 3), hfind, rfl⟩

/-- The record of a deposit under `words 3`. -/
noncomputable def rotatedRecord : NoteRecord Unbounded where
  commitment := commitment idealHash
  leafIndex := 0
  output := 0
  feedR := pointOf (words 2)
  feedCt i := Scalar.ofNat ((depositParams idealHash signs 3 2).feedCt i)
  payload := []
  keyVersion := 1

/-- The log of the rotation and of the deposit. -/
noncomputable def rotatedLogs : List PoolEvent :=
  [.registerKeyRotated 1 (words 3), .deposit (commitment idealHash).val 1 1 (words 2)
    (depositParams idealHash signs 3 2).feedCt []]

theorem sync_rotatedLogs : ∃ view : ChainView Unbounded, ChainView.sync rotatedLogs [] = .ok view ∧
    view.notes = [rotatedRecord] :=
  ⟨_, rfl, rfl⟩

theorem tryKey_committed : tryKey sample.toPrimitives rotatedRecord 1 = none := by
  rw [Option.eq_none_iff_forall_ne_some]
  rintro ⟨note', terms'⟩ hopen
  have hcommitment : rotatedRecord.commitment = (note idealHash).commitment sample.toPrimitives := rfl
  have hct : rotatedRecord.feedCt = encrypt sample.toPrimitives
      (feedKey sample.toPrimitives (pointOf (words 6))) (note idealHash) noLock 0 := rfl
  obtain ⟨-, hkey⟩ := key_of_tryKey idealHash_ideal hcommitment hct hopen
  have hmul : sample.curve.mul 1 rotatedRecord.feedR = pointOf (words 2) := mul_eq 1 2
  rw [hmul] at hkey
  have hx := (idealHash_ideal.hash3_inj hkey).2.1
  exact absurd (congrArg Unbounded.val hx) (by decide)

theorem readFeed_committed {view : ChainView Unbounded} (h : view.notes = [rotatedRecord]) :
    ((committed 1).readFeed sample.toPrimitives view).unreadableNotes = [⟨commitment idealHash, 1⟩] := by
  have hkeys : (committed 1).keysFor rotatedRecord.keyVersion = [1] := by decide
  have hread : (rotatedRecord :: []).foldl (readRecord sample.toPrimitives) (committed 1) =
      { committed 1 with unreadableNotes := [⟨commitment idealHash, 1⟩] } := by
    rw [List.foldl_cons, List.foldl_nil, readRecord, if_neg (by simp [holds, committed, TransferAgent.new]), hkeys, List.findSome?_cons, tryKey_committed]
    rfl
  show (view.notes.foldl (readRecord sample.toPrimitives) (committed 1)).unreadableNotes = _
  rw [h, hread]

/-- The office with both keys prepared and handed to the operator. -/
noncomputable def preparedOffice (w : World (LeanImtTree (merkleHash idealHash)) (Address → Nat)) :
    Office Unbounded (LeanImtTree (merkleHash idealHash)) (Address → Nat) :=
  ⟨w, [], prepared, [⟨1, sample.curve.fixedBaseMul 3⟩, ⟨1, sample.curve.fixedBaseMul 1⟩]⟩

variable {May : Office Unbounded (LeanImtTree (merkleHash idealHash)) (Address → Nat) →
  RegisterKeyRotation Unbounded → Prop} {k : Nat}

theorem run_preparedOffice {w₀ w : World (LeanImtTree (merkleHash idealHash)) (Address → Nat)}
    (hrun : Run (Transition sample) w₀ (setupSteps idealHash) w) : ∃ acts,
    Run (Next sample May) (office w₀) acts (preparedOffice w) := by
  have hsetup : Run (Next sample May) (office w₀) _ { office w₀ with world := w } :=
    Run.office (office w₀) hrun fun st hst _ _ => by simp [setupSteps_events st hst]
  have hfirst : Next sample May { office w₀ with world := w } (.newRegisterKey 3)
      ⟨w, [], { TransferAgent.new wallet 2 with preparedRegisterKeys := [(1, 3)] },
        [⟨1, sample.curve.fixedBaseMul 3⟩]⟩ := .newRegisterKey 3
  exact ⟨_, (hsetup.cons hfirst).cons (.newRegisterKey 1)⟩

theorem run_committed {w : World (LeanImtTree (merkleHash idealHash)) (Address → Nat)}
    (hpool : Fresh idealHash 2 w.pool) (hversion : w.pool.registerKeyVersion = 0) (hk : k = 1 ∨ k = 3)
    (hmay : ∀ o, o.logs = [.registerKeyRotated 1 (words 3)] → May o ⟨1, sample.curve.fixedBaseMul k⟩) :
    ∃ acts, Run (Next sample May) (preparedOffice w) acts { preparedOffice (rotated w) with
      logs := [.registerKeyRotated 1 (words 3)], agent := committed k } := by
  have hstep : Transition sample w (.pool agent (.setRegisterKey (words 3) 1)
      [.registerKeyRotated 1 (words 3)]) (rotated w) :=
    .pool (agent_ne _) (setRegisterKey_ok hpool hversion)
  have hrotate : Next sample May (preparedOffice w)
      (.chain (.pool agent (.setRegisterKey (words 3) 1) [.registerKeyRotated 1 (words 3)]))
      { preparedOffice (rotated w) with logs := [.registerKeyRotated 1 (words 3)] } := by
    refine .chain hstep fun version key hmem => ?_
    obtain ⟨rfl, rfl⟩ : version = 1 ∧ key = words 3 := by simpa [Step.events] using hmem
    exact ⟨_, List.mem_cons_self, rfl, fixedBaseMul_eq 3⟩
  exact ⟨_, (Run.nil.cons hrotate).cons (.commitRegisterKey (hmay _ rfl) (commitRegisterKey_ok hk))⟩

/-- The pool takes the key `3`, the agent commits `k`, and a deposit is made under the new key. -/
theorem exists_rotated (hk : k = 1 ∨ k = 3)
    (hmay : ∀ o, o.logs = [.registerKeyRotated 1 (words 3)] → May o ⟨1, sample.curve.fixedBaseMul k⟩) :
    ∃ o₀ acts o, Start sample o₀ ∧ Run (Next sample May) o₀ acts o ∧ o.logs = rotatedLogs ∧
      o.agent = committed k := by
  obtain ⟨w₀, tree, w, hdeployed, hkey, hrun, hattesting, hpool, hversion, htoken⟩ :=
    exists_setup idealHash idealHash_ideal
  have hfunds : 1 ≤ w.token agent := by
    rw [htoken]
    decide
  have hfive : w.token 10 < 99 := by
    rw [htoken]
    decide
  obtain ⟨leaves, events, -, rfl, hdeposit⟩ := exists_deposit idealHash idealHash_ideal
    (fun plan _ => signs_all plan) (w := rotated w) ⟨hattesting.timestamp, hattesting.registry, hattesting.root⟩
    hpool.rotated (show 2 < 2 ^ 128 by decide) (show words 2 ≠ (0, 0) by decide)
    onGrumpkin_words.2.1 hfunds hfive
  obtain ⟨_, hprepared⟩ := @run_preparedOffice May _ _ hrun
  obtain ⟨_, hcommitted⟩ := run_committed hpool hversion hk hmay
  have hstep : Transition sample (rotated w) (.pool agent (.deposit (depositParams idealHash signs 3 2)) _) _ :=
    .pool (agent_ne _) hdeposit
  have hnext := @Next.chain _ _ _ _ _ May { preparedOffice (rotated w) with
    logs := [.registerKeyRotated 1 (words 3)], agent := committed k } _ _ hstep
    fun version key hmem => by simp [Step.events] at hmem
  exact ⟨_, _, _, office_start hdeployed hkey, (hprepared.append hcommitted).cons hnext, rfl, rfl⟩

end Sample

open Sample

/-- The agent commits the key that the pool took, and a deposit is made under it. -/
theorem register_complete_sample : ∃ o₀ acts o, Start sample o₀ ∧ Run (Next sample Taken) o₀ acts o ∧
    .registerKeyRotated 1 (words 3) ∈ o.logs ∧ (1, 3) ∈ o.agent.registerKeys ∧
    ∃ view, ChainView.sync o.logs [] = .ok view ∧ Complete sample o.world
        (o.agent.readFeed sample.toPrimitives view) := by
  obtain ⟨o₀, acts, o, hstart, hrun, hlogs, hagent⟩ := @exists_rotated Taken 3 (.inr rfl) fun o hlogs =>
    ⟨_, hlogs ▸ List.mem_singleton_self _, fixedBaseMul_eq 3⟩
  obtain ⟨view, hsync, hcomplete, -⟩ := register_complete (sound _) idealHash_ideal
    (lawful _) commutes hstart hrun []
  exact ⟨o₀, acts, o, hstart, hrun, hlogs ▸ List.mem_cons_self,
    hagent ▸ List.mem_cons_of_mem _ List.mem_cons_self, view, hsync, hcomplete⟩

/-- An agent that commits a key it prepared but the pool never took cannot read the feed. -/
theorem commit_untaken_unreadable : ∃ o₀ acts o view, Start sample o₀ ∧
    Run (Next sample fun _ _ => True) o₀ acts o ∧
    ChainView.sync o.logs [] = .ok view ∧
    (o.agent.readFeed sample.toPrimitives view).unreadableNotes ≠ [] := by
  obtain ⟨o₀, acts, o, hstart, hrun, hlogs, hagent⟩ :=
    @exists_rotated (fun _ _ => True) 1 (.inl rfl) fun _ _ => trivial
  obtain ⟨view, hsync, hnotes⟩ := sync_rotatedLogs
  refine ⟨o₀, acts, o, view, hstart, hrun, hlogs ▸ hsync, ?_⟩
  rw [hagent, readFeed_committed hnotes]
  exact List.cons_ne_nil _ _

end Pocs.Mmf

import Pocs.Epochs.System

/-! # Notes over all epochs

Every step of a run is a step of a vault (`Inv.step`): the notes it consumes were minted and not consumed before,
in whatever epoch, and the tokens of the pool make up for what it mints. -/

namespace Pocs.Epochs

open Compliance (BnField Word Address Ideal ofU64 merkleHash idealHash idealHash_ideal)
open Offchain (OrderedWords)
open ShieldedPoolExt

section
variable {F T τ : Type} [EpochField F] {D : Deployment F T τ} {w w' : World F T τ}

/-! ## Values -/

/-- A note that is worth something. -/
def Note.Live (n : Note F) : Prop := n.amount ≠ 0

theorem live_of_value (a : Address) (n : Note F) (h : noteValue a n ≠ 0) : n.Live := by
  intro hzero
  rw [noteValue, hzero, Scalar.toNat_zero, ite_self] at h
  exact h rfl

theorem noteValue_of_token {n : Note F} {a : Address} (h : n.token = Scalar.ofNat a.toNat) (k : Address) :
    noteValue k n = if k = a then Scalar.toNat n.amount else 0 := by
  have hlt : ∀ a : Address, a.toNat < 2 ^ 161 := fun a => a.isLt.trans (by decide)
  rw [noteValue, h]
  refine if_congr ⟨fun he => ?_, fun he => he ▸ rfl⟩ rfl rfl
  exact (BitVec.eq_of_toNat_eq (BnField.ofNat_inj (hlt a) (hlt k) he)).symm

theorem worth_singleton (k : Address) (n : Note F) : Vault.worth noteValue k [n] = noteValue k n := by
  rw [Vault.worth, List.map_singleton, List.sum_singleton]

theorem worth_pair (k : Address) (n n' : Note F) :
    Vault.worth noteValue k [n, n'] = noteValue k n + noteValue k n' := by
  rw [Vault.worth, List.map_cons, List.map_singleton, List.sum_cons, List.sum_singleton]

theorem deposit_words {p : DepositParams} {pub : DepositPublic F} {wit : DepositWitness F}
    (inputs : (w.pool.depositInputs p).map Scalar.ofNat = DepositPublic.toFields pub)
    (main : depositMain D.hash pub wit = .ok ()) :
    [p.commitment].map Scalar.ofNat = [wit.note pub].map (Note.commitment D.hash) := by
  rw [depositMain, require_eq_ok] at main
  simp only [depositInputs, DepositPublic.toFields, List.map_cons, List.cons.injEq] at inputs
  rw [List.map_singleton, List.map_singleton, inputs.1, main]

theorem transfer_words {p : TransferParams} {pub : TransferPublic F} {wit : TransferWitness F}
    (inputs : (w.pool.transferInputs D p).map Scalar.ofNat = TransferPublic.toFields pub)
    (main : transferMain D.hash pub wit = .ok ()) : [p.nullifiers.1, p.nullifiers.2].map Scalar.ofNat =
        (wit.spends D.hash pub w.epoch).map (Spend.nullifier D.hash) ∧
      [p.outputCommitments.1, p.outputCommitments.2].map Scalar.ofNat =
        [wit.out0.note pub.currentEpoch, wit.out1.note pub.currentEpoch].map (Note.commitment D.hash) := by
  have hchecks := transferMain_eq_ok.mp main
  simp only [transferInputs, TransferPublic.toFields, List.map_cons, List.cons.injEq] at inputs
  obtain ⟨hn0, hn1, hout0, hout1, -, hepoch, -⟩ := inputs
  simp only [TransferWitness.spends, List.map_cons, List.map_nil]
  rw [hn0, hn1, hchecks.nullifier0, hchecks.nullifier1, ← hepoch, hout0, hout1, hchecks.out0, hchecks.out1]
  exact ⟨rfl, by rw [hepoch]⟩

theorem withdraw_words {p : WithdrawParams} {pub : WithdrawPublic F} {wit : WithdrawWitness F}
    (inputs : (w.pool.withdrawInputs D p).map Scalar.ofNat = WithdrawPublic.toFields pub)
    (main : withdrawMain D.hash pub wit = .ok ()) : [p.nullifier].map Scalar.ofNat =
      ([⟨wit.note D.hash pub, wit.spendingKey, w.epoch⟩] : List (Spend F)).map (Spend.nullifier D.hash) := by
  obtain ⟨-, hnullifier, -⟩ := withdrawMain_eq_ok.mp main
  simp only [withdrawInputs, WithdrawPublic.toFields, List.map_cons, List.cons.injEq] at inputs
  obtain ⟨hn, -, -, -, -, hepoch, -⟩ := inputs
  rw [List.map_singleton, List.map_singleton, hn, hnullifier, ← hepoch]
  rfl

/-- The note of a spend is one of the pool's that is not spent. -/
structure Spend.Spendable (D : Deployment F T τ) (w : World F T τ) (s : Spend F) : Prop where
  owned : s.Owned D.hash
  minted : s.note ∈ w.minted
  unspent : s.note ∉ w.spends.map Spend.note

theorem Inv.consume (inv : Inv D w) (H : Ideal D.hash) {ss : List (Spend F)} (hss : ∀ s ∈ ss, s.epoch = w.epoch)
    (hdistinct : Distinct (w.nullifiers D.hash w.epoch ++ ss.map (Spend.nullifier D.hash)))
    (hspend : ∀ s ∈ ss, s.note.amount ≠ 0 → s.Spendable D w) :
    (∀ s ∈ w.spends ++ ss, s.note.amount ≠ 0 → s.Owned D.hash) ∧
      (ss.map Spend.note).Pairwise (fun c d => c.Live → c ≠ d) ∧
      ∀ c ∈ ss.map Spend.note, c.Live → c ∈ w.minted ∧ c ∉ w.spends.map Spend.note := by
  refine ⟨fun s hs hamount => ?_, ?_, fun c hc hlive => ?_⟩
  · rcases List.mem_append.mp hs with hold | hnew
    · exact inv.owned s hold hamount
    · exact (hspend s hnew hamount).owned
  · rw [List.pairwise_map]
    have hnodup := (List.nodup_append.mp hdistinct.nodup).2.1
    refine (List.pairwise_map.mp hnodup).imp_of_mem fun {s s'} hs hs' hne hlive hsame => hne ?_
    -- one key and one epoch
    have hkey : s.spendingKey = s'.spendingKey := by
      have howner := (hspend s hs hlive).owned.owner
      rw [hsame, (hspend s' hs' (hsame ▸ hlive)).owned.owner] at howner
      exact H.hash1_inj howner.symm
    rw [Spend.nullifier, Spend.nullifier, hsame, hkey, hss s hs, hss s' hs']
  · obtain ⟨s, hs, rfl⟩ := List.mem_map.mp hc
    exact ⟨(hspend s hs hlive).minted, (hspend s hs hlive).unspent⟩

end

section
variable {F T τ : Type} [EpochField F] [OrderedWords F] {D : Deployment F T τ} {w w' : World F T τ}

/-- An input whose proofs are accepted. -/
theorem Inv.spendable (inv : Inv D w) (H : Ideal D.hash) (hL : D.imt.Lawful (merkleHash D.hash)) {note : Note F}
    {key chainVkHash : F} {root : Word} {created : UInt64} {chain : ChainInput F} {proofLength : Nat}
    {indices : Fin maxCommitmentTreeDepth → Bool} {path : Fin maxCommitmentTreeDepth → F}
    (hknown : w.pool.isKnownRoot D root = true)
    (hmember : verifyMembership D.hash (note.commitment D.hash) (Scalar.ofNat root) proofLength indices path = .ok ())
    (howner : note.ownerPubkey = poseidon1 D.hash key) (hcreated : note.epochCreated = ofU64 created)
    (hchain : verifyInputChain D.hash chain chainVkHash (note.commitment D.hash) (ofU64 created)
      (ofU64 w.pool.currentEpoch) (Scalar.ofNat (w.pool.expectedChainAccumulator D.hash created)) = .ok ())
    (hwritten : ChainWritten D w created chain)
    (hfresh : (⟨note, key, w.epoch⟩ : Spend F).nullifier D.hash ∉ w.nullifiers D.hash w.epoch)
    (hamount : note.amount ≠ 0) : (⟨note, key, w.epoch⟩ : Spend F).Spendable D w := by
  obtain ⟨howned, hunspent⟩ := inv.unspent H howner hcreated hchain hwritten hfresh
  exact ⟨howned, mem_of_verifyMembership H (inv.known hL hknown) hmember, hunspent hamount⟩

/-! ## Steps -/

omit [OrderedWords F] in
/-- A step that leaves the notes alone. -/
theorem idle_step (inv : Inv D w') (minted : w'.minted = w.minted) (spends : w'.spends = w.spends)
    (kept : ∀ token, (D.token token).balanceOf (w.tokens token) D.address ≤
      (D.token token).balanceOf (w'.tokens token) D.address) :
    Inv D w' ∧ ∃ m, Vault.Step noteValue Note.Live (w.vault D) m (w'.vault D) := by
  refine ⟨inv, ⟨[], []⟩, ?_, inv.nodup, ?_, .nil, fun c hc => absurd hc List.not_mem_nil, kept⟩
  · exact minted.trans (List.append_nil _).symm
  · exact (congrArg (List.map Spend.note) spends).trans (List.append_nil _).symm

theorem deposit_step (inv : Inv D w) (H : Ideal D.hash) (hD : D.Configured) {sender : Address} {p : DepositParams}
    {chain : Chain T τ} {events : List PoolEvent} {pub : DepositPublic F} {wit : DepositWitness F}
    (ok : deposit D w.toChain sender p = .ok (chain, events)) (other : sender ≠ D.address)
    (inputs : (w.pool.depositInputs p).map Scalar.ofNat = DepositPublic.toFields pub)
    (main : depositMain D.hash pub wit = .ok ())
    (hw' : w' = ⟨chain, w.minted ++ [wit.note pub], w.spends, w.logs ++ events⟩) :
    Inv D w' ∧ ∃ m, Vault.Step noteValue Note.Live (w.vault D) m (w'.vault D) := by
  obtain ⟨tree, token, htree, hpaid, rfl, -, -⟩ := deposit_ok ok
  have hcommitment := deposit_words inputs main
  simp only [depositInputs, DepositPublic.toFields, List.map_cons, List.cons.injEq] at inputs
  obtain ⟨-, htoken, hamount, -, -⟩ := inputs
  obtain ⟨hfunds, hmoved⟩ := (hD.token p.token).transferFrom hpaid
  subst hw'
  have hnotes := @NoteInv.mint _ _ _ _ D w inv.toNoteInv H hD.imt [wit.note pub] tree (List.cons_ne_nil _ _)
    (by rw [← hcommitment, List.map_singleton, List.foldlM_cons, bind_eq_ok]; exact ⟨tree, htree, rfl⟩)
    ({ w.pool with tree }.recordRoot D) (Function.update w.tokens p.token token) w.spends (w.logs ++ events) rfl rfl
    inv.owned
  refine ⟨⟨⟨inv.distinct, inv.active, inv.count, inv.frozen, inv.epoch⟩, hnotes⟩, ⟨[], [wit.note pub]⟩, rfl,
    hnotes.nodup, (List.append_nil _).symm, .nil, fun c hc => absurd hc List.not_mem_nil, fun k => ?_⟩
  have hvalue : noteValue k (wit.note pub) = if k = p.token then p.amount else 0 := by
    rw [noteValue_of_token (n := wit.note pub) htoken.symm]
    refine if_congr Iff.rfl ?_ rfl
    rw [DepositWitness.note, ← hamount]
    exact BnField.toNat_ofNat_of_canonical (OrderedWords.canonical_of_le hfunds (hD.supply _ _ _))
  show (D.token k).balanceOf (w.tokens k) D.address + Vault.worth noteValue k [wit.note pub] ≤
    (D.token k).balanceOf (Function.update w.tokens p.token token k) D.address + 0
  rw [worth_singleton, hvalue]
  split
  · next h =>
    rw [h, Function.update_self, hmoved, moved_dst other, Nat.add_zero]
  · next h =>
    rw [Function.update_of_ne h]

omit [OrderedWords F] in
/-- The notes of a transfer have one token, and their amounts add up. -/
theorem TransferChecks.worth {hash : List F → F} {pub : TransferPublic F} {wit : TransferWitness F} {in0 in1 : Note F}
    (h : TransferChecks hash pub wit in0 in1) (k : Address) :
    Vault.worth noteValue k [wit.out0.note pub.currentEpoch, wit.out1.note pub.currentEpoch] =
      Vault.worth noteValue k [wit.note0 hash pub, wit.note1 hash pub] := by
  have hvalue : ∀ {n : Note F} {amount : UInt64}, n.token = wit.in0.token → n.amount = ofU64 amount →
      noteValue k n = if wit.in0.token = Scalar.ofNat k.toNat then amount.toNat else 0 := by
    intro n amount htoken hamount
    rw [noteValue, htoken, hamount, ofU64, Scalar.toNat_ofNat amount.toNat_lt]
  rw [worth_pair, worth_pair, hvalue h.tokenOut0.symm rfl, hvalue h.tokenOut1.symm rfl,
    hvalue (n := wit.note0 hash pub) rfl rfl, hvalue (n := wit.note1 hash pub) h.token1.symm rfl]
  split
  · exact h.conserved.symm
  · rfl

theorem transfer_step (inv : Inv D w) (H : Ideal D.hash) (hD : D.Configured) {p : TransferParams} {chain : Chain T τ}
    {events : List PoolEvent} {pub : TransferPublic F} {wit : TransferWitness F}
    (ok : transfer D w.toChain p = .ok (chain, events))
    (inputs : (w.pool.transferInputs D p).map Scalar.ofNat = TransferPublic.toFields pub)
    (main : transferMain D.hash pub wit = .ok ())
    (inserts : Inserts D w [p.nullifiers.1, p.nullifiers.2] p.postActiveRoot)
    (written0 : ChainWritten D w p.epochCreated.1 wit.in0.chain)
    (written1 : wit.in1.amount ≠ 0 → ChainWritten D w p.epochCreated.2 wit.in1.chain)
    (hw' : w' = ⟨chain, w.minted ++ [wit.out0.note pub.currentEpoch, wit.out1.note pub.currentEpoch],
      w.spends ++ wit.spends D.hash pub w.epoch, w.logs ++ events⟩) :
    Inv D w' ∧ ∃ m, Vault.Step noteValue Note.Live (w.vault D) m (w'.vault D) := by
  obtain ⟨hknown, hcount, tree, htree, rfl, -, -⟩ := transfer_ok ok
  have hchecks := transferMain_eq_ok.mp main
  obtain ⟨hns, hout⟩ := transfer_words inputs main
  simp only [transferInputs, TransferPublic.toFields, List.map_cons, List.cons.injEq] at inputs
  obtain ⟨-, -, -, -, hroot, hepoch, -, hcreated0, hcreated1, hacc0, hacc1, -⟩ := inputs
  have hmember0 := hchecks.member0
  have hmember1 := hchecks.member1
  have hchain0 := hchecks.chain0
  have hchain1 := hchecks.chain1
  rw [← hroot] at hmember0 hmember1
  rw [← hepoch, ← hcreated0, ← hacc0] at hchain0
  rw [← hepoch, ← hcreated1, ← hacc1] at hchain1
  -- the nullifiers of the spends are those of the insertion
  obtain ⟨hdistinct, hactive⟩ := inserts.new H inv.toNullifierInv
  rw [hns] at hdistinct hactive
  have hfresh : ∀ s ∈ wit.spends D.hash pub w.epoch, s.nullifier D.hash ∉ w.nullifiers D.hash w.epoch := fun s hs hold =>
    (List.nodup_append.mp hdistinct.nodup).2.2 _ hold _ (List.mem_map_of_mem hs) rfl
  have hspend : ∀ s ∈ wit.spends D.hash pub w.epoch, s.note.amount ≠ 0 → s.Spendable D w := by
    intro s hs hamount
    rcases List.mem_pair.mp hs with rfl | rfl
    · exact inv.spendable H hD.imt hknown hmember0 rfl hcreated0.symm hchain0 written0
        (hfresh _ List.mem_cons_self) hamount
    · have hne : wit.in1.amount ≠ 0 := fun hz => hamount (congrArg ofU64 hz)
      exact inv.spendable H hD.imt hknown (hmember1 hne) rfl hcreated1.symm (hchain1 hne) (written1 hne)
        (hfresh _ (List.mem_cons_of_mem _ List.mem_cons_self)) hamount
  have hss : ∀ s ∈ wit.spends D.hash pub w.epoch, s.epoch = w.epoch := by
    intro s hs
    rcases List.mem_pair.mp hs with rfl | rfl <;> rfl
  obtain ⟨howned, hpairwise, hlive⟩ := inv.consume H hss hdistinct hspend
  subst hw'
  have hnotes := @NoteInv.mint _ _ _ _ D w inv.toNoteInv H hD.imt
    [wit.out0.note pub.currentEpoch, wit.out1.note pub.currentEpoch] tree (List.cons_ne_nil _ _)
    (by
      rw [← hout]
      exact htree) ({ w.pool.advanced p.postActiveRoot 2 with tree }.recordRoot D) w.tokens _ (w.logs ++ events)
    rfl rfl howned
  have hadvanced := @toNat_advanced _ w.pool p.postActiveRoot 2 hcount
  refine ⟨⟨inv.toNullifierInv.spend hss rfl rfl hdistinct hactive hadvanced, hnotes⟩,
    ⟨[wit.note0 D.hash pub, wit.note1 D.hash pub], [_, _]⟩, rfl, hnotes.nodup, List.map_append, hpairwise, hlive,
    fun k => ?_⟩
  rw [hchecks.worth k]
  exact Nat.le_refl _

theorem withdraw_step (inv : Inv D w) (H : Ideal D.hash) (hD : D.Configured) {p : WithdrawParams} {chain : Chain T τ}
    {events : List PoolEvent} {pub : WithdrawPublic F} {wit : WithdrawWitness F}
    (ok : withdraw D w.toChain p = .ok (chain, events))
    (inputs : (w.pool.withdrawInputs D p).map Scalar.ofNat = WithdrawPublic.toFields pub)
    (main : withdrawMain D.hash pub wit = .ok ()) (inserts : Inserts D w [p.nullifier] p.postActiveRoot)
    (written : ChainWritten D w p.epochCreated wit.chain)
    (hw' : w' = ⟨chain, w.minted, w.spends ++ [⟨wit.note D.hash pub, wit.spendingKey, w.epoch⟩],
      w.logs ++ events⟩) : Inv D w' ∧ ∃ m, Vault.Step noteValue Note.Live (w.vault D) m (w'.vault D) := by
  obtain ⟨hknown, hcount, token, hpaid, rfl, -⟩ := withdraw_ok ok
  obtain ⟨hmember, -, hchain⟩ := withdrawMain_eq_ok.mp main
  have hns := withdraw_words inputs main
  simp only [withdrawInputs, WithdrawPublic.toFields, List.map_cons, List.cons.injEq] at inputs
  obtain ⟨-, htoken, hamount, -, hroot, hepoch, -, hcreated, hacc, -⟩ := inputs
  rw [← hroot] at hmember
  rw [← hepoch, ← hcreated, ← hacc] at hchain
  obtain ⟨hfunds, hmoved⟩ := (hD.token p.token).transfer hpaid
  obtain ⟨hdistinct, hactive⟩ := inserts.new H inv.toNullifierInv
  rw [hns] at hdistinct hactive
  have hspend : ∀ s ∈ ([⟨wit.note D.hash pub, wit.spendingKey, w.epoch⟩] : List (Spend F)), s.note.amount ≠ 0 →
      s.Spendable D w := by
    intro s hs hne
    obtain rfl := List.mem_singleton.mp hs
    exact inv.spendable H hD.imt hknown hmember rfl hcreated.symm hchain written (fun hold =>
      (List.nodup_append.mp hdistinct.nodup).2.2 _ hold _ List.mem_cons_self rfl) hne
  have hss : ∀ s ∈ ([⟨wit.note D.hash pub, wit.spendingKey, w.epoch⟩] : List (Spend F)), s.epoch = w.epoch :=
    fun s hs => List.mem_singleton.mp hs ▸ rfl
  obtain ⟨howned, hpairwise, hlive⟩ := inv.consume H hss hdistinct hspend
  subst hw'
  have hadvanced := @toNat_advanced _ w.pool p.postActiveRoot 1 hcount
  refine ⟨⟨inv.toNullifierInv.spend hss rfl rfl hdistinct hactive hadvanced,
    ⟨inv.leaves, inv.nodup, inv.roots, howned⟩⟩, ⟨[wit.note D.hash pub], []⟩, (List.append_nil _).symm, inv.nodup,
    List.map_append, hpairwise, hlive, fun k => ?_⟩
  have hvalue : noteValue k (wit.note D.hash pub) = if k = p.token then p.amount else 0 := by
    rw [noteValue_of_token (n := wit.note D.hash pub) htoken.symm]
    refine if_congr Iff.rfl ?_ rfl
    rw [WithdrawWitness.note, ← hamount]
    exact BnField.toNat_ofNat_of_canonical (OrderedWords.canonical_of_le hfunds (hD.supply _ _ _))
  show (D.token k).balanceOf (w.tokens k) D.address + 0 ≤ (D.token k).balanceOf
    (Function.update w.tokens p.token token k) D.address + Vault.worth noteValue k [wit.note D.hash pub]
  rw [worth_singleton, hvalue]
  split
  · next h =>
    rw [h, Function.update_self, hmoved]
    have hleft := @le_moved_src _ _ ((D.token p.token).balanceOf (w.tokens p.token)) D.address p.recipient p.amount
    omega
  · next h =>
    rw [Function.update_of_ne h]

theorem Transition.step {call : Call} (h : Transition D w call w') (H : Ideal D.hash) (hD : D.Configured)
    (inv : Inv D w) : Inv D w' ∧ ∃ m, Vault.Step noteValue Note.Live (w.vault D) m (w'.vault D) := by
  cases h with
  | deposit ok other inputs main => exact deposit_step inv H hD ok other inputs main rfl
  | transfer ok inputs main inserts written0 written1 =>
    exact transfer_step inv H hD ok inputs main inserts written0 written1 rfl
  | withdraw ok inputs main inserts written => exact withdraw_step inv H hD ok inputs main inserts written rfl
  | rolloverEpoch ok =>
    obtain ⟨hlt, rfl, -⟩ := rolloverEpoch_ok ok
    exact idle_step ⟨inv.rolled hD.emptyImtRoot hlt rfl rfl, ⟨inv.leaves, inv.nodup, inv.roots, inv.owned⟩⟩ rfl rfl
      fun _ => Nat.le_refl _
  | admin ok =>
    obtain ⟨_, _, _, rfl⟩ := AdminCall.run_ok ok
    exact idle_step ⟨⟨inv.distinct, inv.active, inv.count, inv.frozen, inv.epoch⟩,
      ⟨inv.leaves, inv.nodup, inv.roots, inv.owned⟩⟩ rfl rfl fun _ => Nat.le_refl _
  | elsewhere kept =>
    exact idle_step ⟨⟨inv.distinct, inv.active, inv.count, inv.frozen, inv.epoch⟩,
      ⟨inv.leaves, inv.nodup, inv.roots, inv.owned⟩⟩ rfl rfl kept

omit [OrderedWords F] in
theorem Deployed.inv (h : Deployed D w) (hD : D.Configured) : Inv D w := by
  obtain ⟨hnew⟩ := h
  simp only [ShieldedPoolExt.new, bind_eq_ok, failIf_eq_ok, pure_eq_ok, exists_const] at hnew
  obtain ⟨-, rfl⟩ := hnew
  refine ⟨⟨fun e => ⟨List.nodup_nil, List.not_mem_nil, show 0 < 2 ^ 32 by decide⟩, hD.emptyImtRoot, rfl, fun e he => absurd he (Nat.not_lt_zero e),
    fun s hs => absurd hs List.not_mem_nil⟩, hD.imt.leaves_empty, List.nodup_nil, fun r hr => ?_,
    fun s hs => absurd hs List.not_mem_nil⟩
  cases RootRing.valid_empty.symm.trans hr

theorem Run.epochs_sound (H : Ideal D.hash) (hD : D.Configured) {w₀ : World F T τ} (h₀ : Deployed D w₀)
    {calls : List Call} (hrun : Run (Transition D) w₀ calls w) :
    Inv D w ∧ (w.vault D).Sound noteValue Note.Live (w₀.vault D).balance := by
  refine Vault.run_sound live_of_value hrun (h₀.inv hD) ?_ fun w call w' h inv => h.step H hD inv
  obtain ⟨_⟩ := h₀
  exact ⟨rfl, rfl⟩

/-- In every run in which the accepted proofs use written low leaves, whatever the epochs: a note of value is spent
once, by the key that owns it, and only if the pool has minted it in an earlier step. -/
theorem notes_spent_once (H : Ideal D.hash) (hD : D.Configured) {w₀ : World F T τ} (h₀ : Deployed D w₀)
    {calls : List Call} (hrun : Run (Transition D) w₀ calls w) :
    w.spends.Pairwise (fun s s' => s.note.Live → s.note ≠ s'.note) ∧
      (∀ s ∈ w.spends, s.note.Live → s.note ∈ w.minted ∧ s.Owned D.hash) ∧
      ∀ call w', Transition D w call w' → ∀ s ∈ w'.spends, s.note.Live → s.note ∈ w.minted := by
  obtain ⟨inv, sound⟩ := Run.epochs_sound H hD h₀ hrun
  refine ⟨List.pairwise_map.mp sound.once, fun s hs hlive => ⟨?_, inv.owned s hs hlive⟩, ?_⟩
  · exact sound.owned s.note (List.mem_map_of_mem hs) hlive
  · intro call w' h s hs hlive
    obtain ⟨-, m, hm⟩ := h.step H hD inv
    exact sound.owned_before hm (List.mem_map_of_mem hs) hlive

/-- In every such run the pool holds of each token what it held at first and the notes that are not spent. -/
theorem epochs_solvent (H : Ideal D.hash) (hD : D.Configured) {w₀ : World F T τ} (h₀ : Deployed D w₀)
    {calls : List Call} (hrun : Run (Transition D) w₀ calls w) (token : Address) :
    (D.token token).balanceOf (w₀.tokens token) D.address +
        unspent (noteValue token) (· ∈ w.spends.map Spend.note) w.minted ≤
      (D.token token).balanceOf (w.tokens token) D.address :=
  (Run.epochs_sound H hD h₀ hrun).2.covered token

end

/-! ## A deposit and its withdrawal -/

namespace PoolSample
variable (hash : List Unbounded → Unbounded) (root : Word)

def deployment : Deployment Unbounded (LeanImtTree (merkleHash hash)) (Address → Nat) where
  hash := hash
  imt := leanImt (merkleHash hash)
  address := 99
  chainVkHash := 0
  emptyImtRoot := root
  token _ := ledger Address
  verify _ _ _ := true

def key : Unbounded := ⟨7⟩
def note : Note Unbounded := ⟨⟨1⟩, ⟨5⟩, poseidon1 hash key, ⟨3⟩, ofU64 0⟩

def pool : ShieldedPoolExt (LeanImtTree (merkleHash hash)) where
  currentEpoch := 0
  frozenNullifierRoots _ := 0
  tree := (leanImt (merkleHash hash)).empty
  roots := .empty
  supportedTokens := Function.update (fun _ => false) 1 true
  depositVerifier := 1
  transferVerifier := 1
  insertionVerifier := 1
  withdrawVerifier := 1
  withdrawInsertionVerifier := 1
  owner := 8
  activeNullifierRoot := root
  activeLeafCount := 1

def funds : Address → Address → Nat := fun _ => Function.update (fun _ => 0) 6 5

def depositParams : DepositParams := ⟨[], ((note hash).commitment hash).val, 1, 5, []⟩

def nullifier : Unbounded := nullifierOf hash ((note hash).commitment hash) key (ofU64 0)

def chain : ChainInput Unbounded :=
  ⟨.base, ⟨(note hash).commitment hash, ofU64 0, ofU64 0, 0, ⟨0⟩⟩⟩

def withdrawParams (postActiveRoot : Word) : WithdrawParams where
  spendProof := []
  insertionProof := []
  nullifier := (nullifier hash).val
  token := 1
  amount := 5
  recipient := 6
  root := ((note hash).commitment hash).val
  epochCreated := 0
  postActiveRoot

variable {hash} {root}

theorem configured (h : Scalar.ofNat root = rootOf hash []) : (deployment hash root).Configured :=
  ⟨leanImt_lawful, fun _ => ledger_exact Address, fun _ _ _ => rfl, h⟩

/-- The first nullifier is inserted behind the genesis leaf. -/
theorem exists_insertion (H : Ideal hash) : ∃ (post : Unbounded) (ins : Insertion Unbounded),
    runInsertions hash ⟨rootOf hash [], post, 1, [nullifier hash]⟩ [ins] = .ok () ∧ ins.low.position = 0 := by
  have hne : nullifier hash ≠ 0 := H.ne_zero (List.cons_ne_nil _ _) (by simp)
  have hnew : Distinct [nullifier hash] := ⟨List.nodup_singleton _, fun h => hne (List.mem_singleton.mp h).symm,
    show 1 < 2 ^ 32 by decide⟩
  obtain ⟨ins, hins, hposition⟩ := @exists_insertOne _ _ _ _ [] H (@Distinct.of_append _ _ [] _ hnew) _ hnew
  exact ⟨_, ins, Offchain.runInsertions_one.mpr hins, Nat.lt_one_iff.mp hposition⟩

theorem exists_run (H : Ideal hash) (h : Scalar.ofNat root = rootOf hash []) : ∃ w₀ calls w, Deployed (deployment hash root) w₀ ∧
    Run (Transition (deployment hash root)) w₀ calls w ∧ w.minted = [note hash] ∧
    w.spends = [⟨note hash, key, 0⟩] := by
  have hne : (note hash).commitment hash ≠ 0 := H.ne_zero (List.cons_ne_nil _ _) (by simp)
  obtain ⟨tree, htree, -⟩ := @leanImt_insert_first _ _ _ (merkleHash hash) _ hne
  have hroot := leanImt_root_first hne htree
  obtain ⟨post, ins, hinsertion, hposition⟩ := exists_insertion H
  have hnew : ShieldedPoolExt.new (deployment hash root) 8 ⟨1, 1, 1, 1, 1⟩ =
      .ok { pool hash root with supportedTokens := fun _ => false } := by
    simp only [ShieldedPoolExt.new, bind_eq_ok, failIf_eq_ok, pure_eq_ok, exists_const]
    exact ⟨by decide, rfl⟩
  have hadmin : AdminCall.run ⟨{ pool hash root with supportedTokens := fun _ => false }, funds⟩ 8 (.addSupportedToken 1) =
      .ok (⟨pool hash root, funds⟩, [.tokenAdded 1]) := by
    simp only [AdminCall.run, onlyOwner, bind_eq_ok, failIf_eq_ok, pure_eq_ok, exists_const]
    exact ⟨not_not.mpr rfl, by decide, Bool.noConfusion, rfl⟩
  have hdeposit : deposit (deployment hash root) ⟨pool hash root, funds⟩ 6 (depositParams hash) =
      .ok (⟨{ pool hash root with tree }.recordRoot (deployment hash root), Function.update funds 1 (moved (funds 1) 6 99 5)⟩,
        [.deposit ((note hash).commitment hash).val 1 5 []]) := by
    simp only [deposit, bind_eq_ok, failIf_eq_ok, insert_eq_ok, okOr_eq_ok, pure_eq_ok, exists_const]
    exact ⟨Bool.noConfusion, show ¬ 5 = 0 by decide, Bool.noConfusion, _, ⟨rfl, tree, htree, rfl⟩, _,
      ledger_transferFrom (show 5 ≤ funds 1 6 by decide), rfl⟩
  have hwithdraw : ∃ c events, withdraw (deployment hash root) ⟨{ pool hash root with tree }.recordRoot (deployment hash root),
      Function.update funds 1 (moved (funds 1) 6 99 5)⟩ (withdrawParams hash post.val) = .ok (c, events) := by
    simp only [withdraw, verifyInsertionAndAdvance, bind_eq_ok, failIf_eq_ok, okOr_eq_ok, pure_eq_ok,
      exists_const, Prod.mk.injEq]
    refine ⟨_, _, Bool.noConfusion, show ¬ 5 = 0 by decide, show ¬ (6 : Address) = 0 by decide, ?_, Bool.noConfusion, _, ⟨Bool.noConfusion, ?_, rfl⟩, _,
      ledger_transfer (show 5 ≤ Function.update funds 1 (moved (funds 1) 6 99 5) 1 99 by decide), rfl, rfl⟩
    · rw [Bool.not_eq_false, isKnownRoot, Bool.or_eq_true, decide_eq_true_eq]
      exact .inl (congrArg Unbounded.val hroot.symm)
    · exact show ¬ 2 ^ 64 ≤ 1 + 1 by decide
  obtain ⟨c, events, hwithdraw⟩ := hwithdraw
  have hrun := ((@Run.nil _ _ (Transition (deployment hash root))
    ⟨⟨{ pool hash root with supportedTokens := fun _ => false }, funds⟩, [], [], []⟩).cons (.admin hadmin)).cons
    (@Transition.deposit _ _ _ _ _ _ _ _ _ _ ⟨(note hash).commitment hash, ⟨1⟩, ⟨5⟩, 0⟩
      ⟨poseidon1 hash key, ⟨3⟩⟩ hdeposit (show (6 : Address) ≠ 99 by decide) rfl (require_eq_ok.mpr rfl))
  refine ⟨_, _, _, .mk hnew, hrun.cons (@Transition.withdraw _ _ _ _ _ _ _ _ _
    ⟨nullifier hash, ⟨1⟩, ⟨5⟩, ⟨6⟩, (note hash).commitment hash, ofU64 0, ⟨0⟩, ofU64 0, 0⟩
    ⟨key, ⟨3⟩, 0, fun _ => 0, fun _ => false, chain hash⟩ hwithdraw rfl ?_
    ⟨_, [ins], ?_, hinsertion, hposition.trans_lt Nat.one_pos, trivial⟩ ?_), rfl, rfl⟩
  · refine withdrawMain_eq_ok.mpr ⟨?_, rfl, verifyInputChain_eq_ok.mpr ⟨?_, rfl⟩⟩
    · rw [verifyMembership, require_eq_ok, Compliance.binaryMerkleRoot_eq_foldPath,
        List.filter_eq_nil_iff.mpr fun i _ hi => Nat.not_lt_zero _ (of_decide_eq_true hi)]
      rfl
    · simp only [chain, chainUpdateMain, bind_eq_ok, require_eq_ok, exists_const]
      exact ⟨trivial, trivial⟩
  · simp only [← h]
    rfl
  · intro k fold hfold
    cases hfold

def genesisRoot : Word := (treeOf idealHash []).root idealHash

theorem ofNat_genesisRoot : Scalar.ofNat genesisRoot = rootOf idealHash [] := rfl

end PoolSample

open PoolSample

open PoolSample (genesisRoot ofNat_genesisRoot)

theorem notes_spent_once_sample : ∃ w₀ calls w, Deployed (deployment idealHash genesisRoot) w₀ ∧
    Run (Transition (deployment idealHash genesisRoot)) w₀ calls w ∧ w.spends ≠ [] ∧
    ∀ s ∈ w.spends, s.note.Live → s.note ∈ w.minted ∧ s.Owned idealHash := by
  obtain ⟨w₀, calls, w, h₀, hrun, -, hspends⟩ := exists_run idealHash_ideal ofNat_genesisRoot
  exact ⟨w₀, calls, w, h₀, hrun, hspends ▸ List.cons_ne_nil _ _,
    (notes_spent_once idealHash_ideal (configured ofNat_genesisRoot) h₀ hrun).2.1⟩

theorem epochs_solvent_sample : ∃ w₀ calls w, Deployed (deployment idealHash genesisRoot) w₀ ∧
    Run (Transition (deployment idealHash genesisRoot)) w₀ calls w ∧ w.minted = [note idealHash] ∧
    ∀ token, w₀.tokens token 99 + unspent (noteValue token) (· ∈ w.spends.map Spend.note) w.minted ≤
      w.tokens token 99 := by
  obtain ⟨w₀, calls, w, h₀, hrun, hminted, -⟩ := exists_run idealHash_ideal ofNat_genesisRoot
  exact ⟨w₀, calls, w, h₀, hrun, hminted, epochs_solvent idealHash_ideal (configured ofNat_genesisRoot) h₀ hrun⟩

end Pocs.Epochs

import Pocs.Mmf.System

/-! # The notes of the fund

An accepted call comes with a proof about exactly its own arguments and the state it was checked
against (`DepositAccepted.proved` and its siblings). `Ledger` lists the notes behind the leaves of the
tree: all of the pool's token, with the total of units equal to the units of those whose nullifier is
not recorded. -/

namespace Pocs.Mmf

open Compliance (BnField Word Address Ideal merkleHash merkleVerify mem_of_merkleVerify
  merkleVerify_zero MerklePath ofU64 ofAddress)

variable {F T τ : Type} [FeedField F]

/-! ## What the proof of a call is about -/

section
variable (D : Deployment F T τ) (w : World T τ)

def pointOf (point : Word × Word) : F × F := (Scalar.ofNat point.1, Scalar.ofNat point.2)

def DepositParams.toPublic (sender : Address) (p : DepositParams) : DepositPublic F where
  commitment := Scalar.ofNat p.commitment
  token := ofAddress D.tokenAddress
  units := p.units
  fundingAddress := ofAddress sender
  attestationRoot := Scalar.ofNat p.attestationRoot
  minAcceptedGeneration := w.registry.minAcceptedGeneration D.toRegistryConfig w.timestamp
  epoch := .ofNat p.epoch
  chainId := Scalar.ofNat D.chainId
  pool := ofAddress D.address
  registerKey := pointOf w.pool.registerKey
  feedR := pointOf p.feedR
  feedCt i := Scalar.ofNat (p.feedCt i)
  payloadCommitment := Scalar.ofNat (payloadCommitment D p.recipientPayload)

def TransferParams.toPublic (p : TransferParams) : TransferPublic F where
  nullifier0 := Scalar.ofNat p.nullifier0
  nullifier1 := Scalar.ofNat p.nullifier1
  commitmentOut0 := Scalar.ofNat p.commitmentOut0
  commitmentOut1 := Scalar.ofNat p.commitmentOut1
  commitmentRoot := Scalar.ofNat p.commitmentRoot
  attestationRoot := Scalar.ofNat p.attestationRoot
  minAcceptedGeneration := w.registry.minAcceptedGeneration D.toRegistryConfig w.timestamp
  epoch := .ofNat p.epoch
  chainId := Scalar.ofNat D.chainId
  pool := ofAddress D.address
  claimKeyHash := Scalar.ofNat w.pool.claimKeyHash
  registerKey := pointOf w.pool.registerKey
  feedR := pointOf p.feedR
  feedCt i := Scalar.ofNat (p.feedCt i)
  payloadCommitment := Scalar.ofNat (payloadCommitment D p.recipientPayload)

def WithdrawParams.toPublic (p : WithdrawParams) : WithdrawPublic F where
  nullifier := Scalar.ofNat p.nullifier
  token := ofAddress D.tokenAddress
  units := p.units
  recipient := ofAddress p.recipient
  commitmentRoot := Scalar.ofNat p.commitmentRoot
  attestationRoot := Scalar.ofNat p.attestationRoot
  minAcceptedGeneration := w.registry.minAcceptedGeneration D.toRegistryConfig w.timestamp
  epoch := .ofNat p.epoch
  chainId := Scalar.ofNat D.chainId
  pool := ofAddress D.address

end

variable {D : Deployment F T τ} {w w' : World T τ} {tr : List Step} {sender : Address}
  {events : List PoolEvent} {call : PoolCall}

theorem epoch_of_word {n : Word} (hn : BnField.canonical F n = true) {x : UInt64}
    (h : Scalar.ofNat n = (ofU64 x : F)) : x = .ofNat n ∧ n < 2 ^ 64 := by
  obtain rfl := Compliance.toNat_of_word hn h
  exact ⟨UInt64.ofNat_toNat.symm, x.toNat_lt⟩

theorem DepositParams.public_eq {p : DepositParams} {pub : DepositPublic F}
    (hepoch : BnField.canonical F p.epoch = true) (h : (p.inputs D w sender).map Scalar.ofNat = pub.toFields) :
    pub = p.toPublic D w sender ∧ p.epoch < 2 ^ 64 := by
  obtain ⟨_, _, units, _, _, generation, epoch, _, _, ⟨_, _⟩, ⟨_, _⟩, ct, _⟩ := pub
  simp only [inputs, DepositPublic.toFields, List.map_append, List.map_ofFn, List.map_cons,
    List.map_nil, List.cons_append, List.nil_append, List.cons.injEq] at h
  obtain ⟨rfl, rfl, hunits, rfl, rfl, hgeneration, hword, rfl, rfl, rfl, rfl, rfl, rfl, h⟩ := h
  obtain ⟨hct, hpayload⟩ := List.append_inj h (by simp)
  cases List.ofFn_injective hct
  cases Compliance.ofU64_inj hunits
  cases Compliance.ofU64_inj hgeneration
  obtain ⟨rfl, hlt⟩ := epoch_of_word hepoch hword
  cases hpayload
  exact ⟨rfl, hlt⟩

theorem TransferParams.public_eq {p : TransferParams} {pub : TransferPublic F}
    (hepoch : BnField.canonical F p.epoch = true) (h : (p.inputs D w).map Scalar.ofNat = pub.toFields) :
    pub = p.toPublic D w ∧ p.epoch < 2 ^ 64 := by
  obtain ⟨_, _, _, _, _, _, generation, epoch, _, _, _, ⟨_, _⟩, ⟨_, _⟩, ct, _⟩ := pub
  simp only [inputs, TransferPublic.toFields, List.map_append, List.map_ofFn, List.map_cons,
    List.map_nil, List.cons_append, List.nil_append, List.cons.injEq] at h
  obtain ⟨rfl, rfl, rfl, rfl, rfl, rfl, hgeneration, hword, rfl, rfl, rfl, rfl, rfl, rfl, rfl, h⟩ := h
  obtain ⟨hct, hpayload⟩ := List.append_inj h (by simp)
  cases List.ofFn_injective hct
  cases Compliance.ofU64_inj hgeneration
  obtain ⟨rfl, hlt⟩ := epoch_of_word hepoch hword
  cases hpayload
  exact ⟨rfl, hlt⟩

theorem WithdrawParams.public_eq {p : WithdrawParams} {pub : WithdrawPublic F}
    (hepoch : BnField.canonical F p.epoch = true) (h : (p.inputs D w).map Scalar.ofNat = pub.toFields) :
    pub = p.toPublic D w ∧ p.epoch < 2 ^ 64 := by
  obtain ⟨_, _, units, _, _, _, generation, epoch, _, _⟩ := pub
  simp only [inputs, WithdrawPublic.toFields, List.map_cons, List.map_nil, List.cons.injEq, and_true] at h
  obtain ⟨rfl, rfl, hunits, rfl, rfl, rfl, hgeneration, hword, rfl, rfl⟩ := h
  cases Compliance.ofU64_inj hunits
  cases Compliance.ofU64_inj hgeneration
  obtain ⟨rfl, hlt⟩ := epoch_of_word hepoch hword
  exact ⟨rfl, hlt⟩

section
variable (hV : D.Sound)
include hV

theorem DepositAccepted.proved {p : DepositParams} {m shares : Nat}
    (h : DepositAccepted D sender w w' p m shares) :
    ∃ wit, depositMain D.toPrimitives (p.toPublic D w sender) wit = .ok () ∧ p.epoch < 2 ^ 64 := by
  obtain ⟨pub, wit, hinputs, hmain⟩ := hV.deposit h.proof
  obtain ⟨rfl, hlt⟩ := DepositParams.public_eq (h.canonical _ (by simp [DepositParams.inputs])) hinputs
  exact ⟨wit, hmain, hlt⟩

theorem TransferAccepted.proved {p : TransferParams} (h : TransferAccepted D w w' p) :
    ∃ wit, transferMain D.toPrimitives (p.toPublic D w) wit = .ok () ∧ p.epoch < 2 ^ 64 := by
  obtain ⟨pub, wit, hinputs, hmain⟩ := hV.transfer h.proof
  obtain ⟨rfl, hlt⟩ := TransferParams.public_eq (h.canonical _ (by simp [TransferParams.inputs])) hinputs
  exact ⟨wit, hmain, hlt⟩

theorem WithdrawAccepted.proved {p : WithdrawParams} {m shares : Nat} (h : WithdrawAccepted D w w' p m shares) :
    ∃ wit, withdrawMain D.toPrimitives (p.toPublic D w) wit = .ok () ∧ p.epoch < 2 ^ 64 := by
  obtain ⟨pub, wit, hinputs, hmain⟩ := hV.withdraw h.proof
  obtain ⟨rfl, hlt⟩ := WithdrawParams.public_eq (h.canonical _ (by simp [WithdrawParams.inputs])) hinputs
  exact ⟨wit, hmain, hlt⟩

end

/-- The nullifier of the note is `n`. -/
def Note.Nullifies (P : Primitives F) (note : Note F) (n : F) : Prop :=
  ∃ key nk, note.owner = ownerValue P key nk ∧ n = nullifier P (note.commitment P) nk

namespace Note.Nullifies
variable {P : Primitives F} {note note' : Note F} {n n' : F}

/-- A note has one nullifier, whoever spends it. -/
theorem unique (H : Ideal P.hash) (h : note.Nullifies P n) (h' : note.Nullifies P n') : n = n' := by
  obtain ⟨key, nk, howner, rfl⟩ := h
  obtain ⟨key', nk', howner', rfl⟩ := h'
  rw [nk_of_ownerValue H (howner.symm.trans howner')]

/-- A nullifier belongs to one note. -/
theorem inj (H : Ideal P.hash) (h : note.Nullifies P n) (h' : note'.Nullifies P n) : note = note' := by
  obtain ⟨key, nk, -, hn⟩ := h
  obtain ⟨key', nk', -, hn'⟩ := h'
  exact Note.commitment_inj H (H.hash2_inj (hn.symm.trans hn')).1

end Note.Nullifies

/-- The pool recorded the nullifier of the note. -/
def Spent (D : Deployment F T τ) (w : World T τ) (note : Note F) : Prop :=
  ∃ n, note.Nullifies D.toPrimitives n ∧ w.pool.nullifiers (Scalar.toNat n) = true

/-! ## Openings -/

/-- A proof for the call opens the note at the nullifier slot, on either path. -/
inductive Opens (D : Deployment F T τ) : PoolCall → Nat → Note F → Prop where
  | transfer {p w wit} (main : transferMain D.toPrimitives (TransferParams.toPublic D w p) wit = .ok ())
    (j : Fin 2) : Opens D (.transfer p) j.val (wit.input D.toPrimitives j)
  | withdraw {p w wit} (main : withdrawMain D.toPrimitives (WithdrawParams.toPublic D w p) wit = .ok ()) :
    Opens D (.withdraw p) 0 (withdrawNote D.toPrimitives (p.toPublic D w) wit)

/-- Both nullifiers of a transfer are those of its inputs. -/
theorem TransferOk.nullifies {P : Primitives F} {pub : TransferPublic F} {wit : TransferWitness F}
    (h : TransferOk P pub wit) : (wit.input P 0).Nullifies P pub.nullifier0 ∧
      (wit.input P 1).Nullifies P pub.nullifier1 :=
  ⟨⟨_, _, rfl, h.nullifier0⟩, _, _, rfl, h.nullifier1⟩

theorem WithdrawOk.nullifies {P : Primitives F} {pub : WithdrawPublic F} {wit : WithdrawWitness F}
    (h : WithdrawOk P pub wit) : (withdrawNote P pub wit).Nullifies P pub.nullifier :=
  ⟨_, _, rfl, h.nullifier⟩

/-- The word at the slot is the nullifier of the note. -/
theorem Opens.nullifies {slot : Nat} {note : Note F} (h : Opens D call slot note) :
    ∃ n, call.nullifiers[slot]? = some n ∧ note.Nullifies D.toPrimitives (Scalar.ofNat n) := by
  cases h with
  | @transfer p w wit main j =>
    obtain ⟨h0, h1⟩ := (transferMain_ok main).nullifies
    fin_cases j
    · exact ⟨p.nullifier0, rfl, h0⟩
    · exact ⟨p.nullifier1, rfl, h1⟩
  | @withdraw p w wit main => exact ⟨p.nullifier, rfl, (withdrawMain_ok main).nullifies⟩

/-- The proof of an accepted call opens a note in each slot. -/
theorem PoolStep.exists_opens (hV : D.Sound) (h : PoolStep D sender w w' events call) {slot : Nat}
    (hslot : slot < call.nullifiers.length) : ∃ note, Opens D call slot note := by
  cases h with
  | deposit => cases hslot
  | transfer accepted =>
    obtain ⟨wit, hmain, -⟩ := accepted.proved hV
    exact ⟨_, .transfer hmain ⟨slot, hslot⟩⟩
  | withdraw accepted =>
    obtain ⟨wit, hmain, -⟩ := accepted.proved hV
    obtain rfl := Nat.lt_one_iff.mp hslot
    exact ⟨_, .withdraw hmain⟩
  | governed _ nullifiers =>
    rw [nullifiers] at hslot
    cases hslot

/-- An accepted call opens a note of positive units against a root the pool knows. -/
theorem PoolStep.included (h : PoolStep D sender w w' events call) {slot : Nat} {note : Note F}
    (ho : Opens D call slot note) (hunits : note.units ≠ 0) :
    ∃ r, ∃ path : MerklePath F maxCommitmentTreeDepth, isKnownRoot D w r = true ∧
      merkleVerify D.hash (note.commitment D.toPrimitives) (Scalar.ofNat r) path = .ok () := by
  cases h with
  | deposit => cases ho
  | @transfer p accepted =>
    cases ho with
    | transfer main j =>
      refine ⟨p.commitmentRoot, ?_⟩
      fin_cases j
      · exact ⟨_, accepted.root, (transferMain_ok main).included0⟩
      · exact ⟨_, accepted.root, (transferMain_ok main).included1 hunits⟩
  | @withdraw p m shares accepted =>
    cases ho with
    | withdraw main => exact ⟨p.commitmentRoot, _, accepted.root, (withdrawMain_ok main).included⟩
  | governed _ nullifiers =>
    obtain ⟨n, hn, -⟩ := ho.nullifies
    rw [nullifiers] at hn
    cases hn

/-! ## The notes behind the leaves -/

structure Ledger (D : Deployment F T τ) (w : World T τ) (notes : List (Note F)) : Prop where
  leaves : D.imt.leaves w.pool.tree = notes.map (Note.commitment D.toPrimitives)
  token : ∀ note ∈ notes, note.token = ofAddress D.tokenAddress
  /-- Padding aside, only notes of the tree are spent. -/
  spent : ∀ note, note.units.toNat ≠ 0 → Spent D w note → note ∈ notes
  units : w.pool.totalUnits = unspent (fun note => note.units.toNat) (Spent D w) notes

section
variable {notes : List (Note F)}

theorem Ledger.nodup (ledger : Ledger D w notes) (inv : PoolInv D tr w) : notes.Nodup := by
  have hnodup := inv.nodup
  rw [ledger.leaves] at hnodup
  exact hnodup.of_map _

/-- A note that verifies against a known root is one of them. -/
theorem Ledger.mem_of_verify (ledger : Ledger D w notes) (H : Ideal D.hash)
    (hL : D.imt.Lawful (merkleHash D.hash)) (inv : PoolInv D tr w) {r : Word}
    (hr : isKnownRoot D w r = true) {note : Note F} {maxDepth : Nat} {path : MerklePath F maxDepth}
    (hverify : merkleVerify D.hash (note.commitment D.toPrimitives) (Scalar.ofNat r) path = .ok ()) :
    note ∈ notes := by
  rcases inv.known hL hr with hzero | hspans
  · rw [hzero] at hverify
    exact absurd hverify (merkleVerify_zero H (List.cons_ne_nil _ _) (Nat.le_refl _))
  · have hleaves : ∀ y ∈ D.imt.leaves w.pool.tree, ∀ l r, y ≠ merkleHash D.hash l r := by
      intro y hy l r
      rw [ledger.leaves] at hy
      obtain ⟨note', -, rfl⟩ := List.mem_map.mp hy
      exact Note.commitment_ne_node H l r
    have hmem := mem_of_merkleVerify H hleaves hverify hspans (Note.commitment_ne_node H)
    rw [ledger.leaves] at hmem
    obtain ⟨note', hnote', he⟩ := List.mem_map.mp hmem
    exact Note.commitment_inj H he ▸ hnote'

structure Consumes (D : Deployment F T τ) (nullifiers : List Word) (opened : List (Note F)) : Prop where
  nodup : opened.Nodup
  marked : ∀ note ∈ opened, ∃ n ∈ nullifiers, note.Nullifies D.toPrimitives (Scalar.ofNat n)
  only : ∀ n ∈ nullifiers, ∃ note ∈ opened, note.Nullifies D.toPrimitives (Scalar.ofNat n)

variable {nullifiers leaves : List Word} {opened : List (Note F)}

theorem spent_iff (H : Ideal D.hash) (adm : Admitted D w w' nullifiers leaves)
    (hc : Consumes D nullifiers opened) (note : Note F) : Spent D w' note ↔ Spent D w note ∨ note ∈ opened := by
  constructor
  · intro ⟨n, hnote, hmarked⟩
    rcases (adm.marks _).mp hmarked with hnew | hold
    · obtain ⟨note', hmem, hnote'⟩ := hc.only _ hnew
      rw [BnField.ofNat_toNat] at hnote'
      exact .inr (hnote'.inj H hnote ▸ hmem)
    · exact .inl ⟨n, hnote, hold⟩
  · rintro (⟨n, hnote, hold⟩ | hmem)
    · exact ⟨n, hnote, (adm.marks _).mpr (.inr hold)⟩
    · obtain ⟨n, hn, hnote⟩ := hc.marked note hmem
      refine ⟨_, hnote, (adm.marks _).mpr (.inl ?_)⟩
      rwa [BnField.toNat_ofNat_of_canonical (adm.canonical n (List.mem_append_left _ hn))]

theorem not_spent (H : Ideal D.hash) (adm : Admitted D w w' nullifiers leaves)
    (hc : Consumes D nullifiers opened) {note : Note F} (hmem : note ∈ opened) : ¬ Spent D w note := by
  intro ⟨n, hnote, hmarked⟩
  obtain ⟨n', hn', hnote'⟩ := hc.marked note hmem
  rw [hnote.unique H hnote', BnField.toNat_ofNat_of_canonical (adm.canonical n' (List.mem_append_left _ hn')),
    adm.fresh n' hn'] at hmarked
  cases hmarked

/-- Opening notes of the tree and minting as many units, up to what enters or leaves the pool. -/
theorem Ledger.step (opened minted : List (Note F)) (ledger : Ledger D w notes) (H : Ideal D.hash)
    (hL : D.imt.Lawful (merkleHash D.hash)) (inv : PoolInv D tr w)
    (adm : Admitted D w w' nullifiers leaves) (hc : Consumes D nullifiers opened)
    (hopened : ∀ note ∈ opened, note.units.toNat ≠ 0 → note ∈ notes)
    (hminted : leaves.map Scalar.ofNat = minted.map (Note.commitment D.toPrimitives))
    (htoken : ∀ note ∈ minted, note.token = ofAddress D.tokenAddress)
    (hunits : w'.pool.totalUnits + (opened.map fun note => note.units.toNat).sum =
      w.pool.totalUnits + (minted.map fun note => note.units.toNat).sum) : Ledger D w' (notes ++ minted) := by
  have hleaves : D.imt.leaves w'.pool.tree = (notes ++ minted).map (Note.commitment D.toPrimitives) := by
    rw [hL.insertAll adm.tree, ledger.leaves, hminted, List.map_append]
  have hnodup : (notes ++ minted).Nodup := by
    have hnew := hL.insertAll_nodup adm.tree inv.nodup
    rw [hleaves] at hnew
    exact hnew.of_map _
  have hold : ∀ note : Note F, note.units.toNat ≠ 0 → Spent D w' note → note ∈ notes := by
    intro note hne hspent
    rcases (spent_iff H adm hc note).mp hspent with h | h
    · exact ledger.spent note hne h
    · exact hopened note h hne
  refine ⟨hleaves, fun note hmem => ?_, fun note hne h => List.mem_append_left _ (hold note hne h), ?_⟩
  · rcases List.mem_append.mp hmem with h | h
    · exact ledger.token note h
    · exact htoken note h
  · -- what was minted is new, so it is not spent
    have hfresh : unspent (fun note : Note F => note.units.toNat) (Spent D w') minted =
        (minted.map fun note => note.units.toNat).sum :=
      unspent_of_fresh fun note hmem hne h =>
        (List.nodup_append.mp hnodup).2.2 note (hold note hne h) note hmem rfl
    have hspends : unspent (fun note : Note F => note.units.toNat) (Spent D w') notes +
        (opened.map fun note => note.units.toNat).sum =
          unspent (fun note => note.units.toNat) (Spent D w) notes :=
      unspent_spendAll (ledger.nodup inv) hc.nodup
      (fun note hmem hne => ⟨hopened note hmem hne, not_spent H adm hc hmem⟩)
      (fun note _ => spent_iff H adm hc note)
    have hbefore := ledger.units
    rw [unspent_append, hfresh]
    omega

end

end Pocs.Mmf

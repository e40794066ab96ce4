import Pocs.Compliance.Notes

/-! # Spends of value notes

`Opens` says which note a nullifier slot of a call opens, in a transfer, a gated or an ungated
withdrawal. The nullifier of a note is the same on every path, so a run spends a note in at most one
slot of one call (`PoolInv.openedOnce`); and a note of positive amount that is opened was minted
(`PoolStep.opened`). -/

namespace Pocs.Compliance

open TransferPublic

variable {F T τ : Type} [BnField F] {D : Deployment F T τ} {w w' : World F T τ} {tr : List Step}
  {sender : Address} {call : PoolCall} {slot : Nat}

/-- What a spender knows of a value note. -/
@[ext]
structure Note (F : Type) where
  token : F
  amount : F
  spendingKey : F
  salt : F

namespace Note

def commitment (hash : List F → F) (note : Note F) : F :=
  noteCommitment hash note.token note.amount (hash [note.spendingKey]) note.salt

def nullifier (hash : List F → F) (note : Note F) : F :=
  noteNullifier hash (note.commitment hash) note.spendingKey

theorem commitment_inj {hash : List F → F} (H : Ideal hash) {note note' : Note F}
    (h : note.commitment hash = note'.commitment hash) : note = note' := by
  obtain ⟨htoken, hamount, howner, hsalt⟩ := H.hash4_inj h
  exact Note.ext htoken hamount (H.hash1_inj howner) hsalt

theorem nullifier_inj {hash : List F → F} (H : Ideal hash) {note note' : Note F}
    (h : note.nullifier hash = note'.nullifier hash) : note = note' :=
  commitment_inj H (H.hash2_inj h).1

end Note

def TransferWitness.note0 (wit : TransferWitness F) : Note F :=
  ⟨wit.tokenIn0, ofU64 wit.amountIn0, wit.spendingKey, wit.saltIn0⟩

/-- The second input of a transfer, which may be padding. -/
def TransferWitness.note1 (wit : TransferWitness F) : Note F :=
  ⟨wit.tokenIn1, ofU64 wit.amountIn1, wit.spendingKey, wit.saltIn1⟩

/-- The note that the nullifier of the call opens. -/
inductive Opens (D : Deployment F T τ) : PoolCall → Nat → Note F → Prop where
  | transfer0 {p pub wit} (inputs : p.inputs.map Scalar.ofNat = toFields pub)
    (main : transferMain D.hash D.policyTag pub wit = .ok ()) : Opens D (.transfer p) 0 wit.note0
  | transfer1 {p pub wit} (inputs : p.inputs.map Scalar.ofNat = toFields pub)
    (main : transferMain D.hash D.policyTag pub wit = .ok ()) : Opens D (.transfer p) 1 wit.note1
  | withdraw {p pub wit} (inputs : p.inputs.map Scalar.ofNat = WithdrawPublic.toFields pub)
    (main : withdrawMain D.hash D.policyTag pub wit = .ok ()) :
    Opens D (.withdraw p) 0 ⟨pub.token, ofU64 pub.amount, wit.spendingKey, wit.salt⟩
  | withdrawBlocked {p pub wit} (inputs : p.inputs.map Scalar.ofNat = UngatedWithdrawPublic.toFields pub)
    (main : withdrawUngatedMain D.hash pub wit = .ok ()) :
    Opens D (.withdrawBlocked p) 0 ⟨pub.token, pub.amount, wit.spendingKey, wit.salt⟩

/-- The word at the slot is the nullifier of the note. -/
theorem Opens.nullifier {note : Note F} (h : Opens D call slot note) :
    ∃ n, call.nullifiers[slot]? = some n ∧ Scalar.ofNat n = note.nullifier D.hash := by
  cases h with
  | @transfer0 p pub wit inputs main =>
    simp only [TransferParams.inputs, toFields, List.map_cons, List.cons.injEq] at inputs
    exact ⟨p.nullifier0, rfl, inputs.1.trans (transferMain_ok main).1.nullifier0⟩
  | @transfer1 p pub wit inputs main =>
    simp only [TransferParams.inputs, toFields, List.map_cons, List.cons.injEq] at inputs
    exact ⟨p.nullifier1, rfl, inputs.2.1.trans (transferMain_ok main).1.nullifier1⟩
  | @withdraw p pub wit inputs main =>
    simp only [WithdrawParams.inputs, WithdrawPublic.toFields, List.map_cons, List.cons.injEq] at inputs
    exact ⟨p.nullifier, rfl, inputs.1.trans (withdrawMain_ok main).2.1⟩
  | @withdrawBlocked p pub wit inputs main =>
    simp only [WithdrawBlockedParams.inputs, UngatedWithdrawPublic.toFields, List.map_cons,
      List.cons.injEq] at inputs
    exact ⟨p.nullifier, rfl, inputs.1.trans (withdrawUngatedMain_ok main).2⟩

/-- The number of slots of a call that open notes. -/
def PoolCall.spends : PoolCall → Nat
  | .transfer _ => 2
  | .withdraw _ => 1
  | .withdrawBlocked _ => 1
  | _ => 0

/-- The proof of an accepted call opens a note in each slot. -/
theorem PoolStep.exists_opens (hV : D.Sound) (h : PoolStep D sender w w' call)
    (hslot : slot < call.spends) : ∃ note, Opens D call slot note := by
  cases h with
  | deposit | claimBlocked => cases hslot
  | transfer accepted =>
    obtain ⟨verifier, hproof⟩ := accepted.proof
    obtain ⟨pub, wit, hinputs, hmain⟩ := hV.transfer hproof
    obtain rfl | rfl : slot = 0 ∨ slot = 1 := by
      simp only [PoolCall.spends] at hslot
      omega
    · exact ⟨_, .transfer0 hinputs hmain⟩
    · exact ⟨_, .transfer1 hinputs hmain⟩
  | withdraw accepted =>
    obtain ⟨verifier, hproof⟩ := accepted.proof
    obtain ⟨pub, wit, hinputs, hmain⟩ := hV.withdraw hproof
    obtain rfl := Nat.lt_one_iff.mp hslot
    exact ⟨_, .withdraw hinputs hmain⟩
  | withdrawBlocked accepted =>
    obtain ⟨verifier, hproof⟩ := accepted.proof
    obtain ⟨pub, wit, hinputs, hmain⟩ := hV.ungated hproof
    obtain rfl := Nat.lt_one_iff.mp hslot
    exact ⟨_, .withdrawBlocked hinputs hmain⟩
  | governed _ nullifiers =>
    cases call with
    | transfer | withdraw | withdrawBlocked => cases nullifiers
    | _ => cases hslot

/-- An accepted call opens a note of positive amount against a root the pool knows. -/
theorem PoolStep.included {note : Note F} (h : PoolStep D sender w w' call)
    (ho : Opens D call slot note) (hamount : note.amount ≠ 0) :
    ∃ r, ∃ path : MerklePath F maxCommitmentTreeDepth, isKnownRoot D w r = true ∧
      merkleVerify D.hash (note.commitment D.hash) (Scalar.ofNat r) path = .ok () := by
  cases h with
  | deposit | claimBlocked => cases ho
  | @transfer p accepted =>
    cases ho with
    | transfer0 inputs main =>
      simp only [TransferParams.inputs, toFields, List.map_cons, List.cons.injEq] at inputs
      have hincluded := (transferMain_ok main).1.included0
      rw [← inputs.2.2.2.2.1] at hincluded
      exact ⟨p.commitmentRoot, _, accepted.root, hincluded⟩
    | @transfer1 _ _ wit inputs main =>
      simp only [TransferParams.inputs, toFields, List.map_cons, List.cons.injEq] at inputs
      -- inclusion is skipped for zero only
      have hne : wit.amountIn1 ≠ 0 := by
        intro hzero
        apply hamount
        rw [TransferWitness.note1, hzero]
        exact ofU64_zero
      have hincluded := (transferMain_ok main).1.included1 hne
      rw [← inputs.2.2.2.2.1] at hincluded
      exact ⟨p.commitmentRoot, _, accepted.root, hincluded⟩
  | @withdraw p accepted =>
    cases ho with
    | withdraw inputs main =>
      simp only [WithdrawParams.inputs, WithdrawPublic.toFields, List.map_cons, List.cons.injEq] at inputs
      have hincluded := (withdrawMain_ok main).1
      rw [← inputs.2.2.2.2.1] at hincluded
      exact ⟨p.commitmentRoot, _, accepted.root, hincluded⟩
  | @withdrawBlocked p accepted =>
    cases ho with
    | withdrawBlocked inputs main =>
      simp only [WithdrawBlockedParams.inputs, UngatedWithdrawPublic.toFields, List.map_cons,
        List.cons.injEq] at inputs
      have hincluded := (withdrawUngatedMain_ok main).1
      rw [← inputs.2.2.2.2.1] at hincluded
      exact ⟨p.commitmentRoot, _, accepted.root, hincluded⟩
  | governed _ nullifiers =>
    obtain ⟨n, hn, -⟩ := ho.nullifier
    rw [nullifiers] at hn
    cases hn

/-- A note that stands for value: minted by an earlier call in the pool's token, and neither a
compliance note, nor a note of amount zero, nor a node of the tree. -/
structure Opened (D : Deployment F T τ) (tr : List Step) (note : Note F) : Prop where
  minted : ∃ n ∈ minted tr, Scalar.ofNat n = note.commitment D.hash
  token : note.token = ofAddress D.tokenAddress
  amount : ∃ a, note.amount = ofU64 a
  not_compliance : ∀ owner state salt, note.commitment D.hash ≠ complianceNote D.hash owner state salt
  not_zero : ∀ token owner salt, note.commitment D.hash ≠ noteCommitment D.hash token 0 owner salt
  not_node : ∀ l r, note.commitment D.hash ≠ merkleHash D.hash l r

theorem PoolStep.opened (H : Ideal D.hash) (hL : D.imt.Lawful (merkleHash D.hash))
    (inv : PoolInv D tr w) (leaf : LeafInv D tr) {note : Note F} (h : PoolStep D sender w w' call)
    (ho : Opens D call slot note) (hamount : note.amount ≠ 0) : Opened D tr note := by
  obtain ⟨r, path, hr, hverify⟩ := h.included ho hamount
  obtain ⟨minted, token, amount⟩ := exists_minted H hL inv leaf hr hverify
  refine ⟨minted, token, amount, fun owner state salt he => ?_, fun t owner salt he => ?_, fun l r he => ?_⟩
  · have htag := (H.hash4_inj he).1
    rw [token] at htag
    exact cnTag_ne_ofAddress D.tokenAddress htag.symm
  · exact hamount (H.hash4_inj he).2.1
  · exact H.ne_of_length (by simp) (by simp) (by simp) (by simp) (by simp) he

/-- A nullifier stands in one slot of one call of a run. -/
theorem PoolInv.slot_unique (inv : PoolInv D tr w) {i j slot slot' : Nat} {sender sender' : Address}
    {call call' : PoolCall} {n : Word} (hi : tr[i]? = some (.pool sender call))
    (hj : tr[j]? = some (.pool sender' call')) (hn : call.nullifiers[slot]? = some n)
    (hn' : call'.nullifiers[slot']? = some n) : i = j ∧ slot = slot' := by
  have hmem : n ∈ (Step.pool sender call).nullifiers := List.mem_of_getElem? hn
  have hmem' : n ∈ (Step.pool sender' call').nullifiers := List.mem_of_getElem? hn'
  have hij : i = j := index_eq_of_mem inv.marked_nodup hi hj hmem hmem'
  subst hij
  obtain ⟨-, rfl⟩ := Step.pool.inj (Option.some.inj (hi.symm.trans hj))
  refine ⟨rfl, ?_⟩
  have hcall : call.nullifiers.Nodup :=
    (List.nodup_flatMap.mp inv.marked_nodup).1 _ (List.mem_of_getElem? hi)
  obtain ⟨hs, hgets⟩ := List.getElem?_eq_some_iff.mp hn
  obtain ⟨hs', hgets'⟩ := List.getElem?_eq_some_iff.mp hn'
  exact (hcall.getElem_inj_iff).mp (hgets.trans hgets'.symm)

/-- The calls of a run open a note in one slot of one call, on whichever path. -/
def OpenedOnce (D : Deployment F T τ) (tr : List Step) : Prop :=
  ∀ (i j slot slot' : Nat) (sender sender' : Address) (call call' : PoolCall) (note note' : Note F),
    tr[i]? = some (.pool sender call) → tr[j]? = some (.pool sender' call') →
    Opens D call slot note → Opens D call' slot' note' →
    note.commitment D.hash = note'.commitment D.hash → i = j ∧ slot = slot'

theorem PoolInv.openedOnce (inv : PoolInv D tr w) (H : Ideal D.hash) : OpenedOnce D tr := by
  intro i j slot slot' sender sender' call call' note note' hi hj ho ho' hnote
  obtain rfl := Note.commitment_inj H hnote
  obtain ⟨n, hn, hword⟩ := ho.nullifier
  obtain ⟨n', hn', hword'⟩ := ho'.nullifier
  have hmarked : ∀ {k : Nat} {sender : Address} {call : PoolCall} {slot : Nat} {n : Word},
      tr[k]? = some (.pool sender call) → call.nullifiers[slot]? = some n → n ∈ marked tr :=
    fun hk hn => List.mem_flatMap.mpr ⟨_, List.mem_of_getElem? hk, List.mem_of_getElem? hn⟩
  have hsame : n = n' := by
    rw [BnField.eq_toNat (inv.canonical n (List.mem_append_left _ (hmarked hi hn))) hword,
      BnField.eq_toNat (inv.canonical n' (List.mem_append_left _ (hmarked hj hn'))) hword']
  exact inv.slot_unique hi hj hn (hsame ▸ hn')

end Pocs.Compliance

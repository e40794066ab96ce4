import Pocs.Swap.Spends

/-! # The windows of the owner and of the fallback owner

A note with a timeout is spent by a claim until the timeout or by a refund after it, and by nothing
else (`windows_disjoint`), as long as the words that select the mode in the contract stand for the
scalars that select it in the circuit. A second word of the timeout opens the window of the claim again
(`claimed_late`). -/

namespace Pocs.Swap

open Compliance (BnField Word merkleHash)
open PrivateUtxo (checkTimeout)

variable {F P T : Type} [BnField F] [AddCommGroup P] {D : Deployment F P T} {w w' w₀ : World T}
  {tr : List Step} {args : TransferArgs} {wit : TransferWitness F} {timestamp : Nat}

/-- The mode words are zero exactly where their residues are, and the timeout is its residue. -/
structure TransferArgs.Faithful (F : Type) [BnField F] (args : TransferArgs) : Prop where
  timeout : BnField.canonical F args.timeout = true
  pkStealth : (Scalar.ofNat args.pkStealth : F) = 0 → args.pkStealth = 0
  hSwap : (Scalar.ofNat args.hSwap : F) = 0 → args.hSwap = 0

/-- The words of a transfer are read alike by the contract and the circuit. -/
def Step.Faithful (F : Type) [BnField F] : Step → Prop
  | .transfer _ args _ => args.Faithful F
  | _ => True

/-- When a note with the timeout can be spent in the mode. -/
def Mode.Opens (mode : Mode) (timeout timestamp : Nat) : Prop :=
  match mode with
  | .claim => timestamp ≤ timeout
  | .refund => timeout < timestamp
  | _ => False

theorem checkTimeout_claim (hpos : 0 < args.timeout) (hstealth : args.pkStealth ≠ 0) (hswap : args.hSwap = 0) :
    checkTimeout timestamp args = .ok () ↔ timestamp ≤ args.timeout := by
  rw [checkTimeout, onlyIf_eq_ok, if_pos hstealth, onlyIf_eq_ok, failIf_eq_ok, Nat.not_lt]
  exact ⟨fun h => h hpos hswap, fun h _ _ => h⟩

theorem checkTimeout_refund (hpos : 0 < args.timeout) (hstealth : args.pkStealth = 0) :
    checkTimeout timestamp args = .ok () ↔ args.timeout < timestamp := by
  rw [checkTimeout, onlyIf_eq_ok, if_neg (not_not.mpr hstealth), failIf_eq_ok, Nat.not_le]
  exact ⟨fun h => h hpos, fun h _ => h⟩

omit [AddCommGroup P] in
theorem pos_of_ofNat_ne_zero {n : Nat} (h : (Scalar.ofNat n : F) ≠ 0) : 0 < n :=
  Nat.pos_of_ne_zero fun hzero => h (hzero ▸ rfl)

/-- Which mode spends a time-locked note, with whose key, and when. -/
theorem Proves.window (h : Proves D args wit) (hfaithful : args.Faithful F) (htimeout : wit.input.timeout ≠ 0) :
    (args.toPublic : TransferPublic F).mode = .claim ∧ wit.key D.curve = wit.input.owner ∧
        (checkTimeout timestamp args = .ok () ↔ timestamp ≤ Scalar.toNat wit.input.timeout) ∨
      (args.toPublic : TransferPublic F).mode = .refund ∧ wit.key D.curve = wit.input.fallbackOwner ∧
        (checkTimeout timestamp args = .ok () ↔ Scalar.toNat wit.input.timeout < timestamp) := by
  have hmoded := (main_ok h).moded
  generalize hmode : (args.toPublic : TransferPublic F).mode = mode at hmoded
  cases hmoded with
  | transfer _ _ hzero => exact absurd hzero htimeout
  | lock _ _ _ _ _ hstandard => exact absurd hstandard htimeout
  | claim hne hstealth hswap hkey heq =>
    refine .inl ⟨rfl, hkey, ?_⟩
    rw [checkTimeout_claim (pos_of_ofNat_ne_zero hne) (pos_of_ofNat_ne_zero hstealth).ne'
      (hfaithful.hSwap hswap), BnField.eq_toNat hfaithful.timeout heq]
  | refund hne hstealth _ hkey heq =>
    refine .inr ⟨rfl, hkey, ?_⟩
    rw [checkTimeout_refund (pos_of_ofNat_ne_zero hne) (hfaithful.pkStealth hstealth),
      BnField.eq_toNat hfaithful.timeout heq]

/-- A transfer that nothing but its time can stop. -/
structure Ready (D : Deployment F P T) (utxo : PrivateUtxo T) (args : TransferArgs) : Prop where
  root : utxo.isKnownRoot D args.root = true
  fresh : utxo.nullifiers args.nullifier = false
  proof : D.verify args.proof args.publicInputs = true
  canonical : BnField.canonical F args.newCommitment = true
  new : (Scalar.ofNat args.newCommitment : F) ∉ utxo.leaves D

/-- When and by whom a note with a timeout is spent. -/
structure Windowed (D : Deployment F P T) (tr : List Step) (w : World T) : Prop where
  /-- A spend is a claim by the owner or a refund by the fallback owner, in the window of its mode. -/
  spends : ∀ {timestamp args events wit}, .transfer timestamp args events ∈ tr → Proves D args wit →
    wit.input.timeout ≠ 0 →
    (args.toPublic : TransferPublic F).mode = .claim ∧ wit.key D.curve = wit.input.owner ∧
        timestamp ≤ Scalar.toNat wit.input.timeout ∨
      (args.toPublic : TransferPublic F).mode = .refund ∧
        wit.key D.curve = wit.input.fallbackOwner ∧ Scalar.toNat wit.input.timeout < timestamp
  /-- The owner's key spends until the timeout. -/
  owner : ∀ {timestamp args events wit}, .transfer timestamp args events ∈ tr → Proves D args wit →
    wit.input.timeout ≠ 0 → wit.input.owner ≠ wit.input.fallbackOwner →
    wit.key D.curve = wit.input.owner → timestamp ≤ Scalar.toNat wit.input.timeout
  /-- The fallback key spends after it. -/
  fallbackOwner : ∀ {timestamp args events wit}, .transfer timestamp args events ∈ tr →
    Proves D args wit → wit.input.timeout ≠ 0 → wit.input.owner ≠ wit.input.fallbackOwner →
    wit.key D.curve = wit.input.fallbackOwner → Scalar.toNat wit.input.timeout < timestamp
  /-- At every time, one of the two modes is open and the other is not. -/
  opens : ∀ {args wit}, args.Faithful F → Proves D args wit → wit.input.timeout ≠ 0 → Ready D w.utxo args →
    ((∃ r, w.utxo.transfer D w.timestamp args = .ok r) ↔
      (args.toPublic : TransferPublic F).mode.Opens (Scalar.toNat wit.input.timeout) w.timestamp)

omit [AddCommGroup P] in
theorem Ready.succeeds_iff {utxo : PrivateUtxo T} (h : Ready D utxo args) (hins : D.imt.Inserts)
    (hzero : (Scalar.ofNat args.newCommitment : F) ≠ 0) : (∃ r, utxo.transfer D timestamp args = .ok r) ↔
      checkTimeout timestamp args = .ok () := by
  constructor
  · rintro ⟨⟨utxo', events⟩, hr⟩
    exact (PrivateUtxo.transfer_ok hr).time
  · intro htime
    obtain ⟨utxo', events, hr⟩ := PrivateUtxo.exists_transfer hins h.root h.fresh h.proof htime
      h.canonical hzero h.new
    exact ⟨_, hr⟩

theorem windows_disjoint (H : IdealHash D.hash) (hL : D.imt.Lawful (merkleHash D.hash))
    (hins : D.imt.Inserts) (h₀ : Deployed D w₀) (hrun : Run (Transition D) w₀ tr w)
    (hfaithful : ∀ st ∈ tr, st.Faithful F) : Windowed D tr w := by
  have hspends : ∀ {timestamp args events wit}, .transfer timestamp args events ∈ tr →
      Proves D args wit → wit.input.timeout ≠ 0 →
      (args.toPublic : TransferPublic F).mode = .claim ∧ wit.key D.curve = wit.input.owner ∧
          timestamp ≤ Scalar.toNat wit.input.timeout ∨
        (args.toPublic : TransferPublic F).mode = .refund ∧ wit.key D.curve = wit.input.fallbackOwner ∧
          Scalar.toNat wit.input.timeout < timestamp := by
    intro timestamp args events wit hmem hproves htimeout
    have htime := ((Run.utxoInv hL h₀ hrun).accepted _ _ _ hmem).time
    rcases hproves.window (hfaithful _ hmem) htimeout with ⟨hmode, hkey, hiff⟩ | ⟨hmode, hkey, hiff⟩
    · exact .inl ⟨hmode, hkey, hiff.mp htime⟩
    · exact .inr ⟨hmode, hkey, hiff.mp htime⟩
  refine ⟨hspends, ?_, ?_, ?_⟩
  · intro timestamp args events wit hmem hproves htimeout hne hkey
    rcases hspends hmem hproves htimeout with ⟨-, -, hle⟩ | ⟨-, hfallback, -⟩
    · exact hle
    · exact absurd (hkey.symm.trans hfallback) hne
  · intro timestamp args events wit hmem hproves htimeout hne hkey
    rcases hspends hmem hproves htimeout with ⟨-, howner, -⟩ | ⟨-, -, hlt⟩
    · exact absurd (howner.symm.trans hkey) hne
    · exact hlt
  · intro args wit hargs hproves htimeout hready
    have hcreated := (main_ok hproves).created
    have hzero : (Scalar.ofNat args.newCommitment : F) ≠ 0 := by
      rw [show (Scalar.ofNat args.newCommitment : F) = _ from hcreated]
      exact H.ne_zero (List.cons_ne_nil _ _) (Nat.le_of_ble_eq_true rfl)
    rw [hready.succeeds_iff hins hzero]
    rcases hproves.window hargs htimeout with ⟨hmode, -, hiff⟩ | ⟨hmode, -, hiff⟩
    · rw [hiff, hmode]
      exact Iff.rfl
    · rw [hiff, hmode]
      exact Iff.rfl

/-! ## A timeout with two words -/

namespace Sample

def claimArgs (hash : List Doubled → Doubled) (timeout : Word) : TransferArgs where
  proof := []
  nullifier := Scalar.toNat ((coin 1000 0).nullifier hash)
  root := word hash (coin 1000 0)
  newCommitment := word hash (coin 0 1)
  timeout
  pkStealth := 1
  hSwap := 0
  hR := 0
  hMeta := 0
  hEnc := 0

theorem claim_proves (hash : List Doubled → Doubled) {timeout : Word}
    (htimeout : (Scalar.ofNat timeout : Doubled) = Scalar.ofNat 1000) :
    Proves (deployment hash) (claimArgs hash timeout) (spendWitness (coin 1000 0) (coin 0 1)) := by
  have hne : ∀ {n}, n < 2 ^ 64 → n ≠ 0 → (Scalar.ofNat n : Doubled) ≠ 0 :=
    fun hlt hne h => hne (Scalar.ofNat_inj hlt (by decide) h)
  refine main_eq_ok.mpr ⟨?_, BnField.ofNat_toNat _, BnField.ofNat_toNat _, rfl, rfl, rfl, ?_,
    fun h => absurd rfl h⟩
  · exact (binaryMerkleRoot_zero _ _ _ _).trans (BnField.ofNat_toNat _).symm
  · refine assertMode_claim ⟨rfl, rfl, rfl, rfl, rfl⟩ ?_ ?_ (spendWitness_key _ _) htimeout rfl
    · intro hzero
      exact hne (show 1000 < 2 ^ 64 by decide) (by decide) (htimeout.symm.trans hzero)
    · exact hne (show 1 < 2 ^ 64 by decide) Nat.one_ne_zero

/-- The note of timeout 1000 is claimed where the contract's check passes. -/
theorem exists_claim {hash : List Doubled → Doubled} (H : IdealHash hash) {timeout : Word}
    {timestamp : Nat} (htimeout : (Scalar.ofNat timeout : Doubled) = Scalar.ofNat 1000)
    (htime : checkTimeout timestamp (claimArgs hash timeout) = .ok ()) :
    ∃ w₀ w e₁ e₂, Deployed (deployment hash) w₀ ∧ Run (Transition (deployment hash)) w₀
      [.transfer timestamp (claimArgs hash timeout) e₂, .fund 0 (word hash (coin 1000 0)) e₁] w := by
  obtain ⟨w₀, w, e₁, e₂, hdeployed, hrun, -⟩ := exists_moved H ⟨_, claim_proves hash htimeout, rfl, rfl⟩
    rfl rfl (coin_ne (by decide) (by decide) (by decide)) htime
  exact ⟨w₀, w, e₁, e₂, hdeployed, hrun⟩

end Sample

open Sample

/-- A claim at the timestamp 500. -/
theorem windows_disjoint_sample : ∃ w₀ w tr args events wit, Deployed (deployment doubledHash) w₀ ∧
    Run (Transition (deployment doubledHash)) w₀ tr w ∧
    .transfer 500 args events ∈ tr ∧ Proves (deployment doubledHash) args wit ∧
    wit.input.timeout = Scalar.ofNat 1000 ∧ Windowed (deployment doubledHash) tr w := by
  obtain ⟨w₀, w, e₁, e₂, hdeployed, hrun⟩ := @exists_claim _ doubledHash_ideal 1000 500 rfl
    ((checkTimeout_claim (by decide) (by decide) rfl).mpr (show 500 ≤ 1000 by decide))
  refine ⟨w₀, w, _, _, e₂, _, hdeployed, hrun, List.mem_cons_self, claim_proves _ rfl, rfl,
    windows_disjoint doubledHash_ideal leanImt_lawful leanImt_inserts hdeployed hrun ?_⟩
  refine List.forall_mem_cons.mpr ⟨⟨?_, fun h => ?_, fun _ => rfl⟩, List.forall_mem_cons.mpr ⟨trivial,
    fun _ hmem => absurd hmem List.not_mem_nil⟩⟩
  · exact BnField.canonical_of_lt (by decide)
  · exact absurd (Scalar.ofNat_inj (by decide) (by decide) h) (by decide)

/-- With the word `1000 + bn254`, the owner claims the note of timeout 1000 at the timestamp 5000. -/
theorem claimed_late : ∃ w₀ w tr args events wit, Deployed (deployment doubledHash) w₀ ∧
    Run (Transition (deployment doubledHash)) w₀ tr w ∧
    .transfer 5000 args events ∈ tr ∧ Proves (deployment doubledHash) args wit ∧
    args.timeout = 1000 + Civic.bn254 ∧ Scalar.toNat wit.input.timeout = 1000 ∧
    wit.key (cyclicCurve Doubled) = wit.input.owner ∧ wit.input.owner ≠ wit.input.fallbackOwner := by
  have hvalue : Scalar.toNat (Scalar.ofNat 1000 : Doubled) = 1000 := Scalar.toNat_ofNat (by decide)
  have hword : (Scalar.ofNat (1000 + Civic.bn254) : Doubled) = Scalar.ofNat 1000 := by
    have hadd := Doubled.reduce_add (Scalar.ofNat 1000)
    rwa [show (Scalar.ofNat 1000 : Doubled).val = 1000 from hvalue] at hadd
  obtain ⟨w₀, w, e₁, e₂, hdeployed, hrun⟩ := @exists_claim _ doubledHash_ideal _ 5000 hword
    ((checkTimeout_claim (Nat.succ_pos _) (by decide) rfl).mpr
      (show 5000 ≤ 1000 + Civic.bn254 by decide))
  refine ⟨w₀, w, _, _, e₂, _, hdeployed, hrun, List.mem_cons_self, claim_proves _ hword, rfl,
    hvalue, spendWitness_key _ _, fun h => ?_⟩
  exact absurd (Scalar.ofNat_inj (by decide) (by decide) h) (show ¬ 1 = 2 by decide)

end Pocs.Swap

import Pocs.Swap.Spends

/-! # Where locked notes come from

A note with a timeout that is in the tree was created by a lock, whose event shows its commitment, its
timeout and the bindings (`locked_by_locks`). This needs that the other three modes create standard
notes, which the circuit does not ask for: it leaves the timeout of their output free
(`locked_without_lock`). -/

namespace Pocs.Swap

open Compliance (BnField Word merkleHash)
open PrivateUtxo (checkTimeout)

variable {F P T : Type} [BnField F] [AddCommGroup P] {D : Deployment F P T} {w w' w₀ : World T}
  {tr : List Step} {st : Step} {args : TransferArgs} {wit : TransferWitness F} {note : Note F}
  {timestamp : Nat} {events : List Event}

def TransferArgs.mode (F : Type) [BnField F] (args : TransferArgs) : Mode :=
  (args.toPublic : TransferPublic F).mode

/-- Funding with standard notes, locks with the word of their timeout, and standard outputs of what is
no lock. -/
def Step.Settled (D : Deployment F P T) : Step → Prop
  | .fund _ commitment _ =>
    ∀ note, (Scalar.ofNat commitment : F) = computeCommitment D.hash note → note.timeout = 0
  | .transfer _ args _ =>
    if args.mode F = .lock then BnField.canonical F args.timeout = true
    else ∀ note, (Scalar.ofNat args.newCommitment : F) = computeCommitment D.hash note → note.timeout = 0
  | _ => True

/-- A lock of the trace created the note. Its event shows the commitment and the timeout, and bindings
that open to the salt and the owner of the note. -/
def LockedBy (D : Deployment F P T) (tr : List Step) (note : Note F) : Prop :=
  ∃ timestamp args events wit, .transfer timestamp args events ∈ tr ∧ Proves D args wit ∧
    args.mode F = .lock ∧ wit.output = note ∧ wit.input.timeout = 0 ∧
    .swapNoteLocked (Scalar.toNat (computeCommitment D.hash note)) (Scalar.toNat note.timeout)
      args.pkStealth args.hSwap args.hR args.hMeta args.hEnc ∈ events ∧
    Bound D.hash D.curve args.toPublic note wit.extras

/-- Locked notes come from locks only. -/
structure OnlyLocks (D : Deployment F P T) (tr : List Step) (w : World T) : Prop where
  locked : ∀ note, computeCommitment D.hash note ∈ w.utxo.leaves D → note.timeout ≠ 0 → LockedBy D tr note
  /-- No locked note is turned into a locked note. -/
  relock : ∀ {timestamp args events wit}, .transfer timestamp args events ∈ tr → Proves D args wit →
    wit.input.timeout ≠ 0 → wit.output.timeout = 0

omit [AddCommGroup P] in
theorem ne_zero_of_ofNat_ne_zero {n : Nat} (h : (Scalar.ofNat n : F) ≠ 0) : n ≠ 0 :=
  fun hzero => h (hzero ▸ rfl)

/-- The event of a lock is that of its output note. -/
theorem Accepted.locked (h : Accepted D timestamp args events) (hproves : Proves D args wit)
    (hlock : args.mode F = .lock) (hcanonical : BnField.canonical F args.timeout = true) :
    wit.input.timeout = 0 ∧ Bound D.hash D.curve args.toPublic wit.output wit.extras ∧
      .swapNoteLocked (Scalar.toNat (computeCommitment D.hash wit.output))
        (Scalar.toNat wit.output.timeout) args.pkStealth args.hSwap args.hR args.hMeta args.hEnc ∈ events := by
  have hok := main_ok hproves
  have hmoded := hok.moded
  rw [show (args.toPublic : TransferPublic F).mode = .lock from hlock] at hmoded
  cases hmoded with
  | lock htimeout hstealth hswap _ houtput hstandard hbound =>
    refine ⟨hstandard, hbound, ?_⟩
    have hwords : 0 < args.timeout ∧ args.pkStealth ≠ 0 ∧ args.hSwap ≠ 0 :=
      ⟨Nat.pos_of_ne_zero (ne_zero_of_ofNat_ne_zero htimeout), ne_zero_of_ofNat_ne_zero hstealth,
        ne_zero_of_ofNat_ne_zero hswap⟩
    rw [h.events, PrivateUtxo.transferEvents, if_pos hwords, ← BnField.eq_toNat h.canonical hok.created,
      ← BnField.eq_toNat hcanonical houtput]
    exact List.mem_append_left _ (List.mem_singleton.mpr rfl)

theorem LockedBy.cons (h : LockedBy D tr note) : LockedBy D (st :: tr) note := by
  obtain ⟨timestamp, args, events, wit, hmem, hrest⟩ := h
  exact ⟨timestamp, args, events, wit, List.mem_cons_of_mem _ hmem, hrest⟩

theorem OnlyLocks.step (locks : OnlyLocks D tr w) (hV : D.Verifies) (H : IdealHash D.hash)
    (hL : D.imt.Lawful (merkleHash D.hash)) (hsettled : st.Settled D) (h : Transition D w st w')
    (inv : UtxoInv D (st :: tr) w') : OnlyLocks D (st :: tr) w' := by
  cases h with
  | @fund sender commitment utxo events ok =>
    obtain ⟨-, hins⟩ := PrivateUtxo.fund_ok ok
    obtain ⟨-, -, hleaves⟩ := hins.leaves hL
    refine ⟨fun note hmem htimeout => ?_, fun hmem => ?_⟩
    · rcases List.mem_append.mp (hleaves ▸ hmem) with hold | hnew
      · exact (locks.locked note hold htimeout).cons
      · exact absurd (hsettled note (List.mem_singleton.mp hnew).symm) htimeout
    · rcases List.mem_cons.mp hmem with heq | hmem
      · cases heq
      · exact locks.relock hmem
  | @transfer args utxo events ok =>
    have htransfer := PrivateUtxo.transfer_ok ok
    have haccepted := inv.accepted _ _ _ List.mem_cons_self
    obtain ⟨-, hleaves⟩ := htransfer.leaves hL
    refine ⟨fun note hmem htimeout => ?_, fun {t args' ev wit'} hmem hproves htimeout => ?_⟩
    · rcases List.mem_append.mp (hleaves ▸ hmem) with hold | hnew
      · exact (locks.locked note hold htimeout).cons
      · obtain ⟨wit, hproves⟩ := (hV args).mp ⟨_, htransfer.proof⟩
        have hcreated := List.mem_singleton.mp hnew
        obtain rfl : wit.output = note := computeCommitment_inj H
          ((main_ok hproves).created.symm.trans hcreated.symm)
        simp only [Step.Settled] at hsettled
        split at hsettled
        · next hlock =>
          obtain ⟨hstandard, hbound, hevent⟩ := haccepted.locked hproves hlock hsettled
          exact ⟨_, args, _, wit, List.mem_cons_self, hproves, hlock, rfl, hstandard, hevent, hbound⟩
        · exact absurd (hsettled _ hcreated.symm) htimeout
    · rcases List.mem_cons.mp hmem with heq | hmem
      · cases heq
        simp only [Step.Settled] at hsettled
        split at hsettled
        · next hlock => exact absurd (haccepted.locked hproves hlock hsettled).1 htimeout
        · exact hsettled _ (main_ok hproves).created
      · exact locks.relock hmem hproves htimeout
  | fundReverted | transferReverted | tick =>
    refine ⟨fun note hmem htimeout => (locks.locked note hmem htimeout).cons, fun hmem => ?_⟩
    rcases List.mem_cons.mp hmem with heq | hmem
    · cases heq
    · exact locks.relock hmem

theorem locked_by_locks (hV : D.Verifies) (H : IdealHash D.hash)
    (hL : D.imt.Lawful (merkleHash D.hash)) (h₀ : Deployed D w₀) (hrun : Run (Transition D) w₀ tr w)
    (hsettled : ∀ st ∈ tr, st.Settled D) : OnlyLocks D tr w := by
  induction hrun with
  | nil =>
    cases h₀ with
    | @mk timestamp sender =>
      have hleaves : (PrivateUtxo.new D sender).leaves D = [] := hL.leaves_empty
      refine ⟨fun note hmem _ => ?_, fun hmem => absurd hmem List.not_mem_nil⟩
      rw [hleaves] at hmem
      exact absurd hmem List.not_mem_nil
  | cons hrun hstep ih =>
    obtain ⟨hst, htr⟩ := List.forall_mem_cons.mp hsettled
    exact (ih htr).step hV H hL hst hstep (Run.utxoInv hL h₀ (.cons hrun hstep))

/-! ## A transfer that creates a locked note -/

namespace Sample

/-- What the stealth hash of the ephemeral scalar zero adds to a key. -/
def stealthShift (hash : List Doubled → Doubled) : ZMod 7 :=
  (cyclicCurve Doubled).fixedBaseScalarMul (fieldToScalar (hash [domainStealth, (cyclicCurve Doubled).x 0]))

/-- The note of timeout 1000 that a lock makes for the key `p`. -/
def lockedCoin (hash : List Doubled → Doubled) (p : ZMod 7) : Note Doubled :=
  { coin 1000 1 with owner := (cyclicCurve Doubled).x (p + stealthShift hash) }

def sealedSalt (hash : List Doubled → Doubled) : Doubled := Scalar.ofNat
  (Scalar.toNat (Scalar.ofNat 1 : Doubled) ^^^
    Scalar.toNat (mask253 (hash [domainSaltEnc, (cyclicCurve Doubled).x 0])))

def lockArgs (hash : List Doubled → Doubled) (p : ZMod 7) : TransferArgs :=
  { spendArgs hash (Scalar.toNat ((coin 0 0).nullifier hash)) (coin 0 0) (lockedCoin hash p) with
    timeout := 1000
    pkStealth := Scalar.toNat (lockedCoin hash p).owner
    hSwap := Scalar.toNat (hash [domainBindSwap, 0, Scalar.ofNat 1])
    hR := Scalar.toNat (hash [domainBindR,
      (cyclicCurve Doubled).x ((cyclicCurve Doubled).fixedBaseScalarMul ⟨0, 0⟩)])
    hMeta := Scalar.toNat (hash [domainBindMeta, (cyclicCurve Doubled).x p, Scalar.ofNat 1])
    hEnc := Scalar.toNat (hash [domainBindEnc, sealedSalt hash]) }

/-- Some key is not shifted to infinity. -/
theorem exists_key (shift : ZMod 7) : ∃ p, (cyclicCurve Doubled).point ((cyclicCurve Doubled).x p)
    ((cyclicCurve Doubled).y p) = some p ∧ (cyclicCurve Doubled).x (p + shift) ≠ 0 := by
  revert shift
  decide

/-- A standard note is locked. -/
theorem exists_lock {hash : List Doubled → Doubled} (H : IdealHash hash) : ∃ p,
    Moves (deployment hash) (lockArgs hash p) (coin 0 0) (lockedCoin hash p) ∧
    (lockArgs hash p).mode Doubled = .lock ∧ checkTimeout 100 (lockArgs hash p) = .ok () := by
  obtain ⟨p, hpoint, hstealth⟩ := exists_key (stealthShift hash)
  have hback : ∀ a : Doubled, Scalar.ofNat (Scalar.toNat a) = a := BnField.ofNat_toNat
  have hword : ∀ {n}, n < 2 ^ 253 → Scalar.toNat (Scalar.ofNat n : Doubled) = n := fun hlt =>
    Doubled.val_reduce (mod_two_bn254_of_lt (hlt.trans (by decide)))
  have hmask : ∀ a : Doubled, Scalar.toNat (mask253 a) < 2 ^ 253 := by
    intro a
    have hlt := Nat.mod_lt (Scalar.toNat a) (show 0 < 2 ^ 253 by decide)
    rwa [← hword hlt] at hlt
  have htimeout : (Scalar.ofNat 1000 : Doubled) ≠ 0 := fun h =>
    absurd (Scalar.ofNat_inj (by decide) (by decide) h) (show ¬ 1000 = 0 by decide)
  have howner : (Scalar.ofNat (lockArgs hash p).pkStealth : Doubled) ≠ 0 := fun h =>
    hstealth ((hback _).symm.trans h)
  have hswap : (Scalar.ofNat (lockArgs hash p).hSwap : Doubled) ≠ 0 := fun h =>
    H.ne_zero (List.cons_ne_nil _ _) (Nat.le_of_ble_eq_true rfl) ((hback _).symm.trans h)
  have hkey := spendWitness_key (coin 0 0) (lockedCoin hash p)
  have hshared : (EmbeddedCurveScalar.mk (0 : Doubled) 0).value • p = 0 := zero_smul _ p
  refine ⟨p, ⟨{ spendWitness (coin 0 0) (lockedCoin hash p) with
    extras := ⟨0, 0, 0, (cyclicCurve Doubled).x p, (cyclicCurve Doubled).y p, sealedSalt hash⟩ }, ?_, rfl, rfl⟩,
    ?_, ?_⟩
  · refine main_eq_ok.mpr ⟨(binaryMerkleRoot_zero _ _ _ _).trans (hback _).symm, hback _, hback _, rfl, rfl,
      rfl, assertMode_lock htimeout howner hswap hkey rfl rfl, fun _ =>
      ⟨⟨p, hpoint, ?_, ?_⟩, (hback _).symm, (hback _).symm, (hback _).symm, (hback _).symm, (hback _).symm⟩⟩
    · rw [hshared]
      exact (hback _).symm
    · rw [hshared]
      exact xorFields_eq_ok.mpr ⟨rfl, hword (Nat.xor_lt_two_pow (by decide) (hmask _))⟩
  · rw [TransferArgs.mode, TransferPublic.mode]
    exact (if_neg htimeout).trans ((if_pos howner).trans (if_pos hswap))
  · rw [checkTimeout, onlyIf_eq_ok, if_pos (ne_zero_of_ofNat_ne_zero howner), onlyIf_eq_ok]
    exact fun _ h => absurd h (ne_zero_of_ofNat_ne_zero hswap)

theorem spendArgs_mode {hash : List Doubled → Doubled} {nullifier : Word} {a b : Note Doubled} :
    (spendArgs hash nullifier a b).mode Doubled ≠ .lock :=
  show Mode.transfer ≠ .lock from Mode.noConfusion

/-- The words of a fund stand for one note. -/
theorem timeout_of_word {hash : List Doubled → Doubled} (H : IdealHash hash) {timeout salt : Nat}
    {note : Note Doubled}
    (h : (Scalar.ofNat (word hash (coin timeout salt)) : Doubled) = computeCommitment hash note) :
    note.timeout = Scalar.ofNat timeout := by
  rw [word, BnField.ofNat_toNat] at h
  exact (congrArg Note.timeout (computeCommitment_inj H h)).symm

end Sample

open Sample

/-- A run of one fund and one lock. -/
theorem locked_by_locks_sample : ∃ w₀ w tr p, Deployed (deployment doubledHash) w₀ ∧
    Run (Transition (deployment doubledHash)) w₀ tr w ∧
    computeCommitment doubledHash (lockedCoin doubledHash p) ∈ w.utxo.leaves (deployment doubledHash) ∧
    OnlyLocks (deployment doubledHash) tr w := by
  obtain ⟨p, hmoves, hmode, htime⟩ := exists_lock doubledHash_ideal
  obtain ⟨w₀, w, e₁, e₂, hdeployed, hrun, hmem⟩ := exists_moved doubledHash_ideal hmoves rfl rfl
    (fun h => absurd (Scalar.ofNat_inj (by decide) (by decide) (congrArg Note.salt h)) Nat.one_ne_zero) htime
  refine ⟨w₀, w, _, p, hdeployed, hrun, hmem, locked_by_locks (Deployment.ofCircuit_verifies _ _ _)
    doubledHash_ideal leanImt_lawful hdeployed hrun (List.forall_mem_cons.mpr ⟨?_,
      List.forall_mem_cons.mpr ⟨fun note h => timeout_of_word doubledHash_ideal h,
        fun _ hmem => absurd hmem List.not_mem_nil⟩⟩)⟩
  rw [Step.Settled, if_pos hmode]
  exact BnField.canonical_of_lt (show 1000 < _ by decide)

/-- The tree is funded with a standard note, and a transfer makes a note of timeout 1000 of it without
any lock. -/
theorem locked_without_lock : ∃ w₀ w e₁ e₂, Deployed (deployment doubledHash) w₀ ∧
    Run (Transition (deployment doubledHash)) w₀
      [.transfer 100 (spendArgs doubledHash (Scalar.toNat ((coin 0 0).nullifier doubledHash))
        (coin 0 0) (coin 1000 1)) e₂, .fund 0 (word doubledHash (coin 0 0)) e₁] w ∧
    computeCommitment doubledHash (coin 1000 1) ∈ w.utxo.leaves (deployment doubledHash) ∧
    (coin 1000 1).timeout ≠ 0 ∧ ∀ timestamp args events, .transfer timestamp args events ∈
      [Step.transfer 100 (spendArgs doubledHash
        (Scalar.toNat ((coin 0 0).nullifier doubledHash)) (coin 0 0) (coin 1000 1)) e₂,
        .fund 0 (word doubledHash (coin 0 0)) e₁] → args.mode Doubled ≠ .lock := by
  obtain ⟨w₀, w, e₁, e₂, hdeployed, hrun, hmem⟩ := exists_moved doubledHash_ideal (spend_moves doubledHash
    (BnField.ofNat_toNat _)) rfl rfl (@coin_ne 1000 0 1 0 (by decide) (by decide) (by decide)) rfl
  refine ⟨w₀, w, e₁, e₂, hdeployed, hrun, hmem, fun h => ?_, fun t args ev hin => ?_⟩
  · exact absurd (Scalar.ofNat_inj (by decide) (by decide) h) (show ¬ 1000 = 0 by decide)
  · rcases List.mem_cons.mp hin with heq | hin
    · cases heq
      exact spendArgs_mode
    · cases List.mem_singleton.mp hin

end Pocs.Swap

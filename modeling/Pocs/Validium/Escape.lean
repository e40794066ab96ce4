import Pocs.Validium.Solvency

/-! # Escape addresses

Membership proofs need no secret key, so that whoever deposits first for a key binds it. As long as nobody
else deposits for a key that is still free, it stays with its owner, whose deposits are accepted and who can
take out its leaf after a freeze. -/

namespace Pocs.Validium

section
variable {W τ : Type} [DecidableEq W] {D : Deployment W τ} {w w' w₀ : World W τ} {tr : List (Step W)}
  {st : Step W} {owner : Address} {pubkey : W}

def Step.FrontRuns (owner : Address) (pubkey : W) : Step W → Prop
  | .call sender before (.deposit _ key _) =>
    key = pubkey ∧ sender ≠ owner ∧ before.escapeAddress pubkey = 0
  | _ => False

/-- A step in which nobody else registers the owner's key. -/
def Fair (D : Deployment W τ) (owner : Address) (pubkey : W) (w : World W τ) (st : Step W)
    (w' : World W τ) : Prop :=
  Transition D w st w' ∧ ¬ st.FrontRuns owner pubkey

/-- A step changes the escape address of a key by a deposit for it only, which it must be free for. -/
theorem Transition.escapeAddress_cases (h : Transition D w st w') (pubkey : W) :
    w'.bridge.escapeAddress pubkey = w.bridge.escapeAddress pubkey ∨
      ∃ sender amount membershipSeal, sender ≠ 0 ∧
        st = .call sender w.bridge (.deposit amount pubkey membershipSeal) ∧
        (w.bridge.escapeAddress pubkey = 0 ∨ w.bridge.escapeAddress pubkey = sender) ∧
        w'.bridge.escapeAddress pubkey = sender := by
  cases h with
  | reverted err => exact .inl rfl
  | tick le => exact .inl rfl
  | inflow balance => exact .inl rfl
  | call hne ok =>
    have haccepted := Call.run_eq_ok.mp ok
    cases haccepted with
    | @deposit amount key membershipSeal _ live pos proof free paid =>
      rcases eq_or_ne pubkey key with rfl | hkey
      · refine .inr ⟨_, _, _, hne, rfl, free, ?_⟩
        simp only [Function.update_self]
      · simp only [Function.update_of_ne hkey]
        exact .inl trivial
    | withdraw | postTransferBatch | freeze | requestForcedWithdrawal
    | processForcedWithdrawal | freezeOnExpiredRequest | escapeWithdraw =>
      exact .inl rfl

/-- The key is free or the owner's, and the owner's after its first deposit. -/
theorem escapeAddress_of_run {root : W} (hdeployed : Deployed D root w₀)
    (hrun : Run (Fair D owner pubkey) w₀ tr w) :
    (w.bridge.escapeAddress pubkey = 0 ∨ w.bridge.escapeAddress pubkey = owner) ∧
      ((∃ b amount membershipSeal, .call owner b (.deposit amount pubkey membershipSeal) ∈ tr) →
        w.bridge.escapeAddress pubkey = owner) := by
  induction hrun with
  | nil =>
    cases hdeployed
    refine ⟨.inl rfl, ?_⟩
    rintro ⟨b, amount, membershipSeal, hmem⟩
    exact absurd hmem List.not_mem_nil
  | @cons tr s s' st hrun hstep ih =>
    obtain ⟨hstep, hfair⟩ := hstep
    obtain ⟨hfree, hdeposited⟩ := ih
    rcases hstep.escapeAddress_cases pubkey with hsame | ⟨sender, amount, membershipSeal, hne, rfl, hold, hnew⟩
    · rw [hsame]
      refine ⟨hfree, ?_⟩
      rintro ⟨b, amount, membershipSeal, hmem⟩
      rcases List.mem_cons.mp hmem with rfl | hmem
      · -- a deposit of the owner binds the key
        cases hstep with
        | call hne ok =>
          have haccepted := Call.run_eq_ok.mp ok
          cases haccepted with
          | deposit live pos proof free paid =>
            rw [← hsame]
            simp only [Function.update_self]
      · exact hdeposited ⟨b, amount, membershipSeal, hmem⟩
    · have hsender : sender = owner := by
        by_contra hother
        have hbound : s.bridge.escapeAddress pubkey ≠ 0 := fun hzero => hfair ⟨rfl, hother, hzero⟩
        exact hother ((hold.resolve_left hbound).symm.trans (hfree.resolve_left hbound))
      rw [hnew, hsender]
      exact ⟨.inr rfl, fun _ => rfl⟩

/-- After a freeze neither the root nor the escape addresses change. -/
theorem keeps_of_frozen (h : Run (Transition D) w tr w') (hfrozen : w.bridge.frozen = true) :
    w'.bridge.stateRoot = w.bridge.stateRoot ∧ w'.bridge.escapeAddress = w.bridge.escapeAddress := by
  induction h with
  | nil => exact ⟨rfl, rfl⟩
  | cons hrun hstep ih =>
    obtain ⟨hroot, haddress⟩ := ih
    have hkeeps := hstep.keeps
    have hf := frozen_of_run hrun hfrozen
    exact ⟨(hkeeps.stateRoot hf).trans hroot, (hkeeps.escapeAddress hf).trans haddress⟩

theorem claimed_by_escapeAddress (H : D.sha256.Ideal) {root : W} (hdeployed : Deployed D root w₀)
    (hrun : Run (Transition D) w₀ tr w) {t : AccountTree W} (hroot : t.root D.sha256 = w.bridge.stateRoot)
    {index : Nat} {a : Account W} (ha : t.leaves index = some a) (hclaimed : w.bridge.claimed index = true) :
    ∃ b balance salt merkleProof, w.bridge.escapeAddress a.pubkey ≠ 0 ∧
      .call (w.bridge.escapeAddress a.pubkey) b
        (.escapeWithdraw index a.pubkey balance salt merkleProof) ∈ tr := by
  obtain ⟨e, hmem, rfl⟩ := List.mem_map.mp (((claimsInv_of_run hdeployed hrun).claimed index).mp hclaimed)
  obtain ⟨st, hst, hescape⟩ := List.mem_flatMap.mp hmem
  obtain ⟨tr₂, tr₁, hsplit⟩ := List.append_of_mem hst
  have hparts := hrun
  rw [hsplit] at hparts
  obtain ⟨m, hto, hfrom⟩ := hparts.split
  cases hto with
  | @cons _ s _ _ hto hstep =>
    cases hstep with
    | reverted | tick | inflow => exact absurd hescape List.not_mem_nil
    | call hne ok =>
      have haccepted := Call.run_eq_ok.mp ok
      cases haccepted with
      | deposit | withdraw | postTransferBatch | freeze
      | requestForcedWithdrawal | processForcedWithdrawal | freezeOnExpiredRequest =>
        exact absurd hescape List.not_mem_nil
      | @escapeWithdraw leafIndex key balance salt merkleProof _ frozen _ _ verified isOwner _ =>
        obtain rfl := List.mem_singleton.mp hescape
        obtain ⟨hsame, haddress⟩ := keeps_of_frozen hfrom frozen
        rw [bridgeCommitment_eq, show _ = t.root D.sha256 from (hroot.trans hsame).symm] at verified
        obtain ⟨-, hleaf⟩ := H.leaf_of_verifyMerkleProof (a := ⟨key, balance, salt⟩) verified
        obtain rfl := Option.some.inj (ha.symm.trans hleaf)
        have hsender := isOwner.trans (congrFun haddress key).symm
        refine ⟨s.bridge, balance, salt, merkleProof, ?_, ?_⟩
        · rw [← hsender]
          exact hne
        · rw [← hsender]
          exact hst

/-- In a run in which nobody else deposits for the owner's key while it is free, the key is never somebody
else's, a valid deposit of the owner succeeds and binds the key for good, and after a freeze the owner can take
out every leaf of the key that it has not claimed. -/
theorem owner_keeps_key (H : D.sha256.Ideal) {root : W} (hdeployed : Deployed D root w₀)
    (hrun : Run (Fair D owner pubkey) w₀ tr w) :
    (w.bridge.escapeAddress pubkey = 0 ∨ w.bridge.escapeAddress pubkey = owner) ∧
    (∀ amount membershipSeal, w.bridge.frozen = false → amount ≠ 0 →
      D.verifyDeposit membershipSeal pubkey = true →
      (D.token.transferFrom D.address owner D.address amount w.token).isSome →
      ∃ w', (Call.deposit amount pubkey membershipSeal).run D owner w = .ok w' ∧
        w'.bridge.escapeAddress pubkey = owner) ∧
    ((∃ b amount membershipSeal, .call owner b (.deposit amount pubkey membershipSeal) ∈ tr) →
      w.bridge.escapeAddress pubkey = owner ∧
      ∀ (t : AccountTree W) index a, w.bridge.frozen = true → t.root D.sha256 = w.bridge.stateRoot →
        index < 2 ^ t.depth → t.leaves index = some a → a.pubkey = pubkey → a.balance ≠ 0 →
        (∀ b balance salt merkleProof,
          .call owner b (.escapeWithdraw index pubkey balance salt merkleProof) ∉ tr) →
        (D.token.transfer D.address owner a.balance.toNat w.token).isSome →
        ∃ merkleProof w', (Call.escapeWithdraw index pubkey a.balance a.salt merkleProof).run D owner w =
          .ok w') := by
  obtain ⟨hkey, hbound⟩ := escapeAddress_of_run hdeployed hrun
  refine ⟨hkey, ?_, fun hdeposit => ⟨hbound hdeposit, ?_⟩⟩
  · intro amount membershipSeal hlive hpos hproof hpaid
    obtain ⟨token, paid⟩ := Option.isSome_iff_exists.mp hpaid
    refine ⟨_, Call.run_eq_ok.mpr (.deposit hlive hpos hproof hkey paid), ?_⟩
    simp only [Function.update_self]
  · intro t index a hfrozen hroot hindex ha hpubkey hpos hnot hpaid
    subst hpubkey
    obtain ⟨token, paid⟩ := Option.isSome_iff_exists.mp hpaid
    have howner := hbound hdeposit
    have hunclaimed : w.bridge.claimed index = false := by
      cases hclaimed : w.bridge.claimed index with
      | false => rfl
      | true =>
        obtain ⟨b, balance, salt, merkleProof, -, hmem⟩ :=
          claimed_by_escapeAddress H hdeployed (hrun.mono fun _ _ _ hstep => hstep.1) hroot ha hclaimed
        rw [howner] at hmem
        exact absurd hmem (hnot b balance salt merkleProof)
    have hproof := verifyMerkleProof_of_leaf (S := D.sha256) hindex ha
    rw [hroot, Account.commitment, ← bridgeCommitment_eq] at hproof
    exact ⟨_, _, Call.run_eq_ok.mpr (.escapeWithdraw hfrozen hunclaimed hpos hproof howner.symm paid)⟩

end

namespace Sample

/-- The owner deposits, and the bridge is frozen. -/
def fairSteps : List (Step Term) :=
  [.call other (later (deposited world₀ owner 2)).bridge .freeze, .tick (1000 + 8 * 86400),
    .call owner world₀.bridge (.deposit 2 pubkey [])]

theorem fair_run : Run (Fair deployment owner pubkey) world₀ fairSteps
    (frozen (later (deposited world₀ owner 2))) := by
  refine .cons (.cons (.cons .nil ⟨deposit_step (by decide) rfl (by decide) (.inl rfl) (by decide), ?_⟩)
    ⟨tick_step _, id⟩) ⟨freeze_step rfl (by decide), id⟩
  exact fun hfront => hfront.2.1 rfl

/-- Somebody else deposits one token first. -/
theorem other_run : Run (Transition deployment) world₀ [.call other world₀.bridge (.deposit 1 pubkey [])]
    (deposited world₀ other 1) :=
  .cons .nil (deposit_step (by decide) rfl (by decide) (.inl rfl) (by decide))

end Sample

open Sample in
theorem owner_keeps_key_sample :
    (frozen (later (deposited world₀ owner 2))).bridge.escapeAddress pubkey = owner ∧
      ∃ merkleProof w', (Call.escapeWithdraw 0 pubkey account.balance account.salt merkleProof).run deployment owner
        (frozen (later (deposited world₀ owner 2))) = .ok w' := by
  obtain ⟨-, -, hdeposited⟩ := owner_keeps_key termSha256_ideal deployed fair_run
  obtain ⟨haddress, hescape⟩ := hdeposited ⟨world₀.bridge, 2, [], by simp [fairSteps]⟩
  exact ⟨haddress, hescape tree 0 account rfl rfl (by decide) rfl rfl (by decide)
    (fun b balance salt merkleProof hmem => by simp [fairSteps] at hmem) (by decide)⟩

open Sample in
/-- The key is bound by a membership proof made without its secret: every deposit of the owner reverts, and
after a freeze every escape for the key. -/
theorem front_runner_binds_key : ∃ (tr tr' : List (Step Term)) (w w' : World Term (Address → Nat)),
      Run (Transition deployment) world₀ tr w ∧ (∀ st ∈ tr, ∃ b call, st = .call other b call) ∧
      w.bridge.escapeAddress pubkey = other ∧
      (∀ amount membershipSeal, ∃ e, (Call.deposit amount pubkey membershipSeal).run deployment owner w = .error e) ∧
      Run (Transition deployment) w tr' w' ∧ w'.bridge.frozen = true ∧
      w'.bridge.stateRoot = tree.root termSha256 ∧ tree.leaves 0 = some account ∧ account.pubkey = pubkey ∧
      ∀ index balance salt merkleProof,
        ∃ e, (Call.escapeWithdraw index pubkey balance salt merkleProof).run deployment owner w' = .error e := by
  have hother := escapeAddress_deposited world₀ other 1
  refine ⟨_, [.call other (later (deposited world₀ other 1)).bridge .freeze, .tick (1000 + 8 * 86400)], _,
    frozen (later (deposited world₀ other 1)), other_run, ?_, hother, ?_,
    .cons (.cons .nil (tick_step _)) (freeze_step rfl (by decide)), rfl, rfl, rfl, rfl, ?_⟩
  · intro st hst
    rw [List.mem_singleton.mp hst]
    exact ⟨_, _, rfl⟩
  · intro amount membershipSeal
    cases hrun : (Call.deposit amount pubkey membershipSeal).run deployment owner (deposited world₀ other 1) with
    | error e => exact ⟨e, rfl⟩
    | ok w' =>
      have haccepted := Call.run_eq_ok.mp hrun
      cases haccepted with
      | deposit live pos proof free paid =>
        rw [hother] at free
        exact absurd free (by decide)
  · intro index balance salt merkleProof
    cases hrun : (Call.escapeWithdraw index pubkey balance salt merkleProof).run deployment owner
        (frozen (later (deposited world₀ other 1))) with
    | error e => exact ⟨e, rfl⟩
    | ok w' =>
      have haccepted := Call.run_eq_ok.mp hrun
      cases haccepted with
      | escapeWithdraw hfrozen unclaimed pos verified isOwner paid =>
        exact absurd (isOwner.trans hother) (by decide)

end Pocs.Validium

import Pocs.Identity.System

/-! # One presentation for each identity and scope

The verifier marks the word of a nullifier, the circuit binds its residue. -/

namespace Pocs.Identity

open Compliance (BnField Word Address merkleHash)
open Swap (IdealHash Doubled doubledHash)

section
variable {F P T : Type} [BnField F] {D : Deployment F P T} {w w₀ : World T} {tr : List Step}

/-- The step is an accepted presentation, with a proof by the secret for the scope. -/
def Shows (D : Deployment F P T) (secret external : F) (st : Step) : Prop :=
  ∃ sender args wit, st = .call sender (.verifyProof args) ∧ Presents D args wit ∧
    wit.identitySecret = secret ∧ Scalar.ofNat args.externalNullifier = external

/-- No identity has two accepted presentations for one scope. -/
def PresentedOnce (D : Deployment F P T) (tr : List Step) : Prop :=
  ∀ (secret external : F) (i j : Nat) (st st' : Step), tr[i]? = some st → tr[j]? = some st' →
    Shows D secret external st → Shows D secret external st' → i = j

/-- The nullifier of a presentation is canonical. -/
def Step.CanonicalNullifier (F : Type) [BnField F] : Step → Prop
  | .call _ (.verifyProof args) => BnField.canonical F args.nullifier = true
  | _ => True

/-- A presentation with a canonical nullifier marks the word that its secret and scope have. -/
theorem Shows.nullifiers {secret external : F} {st : Step} (h : Shows D secret external st)
    (hcanonical : st.CanonicalNullifier F) :
    st.nullifiers = [Scalar.toNat (hashNullifier D.hash secret external)] := by
  obtain ⟨sender, args, wit, rfl, hpresents, rfl, rfl⟩ := h
  have hnullifier : (Scalar.ofNat args.nullifier : F) = _ := nullifier_of_membershipMain hpresents
  rw [Step.nullifiers, BnField.eq_toNat hcanonical hnullifier]
  rfl

/-- Where every presentation has the canonical word of its nullifier, an identity presents once for a scope. -/
theorem presented_once {key : ECPoint} (hdeployed : Deployed D key w₀) (hrun : Run (Transition D) w₀ tr w)
    (hcanonical : ∀ st ∈ tr, st.CanonicalNullifier F) : PresentedOnce D tr := by
  intro secret external i j st st' hi hj hshows hshows'
  have hnullifiers := hshows.nullifiers (hcanonical st (List.mem_of_getElem? hi))
  have hnullifiers' := hshows'.nullifiers (hcanonical st' (List.mem_of_getElem? hj))
  apply index_eq_of_mem (marked_of_run hdeployed hrun).2 hi hj
  · rw [hnullifiers]
    exact List.mem_singleton.mpr rfl
  · rw [hnullifiers']
    exact List.mem_singleton.mpr rfl

end

/-! ## A nullifier with two words -/

namespace Sample

/-- The first attribute is zero. -/
def presentArgs (hash : List Doubled → Doubled) (scope nullifier : Word) : PresentArgs where
  proof := []
  root := Scalar.toNat (leaf hash 3)
  nullifier
  externalNullifier := scope
  version := 1
  predicateType := 0
  predicateAttrIndex := 0
  predicateValue := 0
  predicateResult := 1

def presentWitness : MembershipWitness Doubled where
  identitySecret := Scalar.ofNat 3
  attrs := attributes
  path := ⟨0, fun _ => false, fun _ => 0⟩

variable (hash : List Doubled → Doubled)

def scopeNullifier (scope : Word) : Doubled := hashNullifier hash (Scalar.ofNat 3) (Scalar.ofNat scope)

theorem presents {scope nullifier : Word}
    (hn : (Scalar.ofNat nullifier : Doubled) = scopeNullifier hash scope) :
    Presents (deployment hash) (presentArgs hash scope nullifier) presentWitness := by
  have hbit : ∀ n, n < 2 → asU64 (Scalar.ofNat n : Doubled) < 2 := by
    intro n hn
    rw [asU64, Scalar.toNat_ofNat (hn.trans (by decide))]
    omega
  have hne : (Scalar.ofNat 0 : Doubled) ≠ Scalar.ofNat 1 :=
    fun h => absurd (Scalar.ofNat_inj (by decide) (by decide) h) (by decide)
  simp only [Presents, membershipMain, verifyMembership, assertPredicate, bind_eq_ok, require_eq_ok,
    exists_const]
  refine ⟨rfl, ?_, hn, hbit 0 (by decide), hbit 0 (by decide), (), if_neg hne, rfl,
    hbit 1 (by decide)⟩
  exact (Swap.binaryMerkleRoot_zero _ _ _ _).trans (BnField.ofNat_toNat _).symm

/-- `6` is authorized and inserts a leaf. -/
def insertSteps : List Step :=
  [.call 6 (.insertLeaf (Scalar.toNat (leaf hash 3)) 1), .call 5 (.addAuthorized 6)]

theorem insertSteps_canonical : ∀ st ∈ insertSteps hash, st.CanonicalNullifier Doubled :=
  List.forall_mem_cons.mpr ⟨trivial, List.forall_mem_singleton.mpr trivial⟩

variable {hash} (H : IdealHash hash)
include H

/-- The contracts, with a leaf. -/
theorem exists_inserted : ∃ w₀ w, Deployed (deployment hash) ⟨1, 2⟩ w₀ ∧
    Run (Transition (deployment hash)) w₀ (insertSteps hash) w ∧
    w.tree.isRecentRoot (Scalar.toNat (leaf hash 3)) = true ∧ w.verifier = ⟨5, false, fun _ => false⟩ := by
  let tree₁ : IdentityTree (List Doubled) :=
    { IdentityTree.new (deployment hash) 5 with authorized := Function.update (fun _ => false) 6 true }
  have hinserted := insertLeaf_eq_ok.mpr ⟨show tree₁.authorized 6 = true from rfl, rfl, rfl,
    show tree₁.usedEnrollmentNullifiers 1 = false from rfl, BnField.canonical_toNat (leaf hash 3), _,
    insert_leaf H List.not_mem_nil, rfl⟩
  let w₀ : World (List Doubled) :=
    ⟨0, .new ⟨1, 2⟩ 1 2 0, .new (deployment hash) 5, ⟨5, false, fun _ => false⟩⟩
  have hadd : Transition (deployment hash) w₀ (.call 5 (.addAuthorized 6)) (w₀.setTree tree₁) :=
    .call (show (5 : Address) ≠ 9 by decide) rfl
  have hcall : Call.run (deployment hash) 6 (w₀.setTree tree₁) (.insertLeaf (Scalar.toNat (leaf hash 3)) 1) =
      .ok _ := map_eq_ok.mpr ⟨_, hinserted, rfl⟩
  exact ⟨w₀, _, .mk, .cons (.cons .nil hadd) (.call (show (6 : Address) ≠ 9 by decide) hcall),
    isRecentRoot_pushRoot (D := deployment hash) (leaf_ne_zero H 3), rfl⟩

omit H in
theorem shows {scope nullifier : Word} (hn : (Scalar.ofNat nullifier : Doubled) = scopeNullifier hash scope) :
    Shows (deployment hash) (Scalar.ofNat 3) (Scalar.ofNat scope)
      (.call 6 (.verifyProof (presentArgs hash scope nullifier))) :=
  ⟨_, _, presentWitness, rfl, presents hash hn, rfl, rfl⟩

omit H in
/-- A presentation with an unused word is accepted. -/
theorem exists_shown {w : World (List Doubled)} {scope nullifier : Word}
    (hroot : w.tree.isRecentRoot (Scalar.toNat (leaf hash 3)) = true) (hpaused : w.verifier.paused = false)
    (hfresh : w.verifier.usedNullifiers nullifier = false)
    (hn : (Scalar.ofNat nullifier : Doubled) = scopeNullifier hash scope) :
    ∃ w', Transition (deployment hash) w (.call 6 (.verifyProof (presentArgs hash scope nullifier))) w' ∧
      w'.tree = w.tree ∧ w'.verifier.paused = false ∧
      w'.verifier.usedNullifiers = Function.update w.verifier.usedNullifiers nullifier true := by
  have hproof := @Deployment.verifyMembership_ofCircuits _ _ _ _ _ hash (cyclicBn254 Doubled)
    (slotTree (merkleHash hash)) 9 (presentArgs hash scope nullifier) []
  have hverify : w.verifier.verifyProof (deployment hash) w.tree (presentArgs hash scope nullifier) = .ok _ :=
    verifyProof_eq_ok.mpr ⟨hpaused, hroot, hfresh, show (0 : Nat) < 2 by decide,
      hproof.mpr ⟨_, presents hash hn⟩, rfl⟩
  exact ⟨_, .call (show (6 : Address) ≠ 9 by decide) (map_eq_ok.mpr ⟨_, hverify, rfl⟩), rfl, hpaused, rfl⟩

/-- The identity is presented for two scopes, or twice for one, with words that differ. -/
theorem exists_presented_twice {scope scope' n m : Word} (hnm : m ≠ n)
    (hn : (Scalar.ofNat n : Doubled) = scopeNullifier hash scope)
    (hm : (Scalar.ofNat m : Doubled) = scopeNullifier hash scope') :
    ∃ w₀ w, Deployed (deployment hash) ⟨1, 2⟩ w₀ ∧ Run (Transition (deployment hash)) w₀
      (.call 6 (.verifyProof (presentArgs hash scope' m)) ::
        .call 6 (.verifyProof (presentArgs hash scope n)) :: insertSteps hash) w := by
  obtain ⟨w₀, w, hdeployed, hrun, hroot, hverifier⟩ := exists_inserted H
  obtain ⟨w₁, hfirst, htree, hpaused, hmarked⟩ :=
    exists_shown hroot (by rw [hverifier]) (by rw [hverifier]) hn
  have hfresh : w₁.verifier.usedNullifiers m = false := by
    rw [hmarked, Function.update_of_ne hnm, hverifier]
  obtain ⟨w₂, hsecond, -⟩ := exists_shown (htree ▸ hroot) hpaused hfresh hm
  exact ⟨w₀, w₂, hdeployed, .cons (.cons hrun hfirst) hsecond⟩

theorem scopeNullifier_ne : Scalar.toNat (scopeNullifier hash 8) ≠ Scalar.toNat (scopeNullifier hash 7) := by
  intro h
  have hfields := H.inj (by simp) (by simp) (by simp) (by simp) (Scalar.toNat_inj h)
  simp only [List.cons.injEq, and_true, true_and] at hfields
  exact absurd (Scalar.ofNat_inj (by decide) (by decide) hfields) (by decide)

end Sample

open Sample

/-- An identity presents for two scopes. -/
theorem presented_once_sample : ∃ w₀ w tr, Deployed (deployment doubledHash) ⟨1, 2⟩ w₀ ∧
    Run (Transition (deployment doubledHash)) w₀ tr w ∧
    (∀ scope ∈ [7, 8], ∃ st ∈ tr, Shows (deployment doubledHash) (Scalar.ofNat 3) (Scalar.ofNat scope) st) ∧
    PresentedOnce (deployment doubledHash) tr := by
  obtain ⟨w₀, w, hdeployed, hrun⟩ := exists_presented_twice Swap.doubledHash_ideal
    (scopeNullifier_ne Swap.doubledHash_ideal) (BnField.ofNat_toNat _) (BnField.ofNat_toNat _)
  have hshows : ∀ scope, Shows (deployment doubledHash) (Scalar.ofNat 3) (Scalar.ofNat scope) _ :=
    fun _ => shows (BnField.ofNat_toNat _)
  refine ⟨w₀, w, _, hdeployed, hrun, List.forall_mem_cons.mpr
    ⟨⟨_, List.mem_cons_of_mem _ List.mem_cons_self, hshows 7⟩, List.forall_mem_singleton.mpr
      ⟨_, List.mem_cons_self, hshows 8⟩⟩, presented_once hdeployed hrun ?_⟩
  exact List.forall_mem_cons.mpr ⟨BnField.canonical_toNat _, List.forall_mem_cons.mpr
    ⟨BnField.canonical_toNat _, insertSteps_canonical doubledHash⟩⟩

/-- With the nullifiers `n` and `n + bn254`, an identity presents twice for one scope. -/
theorem presented_twice : ∃ w₀ w tr, Deployed (deployment doubledHash) ⟨1, 2⟩ w₀ ∧
    Run (Transition (deployment doubledHash)) w₀ tr w ∧
    ¬ PresentedOnce (deployment doubledHash) tr := by
  obtain ⟨w₀, w, hdeployed, hrun⟩ := @exists_presented_twice _ Swap.doubledHash_ideal 7 7 _ _
    (Nat.ne_of_gt (Nat.lt_add_of_pos_right (by decide))) (BnField.ofNat_toNat _) (Doubled.reduce_add _)
  refine ⟨w₀, w, _, hdeployed, hrun, fun honce => ?_⟩
  have hsame := honce _ _ 0 1 _ _ rfl rfl (shows (Doubled.reduce_add _)) (shows (BnField.ofNat_toNat _))
  exact absurd hsame (by decide)

end Pocs.Identity

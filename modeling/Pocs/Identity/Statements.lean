import Pocs.Identity.Presentations
import Pocs.Identity.Enrolments

/-! # What an accepted presentation states

The ring of roots holds those after the last insertions and removals. The circuit bounds the low bits of the
predicate type and compares the whole of it with the types it knows. -/

namespace Pocs.Identity

open Compliance (BnField Word Address merkleHash merkleVerify mem_of_merkleVerify)
open Swap (IdealHash Doubled doubledHash)

/-- The root is that of some tree over the leaves, removed ones being zeros. -/
def LeafTree.Rooted {α T : Type} [Zero α] (L : LeafTree α T) (node : α → α → α) : Prop :=
  ∀ t, L.root t ≠ 0 → Merkle.Spans node (0 :: L.leaves t) (L.root t)

theorem slotTree_rooted {F : Type} [Scalar F] {node : F → F → F} : (slotTree node).Rooted node := by
  intro slots hroot
  cases hlean : Merkle.leanRoot node slots with
  | none => exact absurd (show (Merkle.leanRoot node slots).getD 0 = 0 by rw [hlean]; rfl) hroot
  | some r =>
    have hr : (slotTree node).root slots = r := by
      show (Merkle.leanRoot node slots).getD 0 = r
      rw [hlean]
      rfl
    rw [hr]
    refine (Merkle.Spans.of_leanRoot hlean).mono fun x hx => ?_
    by_cases hzero : x = 0
    · exact hzero ▸ List.mem_cons_self
    · exact List.mem_cons_of_mem _ (List.mem_filter.mpr ⟨hx, decide_eq_true hzero⟩)

section
variable {F P T : Type} [BnField F] {D : Deployment F P T} {w w' w₀ : World T} {tr : List Step} {st : Step}
  {key : ECPoint}

/-! ## The statement -/

/-- `attrs[i]`. -/
def Attributes.get (attrs : Attributes F) : Nat → F
  | 0 => attrs.attr0
  | 1 => attrs.attr1
  | 2 => attrs.attr2
  | _ => attrs.attr3

/-- The predicate of the presentation has the presented result. -/
structure States (args : PresentArgs) (attrs : Attributes F) : Prop where
  equality : (Scalar.ofNat args.predicateType : F) = 0 → (Scalar.ofNat args.predicateResult : F) =
    ofBool (decide (attrs.get args.predicateAttrIndex = Scalar.ofNat args.predicateValue))
  boolean : (Scalar.ofNat args.predicateType : F) = Scalar.ofNat 1 →
    (Scalar.ofNat args.predicateValue : F) = 0 ∧ (Scalar.ofNat args.predicateResult : F) =
      ofBool (decide (attrs.get args.predicateAttrIndex = Scalar.ofNat 1))

/-- The step inserts or removes a leaf. -/
def Step.changesTree : Step → Bool
  | .call _ (.enroll _ _) => true
  | .call _ (.unstake _ _ _) => true
  | .call _ (.insertLeaf _ _) => true
  | .call _ (.removeLeaf _ _) => true
  | _ => false

/-- The run has passed a state after one of the last insertions and removals in which `p` holds. -/
def Recently (D : Deployment F P T) (w₀ : World T) (tr : List Step) (w : World T) (p : World T → Nat → Prop) :
    Prop :=
  ∃ after st before w₁, tr = after ++ st :: before ∧ Run (Transition D) w₀ (st :: before) w₁ ∧
    Run (Transition D) w₁ after w ∧ st.changesTree = true ∧
    after.countP Step.changesTree < recentRootsSize ∧ p w₁ (after.countP Step.changesTree)

/-- A version and a type that the circuit knows, and a recent leaf of which the predicate is as presented. -/
structure Truthful (D : Deployment F P T) (w₀ : World T) (tr : List Step) (w : World T) (args : PresentArgs) :
    Prop where
  version : (Scalar.ofNat args.version : F) = Scalar.ofNat 1
  predicateType : (Scalar.ofNat args.predicateType : F) = 0 ∨
    (Scalar.ofNat args.predicateType : F) = Scalar.ofNat 1
  enrolled : ∃ secret attrs, States args attrs ∧ Recently D w₀ tr w fun w₁ _ =>
    hashLeaf D.hash secret (hashAttr D.hash (Scalar.ofNat 1) attrs) ∈ D.imt.leaves w₁.tree.tree

/-- Whoever inserts leaves besides `Enrollment` inserts no inner nodes. -/
def Step.InsertsLeaf (D : Deployment F P T) : Step → Prop
  | .call _ (.insertLeaf leaf _) => ∀ l r : F, Scalar.ofNat leaf ≠ merkleHash D.hash l r
  | _ => True

/-! ## Insertions and removals -/

/-- The root of the new tree takes the next slot of the ring. -/
structure Pushed (D : Deployment F P T) (tree tree' : IdentityTree T) : Prop where
  rootIndex : tree'.rootIndex = (tree.rootIndex + 1) % recentRootsSize
  recentRoots : tree'.recentRoots =
    Function.update tree.recentRoots tree'.rootIndex (Scalar.toNat (D.imt.root tree'.tree))

inductive TreeStep (D : Deployment F P T) (st : Step) (tree tree' : IdentityTree T) : Prop where
  | kept (unchanged : st.changesTree = false) (same : tree'.tree = tree.tree)
    (recentRoots : tree'.recentRoots = tree.recentRoots) (rootIndex : tree'.rootIndex = tree.rootIndex)
  | inserted {leaf : F} (changed : st.changesTree = true) (pushed : Pushed D tree tree')
    (ok : D.imt.insert leaf tree.tree = .ok tree'.tree)
    (proven : (∃ secret attrHash, leaf = hashLeaf D.hash secret attrHash) ∨
      ∃ sender word nullifier, st = .call sender (.insertLeaf word nullifier) ∧ leaf = Scalar.ofNat word)
  | removed {leaf : F} {siblingNodes : List Nat} (changed : st.changesTree = true) (pushed : Pushed D tree tree')
    (ok : D.imt.remove leaf siblingNodes tree.tree = .ok tree'.tree)

theorem TreeStep.of_eq {tree tree' : IdentityTree T} (unchanged : st.changesTree = false) (h : tree' = tree) :
    TreeStep D st tree tree' := by
  subst h
  exact .kept unchanged rfl rfl rfl

theorem TreeStep.of_insertLeaf {sender : Address} {leaf nullifier : Word} {tree tree' : IdentityTree T}
    (changed : st.changesTree = true) (h : tree.insertLeaf D sender leaf nullifier = .ok tree')
    (proven : (∃ secret attrHash, (Scalar.ofNat leaf : F) = hashLeaf D.hash secret attrHash) ∨
      ∃ sender nullifier, st = .call sender (.insertLeaf leaf nullifier)) : TreeStep D st tree tree' := by
  obtain ⟨-, -, -, -, -, imt, himt, rfl⟩ := insertLeaf_eq_ok.mp h
  refine .inserted changed ⟨rfl, rfl⟩ himt (proven.imp_right ?_)
  rintro ⟨sender, nullifier, hst⟩
  exact ⟨sender, leaf, nullifier, hst, rfl⟩

theorem TreeStep.of_removeLeaf {sender : Address} {leaf : Word} {siblingNodes : List Word}
    {tree tree' : IdentityTree T} (changed : st.changesTree = true)
    (h : tree.removeLeaf D sender leaf siblingNodes = .ok tree') : TreeStep D st tree tree' := by
  obtain ⟨-, -, -, imt, himt, rfl⟩ := removeLeaf_eq_ok.mp h
  exact .removed changed ⟨rfl, rfl⟩ himt

theorem TreeStep.of_setAuthorized {sender addr : Address} {value : Bool} {tree tree' : IdentityTree T}
    (unchanged : st.changesTree = false) (h : tree.setAuthorized sender addr value = .ok tree') :
    TreeStep D st tree tree' := by
  simp only [IdentityTree.setAuthorized, bind_eq_ok, failIf_eq_ok, pure_eq_ok, exists_const] at h
  obtain ⟨-, rfl⟩ := h
  exact .kept unchanged rfl rfl rfl

variable [AddCommGroup P]

theorem leaf_of_enrollmentMain {hash : List F → F} {E : Bn254 F P} {pub : EnrollmentPublic F}
    {wit : EnrollmentWitness F} (h : enrollmentMain hash E pub wit = .ok ()) :
    pub.leaf = hashLeaf hash wit.identitySecret (hashAttr hash wit.version wit.attrs) := by
  simp only [enrollmentMain, bind_eq_ok, Swap.noirAssert_eq_ok, exists_const] at h
  obtain ⟨-, _, -, -, hleaf⟩ := h
  exact hleaf

/-- An enrollment is proven for one of the keys. -/
theorem Enrollment.leaf_of_verifies (hV : D.Verifies) {args : EnrollArgs} {blockNumber : Nat}
    {enrollment : Enrollment} (h : enrollment.verifies D blockNumber args = true) :
    ∃ secret attrHash, (Scalar.ofNat args.leaf : F) = hashLeaf D.hash secret attrHash := by
  have hkey : ∃ key, D.verifyEnrollment args.proof (args.publicInputs key) = true := by
    rw [Enrollment.verifies] at h
    split at h
    · exact ⟨_, h⟩
    · exact ⟨_, h⟩
  obtain ⟨key, hkey⟩ := hkey
  obtain ⟨wit, hmain⟩ := (hV.enrollment args key).mp ⟨_, hkey⟩
  exact ⟨_, _, leaf_of_enrollmentMain hmain⟩

theorem Transition.treeStep (hV : D.Verifies) (h : Transition D w st w') : TreeStep D st w.tree w'.tree := by
  cases h with
  | reverted err => exact .of_eq rfl rfl
  | block le => exact .of_eq rfl rfl
  | @call sender call _ hne ok =>
    cases call with
    | enroll value args =>
      obtain ⟨-, -, hverifies, tree, hinsert, rfl⟩ := enroll_eq_ok.mp ok
      exact .of_insertLeaf rfl hinsert (.inl (Enrollment.leaf_of_verifies hV hverifies))
    | unstake leaf siblingNodes received =>
      simp only [Call.run, unstake, bind_eq_ok, failIf_eq_ok, pure_eq_ok, exists_const] at ok
      obtain ⟨-, -, tree, hremove, -, rfl⟩ := ok
      exact .of_removeLeaf rfl hremove
    | proposeMPCPublicKey | finalizeMPCPublicKey | vetoPendingKey | pauseEnrollment =>
      obtain ⟨enrollment, -, rfl⟩ := map_eq_ok.mp ok
      exact .of_eq rfl rfl
    | insertLeaf leaf enrollmentNullifier =>
      obtain ⟨tree, hinsert, rfl⟩ := map_eq_ok.mp ok
      exact .of_insertLeaf rfl hinsert (.inr ⟨sender, enrollmentNullifier, rfl⟩)
    | removeLeaf leaf siblingNodes =>
      obtain ⟨tree, hremove, rfl⟩ := map_eq_ok.mp ok
      exact .of_removeLeaf rfl hremove
    | addAuthorized | removeAuthorized =>
      obtain ⟨tree, hset, rfl⟩ := map_eq_ok.mp ok
      exact .of_setAuthorized rfl hset
    | pauseTree paused =>
      obtain ⟨tree, hpause, rfl⟩ := map_eq_ok.mp ok
      simp only [IdentityTree.setPaused, bind_eq_ok, failIf_eq_ok, pure_eq_ok, exists_const] at hpause
      obtain ⟨-, rfl⟩ := hpause
      exact .kept rfl rfl rfl rfl
    | verifyProof | pauseVerifier =>
      obtain ⟨verifier, -, rfl⟩ := map_eq_ok.mp ok
      exact .of_eq rfl rfl

/-! ## The ring -/

/-- Each root of the ring is that of the tree after one of the last changes, at its place. -/
def RingInv (D : Deployment F P T) (w₀ : World T) (tr : List Step) (w : World T) : Prop :=
  ∀ i < recentRootsSize, w.tree.recentRoots i ≠ 0 → Recently D w₀ tr w fun w₁ age =>
    (i + age) % recentRootsSize = w.tree.rootIndex ∧
      w.tree.recentRoots i = Scalar.toNat (D.imt.root w₁.tree.tree)

omit [AddCommGroup P] in
theorem Recently.imp {p q : World T → Nat → Prop} (h : Recently D w₀ tr w p)
    (himp : ∀ w₁ age, p w₁ age → q w₁ age) : Recently D w₀ tr w q := by
  obtain ⟨after, st, before, w₁, htr, hbefore, hafter, hchanged, hage, hp⟩ := h
  exact ⟨after, st, before, w₁, htr, hbefore, hafter, hchanged, hage, himp _ _ hp⟩

omit [AddCommGroup P] in
/-- The state after a step, whose age does not grow unless the step changes the tree. -/
theorem Recently.step {p q : World T → Nat → Prop} (h : Recently D w₀ tr w p) (hstep : Transition D w st w')
    (himp : ∀ w₁ age, p w₁ age → age < recentRootsSize →
      age + st.changesTree.toNat < recentRootsSize ∧ q w₁ (age + st.changesTree.toNat)) :
    Recently D w₀ (st :: tr) w' q := by
  obtain ⟨after, st₁, before, w₁, rfl, hbefore, hafter, hchanged, hage, hp⟩ := h
  have hcount : (st :: after).countP Step.changesTree =
      after.countP Step.changesTree + st.changesTree.toNat := by
    cases hst : st.changesTree with
    | false => exact List.countP_cons_of_neg (by simp [hst])
    | true => exact List.countP_cons_of_pos hst
  obtain ⟨hlt, hq⟩ := himp _ _ hp hage
  refine ⟨st :: after, st₁, before, w₁, rfl, hbefore, .cons hafter hstep, hchanged, ?_, ?_⟩
  · rw [hcount]
    exact hlt
  · rw [hcount]
    exact hq

omit [AddCommGroup P] in
/-- The slot of the new root is that of the oldest one. -/
theorem RingInv.pushed (inv : RingInv D w₀ tr w) (hrun : Run (Transition D) w₀ tr w)
    (hstep : Transition D w st w') (changed : st.changesTree = true) (pushed : Pushed D w.tree w'.tree) :
    RingInv D w₀ (st :: tr) w' := by
  intro i hi hslot
  rw [pushed.recentRoots] at hslot ⊢
  rcases eq_or_ne i w'.tree.rootIndex with rfl | hne
  · refine ⟨[], st, tr, w', rfl, .cons hrun hstep, .nil, changed, by decide, Nat.mod_eq_of_lt hi, ?_⟩
    rw [Function.update_self]
  · rw [Function.update_of_ne hne] at hslot ⊢
    refine (inv i hi hslot).step hstep fun w₁ age hp hage => ?_
    have hnext : (i + (age + 1)) % recentRootsSize = w'.tree.rootIndex := by
      rw [pushed.rootIndex, ← hp.1, Nat.mod_add_mod, Nat.add_assoc]
    rw [changed, Bool.toNat_true]
    refine ⟨?_, hnext, hp.2⟩
    -- a root as old as the ring is in the slot that is written
    by_contra hold
    have hlast : age + 1 = recentRootsSize := by omega
    rw [hlast, Nat.add_mod_right, Nat.mod_eq_of_lt hi] at hnext
    exact hne hnext

theorem ringInv_of_run (hV : D.Verifies) (hdeployed : Deployed D key w₀) (hrun : Run (Transition D) w₀ tr w) :
    RingInv D w₀ tr w := by
  induction hrun with
  | nil =>
    cases hdeployed
    exact fun i _ hi => absurd rfl hi
  | @cons tr w w' st hrun hstep ih =>
    cases hstep.treeStep hV with
    | kept unchanged same recentRoots rootIndex =>
      intro i hi hslot
      rw [recentRoots] at hslot ⊢
      rw [rootIndex]
      refine (ih i hi hslot).step hstep fun w₁ age hp hage => ?_
      rw [unchanged]
      exact ⟨hage, hp⟩
    | inserted changed pushed ok proven | removed changed pushed ok =>
      exact ih.pushed hrun hstep changed pushed

theorem recently_of_isRecentRoot (hV : D.Verifies) (hdeployed : Deployed D key w₀)
    (hrun : Run (Transition D) w₀ tr w) {root : Word} (h : w.tree.isRecentRoot root = true) :
    Recently D w₀ tr w fun w₁ _ => root ≠ 0 ∧ root = Scalar.toNat (D.imt.root w₁.tree.tree) := by
  rw [IdentityTree.isRecentRoot] at h
  split at h
  · exact absurd h Bool.false_ne_true
  · next hzero =>
    obtain ⟨i, hi, hroot⟩ := List.any_eq_true.mp h
    replace hroot := of_decide_eq_true hroot
    have hrecent := ringInv_of_run hV hdeployed hrun i (List.mem_range.mp hi) (hroot ▸ hzero)
    exact hrecent.imp fun w₁ age hp => ⟨hzero, hroot.symm.trans hp.2⟩

omit [AddCommGroup P] in
theorem leaf_ne_node (H : IdealHash D.hash) (secret attrHash l r : F) :
    hashLeaf D.hash secret attrHash ≠ merkleHash D.hash l r :=
  H.ideal.ne_of_length (by simp) (List.cons_ne_nil _ _) (by simp) (List.cons_ne_nil _ _) (by simp)

/-- No leaf of the tree is an inner node. -/
theorem leaves_ne_node (hV : D.Verifies) (H : IdealHash D.hash) (hL : D.imt.Lawful)
    (hdeployed : Deployed D key w₀) (hrun : Run (Transition D) w₀ tr w)
    (hinserts : ∀ st ∈ tr, st.InsertsLeaf D) :
    ∀ x ∈ D.imt.leaves w.tree.tree, ∀ l r, x ≠ merkleHash D.hash l r := by
  induction hrun with
  | nil =>
    cases hdeployed
    intro x hx
    replace hx : x ∈ D.imt.leaves D.imt.empty := hx
    rw [hL.leaves_empty] at hx
    exact absurd hx List.not_mem_nil
  | cons hrun hstep ih =>
    obtain ⟨hst, hinserts⟩ := List.forall_mem_cons.mp hinserts
    replace ih := ih hinserts
    cases hstep.treeStep hV with
    | kept unchanged same recentRoots rootIndex =>
      rw [same]
      exact ih
    | inserted changed pushed ok proven =>
      intro x hx
      rcases ((hL.insert ok).2.2 x).mp hx with rfl | hold
      · rcases proven with ⟨secret, attrHash, rfl⟩ | ⟨sender, word, nullifier, rfl, rfl⟩
        · exact leaf_ne_node H secret attrHash
        · exact hst
      · exact ih x hold
    | removed changed pushed ok =>
      intro x hx
      exact ih x (((hL.remove ok).2 x).mp hx).2

/-- A leaf that verifies against a recent root was in the tree after a recent change. -/
theorem recently_of_verifyMembership (hV : D.Verifies) (H : IdealHash D.hash) (hL : D.imt.Lawful)
    (hR : D.imt.Rooted (merkleHash D.hash)) (hdeployed : Deployed D key w₀)
    (hrun : Run (Transition D) w₀ tr w) (hinserts : ∀ st ∈ tr, st.InsertsLeaf D) {root : Word}
    (hroot : w.tree.isRecentRoot root = true) {secret attrHash : F} {path : Compliance.MerklePath F maxDepth}
    (hverify : verifyMembership D.hash (hashLeaf D.hash secret attrHash) (Scalar.ofNat root) path = .ok ()) :
    Recently D w₀ tr w fun w₁ _ => hashLeaf D.hash secret attrHash ∈ D.imt.leaves w₁.tree.tree := by
  obtain ⟨after, st, before, w₁, rfl, hbefore, hafter, hchanged, hage, hzero, hword⟩ :=
    recently_of_isRecentRoot hV hdeployed hrun hroot
  refine ⟨after, st, before, w₁, rfl, hbefore, hafter, hchanged, hage, ?_⟩
  have hleaves := leaves_ne_node hV H hL hdeployed hbefore
    fun st hst => hinserts st (List.mem_append_right _ hst)
  have hresidue : Scalar.ofNat root = D.imt.root w₁.tree.tree := by
    rw [hword, BnField.ofNat_toNat]
  have hne : D.imt.root w₁.tree.tree ≠ 0 := by
    intro h
    rw [h, Scalar.toNat_zero] at hword
    exact hzero hword
  have hnodes : ∀ y ∈ 0 :: D.imt.leaves w₁.tree.tree, ∀ l r, y ≠ merkleHash D.hash l r :=
    List.forall_mem_cons.mpr ⟨fun l r => (H.ideal.ne_zero (List.cons_ne_nil _ _) (by simp)).symm, hleaves⟩
  rw [verifyMembership, require_eq_ok, hresidue] at hverify
  have hmem := mem_of_merkleVerify H.ideal hnodes (by rw [merkleVerify, require_eq_ok]; exact hverify)
    (hR _ hne) (leaf_ne_node H secret attrHash)
  exact (List.mem_cons.mp hmem).resolve_left (H.ideal.ne_zero (List.cons_ne_nil _ _) (by simp [domainLeaf]))

/-! ## The predicate -/

/-- The checks of `membership`. -/
theorem membershipMain_eq_ok {hash : List F → F} {pub : MembershipPublic F} {wit : MembershipWitness F} :
    membershipMain hash pub wit = .ok () ↔ pub.version = Scalar.ofNat 1 ∧
      verifyMembership hash (hashLeaf hash wit.identitySecret (hashAttr hash pub.version wit.attrs)) pub.root
        wit.path = .ok () ∧ pub.nullifier = hashNullifier hash wit.identitySecret pub.externalNullifier ∧
      assertPredicate pub wit.attrs = .ok () := by
  simp only [membershipMain, bind_eq_ok, require_eq_ok, Unique.exists_iff, PUnit.default_eq_unit]

theorem assertPredicate_eq_ok {pub : MembershipPublic F} {attrs : Attributes F} :
    assertPredicate pub attrs = .ok () ↔ asU64 pub.predicateType < 2 ∧ asU64 pub.predicateAttrIndex < 2 ∧
      (pub.predicateType = Scalar.ofNat 1 → pub.predicateValue = 0) ∧ pub.predicateResult =
        (if pub.predicateType = 0 then
          ofBool (decide ((if pub.predicateAttrIndex = 0 then attrs.attr0 else attrs.attr1) =
            pub.predicateValue)) else
          ofBool (decide ((if pub.predicateAttrIndex = 0 then attrs.attr0 else attrs.attr1) =
            Scalar.ofNat 1))) ∧ asU64 pub.predicateResult < 2 := by
  simp only [assertPredicate, bind_eq_ok, require_eq_ok, onlyIf_eq_ok, Unique.exists_iff]

omit [AddCommGroup P] in
theorem zero_ne_one : (0 : F) ≠ Scalar.ofNat 1 :=
  fun h => absurd (Scalar.ofNat_inj (by decide) (by decide) h) (by decide)

omit [AddCommGroup P] in
/-- A type below the bound of the cast is one of the two. -/
theorem predicateType_of_lt {x : F} (hcast : asU64 x < 2) (hlt : Scalar.toNat x < 2 ^ 64) :
    x = 0 ∨ x = Scalar.ofNat 1 := by
  rw [asU64, Nat.mod_eq_of_lt hlt] at hcast
  rcases Nat.lt_succ_iff_lt_or_eq.mp hcast with hzero | hone
  · exact .inl (Scalar.toNat_inj ((Nat.lt_one_iff.mp hzero).trans Scalar.toNat_zero.symm))
  · exact .inr (Scalar.toNat_inj (hone.trans (Scalar.toNat_ofNat (by decide)).symm))

omit [AddCommGroup P] in
/-- The circuit evaluates the predicate of the attribute. -/
theorem predicate_of_assertPredicate {pub : MembershipPublic F} {attrs : Attributes F} {i : Nat} (hi : i < 2)
    (hindex : pub.predicateAttrIndex = Scalar.ofNat i) (h : assertPredicate pub attrs = .ok ()) :
    (pub.predicateType = 0 → pub.predicateResult = ofBool (decide (attrs.get i = pub.predicateValue))) ∧
      (pub.predicateType = Scalar.ofNat 1 → pub.predicateValue = 0 ∧
        pub.predicateResult = ofBool (decide (attrs.get i = Scalar.ofNat 1))) := by
  obtain ⟨-, -, hvalue, hresult, -⟩ := assertPredicate_eq_ok.mp h
  have hselected : (if pub.predicateAttrIndex = 0 then attrs.attr0 else attrs.attr1) = attrs.get i := by
    rw [hindex]
    rcases Nat.lt_succ_iff_lt_or_eq.mp hi with hzero | rfl
    · obtain rfl := Nat.lt_one_iff.mp hzero
      exact if_pos rfl
    · exact if_neg zero_ne_one.symm
  simp only [hselected] at hresult
  refine ⟨fun htype => ?_, fun htype => ⟨hvalue htype, ?_⟩⟩
  · rw [hresult, if_pos htype]
  · rw [hresult, if_neg (htype ▸ zero_ne_one.symm)]

/-- An accepted presentation is truthful if and only if its type is below the bound of the cast. -/
theorem truthful_iff (hV : D.Verifies) (H : IdealHash D.hash) (hL : D.imt.Lawful)
    (hR : D.imt.Rooted (merkleHash D.hash)) (hdeployed : Deployed D key w₀)
    (hrun : Run (Transition D) w₀ tr w) (hinserts : ∀ st ∈ tr, st.InsertsLeaf D) {args : PresentArgs}
    {verifier : IdentityVerifier} (hverify : w.verifier.verifyProof D w.tree args = .ok verifier) :
    Truthful D w₀ tr w args ↔ Scalar.toNat (Scalar.ofNat args.predicateType : F) < 2 ^ 64 := by
  constructor
  · intro h
    rcases h.predicateType with htype | htype
    · rw [htype, Scalar.toNat_zero]
      decide
    · rw [htype, Scalar.toNat_ofNat (by decide)]
      decide
  · intro hlt
    obtain ⟨-, hroot, -, hindex, hproof, -⟩ := verifyProof_eq_ok.mp hverify
    obtain ⟨wit, hmain⟩ := (hV.membership args).mp ⟨_, hproof⟩
    obtain ⟨hversion, hmember, -, hpredicate⟩ := membershipMain_eq_ok.mp hmain
    rw [hversion] at hmember
    obtain ⟨hequality, hboolean⟩ := predicate_of_assertPredicate hindex rfl hpredicate
    exact ⟨hversion, predicateType_of_lt (assertPredicate_eq_ok.mp hpredicate).1 hlt, wit.identitySecret,
      wit.attrs, ⟨hequality, hboolean⟩,
      recently_of_verifyMembership hV H hL hR hdeployed hrun hinserts hroot hmember⟩

end

/-! ## A type above the bound -/

namespace Sample
variable {hash : List Doubled → Doubled} (H : IdealHash hash)

/-- The cast keeps nothing of the type. -/
def castArgs (hash : List Doubled → Doubled) : PresentArgs :=
  { presentArgs hash 7 (Scalar.toNat (scopeNullifier hash 7)) with
    predicateType := 2 ^ 64
    predicateValue := 5
    predicateResult := 0 }

theorem toNat_type : Scalar.toNat (Scalar.ofNat (2 ^ 64) : Doubled) = 2 ^ 64 :=
  BnField.toNat_ofNat_of_canonical (BnField.canonical_of_lt (by decide))

theorem castArgs_presents : Presents (deployment hash) (castArgs hash) presentWitness := by
  obtain ⟨hversion, hmember, hnullifier, -⟩ := membershipMain_eq_ok.mp (presents hash (BnField.ofNat_toNat _))
  refine membershipMain_eq_ok.mpr ⟨hversion, hmember, hnullifier, assertPredicate_eq_ok.mpr ?_⟩
  have hne : ∀ n < 2, (Scalar.ofNat (2 ^ 64) : Doubled) ≠ Scalar.ofNat n := by
    intro n hn h
    have hvalue := congrArg Scalar.toNat h
    rw [toNat_type, Scalar.toNat_ofNat (hn.trans (by decide))] at hvalue
    exact absurd hn (by rw [← hvalue]; decide)
  have hzero : asU64 (0 : Doubled) < 2 := by
    rw [asU64, Scalar.toNat_zero]
    decide
  refine ⟨?_, hzero, fun h => absurd h (hne 1 (by decide)), ?_, hzero⟩
  · show asU64 (Scalar.ofNat (2 ^ 64) : Doubled) < 2
    rw [asU64, toNat_type]
    decide
  · have hvalue : decide ((0 : Doubled) = Scalar.ofNat 1) = false := decide_eq_false zero_ne_one
    refine Eq.symm ((if_neg (hne 0 (by decide))).trans ?_)
    exact congrArg ofBool hvalue

include H

theorem insertSteps_insertsLeaf : ∀ st ∈ insertSteps hash, st.InsertsLeaf (deployment hash) := by
  refine List.forall_mem_cons.mpr ⟨fun l r => ?_, List.forall_mem_singleton.mpr trivial⟩
  rw [BnField.ofNat_toNat]
  exact leaf_ne_node (D := deployment hash) H _ _ l r

/-- A presentation of the leaf that the circuit can prove is accepted. -/
theorem exists_accepted {args : PresentArgs} (hroot : args.root = Scalar.toNat (leaf hash 3))
    (hindex : args.predicateAttrIndex < 2) (hpresents : Presents (deployment hash) args presentWitness) :
    ∃ w₀ w verifier, Deployed (deployment hash) ⟨1, 2⟩ w₀ ∧
      Run (Transition (deployment hash)) w₀ (insertSteps hash) w ∧
      w.verifier.verifyProof (deployment hash) w.tree args = .ok verifier := by
  obtain ⟨w₀, w, hdeployed, hrun, hrecent, hverifier⟩ := exists_inserted H
  have hproof := @Deployment.verifyMembership_ofCircuits _ _ _ _ _ hash (cyclicBn254 Doubled)
    (slotTree (merkleHash hash)) 9 args args.proof
  exact ⟨w₀, w, _, hdeployed, hrun, verifyProof_eq_ok.mpr ⟨by rw [hverifier], hroot ▸ hrecent,
    by rw [hverifier], hindex, hproof.mpr ⟨_, hpresents⟩, rfl⟩⟩

end Sample

open Sample

/-- A presentation of type `0` states what is so. -/
theorem truthful_iff_sample : ∃ w₀ w args, Deployed (deployment doubledHash) ⟨1, 2⟩ w₀ ∧
    Run (Transition (deployment doubledHash)) w₀ (insertSteps doubledHash) w ∧
    Truthful (deployment doubledHash) w₀ (insertSteps doubledHash) w args := by
  have hH := Swap.doubledHash_ideal
  obtain ⟨w₀, w, verifier, hdeployed, hrun, hverify⟩ := exists_accepted hH rfl (by decide)
    (@presents doubledHash 7 _ (BnField.ofNat_toNat _))
  have htruthful := truthful_iff (D := deployment doubledHash) Deployment.ofCircuits_verifies hH
    slotTree_lawful slotTree_rooted hdeployed hrun (insertSteps_insertsLeaf hH) hverify
  refine ⟨w₀, w, _, hdeployed, hrun, htruthful.mpr ?_⟩
  show Scalar.toNat (0 : Doubled) < 2 ^ 64
  rw [Scalar.toNat_zero]
  decide

/-- The type `2 ^ 64` is neither of the two, and its presentation is accepted. -/
theorem accepted_not_truthful : ∃ w₀ w args verifier, Deployed (deployment doubledHash) ⟨1, 2⟩ w₀ ∧
    Run (Transition (deployment doubledHash)) w₀ (insertSteps doubledHash) w ∧
    (∀ st ∈ insertSteps doubledHash, st.InsertsLeaf (deployment doubledHash)) ∧
    w.verifier.verifyProof (deployment doubledHash) w.tree args = .ok verifier ∧
    ¬ Truthful (deployment doubledHash) w₀ (insertSteps doubledHash) w args := by
  have hH := Swap.doubledHash_ideal
  obtain ⟨w₀, w, verifier, hdeployed, hrun, hverify⟩ := exists_accepted hH rfl (by decide)
    (@castArgs_presents doubledHash)
  refine ⟨w₀, w, _, verifier, hdeployed, hrun, insertSteps_insertsLeaf hH, hverify, fun h => ?_⟩
  have htype : Scalar.toNat (Scalar.ofNat (2 ^ 64) : Doubled) < 2 := by
    rcases h.predicateType with hzero | hone
    · rw [show (Scalar.ofNat (2 ^ 64) : Doubled) = 0 from hzero, Scalar.toNat_zero]
      decide
    · rw [show (Scalar.ofNat (2 ^ 64) : Doubled) = Scalar.ofNat 1 from hone, Scalar.toNat_ofNat (by decide)]
      decide
  rw [toNat_type] at htype
  exact absurd htype (by decide)

end Pocs.Identity

import Pocs.Compliance.Gadgets
import Pocs.Lib.LeanRoot
import Pocs.Rails.System

/-! # Rounds in the sub-tree of their claim contract

The commitments of the rounds of a claim contract stand in its sub-tree one round after the other, each
known by its index, and the roots after the last hundred of them are the known ones
(`rounds_contiguous`). -/

namespace Pocs.Rails

open Compliance (Address Word BnField merkleHash idealHash)

variable {F T τ : Type} [BnField F]

/-- The tree of the pool hashes its leaves level by level, with a collision-free hash that is never zero
and never comes back to a node below. -/
structure TreeLaws (D : Deployment F T τ) (node : F → F → F) : Prop where
  lawful : D.imt.Lawful node
  rooted : D.imt.Rooted node
  inj : Function.Injective2 node
  acyclic : Merkle.Acyclic node
  ne_zero : ∀ a b, node a b ≠ 0

structure SubTree (D : Deployment F T τ) (node : F → F → F) (pool : ShieldedPool T)
    (claimContract : Address) (commitments : List Word) : Prop where
  leaves : D.imt.leaves (pool.trees claimContract) = commitments.map Scalar.ofNat
  ne_zero : ∀ x ∈ D.imt.leaves (pool.trees claimContract), x ≠ 0
  index : ∀ i x, commitments[i]? = some x → pool.commitmentIndex (claimContract, x) = i + 1
  roots : (pool.roots claimContract).Holds recentRootsWindow
    ((Merkle.prefixRoots node (commitments.map Scalar.ofNat)).map Scalar.toNat)

section
variable {D : Deployment F T τ} {node : F → F → F} {w w' : World T τ} {pool pool' : ShieldedPool T}
  {claimContract factory : Address} {commitments : List Word}

theorem SubTree.new (hT : TreeLaws D node) (verifier : Address) :
    SubTree D node (ShieldedPool.new D verifier) claimContract [] where
  leaves := hT.lawful.leaves_empty
  ne_zero x hx := by
    rw [show (ShieldedPool.new D verifier).trees claimContract = D.imt.empty from rfl,
      hT.lawful.leaves_empty] at hx
    cases hx
  index := by simp
  roots := RootRing.holds_empty

/-- The sub-tree is in three mappings of the pool. -/
theorem SubTree.of_eq (h : SubTree D node pool claimContract commitments)
    (htrees : pool'.trees claimContract = pool.trees claimContract)
    (hindex : ∀ x, pool'.commitmentIndex (claimContract, x) = pool.commitmentIndex (claimContract, x))
    (hroots : pool'.roots claimContract = pool.roots claimContract) :
    SubTree D node pool' claimContract commitments where
  leaves := htrees ▸ h.leaves
  ne_zero := htrees ▸ h.ne_zero
  index i x hx := (hindex x).trans (h.index i x hx)
  roots := hroots ▸ h.roots

variable {commitment : Word} {amount : Nat} {roundId : Word} {token : τ} {tree : T}

theorem SubTree.deposited (hT : TreeLaws D node) (h : SubTree D node w.pool claimContract commitments)
    (hdeposit : Deposited D w factory claimContract commitment amount token tree) :
    SubTree D node (w.deposited D claimContract commitment amount roundId token tree).pool claimContract
      (commitments ++ [commitment]) := by
  obtain ⟨hne, -, hleaves⟩ := hT.lawful.insert hdeposit.tree
  have htrees : (w.deposited D claimContract commitment amount roundId token tree).pool.trees
      claimContract = tree := Function.update_self ..
  rw [h.leaves, ← List.map_singleton, ← List.map_append] at hleaves
  have hroot : Merkle.leanRoot node ((commitments ++ [commitment]).map Scalar.ofNat) =
      some (D.imt.root tree) := by
    rw [← hleaves]
    exact hT.rooted (by simp [hleaves])
  refine ⟨(congrArg D.imt.leaves htrees).trans hleaves, ?_, fun i x hx => ?_, ?_⟩
  · rw [htrees, hleaves, List.map_append, ← h.leaves]
    intro x hx
    rcases List.mem_append.mp hx with hx | hx
    · exact h.ne_zero x hx
    · rw [List.mem_singleton.mp hx]
      exact hne
  · -- the index of an earlier commitment is not zero, so the new one is another word
    show Function.update w.pool.commitmentIndex (claimContract, commitment) _ (claimContract, x) = i + 1
    rcases Nat.lt_trichotomy i commitments.length with hlt | rfl | hgt
    · rw [List.getElem?_append_left hlt] at hx
      have hindex := h.index i x hx
      rw [Function.update_of_ne, hindex]
      intro heq
      rw [heq, hdeposit.fresh] at hindex
      omega
    · rw [List.getElem?_concat_length] at hx
      cases hx
      rw [Function.update_self, subTreeSize, Rails.leaves, h.leaves, List.length_map]
    · rw [List.getElem?_eq_none (by simp; omega)] at hx
      cases hx
  · show ((Function.update w.pool.roots claimContract _) claimContract).Holds _ _
    rw [Function.update_self]
    have hroots := @RootRing.Holds.record _ (Scalar.toNat (D.imt.root tree)) _ _ h.roots (by decide)
      ?_ ?_
    · rw [List.map_append, List.map_singleton] at hroot
      rw [List.map_append, List.map_singleton, Merkle.prefixRoots_concat hroot, List.map_append]
      exact hroots
    · intro hmem
      obtain ⟨r, hr, hzero⟩ := List.mem_map.mp hmem
      have hr0 : r = 0 := Scalar.toNat_injective (hzero.trans Scalar.toNat_zero.symm)
      rw [hr0, ← h.leaves] at hr
      exact Merkle.zero_notMem_prefixRoots hT.ne_zero h.ne_zero hr
    · exact (Merkle.prefixRoots_nodup hT.inj hT.acyclic).map Scalar.toNat_injective

theorem SubTree.depositAll (hT : TreeLaws D node) {more : List Word}
    (h : SubTree D node w.pool claimContract commitments)
    (hdeposits : Rails.depositAll D factory claimContract amount roundId more w = .ok w') :
    SubTree D node w'.pool claimContract (commitments ++ more) := by
  induction more generalizing w commitments with
  | nil =>
    cases hdeposits
    rw [List.append_nil]
    exact h
  | cons commitment more ih =>
    rw [Rails.depositAll, List.foldlM_cons, bind_eq_ok] at hdeposits
    obtain ⟨w₁, hdeposit, hrest⟩ := hdeposits
    obtain ⟨token, tree, hdeposited, -, -, rfl⟩ := deposit_eq_ok.mp hdeposit
    rw [List.append_cons]
    exact ih (h.deposited hT hdeposited) hrest

end

/-! ## Along a run -/

/-- The index of the first leaf of the `n`-th round. -/
def firstLeaf (rounds : List Publication) (n : Nat) : Nat := (commitmentsOf (rounds.take n)).length

/-- The claim contract has the header of the round and, in 64 bits, the index of its first leaf. -/
structure Registered (cc : ClaimContract) (claimContract : Address) (round : Publication) (first : Nat) :
    Prop where
  contract : round.1.claimContractAddress = claimContract
  header : cc.header round.1.roundId = round.1
  firstPoolLeafIndex : cc.firstPoolLeafIndex round.1.roundId = .ofNat first
  length : round.2.length = round.1.cohortSize

structure RoundsInv (D : Deployment F T τ) (node : F → F → F) (tr : List Step) (w : World T τ) : Prop
    extends RegisteredInv D tr w where
  subTree : ∀ c, SubTree D node w.pool c (commitmentsOf (publications c tr))
  first : ∀ (c : Address) (n : Nat) (round : Publication), (publications c tr)[n]? = some round →
    (w.claims c).firstPoolLeafIndex round.1.roundId = .ofNat (firstLeaf (publications c tr) n)

section
variable {D : Deployment F T τ} {node : F → F → F} {w w' w₀ : World T τ} {tr : List Step} {st : Step}

theorem RoundsInv.kept (inv : RoundsInv D node tr w) (h : RoundsKept w w')
    (hst : ∀ c, st.publications c = []) : RoundsInv D node (st :: tr) w' where
  toRegisteredInv := inv.toRegisteredInv.kept h hst
  subTree c := by
    rw [publications, hst, List.append_nil]
    exact (inv.subTree c).of_eq (by rw [h.trees]) (by simp [h.commitmentIndex]) (by rw [h.roots])
  first c n round := by
    rw [publications, hst, List.append_nil, h.firstPoolLeafIndex]
    exact inv.first c n round

theorem RoundsInv.publishRound (hT : TreeLaws D node) (inv : RoundsInv D node tr w)
    {sender factory : Address} {h : RoundHeader} {commitments : List Word} {paid : Nat}
    (ok : publishRound D w factory sender h commitments = .ok w') :
    RoundsInv D node (.call sender (.publishRound factory h commitments) paid :: tr) w' := by
  have hinv : RegisteredInv D (.call sender (.publishRound factory h commitments) paid :: tr) w' :=
    inv.toRegisteredInv.publishRound ok
  have hround := inv.toRegisteredInv.notMem_of_publishRound ok
  obtain ⟨hpublish, token₁, token₂, w₂, -, -, hdeposits, hregister⟩ := publishRound_eq_ok.mp ok
  have hall := depositAll_ok hdeposits
  obtain ⟨-, -, rfl⟩ := registerHeader_eq_ok.mp hregister
  have hclaims : w₂.claims = w.claims := hall.claims
  refine ⟨hinv, fun c => ?_, fun c n round hn => ?_⟩
  · rw [publications_publishRound]
    split
    · next heq =>
      subst heq
      rw [commitmentsOf_append]
      have hnext := (inv.subTree h.claimContractAddress).depositAll (w := w.funded factory h.roundId token₂)
        hT hdeposits
      simpa [commitmentsOf] using hnext
    · next hne =>
      rw [List.append_nil]
      exact (inv.subTree c).of_eq (hall.trees c (Ne.symm hne))
        (fun x => hall.commitmentIndex c x (Ne.symm hne)) (hall.roots c (Ne.symm hne))
  · rw [publications_publishRound] at hn ⊢
    split at hn
    · next heq =>
      subst heq
      rw [if_pos rfl, World.setClaims_self, hclaims]
      rcases Nat.lt_trichotomy n (publications h.claimContractAddress tr).length with hlt | rfl | hgt
      · -- an earlier round has another identifier
        rw [List.getElem?_append_left hlt] at hn
        have hne : round.1.roundId ≠ h.roundId := by
          intro heq
          exact hround (heq ▸ List.mem_map_of_mem (List.mem_of_getElem? hn))
        rw [firstLeaf, List.take_append_of_le_length hlt.le]
        exact (Function.update_of_ne hne ..).trans (inv.first _ n round hn)
      · rw [List.getElem?_concat_length] at hn
        cases hn
        have hsize : subTreeSize D w h.claimContractAddress =
            (commitmentsOf (publications h.claimContractAddress tr)).length := by
          rw [subTreeSize, leaves, (inv.subTree h.claimContractAddress).leaves, List.length_map]
        rw [firstLeaf, List.take_left, ← hsize]
        exact Function.update_self ..
      · rw [List.getElem?_eq_none (by simp; omega)] at hn
        cases hn
    · next hne =>
      rw [if_neg hne, List.append_nil, World.setClaims_of_ne (Ne.symm hne), hclaims]
      rw [List.append_nil] at hn
      exact inv.first c n round hn

theorem RoundsInv.init (hT : TreeLaws D node) (h₀ : Deployed D w₀) : RoundsInv D node [] w₀ where
  toRegisteredInv := .init h₀
  subTree c := by
    obtain ⟨verifier, hpool⟩ := h₀.pool
    rw [hpool]
    exact .new hT verifier
  first := by simp [publications]

theorem RoundsInv.step (hT : TreeLaws D node) (inv : RoundsInv D node tr w)
    (h : Transition D w st w') : RoundsInv D node (st :: tr) w' := by
  rcases h.publishes_or with ⟨sender, factory, header, commitments, paid, rfl, ok⟩ | ⟨hkept, hst⟩
  · exact inv.publishRound hT ok
  · exact inv.kept hkept hst

theorem RoundsInv.run (hT : TreeLaws D node) (h₀ : Deployed D w₀) (hrun : Run (Transition D) w₀ tr w) :
    RoundsInv D node tr w :=
  hrun.invariant (RoundsInv.init hT h₀) fun _ _ _ _ _ h inv => inv.step hT h

end

/-! ## Ranges of leaves -/

section
variable {rounds : List Publication} {round : Publication} {n m : Nat}

theorem firstLeaf_succ (h : rounds[n]? = some round) :
    firstLeaf rounds (n + 1) = firstLeaf rounds n + round.2.length := by
  rw [firstLeaf, List.take_add_one, h, commitmentsOf_append, List.length_append]
  simp [firstLeaf, commitmentsOf]

theorem firstLeaf_mono (h : n ≤ m) : firstLeaf rounds n ≤ firstLeaf rounds m := by
  obtain ⟨k, rfl⟩ := Nat.exists_eq_add_of_le h
  rw [firstLeaf, firstLeaf, List.take_add, commitmentsOf_append, List.length_append]
  exact Nat.le_add_right _ _

/-- A round that starts after another one starts after its end. -/
theorem firstLeaf_le (h : rounds[n]? = some round) (hlt : n < m) :
    firstLeaf rounds n + round.2.length ≤ firstLeaf rounds m :=
  firstLeaf_succ h ▸ firstLeaf_mono hlt

/-- The commitments of a round stand behind its first leaf. -/
theorem commitmentsOf_getElem? (h : rounds[n]? = some round) {i : Nat} {x : Word}
    (hx : round.2[i]? = some x) : (commitmentsOf rounds)[firstLeaf rounds n + i]? = some x := by
  obtain ⟨hn, rfl⟩ := List.getElem?_eq_some_iff.mp h
  obtain ⟨hi, -⟩ := List.getElem?_eq_some_iff.mp hx
  have hsplit : commitmentsOf rounds = commitmentsOf (rounds.take n) ++
      (rounds[n].2 ++ commitmentsOf (rounds.drop (n + 1))) := by
    have hcons : commitmentsOf (rounds[n] :: rounds.drop (n + 1)) =
        rounds[n].2 ++ commitmentsOf (rounds.drop (n + 1)) := List.flatMap_cons
    rw [← hcons, ← List.drop_eq_getElem_cons hn, ← commitmentsOf_append, List.take_append_drop]
  rw [hsplit, firstLeaf, List.getElem?_append_right (Nat.le_add_right _ _), Nat.add_sub_cancel_left,
    List.getElem?_append_left hi, hx]

/-- Every leaf is in the range of some round. -/
theorem exists_firstLeaf {k : Nat} (h : k < (commitmentsOf rounds).length) : ∃ n round,
    rounds[n]? = some round ∧ firstLeaf rounds n ≤ k ∧ k < firstLeaf rounds n + round.2.length := by
  induction rounds using List.reverseRecOn with
  | nil => cases h
  | append_singleton rounds last ih =>
    rcases Nat.lt_or_ge k (commitmentsOf rounds).length with hlt | hge
    · obtain ⟨n, round, hn, hle, hlt⟩ := ih hlt
      obtain ⟨hlen, -⟩ := List.getElem?_eq_some_iff.mp hn
      refine ⟨n, round, (List.getElem?_append_left hlen).trans hn, ?_⟩
      rw [firstLeaf, List.take_append_of_le_length hlen.le]
      exact ⟨hle, hlt⟩
    · refine ⟨rounds.length, last, List.getElem?_concat_length, ?_⟩
      rw [commitmentsOf_append, List.length_append] at h
      rw [firstLeaf, List.take_left]
      exact ⟨hge, by simpa [commitmentsOf] using h⟩

theorem firstLeaf_unique {round' : Publication} {k : Nat} (h : rounds[n]? = some round)
    (h' : rounds[m]? = some round') (hle : firstLeaf rounds n ≤ k)
    (hlt : k < firstLeaf rounds n + round.2.length) (hle' : firstLeaf rounds m ≤ k)
    (hlt' : k < firstLeaf rounds m + round'.2.length) : n = m := by
  rcases Nat.lt_trichotomy n m with hnm | hnm | hnm
  · have hend := firstLeaf_le h hnm
    omega
  · exact hnm
  · have hend := firstLeaf_le h' hnm
    omega

end

/-- The rounds of a claim contract in its sub-tree, its registrations and the known roots. -/
structure Layout (D : Deployment F T τ) (node : F → F → F) (tr : List Step) (w : World T τ)
    (claimContract : Address) : Prop where
  /-- Together the rounds make up the sub-tree. -/
  leaves : leaves D w claimContract = (commitmentsOf (publications claimContract tr)).map Scalar.ofNat
  rounds : ∀ (n : Nat) (round : Publication), (publications claimContract tr)[n]? = some round →
    Registered (w.claims claimContract) claimContract round (firstLeaf (publications claimContract tr) n)
  index : ∀ (n : Nat) (round : Publication) (i : Nat) (x : Word),
    (publications claimContract tr)[n]? = some round → round.2[i]? = some x →
      w.pool.commitmentIndex (claimContract, x) = firstLeaf (publications claimContract tr) n + i + 1 ∧
      (Rails.leaves D w claimContract)[firstLeaf (publications claimContract tr) n + i]? = some (Scalar.ofNat x)
  /-- Every leaf is in the range of one round only. -/
  ranges : ∀ k < subTreeSize D w claimContract, ∃! n, ∃ round : Publication,
    (publications claimContract tr)[n]? = some round ∧ firstLeaf (publications claimContract tr) n ≤ k ∧
      k < firstLeaf (publications claimContract tr) n + round.2.length
  registered : ∀ roundId, (w.claims claimContract).roundRegistered roundId = true ↔
    roundId ∈ (publications claimContract tr).map fun round => round.1.roundId
  once : ((publications claimContract tr).map fun round => round.1.roundId).Nodup
  published : ∀ factory roundId, (D.factories factory).claimContract = claimContract →
    w.published (factory, roundId) = true → (w.claims claimContract).roundRegistered roundId = true
  published_of : ∀ roundId, (w.claims claimContract).roundRegistered roundId = true →
    w.published ((D.claims claimContract).factory, roundId) = true
  knownRoots : ∀ r, isKnownRoot w claimContract r = true ↔
    r ∈ ((Merkle.prefixRoots node (Rails.leaves D w claimContract)).map Scalar.toNat).drop
      (subTreeSize D w claimContract - recentRootsWindow)
  reverted : ∀ sender call e w', Transition D w (.reverted sender call e) w' → w' = w

/-- In every state that is reached, the rounds of each claim contract occupy ranges of leaves one after
the other. -/
theorem rounds_contiguous {D : Deployment F T τ} {node : F → F → F} (hT : TreeLaws D node)
    {w₀ w : World T τ} {tr : List Step} (h₀ : Deployed D w₀) (hrun : Run (Transition D) w₀ tr w)
    (claimContract : Address) : Layout D node tr w claimContract := by
  have inv := RoundsInv.run hT h₀ hrun
  have hsub := inv.subTree claimContract
  have hleaves : leaves D w claimContract = _ := hsub.leaves
  have hsize : subTreeSize D w claimContract = (commitmentsOf (publications claimContract tr)).length := by
    rw [subTreeSize, hleaves, List.length_map]
  refine
    { leaves := hleaves
      rounds := fun n round hn => by
        obtain ⟨hcontract, hheader, hlength⟩ := inv.header claimContract round (List.mem_of_getElem? hn)
        exact ⟨hcontract, hheader, inv.first claimContract n round hn, hlength⟩
      index := fun n round i x hn hx => ?_
      ranges := fun k hk => ?_
      registered := inv.registered claimContract
      once := inv.nodup claimContract
      published := fun factory roundId hfactory hpub => hfactory ▸ inv.published factory roundId hpub
      published_of := inv.published_of claimContract
      knownRoots := fun r => ?_
      reverted := fun sender call e w' h => ?_ }
  · have hget := commitmentsOf_getElem? hn hx
    refine ⟨hsub.index _ x hget, ?_⟩
    rw [hleaves, List.getElem?_map, hget]
    rfl
  · obtain ⟨n, round, hn, hle, hlt⟩ := exists_firstLeaf (hsize ▸ hk)
    refine ⟨n, ⟨round, hn, hle, hlt⟩, ?_⟩
    rintro m ⟨round', hm, hle', hlt'⟩
    exact firstLeaf_unique hm hn hle' hlt' hle hlt
  · rw [isKnownRoot, hsub.roots.valid, hleaves, hsize, List.length_map, Merkle.length_prefixRoots,
      List.length_map]
  · cases h
    rfl

namespace Rounds.Sample

def node : Unbounded → Unbounded → Unbounded := merkleHash idealHash

theorem val_lt_node (a b : Unbounded) : a.val < (node a b).val := by
  have hpair := Nat.left_le_pair a.val (Encodable.encode [b.val])
  have hencode := Encodable.encode_list_cons a.val [b.val]
  show a.val < Encodable.encode [a.val, b.val] + 1
  rw [hencode]
  exact Nat.lt_succ_of_le (hpair.trans (Nat.le_succ _))

theorem val_le_foldl (a : Unbounded) (ss : List Unbounded) : a.val ≤ (ss.foldl node a).val := by
  induction ss generalizing a with
  | nil => exact Nat.le_refl _
  | cons s ss ih => exact (val_lt_node a s).le.trans (ih (node a s))

theorem acyclic : Merkle.Acyclic node := by
  intro a ss hss heq
  obtain ⟨s, ss, rfl⟩ := List.exists_cons_of_ne_nil hss
  have hlt := (val_lt_node a s).trans_le (val_le_foldl (node a s) ss)
  rw [List.foldl_cons] at heq
  rw [heq] at hlt
  exact lt_irrefl _ hlt

def deployment : Deployment Unbounded (List Unbounded) (Address → Nat) where
  imt := listImt node
  chainId := 1
  governance := 1
  poolAddress := 2
  tokenAddress := 3
  token := ledgerErc20 Address
  factories _ := ⟨4, 5⟩
  claims _ := ⟨6, 7, 5, 8⟩
  verifyClaim _ _ _ := false
  verifyPoolWithdraw _ _ _ := false

theorem treeLaws : TreeLaws deployment node where
  lawful := listImt_lawful
  rooted := listImt_rooted
  inj := Compliance.idealHash_ideal.node_inj
  acyclic := acyclic
  ne_zero a b := Compliance.idealHash_ideal.ne_zero (by simp) (by simp)

def header (roundId : Word) (cohortVersion : UInt64) (cohortSize : Word) : RoundHeader :=
  ⟨roundId, cohortVersion, 9, 1, cohortSize, 3, 10, 4, 1⟩

/-- The first cohort has `2 ^ 64 - 1` cards, and the one of version `v` has `v - 1`. -/
def cohorts : Registry := ⟨2, fun _ => 9, fun v => if v = 1 then 2 ^ 64 - 1 else v.toNat - 1, 10, 0, 0⟩

def world : World (List Unbounded) (Address → Nat) where
  blockNumber := 0
  timestamp := 0
  registry := cohorts
  published _ := false
  claims _ := .new
  pool := ShieldedPool.new deployment 7
  token a := if a = 5 then 2 ^ 64 + 2 else 0

theorem deployed : Deployed deployment world :=
  ⟨⟨7, rfl⟩, fun _ => rfl, fun _ => rfl⟩

def wired : World (List Unbounded) (Address → Nat) :=
  { world with pool := { world.pool with authorizedFactory := 6 } }

theorem wired_run : Run (Transition deployment) world
    [.call 1 (.governance (.initAuthorizedFactory 6)) 0] wired :=
  .cons .nil (@Transition.call _ _ _ _ deployment world 1 (.governance (.initAuthorizedFactory 6)) wired
    rfl (by decide) trivial)

/-- The words from 1 to `k` were deposited, and the funder has `n` tokens. -/
structure Ready (k n : Nat) (w : World (List Unbounded) (Address → Nat)) : Prop where
  factory : w.pool.authorizedFactory = 6
  trees : w.pool.trees 4 = (List.range' 1 k).map Scalar.ofNat
  index : ∀ x, k < x → w.pool.commitmentIndex (4, x) = 0
  balance : w.pool.balance 4 = k
  rounds : ∀ roundId, w.pool.roundDeposit (4, roundId) ≤ k
  funder : w.token 5 = n
  registry : w.registry = cohorts

theorem ready_wired : Ready 0 (2 ^ 64 + 2) wired :=
  ⟨rfl, rfl, fun _ _ => rfl, rfl, fun _ => Nat.le_refl _, rfl, rfl⟩

variable {w : World (List Unbounded) (Address → Nat)} {k n m : Nat} {roundId : Word}

theorem Ready.deposit (h : Ready k n w) (roundId : Word) (hk : k + 1 < 2 ^ 256) (hheld : w.token 6 = m + 1) :
    ∃ w', deposit deployment w 6 4 (k + 1) 1 roundId = .ok w' ∧ Ready (k + 1) n w' ∧ w'.token 6 = m := by
  have hnew : (Scalar.ofNat (k + 1) : Unbounded) ∉ w.pool.trees 4 := by
    rw [h.trees]
    intro hmem
    obtain ⟨x, hx, heq⟩ := List.mem_map.mp hmem
    rw [List.mem_range'_1] at hx
    have hval : x = k + 1 := congrArg Unbounded.val heq
    omega
  obtain ⟨tree, htree⟩ := @listImt_inserts _ _ _ node (Scalar.ofNat (k + 1)) (w.pool.trees 4)
    (fun h0 => Nat.succ_ne_zero k (congrArg Unbounded.val h0)) hnew
  have hleaves := (listImt_lawful.insert htree).2.2
  have hdeposited : Deposited deployment w 6 4 (k + 1) 1 (moved w.token 6 2 1) tree :=
    ⟨h.factory.symm, by decide, h.index _ (Nat.lt_succ_self k),
      ledger_transferFrom (by rw [hheld]; omega), rfl, htree⟩
  have hround := h.rounds roundId
  refine ⟨_, deposit_eq_ok.mpr ⟨_, _, hdeposited, by rw [h.balance]; exact hk, by omega, rfl⟩, ?_, ?_⟩
  · refine ⟨h.factory, ?_, fun x hx => ?_, ?_, fun roundId' => ?_, ?_, h.registry⟩
    · show Function.update w.pool.trees 4 tree 4 = _
      rw [Function.update_self, List.range'_1_concat, List.map_append, ← h.trees, Nat.add_comm 1 k]
      exact hleaves
    · refine (Function.update_of_ne ?_ ..).trans (h.index x (by omega))
      intro heq
      rw [(Prod.mk.inj heq).2] at hx
      omega
    · show Function.update w.pool.balance 4 (w.pool.balance 4 + 1) 4 = k + 1
      rw [Function.update_self, h.balance]
    · have hrounds := h.rounds roundId'
      show Function.update w.pool.roundDeposit (4, roundId) _ (4, roundId') ≤ k + 1
      by_cases heq : (4, roundId') = ((4 : Address), roundId)
      · rw [heq, Function.update_self]
        omega
      · rw [Function.update_of_ne heq]
        omega
    · show w.token 5 - 0 + 0 = n
      rw [h.funder]
      rfl
  · show w.token 6 - 1 + 0 = m
    rw [hheld]
    rfl

theorem Ready.depositAll (h : Ready k n w) (roundId : Word) (hk : k + m < 2 ^ 256) (hheld : w.token 6 = m) :
    ∃ w', depositAll deployment 6 4 1 roundId (List.range' (k + 1) m) w = .ok w' ∧
      Ready (k + m) n w' ∧ w'.token 6 = 0 := by
  induction m generalizing k w with
  | zero => exact ⟨w, rfl, h, hheld⟩
  | succ m ih =>
    obtain ⟨w₁, hdeposit, hready, hheld₁⟩ := h.deposit roundId (by omega) hheld
    obtain ⟨w', hdeposits, hready', hheld'⟩ := ih hready (by omega) hheld₁
    refine ⟨w', ?_, by rwa [Nat.add_assoc, Nat.add_comm 1 m] at hready', hheld'⟩
    rw [Rails.depositAll, List.range'_succ, List.foldlM_cons, bind_eq_ok]
    exact ⟨w₁, hdeposit, hdeposits⟩

theorem Ready.publishRound (h : Ready k (n + m) w) {v : UInt64} (hsize : cohorts.cohortSize v = m)
    (hpos : 0 < m) (hlt : m < 2 ^ 64) (hk : k + m < 2 ^ 256) (hround : roundId < 2 ^ 256)
    (hheld : w.token 6 = 0) (hpublished : w.published (6, roundId) = false)
    (hregistered : (w.claims 4).roundRegistered roundId = false) :
    ∃ w', publishRound deployment w 6 5 (header roundId v m) (List.range' (k + 1) m) = .ok w' ∧
      Ready (k + m) n w' ∧ w'.token 6 = 0 := by
  have hpublish : Publishable deployment w 6 5 (header roundId v m) (List.range' (k + 1) m) :=
    { decoded := ⟨hround, show 9 < 2 ^ 256 by decide, show 1 < 2 ^ 256 by decide,
        hlt.trans (by decide), show 1 < 2 ^ 256 by decide⟩
      sender := rfl
      cohortRoot := by rw [h.registry]; rfl
      cohortSize := by rw [h.registry]; exact hsize
      length := List.length_range'
      length_lt := by rw [List.length_range']; exact hlt
      size_ne := hpos.ne'
      amount_ne := Nat.one_ne_zero
      chainId := rfl
      token := rfl
      contract := rfl
      unpublished := hpublished
      total := by
        show 1 * m < 2 ^ 256
        omega }
  have hpull : deployment.token.transferFrom 6 5 6 (1 * m) w.token = some (moved w.token 5 6 (1 * m)) :=
    ledger_transferFrom (by rw [h.funder]; omega)
  have hfunded : Ready k n (w.funded 6 roundId (moved w.token 5 6 (1 * m))) := by
    refine ⟨h.factory, h.trees, h.index, h.balance, h.rounds, ?_, h.registry⟩
    show moved w.token 5 6 (1 * m) 5 = n
    rw [moved_src (by decide), h.funder]
    omega
  have hgot : moved w.token 5 6 (1 * m) 6 = m := by
    rw [moved_dst (by decide), hheld]
    omega
  obtain ⟨w₂, hdeposits, hready, hheld₂⟩ := hfunded.depositAll roundId hk hgot
  have hclaims : w₂.claims = w.claims := (depositAll_ok hdeposits).claims
  refine ⟨_, publishRound_eq_ok.mpr ⟨hpublish, _, _, w₂, hpull, rfl, hdeposits,
    registerHeader_eq_ok.mpr ⟨rfl, ?_, rfl⟩⟩, ?_, hheld₂⟩
  · rw [hclaims]
    exact hregistered
  · exact ⟨hready.factory, hready.trees, hready.index, hready.balance, hready.rounds, hready.funder,
      hready.registry⟩

/-- A round that is not one of those of the run can be published next. -/
theorem publish_next {tr : List Step} (roundId : Word) (hrun : Run (Transition deployment) world tr w)
    (h : Ready k (n + m) w) (hheld : w.token 6 = 0) {v : UInt64} (hsize : cohorts.cohortSize v = m)
    (hpos : 0 < m) (hlt : m < 2 ^ 64) (hk : k + m < 2 ^ 256) (hround : roundId < 2 ^ 256)
    (hnew : roundId ∉ (publications 4 tr).map fun round => round.1.roundId) :
    ∃ w', Run (Transition deployment) world
        (.call 5 (.publishRound 6 (header roundId v m) (List.range' (k + 1) m)) 0 :: tr) w' ∧
      Ready (k + m) n w' ∧ w'.token 6 = 0 := by
  have inv := RoundsInv.run treeLaws deployed hrun
  have hregistered : (w.claims 4).roundRegistered roundId = false := by
    rw [← Bool.not_eq_true, inv.registered]
    exact hnew
  have hpublished : w.published (6, roundId) = false := by
    rw [← Bool.not_eq_true]
    intro hpub
    exact hnew ((inv.registered 4 roundId).mp (inv.published 6 roundId hpub))
  obtain ⟨w', hok, hready, hheld'⟩ :=
    h.publishRound hsize hpos hlt hk hround hheld hpublished hregistered
  exact ⟨w', .cons hrun (.call hok (by decide) (show (6 : Address) ≠ 2 by decide)), hready, hheld'⟩

/-- A round of `m` cards and one of one card, and then another one of one card. -/
theorem three_rounds (hsize : cohorts.cohortSize 1 = m) (hpos : 0 < m) (hlt : m < 2 ^ 64) :
    ∃ tr w, Run (Transition deployment) world tr w ∧ (publications 4 tr)[2]? = some (header 3 2 1, [m + 2]) ∧
      firstLeaf (publications 4 tr) 2 = m + 1 := by
  obtain ⟨n, hn⟩ : ∃ n, n + 1 + 1 + m = 2 ^ 64 + 2 := ⟨2 ^ 64 - m, by omega⟩
  obtain ⟨w₁, hrun₁, hready₁, hheld₁⟩ := publish_next 1 wired_run (hn ▸ ready_wired) rfl hsize
    hpos hlt (by omega) (by decide) (by simp [publications, Step.publications])
  obtain ⟨w₂, hrun₂, hready₂, hheld₂⟩ := publish_next 2 (v := 2) hrun₁ hready₁ hheld₁ rfl
    Nat.one_pos (by decide) (by omega) (by decide) (by simp [publications, Step.publications, header])
  obtain ⟨w₃, hrun₃, -, -⟩ := publish_next 3 (v := 2) hrun₂ hready₂ hheld₂ rfl
    Nat.one_pos (by decide) (by omega) (by decide) (by simp [publications, Step.publications, header])
  refine ⟨_, w₃, hrun₃, ?_⟩
  rw [Nat.zero_add]
  exact ⟨rfl, by simp [firstLeaf, commitmentsOf, publications, Step.publications, header]⟩

end Rounds.Sample

open Rounds.Sample in
/-- A round of three cards and one of one card in their sub-tree. -/
theorem rounds_contiguous_sample : ∃ tr w, Run (Transition deployment) world tr w ∧
    publications 4 tr = [(header 1 4 3, [1, 2, 3]), (header 2 2 1, [4])] ∧ Layout deployment node tr w 4 := by
  obtain ⟨w₁, hrun₁, hready₁, hheld₁⟩ := publish_next 1 (v := 4) (n := 2 ^ 64 - 1) wired_run ready_wired rfl rfl
    (by decide) (by decide) (by decide) (by decide) (by simp [publications, Step.publications])
  obtain ⟨w, hrun, -, -⟩ := publish_next 2 (v := 2) (n := 2 ^ 64 - 2) hrun₁ hready₁ hheld₁ rfl
    Nat.one_pos (by decide) (by decide) (by decide) (by simp [publications, Step.publications, header])
  exact ⟨_, w, hrun, rfl, rounds_contiguous treeLaws deployed hrun 4⟩

open Rounds.Sample in
/-- Behind `2 ^ 64` leaves the stored index of the first leaf of a round is zero. -/
theorem first_leaf_index_wraps : TreeLaws deployment node ∧ Deployed deployment world ∧
    ∃ tr w, Run (Transition deployment) world tr w ∧
    ∃ (n : Nat) (round : Publication) (x : Word), (publications 4 tr)[n]? = some round ∧
      round.2[0]? = some x ∧ w.pool.commitmentIndex (4, x) ≠
        ((w.claims 4).firstPoolLeafIndex round.1.roundId).toNat + 0 + 1 := by
  obtain ⟨tr, w, hrun, hround, hfirst⟩ := @three_rounds (2 ^ 64 - 1) rfl (by decide) (by decide)
  have inv := RoundsInv.run treeLaws deployed hrun
  refine ⟨treeLaws, deployed, tr, w, hrun, 2, _, _, hround, rfl, ?_⟩
  have hindex := (inv.subTree 4).index _ _ (commitmentsOf_getElem? hround (i := 0) (List.getElem?_cons_zero ..))
  have hstored := inv.first 4 2 _ hround
  rw [hfirst] at hindex hstored
  rw [hindex, hstored]
  decide

end Pocs.Rails

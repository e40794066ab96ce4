import Pocs.Lib.Checked
import Pocs.Lib.Merkle
import Pocs.Civic.Poseidon

/-! # The forward-secure ratchet chain of `fsrt.rs`

A chain of `n` values is committed to by a depth-24 Merkle root. `computeChainRoot_eq` and
`computePath_eq` read the two sparse computations as the root and the paths of one tree. The signer
state recomputes its path from `vValues`, in which journaling overwrites the past with zeros, so the
path belongs to the tree of the wiped values (`path_root`). -/

namespace Pocs.Civic

open Merkle (foldPath nodeAt pathAt)

def fsrtDepth : Nat := 24

/-! ## The sponge of `poseidon.rs` -/

section
variable {F : Type} [Scalar F] [Add F] (P : Poseidon F)

def spongeWithDomain (domain : F) : Fin 5 → F := fun i => if i = 0 then domain else 0

def rateBlocks : List F → List (List F)
  | a :: b :: c :: d :: rest => [a, b, c, d] :: rateBlocks rest
  | [] => []
  | block => [block]

/-- Absorb with `0x80`-prefixed length padding to a multiple of the rate 4. -/
def spongeAbsorb (state : Fin 5 → F) (message : List F) : Fin 5 → F :=
  let padded := message ++ [Scalar.ofNat 0x80]
  let padded := padded ++ List.replicate ((4 - padded.length % 4) % 4) 0
  (rateBlocks padded).foldl (fun state chunk =>
    P.permute fun i => if i = 0 then state 0 else state i + chunk.getD (i.val - 1) 0) state

/-- Squeeze `n` scalars, re-permuting between blocks of 4. -/
def spongeSqueeze (state : Fin 5 → F) : Nat → List F
  | 0 => []
  | 1 => [state 1]
  | 2 => [state 1, state 2]
  | 3 => [state 1, state 2, state 3]
  | 4 => [state 1, state 2, state 3, state 4]
  | n + 5 => state 1 :: state 2 :: state 3 :: state 4 :: spongeSqueeze (P.permute state) (n + 1)

/-- FSRT PRG step: `(v_i, s_{i+1})` from `s_i`, with domain tag `4`. -/
def fsrtPrgStep (s : F) : F × F :=
  let out := spongeSqueeze P (spongeAbsorb P (spongeWithDomain (Scalar.ofNat 4)) [s]) 2
  (out.getD 0 0, out.getD 1 0)

end

/-! ## Chain expansion, root and paths -/

structure ExpandedChain (F : Type) where
  vValues : List F
  sSeeds : List F

/-- Expand `s` into `n` per-slot values and seeds. -/
def expandChain {F : Type} [Scalar F] [Add F] (P : Poseidon F) (s : F) : Nat → ExpandedChain F
  | 0 => ⟨[], []⟩
  | n + 1 =>
    let (v, sNext) := fsrtPrgStep P s
    let rest := expandChain P sNext n
    ⟨v :: rest.vValues, s :: rest.sSeeds⟩

section
variable {F : Type} [Scalar F] (P : Poseidon F)

def fsrtEmptySubtree : Nat → F := Merkle.emptyNode (hashMerkleNode P) 0

def pairUp : List F → List F
  | a :: b :: rest => hashMerkleNode P a b :: pairUp rest
  | _ => []

/-- Pad a layer of odd length with the empty subtree of its level. -/
def padLayer (level : Nat) (layer : List F) : List F :=
  if layer.length % 2 ≠ 0 then layer ++ [fsrtEmptySubtree P level] else layer

def nextLayer (level : Nat) (layer : List F) : List F := pairUp P (padLayer P level layer)

/-- The loop of `compute_chain_root`, with `n` levels to go. -/
def chainRootLoop : (n level : Nat) → List F → F
  | 0, _, layer => layer.getD 0 0
  | n + 1, level, layer =>
    if layer.length = 1 then
      ((List.range' level (n + 1)).map (fsrtEmptySubtree P)).foldl (hashMerkleNode P) (layer.getD 0 0)
    else chainRootLoop n (level + 1) (nextLayer P level layer)

/-- Depth-24 Merkle root over `v_values` via sparse construction. -/
def computeChainRoot (vValues : List F) : F :=
  if vValues = [] then fsrtEmptySubtree P fsrtDepth else chainRootLoop P fsrtDepth 0 vValues

/-- The pairs pushed by the loop of `compute_path`, with `n` levels to go. -/
def pathLoop : (n level idx : Nat) → List F → List (F × Nat)
  | 0, _, _, _ => []
  | n + 1, level, idx, layer =>
    if layer.length ≤ 1 then (List.range' level (n + 1)).map fun l => (fsrtEmptySubtree P l, 0)
    else
      let padded := padLayer P level layer
      let sibIdx := idx ^^^ 1
      let sib := if sibIdx < padded.length then padded.getD sibIdx 0 else fsrtEmptySubtree P level
      (sib, idx % 2) :: pathLoop n (level + 1) (idx / 2) (nextLayer P level layer)

/-- Merkle path from `v_values[index]` to the root, as siblings and indices. -/
def computePath (vValues : List F) (index : Nat) : List F × List Nat :=
  let p := pathLoop P fsrtDepth 0 index vValues
  (p.map (·.1), p.map (·.2))

end

/-! ## The sparse computations on the perfect tree -/

section
variable {F : Type} [Scalar F] {P : Poseidon F}

/-- The nodes of level `k` are the layer, then empty subtrees. -/
def IsLayer (P : Poseidon F) (f : Nat → F) (k : Nat) (layer : List F) : Prop :=
  ∀ i, nodeAt (hashMerkleNode P) f k i = layer.getD i (fsrtEmptySubtree P k)

theorem isLayer_zero (vs : List F) : IsLayer P (fun i => vs.getD i 0) 0 vs := fun _ => rfl

omit [Scalar F] in
private theorem pairUp_getD {l : List F} (hl : l.length % 2 = 0) (e : F) (i : Nat) :
    (pairUp P l).getD i (hashMerkleNode P e e) =
      hashMerkleNode P (l.getD (2 * i) e) (l.getD (2 * i + 1) e) := by
  induction l using pairUp.induct generalizing i with
  | case1 a b rest ih =>
    simp only [List.length_cons] at hl
    cases i with
    | zero => rfl
    | succ i => exact ih (by omega) i
  | case2 l hne =>
    rcases l with _ | ⟨a, _ | ⟨b, rest⟩⟩
    · rfl
    · simp at hl
    · exact absurd rfl (hne a b rest)

omit [Scalar F] in
private theorem length_pairUp (l : List F) : (pairUp P l).length = l.length / 2 := by
  induction l using pairUp.induct with
  | case1 a b rest ih =>
    simp only [pairUp, List.length_cons, ih]
    omega
  | case2 l hne =>
    rcases l with _ | ⟨a, _ | ⟨b, rest⟩⟩
    · simp [pairUp]
    · simp [pairUp]
    · exact absurd rfl (hne a b rest)

private theorem getD_padLayer (level : Nat) (layer : List F) (i : Nat) :
    (padLayer P level layer).getD i (fsrtEmptySubtree P level) = layer.getD i (fsrtEmptySubtree P level) := by
  unfold padLayer
  split
  · rcases Nat.lt_trichotomy i layer.length with h | rfl | h
    · simp [List.getElem?_append_left h]
    · simp
    · have h1 : (layer ++ [fsrtEmptySubtree P level])[i]? = none :=
        List.getElem?_eq_none (by simp; omega)
      simp [h1, List.getElem?_eq_none h.le]
  · rfl

private theorem length_padLayer (level : Nat) (layer : List F) :
    (padLayer P level layer).length = 2 * ((layer.length + 1) / 2) := by
  unfold padLayer
  split
  · simp only [List.length_append, List.length_singleton]
    omega
  · omega

theorem length_nextLayer (level : Nat) (layer : List F) :
    (nextLayer P level layer).length = (layer.length + 1) / 2 := by
  rw [nextLayer, length_pairUp, length_padLayer]
  omega

theorem IsLayer.next {f : Nat → F} {k : Nat} {layer : List F} (h : IsLayer P f k layer) :
    IsLayer P f (k + 1) (nextLayer P k layer) := by
  intro i
  have heven : (padLayer P k layer).length % 2 = 0 := by
    rw [length_padLayer]
    omega
  have hpair := pairUp_getD (P := P) heven (fsrtEmptySubtree P k) i
  rw [getD_padLayer, getD_padLayer, ← h, ← h] at hpair
  exact hpair.symm

/-- A layer with at most one node leaves only empty nodes beside the leftmost path. -/
private theorem IsLayer.beyond {f : Nat → F} {k : Nat} {layer : List F} (h : IsLayer P f k layer)
    (hlen : layer.length ≤ 1) (m : Nat) {i : Nat} (hi : 1 ≤ i) :
    nodeAt (hashMerkleNode P) f (k + m) i = fsrtEmptySubtree P (k + m) := by
  induction m generalizing i with
  | zero =>
    rw [Nat.add_zero, h i, List.getD_eq_getElem?_getD, List.getElem?_eq_none (by omega)]
    rfl
  | succ m ih =>
    rw [← Nat.add_assoc]
    simp only [nodeAt, ih (show 1 ≤ 2 * i by omega), ih (show 1 ≤ 2 * i + 1 by omega)]
    rfl

theorem chainRootLoop_eq {f : Nat → F} {n level : Nat} {layer : List F}
    (h : IsLayer P f level layer) (hne : layer ≠ []) :
    chainRootLoop P n level layer = nodeAt (hashMerkleNode P) f (level + n) 0 := by
  induction n generalizing level layer with
  | zero =>
    have hlen : 0 < layer.length := List.length_pos_iff.mpr hne
    rw [Nat.add_zero, h 0]
    simp [chainRootLoop, List.getElem?_eq_getElem hlen]
  | succ n ih =>
    rw [chainRootLoop]
    split
    · rename_i h1
      have hhead : layer.getD 0 0 = nodeAt (hashMerkleNode P) f level 0 := by
        rw [h 0]
        simp [List.getElem?_eq_getElem (show 0 < layer.length by omega)]
      -- from here on the right sibling of the leftmost path is empty
      have hfold : ∀ m, ((List.range' level m).map (fsrtEmptySubtree P)).foldl (hashMerkleNode P)
          (layer.getD 0 0) = nodeAt (hashMerkleNode P) f (level + m) 0 := by
        intro m
        induction m with
        | zero => exact hhead
        | succ m ihm =>
          rw [List.range'_concat, List.map_append, List.foldl_append, ihm]
          simp only [List.map_cons, List.map_nil, List.foldl_cons, List.foldl_nil, Nat.one_mul]
          rw [← h.beyond h1.le m (Nat.le_refl 1)]
          rfl
      exact hfold (n + 1)
    · have hpos : 0 < layer.length := List.length_pos_iff.mpr hne
      have hnext : nextLayer P level layer ≠ [] := by
        apply List.ne_nil_of_length_pos
        rw [length_nextLayer]
        omega
      rw [ih h.next hnext]
      congr 1
      omega

/-- The chain root is the root of the tree of values, padded with zeros. -/
theorem computeChainRoot_eq (vs : List F) : computeChainRoot P vs =
      nodeAt (hashMerkleNode P) (fun i => vs.getD i 0) fsrtDepth 0 := by
  rw [computeChainRoot]
  split
  · rename_i h
    subst h
    exact (Merkle.nodeAt_const 0 fsrtDepth 0).symm
  · rename_i h
    rw [chainRootLoop_eq (isLayer_zero vs) h, Nat.zero_add]

/-- The authentication path held in siblings and indices. -/
def fsrtPath (p : List F × List Nat) : List (Bool × F) :=
  (p.2.map (fun b => decide (b = 1))).zip p.1

private theorem pathLoop_eq {f : Nat → F} {n level idx : Nat} {layer : List F}
    (h : IsLayer P f level layer) (hidx : idx < layer.length) :
    (pathLoop P n level idx layer).map (fun x => (decide (x.2 = 1), x.1)) =
      pathAt (hashMerkleNode P) f level n idx := by
  induction n generalizing level idx layer with
  | zero => rfl
  | succ n ih =>
    rw [pathLoop]
    split
    · rename_i h1
      obtain rfl : idx = 0 := by omega
      have hrest : ∀ m k, ((List.range' (level + k) m).map fun l => (false, fsrtEmptySubtree P l)) =
          pathAt (hashMerkleNode P) f (level + k) m 0 := by
        intro m
        induction m with
        | zero => intro k; rfl
        | succ m ihm =>
          intro k
          simp only [List.range'_succ, List.map_cons, pathAt]
          rw [show Merkle.sibling 0 = 1 from rfl, h.beyond h1 k (Nat.le_refl 1)]
          exact congrArg _ (ihm (k + 1))
      rw [List.map_map]
      exact hrest (n + 1) 0
    · simp only [List.map_cons, pathAt, Merkle.xor_one]
      have hsib : (if Merkle.sibling idx < (padLayer P level layer).length then
          (padLayer P level layer).getD (Merkle.sibling idx) 0 else fsrtEmptySubtree P level) =
          nodeAt (hashMerkleNode P) f level (Merkle.sibling idx) := by
        rw [h (Merkle.sibling idx), ← getD_padLayer]
        split
        · rename_i hlt
          simp only [List.getD_eq_getElem?_getD, List.getElem?_eq_getElem hlt, Option.getD_some]
        · rename_i hge
          rw [List.getD_eq_getElem?_getD, List.getElem?_eq_none (not_lt.mp hge), Option.getD_none]
      rw [hsib, ih h.next (by rw [length_nextLayer]; omega)]

/-- The path is the authentication path of the tree of values. -/
theorem computePath_eq {vs : List F} {index : Nat} (h : index < vs.length) : fsrtPath (computePath P vs index) =
      pathAt (hashMerkleNode P) (fun i => vs.getD i 0) 0 fsrtDepth index := by
  rw [← pathLoop_eq (isLayer_zero vs) h, fsrtPath, computePath, List.map_map]
  exact List.zip_map' (f := fun x : F × Nat => decide (x.2 = 1)) (g := fun x => x.1)

end

/-! ## The signer state -/

/-- Log-space frontier. -/
structure Caterpillar (F : Type) where
  frontier : Nat → F
  active : Nat → Option F
  t : Nat
  emptySubtree : Nat → F

namespace Caterpillar
variable {F : Type} [Scalar F] (P : Poseidon F)

def empty : Caterpillar F := ⟨fun _ => 0, fun _ => none, 0, fsrtEmptySubtree P⟩

/-- The loop of `advance`, with `n` levels to go: it stops at the first even index. -/
def advanceLoop : (n level idx : Nat) → F → Caterpillar F → Caterpillar F
  | 0, _, _, _, c => c
  | n + 1, level, idx, carry, c =>
    if idx % 2 = 0 then { c with active := Function.update c.active level (some carry) }
    else
      let left := (c.active level).getD (c.emptySubtree level)
      advanceLoop n (level + 1) (idx / 2) (hashMerkleNode P left carry) { c with
          frontier := Function.update c.frontier level left
          active := Function.update c.active level none }

/-- Advance past `slot` by absorbing `v_slot`; `none` is a panic. -/
def advance (c : Caterpillar F) (slot : Nat) (vSlot : F) : Option (Caterpillar F) := do
  guard (slot = c.t)
  let c' := advanceLoop P fsrtDepth 0 c.t vSlot c
  let t ← checkedAdd 32 c.t 1
  some { c' with t := t }

def toBytes (c : Caterpillar F) : List F :=
  (List.range fsrtDepth).map fun i => (c.active i).getD (c.emptySubtree i)

end Caterpillar

/-- The journaled state; the source writes the big-endian bytes of the scalars. -/
structure SignerStateBytes (F : Type) where
  sCurr : F
  t : Nat
  caterpillar : List F
  chainRoot : F
  attrVersion : Nat

/-- What a signer keeps of its chain. -/
structure SignerChainState (F : Type) where
  sCurr : F
  t : Nat
  caterpillar : Caterpillar F
  chainRoot : F
  attrVersion : Nat
  vValues : List F
  sSeeds : List F

abbrev IoError := String

namespace SignerChainState
variable {F : Type} [Scalar F] [Add F] (P : Poseidon F)

def enroll (s : F) (chainLen attrVersion : Nat) : SignerChainState F :=
  let expanded := expandChain P s chainLen
  { sCurr := s
    t := 0
    caterpillar := .empty P
    chainRoot := computeChainRoot P expanded.vValues
    attrVersion := attrVersion
    vValues := expanded.vValues
    sSeeds := expanded.sSeeds }

/-- `k` rounds of the loop of `advance_to`. -/
def advanceSteps : Nat → SignerChainState F → Option (SignerChainState F)
  | 0, st => some st
  | k + 1, st => do
    let v ← st.vValues[st.t]?
    let c ← st.caterpillar.advance P st.t v
    advanceSteps k { st with caterpillar := c, t := st.t + 1 }

/-- Advance the ratchet head to `target_slot`; `none` is a panic. -/
def advanceTo (st : SignerChainState F) (targetSlot : Nat) : Option (SignerChainState F) := do
  guard (targetSlot < st.vValues.length)
  guard (targetSlot ≥ st.t)
  advanceSteps P (targetSlot - st.t) st

/-- `v_slot` at the current `t`; out of range is a panic. -/
def vAtCurrentSlot (st : SignerChainState F) : Option F := st.vValues[st.t]?

/-- Per-slot seed; zero if zeroized or out of range. -/
def sAt (st : SignerChainState F) (slot : Nat) : F := st.sSeeds.getD slot 0

/-- Merkle path from `v[t]` to the root, recomputed from `v_values`. -/
def merklePathForCurrentSlot (st : SignerChainState F) : List F × List Nat :=
  computePath P st.vValues st.t

/-- The wipe loop: positions up to `slot` are overwritten with zeros. -/
def wipe (slot : Nat) (xs : List F) : List F :=
  (List.range (slot + 1)).foldl (fun xs i => xs.set i 0) xs

/-- Journal the signing of `slot`: the state is committed only if it could be persisted. `none` is a
panic. -/
def journalFinalizedSigning (st : SignerChainState F) (slot : Nat) (persist : Except IoError Unit) :
    Option (Except IoError (SignerStateBytes F) × SignerChainState F) := do
  guard (slot = st.t)
  let sSlot ← st.sSeeds[slot]?
  let (_, sNext) := fsrtPrgStep P sSlot
  let vSlot ← st.vValues[slot]?
  let nextCaterpillar ← st.caterpillar.advance P slot vSlot
  let nextT ← checkedAdd 32 slot 1
  let nextState : SignerStateBytes F :=
    ⟨sNext, nextT, nextCaterpillar.toBytes, st.chainRoot, st.attrVersion⟩
  match persist with
  | .error e => some (.error e, st)
  | .ok () =>
    some (.ok nextState, { st with
      sCurr := sNext
      caterpillar := nextCaterpillar
      t := nextT
      vValues := wipe slot st.vValues
      sSeeds := wipe slot st.sSeeds })

end SignerChainState

/-- The calls of a signer's life; a journaling call comes with the outcome of its file writes. -/
inductive ChainCall where
  | advanceTo (slot : Nat)
  | journal (slot : Nat) (persist : Except IoError Unit)

def ChainCall.Commits (call : ChainCall) (slot : Nat) : Prop := call = .journal slot (.ok ())

section
variable {F : Type} [Scalar F] [Add F] (P : Poseidon F)

open SignerChainState

def chainStep (st : SignerChainState F) : ChainCall → Option (SignerChainState F)
  | .advanceTo slot => st.advanceTo P slot
  | .journal slot persist => (st.journalFinalizedSigning P slot persist).map (·.2)

/-- The calls in order, none of which fails. -/
def chainRun (st : SignerChainState F) (calls : List ChainCall) : Option (SignerChainState F) :=
  calls.foldlM (chainStep P) st

end

/-! ## What a run keeps -/

section
variable {F : Type} [Scalar F] [Add F] {P : Poseidon F}

open SignerChainState

omit [Add F] in
theorem getElem?_wipe (slot : Nat) (xs : List F) (i : Nat) :
    (wipe slot xs)[i]? = if i ≤ slot then xs[i]?.map (fun _ => 0) else xs[i]? := by
  have key : ∀ m, ((List.range m).foldl (fun xs i => xs.set i 0) xs)[i]? =
      if i < m then xs[i]?.map (fun _ => (0 : F)) else xs[i]? := by
    intro m
    induction m with
    | zero => simp
    | succ m ih =>
      rw [List.range_succ, List.foldl_append, List.foldl_cons, List.foldl_nil]
      rcases Nat.lt_trichotomy i m with h | rfl | h
      · rw [List.getElem?_set_ne h.ne', ih, if_pos h, if_pos (by omega)]
      · rw [List.getElem?_set, if_pos rfl, if_pos (Nat.lt_succ_self i)]
        have hlen : ∀ ys : List F, ((List.range i).foldl (fun xs i => xs.set i 0) ys).length =
            ys.length := by
          intro ys
          generalize List.range i = is
          induction is generalizing ys with
          | nil => rfl
          | cons k is ihs => rw [List.foldl_cons, ihs, List.length_set]
        rw [hlen]
        split
        · rename_i hlt
          rw [List.getElem?_eq_getElem hlt, Option.map_some]
        · rename_i hge
          rw [List.getElem?_eq_none (not_lt.mp hge), Option.map_none]
      · rw [List.getElem?_set_ne h.ne, ih, if_neg (by omega), if_neg (by omega)]
  have h := key (slot + 1)
  simp only [Nat.lt_succ_iff] at h
  exact h

/-- The first `j` values of `xs` are wiped in `ys`. -/
def Wiped (j : Nat) (xs ys : List F) : Prop :=
  ∀ i, ys[i]? = if i < j then xs[i]?.map (fun _ => 0) else xs[i]?

/-- A reachable signer state: `j` slots have been journaled, and what is behind them is wiped. -/
structure ChainInv (V S : List F) (root : F) (j : Nat) (st : SignerChainState F) : Prop where
  chainRoot : st.chainRoot = root
  le : j ≤ st.t
  values : Wiped j V st.vValues
  seeds : Wiped j S st.sSeeds

omit [Add F] in
theorem Wiped.wipe {j slot : Nat} {xs ys : List F} (h : Wiped j xs ys) (hj : j ≤ slot) :
    Wiped (slot + 1) xs (wipe slot ys) := by
  intro i
  rw [getElem?_wipe, h i]
  rcases Nat.lt_or_ge i j with hi | hi
  · rw [if_pos (by omega), if_pos hi, if_pos (by omega)]
    cases xs[i]? <;> rfl
  · rcases Nat.lt_or_ge slot i with hs | hs
    · rw [if_neg (by omega), if_neg (by omega), if_neg (by omega)]
    · rw [if_pos hs, if_neg (by omega), if_pos (by omega)]

theorem enroll_inv (s : F) (n av : Nat) : ChainInv (expandChain P s n).vValues (expandChain P s n).sSeeds
      (enroll P s n av).chainRoot 0 (enroll P s n av) :=
  ⟨rfl, Nat.le_refl 0, fun _ => rfl, fun _ => rfl⟩

omit [Scalar F] [Add F] in
theorem advanceSteps_frame {k : Nat} {st st' : SignerChainState F} (h : advanceSteps P k st = some st') :
    st.t ≤ st'.t ∧ st'.chainRoot = st.chainRoot ∧ st'.vValues = st.vValues ∧ st'.sSeeds = st.sSeeds := by
  induction k generalizing st with
  | zero =>
    obtain rfl := Option.some.inj h
    exact ⟨Nat.le_refl _, rfl, rfl, rfl⟩
  | succ k ih =>
    simp only [advanceSteps, Option.bind_eq_bind, Option.bind_eq_some_iff] at h
    obtain ⟨v, -, c, -, h⟩ := h
    obtain ⟨hle, hrest⟩ := ih h
    exact ⟨by simp only at hle; omega, hrest⟩

/-- What one call does to the state: only a committed journal wipes, up to the slot it commits. -/
theorem chainStep_inv {V S : List F} {root : F} {j : Nat} {st st' : SignerChainState F}
    {call : ChainCall} (H : ChainInv V S root j st) (h : chainStep P st call = some st') :
    (¬ ∃ slot, call.Commits slot) ∧ ChainInv V S root j st' ∨
      ∃ slot, call.Commits slot ∧ ChainInv V S root (slot + 1) st' := by
  cases call with
  | advanceTo slot =>
    simp only [chainStep, advanceTo, Option.bind_eq_bind, Option.bind_eq_some_iff] at h
    obtain ⟨_, -, _, -, h⟩ := h
    obtain ⟨hle, hroot, hv, hs⟩ := advanceSteps_frame h
    refine .inl ⟨by simp [ChainCall.Commits], ?_⟩
    exact ⟨hroot.trans H.chainRoot, H.le.trans hle, hv ▸ H.values, hs ▸ H.seeds⟩
  | journal slot persist =>
    simp only [chainStep, journalFinalizedSigning, Option.map_eq_some_iff, Option.bind_eq_bind,
      Option.bind_eq_some_iff, checkedAdd_eq_some, guard_eq_some] at h
    obtain ⟨r, ⟨_, hslot, _, -, _, -, _, -, _, ⟨-, rfl⟩, h⟩, rfl⟩ := h
    cases persist with
    | error e =>
      obtain rfl := Option.some.inj h
      exact .inl ⟨by simp [ChainCall.Commits], H⟩
    | ok u =>
      obtain rfl := Option.some.inj h
      have hj : j ≤ slot := hslot ▸ H.le
      exact .inr ⟨slot, rfl, H.chainRoot, Nat.le_refl _, H.values.wipe hj, H.seeds.wipe hj⟩

/-- In every run, some number of slots is wiped, and it was committed by a call of the run. -/
theorem chainRun_inv {V S : List F} {root : F} {st st' : SignerChainState F}
    {calls : List ChainCall} {j : Nat} (H : ChainInv V S root j st) (h : chainRun P st calls = some st') :
    ∃ j', ChainInv V S root j' st' ∧ (j' = j ∨ ∃ call ∈ calls, ∃ slot, call.Commits slot ∧ j' = slot + 1) := by
  induction calls generalizing st j with
  | nil =>
    obtain rfl := Option.some.inj h
    exact ⟨j, H, .inl rfl⟩
  | cons call calls ih =>
    simp only [chainRun, List.foldlM_cons, Option.bind_eq_bind, Option.bind_eq_some_iff] at h
    obtain ⟨st₁, hstep, hrest⟩ := h
    rcases chainStep_inv H hstep with ⟨-, H₁⟩ | ⟨slot, hcommit, H₁⟩
    · obtain ⟨j', H', hj'⟩ := ih H₁ hrest
      refine ⟨j', H', hj'.imp_right ?_⟩
      rintro ⟨call', hmem, hslot⟩
      exact ⟨call', List.mem_cons_of_mem _ hmem, hslot⟩
    · obtain ⟨j', H', hj'⟩ := ih H₁ hrest
      refine ⟨j', H', .inr ?_⟩
      rcases hj' with rfl | ⟨call', hmem, hslot⟩
      · exact ⟨call, List.mem_cons_self, slot, hcommit, rfl⟩
      · exact ⟨call', List.mem_cons_of_mem _ hmem, hslot⟩

/-- Each value of the chain is the output of its own seed. -/
theorem expandChain_spec (s : F) (n : Nat) : (expandChain P s n).vValues.length = n ∧
      (expandChain P s n).vValues = (expandChain P s n).sSeeds.map fun s => (fsrtPrgStep P s).1 := by
  induction n generalizing s with
  | zero => exact ⟨rfl, rfl⟩
  | succ n ih =>
    obtain ⟨hlen, hmap⟩ := ih (fsrtPrgStep P s).2
    refine ⟨by simp [expandChain, hlen], ?_⟩
    simp only [expandChain, List.map_cons]
    exact congrArg _ hmap

omit [Add F] in
/-- The recomputed path belongs to the tree of the values as they are now. -/
theorem path_root {vs : List F} {t : Nat} {v : F} (hv : vs[t]? = some v) (ht : t < 2 ^ fsrtDepth) :
    foldPath (hashMerkleNode P) v (fsrtPath (computePath P vs t)) =
      nodeAt (hashMerkleNode P) (fun i => vs.getD i 0) fsrtDepth 0 := by
  obtain ⟨hlt, -⟩ := List.getElem?_eq_some_iff.mp hv
  have hleaf : v = nodeAt (hashMerkleNode P) (fun i => vs.getD i 0) 0 t := by
    simp [nodeAt, hv]
  rw [computePath_eq hlt, hleaf, Merkle.foldPath_pathAt, Nat.div_eq_of_lt ht, Nat.zero_add]

/-- The signing path folds to the chain root, and the seed of the current slot yields its value. -/
def SignerChainState.SigningPathValid (P : Poseidon F) (root : F) (st : SignerChainState F) : Prop :=
  ∃ v, st.vAtCurrentSlot = some v ∧
    foldPath (hashMerkleNode P) v (fsrtPath (st.merklePathForCurrentSlot P)) = root ∧
    (fsrtPrgStep P (st.sAt st.t)).1 = v

/-- In a run that journals no slot before the last one, the signing path is valid at every slot. -/
theorem signingPath_valid (s : F) {n av : Nat} (hn : n ≤ 2 ^ 24) {calls : List ChainCall}
    {st : SignerChainState F} (hrun : chainRun P (enroll P s n av) calls = some st)
    (hjournal : ∀ call ∈ calls, ∀ slot, call.Commits slot → n ≤ slot + 1) (ht : st.t < n) :
    st.chainRoot = (enroll P s n av).chainRoot ∧ st.SigningPathValid P (enroll P s n av).chainRoot := by
  obtain ⟨j, H, hj⟩ := chainRun_inv (enroll_inv s n av) hrun
  obtain ⟨hlen, hmap⟩ := expandChain_spec (P := P) s n
  -- a wipe would have moved the slot past the end of the chain
  have hj0 : j = 0 := by
    rcases hj with hj | ⟨call, hmem, slot, hcommit, rfl⟩
    · exact hj
    · have h1 := hjournal call hmem slot hcommit
      have h2 := H.le
      omega
  subst hj0
  have hvals : st.vValues = (expandChain P s n).vValues := List.ext_getElem? fun i => by
    simpa using H.values i
  have hseeds : st.sSeeds = (expandChain P s n).sSeeds := List.ext_getElem? fun i => by
    simpa using H.seeds i
  have hslen : st.sSeeds.length = n := by
    have h := congrArg List.length hmap
    rw [List.length_map, hlen] at h
    rw [hseeds, ← h]
  obtain ⟨sd, hsd⟩ : ∃ sd, st.sSeeds[st.t]? = some sd :=
    ⟨_, List.getElem?_eq_getElem (by omega)⟩
  have hget : st.vValues[st.t]? = some (fsrtPrgStep P sd).1 := by
    rw [hvals, hmap, List.getElem?_map, ← hseeds, hsd, Option.map_some]
  refine ⟨H.chainRoot, _, hget, ?_, ?_⟩
  · rw [merklePathForCurrentSlot, path_root hget (ht.trans_le hn), hvals]
    exact (computeChainRoot_eq _).symm
  · rw [sAt, List.getD_eq_getElem?_getD, hsd, Option.getD_some]

/-- With a collision-free node hash, the signing path after a journal is valid only if the wiped
values were zero. -/
theorem signingPath_wiped (hinj : Function.Injective2 (hashMerkleNode P)) {s : F} {n av j : Nat}
    {st : SignerChainState F} (H : ChainInv (expandChain P s n).vValues (expandChain P s n).sSeeds
      (enroll P s n av).chainRoot j st) (hn : n ≤ 2 ^ 24) (ht : st.t < n)
    (hvalid : st.SigningPathValid P (enroll P s n av).chainRoot) {i : Nat} (hi : i < j) :
    (expandChain P s n).vValues.getD i 0 = 0 := by
  obtain ⟨v, hv, hfold, -⟩ := hvalid
  have hle := H.le
  rw [merklePathForCurrentSlot, path_root hv (ht.trans_le hn)] at hfold
  have hroot : (enroll P s n av).chainRoot = _ := computeChainRoot_eq (expandChain P s n).vValues
  rw [hroot] at hfold
  have hleaf := Merkle.nodeAt_inj hinj hfold (j := i) (Nat.div_eq_of_lt (by simp only [fsrtDepth]; omega))
  simp only [List.getD_eq_getElem?_getD, H.values i, if_pos hi] at hleaf
  rw [List.getD_eq_getElem?_getD, ← hleaf]
  cases (expandChain P s n).vValues[i]? <;> rfl

end

/-! A signer with a chain of two slots journals slot 0 and is then at slot 1, whose path no longer
reaches the chain root. -/

theorem signingPath_broken_after_journal :
    ∃ st, chainRun idealPoseidon (SignerChainState.enroll idealPoseidon ⟨1⟩ 2 0)
        [.journal 0 (.ok ())] = some st ∧ st.t = 1 ∧ ¬ st.SigningPathValid idealPoseidon
        (SignerChainState.enroll idealPoseidon ⟨1⟩ 2 0).chainRoot := by
  obtain ⟨st, hrun, ht⟩ : ∃ st, chainRun idealPoseidon (SignerChainState.enroll idealPoseidon ⟨1⟩ 2 0)
        [.journal 0 (.ok ())] = some st ∧ st.t = 1 := ⟨_, rfl, rfl⟩
  refine ⟨st, hrun, ht, fun hvalid => ?_⟩
  have hstep : chainStep idealPoseidon (SignerChainState.enroll idealPoseidon ⟨1⟩ 2 0)
      (.journal 0 (.ok ())) = some st := by
    simpa [chainRun] using hrun
  rcases chainStep_inv (enroll_inv _ 2 0) hstep with ⟨hno, -⟩ | ⟨slot, hslot, H⟩
  · exact hno ⟨0, rfl⟩
  · have h0 := signingPath_wiped idealPoseidon_leafIdeal.node_inj H (by decide) (by omega) hvalid
      (Nat.succ_pos slot)
    exact absurd h0 (by decide)

theorem signingPath_valid_after_advance :
    ∃ st, chainRun idealPoseidon (SignerChainState.enroll idealPoseidon ⟨1⟩ 2 0) [.advanceTo 1] =
        some st ∧ st.t < 2 ∧ st.chainRoot = (SignerChainState.enroll idealPoseidon ⟨1⟩ 2 0).chainRoot ∧
      st.SigningPathValid idealPoseidon (SignerChainState.enroll idealPoseidon ⟨1⟩ 2 0).chainRoot := by
  obtain ⟨st, hrun, ht⟩ : ∃ st,
      chainRun idealPoseidon (SignerChainState.enroll idealPoseidon ⟨1⟩ 2 0) [.advanceTo 1] =
        some st ∧ st.t = 1 := ⟨_, rfl, rfl⟩
  refine ⟨st, hrun, by omega, signingPath_valid _ (by decide) hrun ?_ (by omega)⟩
  intro call hmem slot hcommit
  obtain rfl := List.mem_singleton.mp hmem
  exact absurd hcommit (by simp [ChainCall.Commits])

end Pocs.Civic

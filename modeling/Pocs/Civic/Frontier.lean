import Pocs.Civic.Fsrt

/-! # The frontier of the ratchet chain

The binary counter of `Caterpillar` against the tree of the chain: after `t` values, the set bits of `t`
hold the complete subtrees left of slot `t` (`Absorbed`), one carry after the other. So the path that it
gives for slot `t` is the path of the tree in which nothing stands beyond `t`. -/

namespace Pocs.Civic

open Merkle (foldPath nodeAt nodeAt_congr nodeAt_const pathAt)

namespace Caterpillar
variable {F : Type} [Scalar F] (P : Poseidon F)

/-- The pairs pushed by the loop of `path_for_current_slot`, with `n` levels to go. -/
def currentPathLoop (c : Caterpillar F) : (n level idx : Nat) → List (F × Nat)
  | 0, _, _ => []
  | n + 1, level, idx =>
    let sib := if idx % 2 = 0 then c.emptySubtree level else (c.active level).getD (c.emptySubtree level)
    (sib, idx % 2) :: currentPathLoop c n (level + 1) (idx / 2)

/-- Merkle path for the slot the signer is about to sign at. -/
def pathForCurrentSlot (c : Caterpillar F) : List F × List Nat :=
  let p := currentPathLoop c fsrtDepth 0 c.t
  (p.map (·.1), p.map (·.2))

def absorb (c : Caterpillar F) (vs : List F) : Option (Caterpillar F) :=
  vs.foldlM (fun c v => c.advance P c.t v) c

/-! ## The counter -/

/-- The set bits of `t` hold the complete subtrees left of leaf `t`. -/
structure Absorbed (f : Nat → F) (t : Nat) (c : Caterpillar F) : Prop where
  slot : c.t = t
  empty : c.emptySubtree = fsrtEmptySubtree P
  active : ∀ k < fsrtDepth, t / 2 ^ k % 2 = 1 →
    c.active k = some (nodeAt (hashMerkleNode P) f k (t / 2 ^ k - 1))

section
variable {P} {f : Nat → F} {t : Nat} {c : Caterpillar F}

theorem absorbed_empty : Absorbed P f 0 (empty P) :=
  ⟨rfl, rfl, fun k _ hk => by simp at hk⟩

/-- Below the lowest clear bit, the successor has no bit set. -/
private theorem succ_div_of_le {d level k : Nat} (ht : t + 1 = (d + 1) * 2 ^ level) (hk : k < level) :
    (t + 1) / 2 ^ k % 2 = 0 := by
  obtain ⟨m, rfl⟩ : ∃ m, level = k + (m + 1) := ⟨level - k - 1, by omega⟩
  have hmul : t + 1 = 2 ^ k * ((d + 1) * 2 ^ m * 2) := by
    rw [ht]
    ring
  rw [hmul, Nat.mul_div_cancel_left _ (Nat.two_pow_pos k), Nat.mul_mod_left]

/-- Above the lowest clear bit, the successor has the bits of the number. -/
private theorem succ_div_of_lt {d level k : Nat} (ht : t + 1 = (d + 1) * 2 ^ level) (hd : d % 2 = 0)
    (hk : level < k) : (t + 1) / 2 ^ k = t / 2 ^ k := by
  obtain ⟨m, rfl⟩ : ∃ m, k = level + (m + 1) := ⟨k - level - 1, by omega⟩
  have hpos := Nat.two_pow_pos level
  have htd : t / 2 ^ level = d := by
    have h : t = d * 2 ^ level + (2 ^ level - 1) := by
      rw [Nat.add_mul, Nat.one_mul] at ht
      omega
    rw [h, Nat.add_comm, Nat.add_mul_div_right _ _ hpos, Nat.div_eq_of_lt (by omega), Nat.zero_add]
  have hsd : (t + 1) / 2 ^ level = d + 1 := by
    rw [ht, Nat.mul_div_cancel _ hpos]
  have hhalf : (d + 1) / 2 = d / 2 := by omega
  rw [Nat.pow_add, ← Nat.div_div_eq_div_mul, ← Nat.div_div_eq_div_mul, htd, hsd, Nat.pow_succ',
    ← Nat.div_div_eq_div_mul, ← Nat.div_div_eq_div_mul, hhalf]

/-- The loop stops at the lowest clear bit, which it sets. -/
theorem advanceLoop_active {n level d : Nat} (hlevel : level + n = fsrtDepth) (ht : t + 1 = (d + 1) * 2 ^ level)
    (hactive : ∀ k, level ≤ k → k < fsrtDepth → t / 2 ^ k % 2 = 1 →
      c.active k = some (nodeAt (hashMerkleNode P) f k (t / 2 ^ k - 1))) :
    ∀ k < fsrtDepth, (t + 1) / 2 ^ k % 2 = 1 →
      (advanceLoop P n level d (nodeAt (hashMerkleNode P) f level d) c).active k =
        some (nodeAt (hashMerkleNode P) f k ((t + 1) / 2 ^ k - 1)) := by
  induction n generalizing level d c with
  | zero =>
    intro k hk hbit
    have hclear := succ_div_of_le ht (show k < level by omega)
    omega
  | succ n ih =>
    have hpos := Nat.two_pow_pos level
    have hsucc : (t + 1) / 2 ^ level = d + 1 := by
      rw [ht, Nat.mul_div_cancel _ hpos]
    rw [advanceLoop]
    split
    · rename_i heven
      intro k hk hbit
      rcases Nat.lt_trichotomy k level with hlt | rfl | hgt
      · have hclear := succ_div_of_le ht hlt
        omega
      · rw [hsucc]
        exact Function.update_self ..
      · have hsame := succ_div_of_lt ht heven hgt
        rw [hsame] at hbit ⊢
        exact (Function.update_of_ne hgt.ne' ..).trans (hactive k hgt.le hk hbit)
    · rename_i hodd
      have hdiv : t / 2 ^ level = d := by
        have h : t = d * 2 ^ level + (2 ^ level - 1) := by
          rw [Nat.add_mul, Nat.one_mul] at ht
          omega
        rw [h, Nat.add_comm, Nat.add_mul_div_right _ _ hpos, Nat.div_eq_of_lt (by omega),
          Nat.zero_add]
      have hleft := hactive level (Nat.le_refl _) (by omega) (by omega)
      rw [hdiv] at hleft
      -- the carry is the parent of the stored left sibling and the carry before
      have hcarry : hashMerkleNode P (nodeAt (hashMerkleNode P) f level (d - 1))
          (nodeAt (hashMerkleNode P) f level d) =
          nodeAt (hashMerkleNode P) f (level + 1) (d / 2) := by
        have h0 : 2 * (d / 2) = d - 1 := by omega
        have h1 : d - 1 + 1 = d := by omega
        rw [nodeAt, h0, h1]
      simp only [hleft, Option.getD_some, hcarry]
      apply ih (by omega)
      · have h2 : (d + 1) * 2 ^ level = (d / 2 + 1) * 2 ^ (level + 1) := by
          have hd : d + 1 = (d / 2 + 1) * 2 := by omega
          rw [hd, Nat.pow_succ', Nat.mul_assoc]
        rw [ht, h2]
      · intro k hle hk hbit
        have hne : k ≠ level := by omega
        exact (Function.update_of_ne hne ..).trans (hactive k (by omega) hk hbit)

omit [Scalar F] in
theorem advanceLoop_emptySubtree (n level idx : Nat) (carry : F) :
    (advanceLoop P n level idx carry c).emptySubtree = c.emptySubtree := by
  induction n generalizing level idx carry c with
  | zero => rfl
  | succ n ih =>
    rw [advanceLoop]
    split
    · rfl
    · exact ih ..

/-- One value more. -/
theorem Absorbed.advance (h : Absorbed P f t c) (ht : t + 1 < 2 ^ 32) :
    ∃ c', Caterpillar.advance P c c.t (f t) = some c' ∧ Absorbed P f (t + 1) c' := by
  have hnext : checkedAdd 32 c.t 1 = some (t + 1) := by
    rw [h.slot, checkedAdd, if_pos ht]
  refine ⟨{ advanceLoop P fsrtDepth 0 c.t (f t) c with t := t + 1 }, ?_, rfl, ?_, ?_⟩
  · simp [Caterpillar.advance, hnext, guard]
  · exact (advanceLoop_emptySubtree ..).trans h.empty
  · rw [h.slot]
    exact advanceLoop_active (Nat.zero_add _) (by simp) fun k _ => h.active k

/-- The values of a list are absorbed one after the other. -/
theorem absorb_absorbed {vs : List F} (hlen : vs.length < 2 ^ 32)
    (hvs : ∀ (i : Nat) (v : F), vs[i]? = some v → f i = v) :
    ∃ c, absorb P (Caterpillar.empty P) vs = some c ∧ Absorbed P f vs.length c := by
  induction vs using List.reverseRecOn with
  | nil => exact ⟨_, rfl, absorbed_empty⟩
  | append_singleton vs v ih =>
    rw [List.length_append, List.length_singleton] at hlen
    obtain ⟨c, hc, habs⟩ := ih (by omega) fun i w hw => by
      obtain ⟨hlt, -⟩ := List.getElem?_eq_some_iff.mp hw
      exact hvs i w (by rw [List.getElem?_append_left hlt, hw])
    have hv : f vs.length = v := hvs vs.length v (by simp)
    obtain ⟨c', hc', habs'⟩ := habs.advance hlen
    rw [hv] at hc'
    refine ⟨c', ?_, ?_⟩
    · rw [absorb, List.foldlM_append]
      rw [absorb] at hc
      simp [hc, hc']
    · rw [List.length_append, List.length_singleton]
      exact habs'

/-! ## The path of the current slot -/

/-- The path is that of the tree in which nothing stands beyond the slot. -/
theorem Absorbed.currentPathLoop (h : Absorbed P f t c) (hf : ∀ i, t < i → f i = 0) {n level : Nat}
    (hlevel : level + n = fsrtDepth) :
    (Caterpillar.currentPathLoop c n level (t / 2 ^ level)).map (fun x => (decide (x.2 = 1), x.1)) =
      pathAt (hashMerkleNode P) f level n (t / 2 ^ level) := by
  induction n generalizing level with
  | zero => rfl
  | succ n ih =>
    have hnext : t / 2 ^ level / 2 = t / 2 ^ (level + 1) := by
      rw [Nat.div_div_eq_div_mul, Nat.pow_succ]
    have hsib : (if t / 2 ^ level % 2 = 0 then c.emptySubtree level
        else (c.active level).getD (c.emptySubtree level)) =
        nodeAt (hashMerkleNode P) f level (Merkle.sibling (t / 2 ^ level)) := by
      split
      · rename_i heven
        -- the right sibling is beyond the slot
        have hbeyond : ∀ j, j / 2 ^ level = t / 2 ^ level + 1 → f j = 0 := by
          intro j hj
          apply hf
          rcases Nat.lt_or_ge t j with hlt | hge
          · exact hlt
          · have hle := Nat.div_le_div_right hge (c := 2 ^ level)
            omega
        rw [Merkle.sibling, if_pos heven, nodeAt_congr hbeyond, nodeAt_const, h.empty]
        rfl
      · rename_i hodd
        rw [h.active level (by omega) (by omega), Option.getD_some, Merkle.sibling, if_neg hodd]
    simp only [Caterpillar.currentPathLoop, List.map_cons, pathAt, hsib, hnext]
    rw [ih (by omega)]

omit [Scalar F] in
theorem fsrtPath_pathForCurrentSlot : fsrtPath c.pathForCurrentSlot =
    (Caterpillar.currentPathLoop c fsrtDepth 0 c.t).map (fun x => (decide (x.2 = 1), x.1)) := by
  rw [fsrtPath, pathForCurrentSlot, List.map_map]
  exact List.zip_map' (f := fun x : F × Nat => decide (x.2 = 1)) (g := fun x => x.1)

/-- With all slots taken, the path is that of slot `0` in a tree with one leaf. -/
theorem Absorbed.currentPathLoop_full (h : Absorbed P f t c) {g : Nat → F} (hg : ∀ i, 0 < i → g i = 0)
    {n level : Nat} (hlevel : level + n = fsrtDepth) :
    (Caterpillar.currentPathLoop c n level (2 ^ n)).map (fun x => (decide (x.2 = 1), x.1)) =
      pathAt (hashMerkleNode P) g level n 0 := by
  induction n generalizing level with
  | zero => rfl
  | succ n ih =>
    have heven : 2 ^ (n + 1) % 2 = 0 := by
      rw [Nat.pow_succ, Nat.mul_mod_left]
    have hnext : 2 ^ (n + 1) / 2 = 2 ^ n := by
      rw [Nat.pow_succ, Nat.mul_div_cancel _ (Nat.succ_pos 1)]
    have hbeyond : ∀ j, j / 2 ^ level = 1 → g j = 0 := by
      intro j hj
      apply hg
      rcases Nat.eq_zero_or_pos j with rfl | hpos
      · simp at hj
      · exact hpos
    have hsib : c.emptySubtree level = nodeAt (hashMerkleNode P) g level (Merkle.sibling 0) := by
      rw [show Merkle.sibling 0 = 1 from rfl, nodeAt_congr hbeyond, nodeAt_const, h.empty]
      rfl
    simp only [Caterpillar.currentPathLoop, heven, if_true, List.map_cons, pathAt, hsib, hnext]
    rw [ih (by omega)]

/-- The path of the current slot folds to the root of the chain with the folded value at the slot. -/
theorem Absorbed.fold_path {vs : List F} {x : F}
    (h : Absorbed P (fun i => (vs ++ [x]).getD i 0) vs.length c) (hlen : vs.length < 2 ^ fsrtDepth) :
    foldPath (hashMerkleNode P) x (fsrtPath c.pathForCurrentSlot) = computeChainRoot P (vs ++ [x]) := by
  have hbeyond : ∀ i, vs.length < i → (vs ++ [x]).getD i 0 = 0 := by
    intro i hi
    rw [List.getD_eq_getElem?_getD, List.getElem?_eq_none, Option.getD_none]
    rw [List.length_append, List.length_singleton]
    omega
  have hpath := h.currentPathLoop hbeyond (Nat.zero_add fsrtDepth)
  have hx : x = nodeAt (hashMerkleNode P) (fun i => (vs ++ [x]).getD i 0) 0 vs.length := by
    simp [nodeAt]
  rw [Nat.pow_zero, Nat.div_one] at hpath
  rw [fsrtPath_pathForCurrentSlot, h.slot, hpath, computeChainRoot_eq]
  nth_rewrite 1 [hx]
  rw [Merkle.foldPath_pathAt, Nat.div_eq_of_lt hlen, Nat.zero_add]

/-- With all slots taken, the path folds to the root of the chain of the folded value alone. -/
theorem Absorbed.fold_path_full (h : Absorbed P f (2 ^ fsrtDepth) c) (x : F) :
    foldPath (hashMerkleNode P) x (fsrtPath c.pathForCurrentSlot) = computeChainRoot P [x] := by
  have hbeyond : ∀ i, 0 < i → [x].getD i 0 = 0 := by
    intro i hi
    rw [List.getD_eq_getElem?_getD, List.getElem?_eq_none, Option.getD_none]
    exact hi
  rw [fsrtPath_pathForCurrentSlot, h.slot,
    h.currentPathLoop_full hbeyond (Nat.zero_add fsrtDepth), computeChainRoot_eq]
  exact (Merkle.foldPath_pathAt 0 fsrtDepth 0).trans (by rw [Nat.zero_add, Nat.zero_div])

end

end Caterpillar

open Caterpillar

/-! ## The three algorithms -/

section
variable {F : Type} [Scalar F] {P : Poseidon F}

private theorem pathLoop_bits {n level idx : Nat} {layer : List F} (hidx : idx < layer.length) :
    (pathLoop P n level idx layer).map (·.2) = (List.range n).map fun k => idx / 2 ^ k % 2 := by
  induction n generalizing level idx layer with
  | zero => rfl
  | succ n ih =>
    rw [pathLoop]
    split
    · obtain rfl : idx = 0 := by omega
      rw [List.map_map]
      simp [Function.comp_def, List.map_const']
    · have hnext : idx / 2 < (nextLayer P level layer).length := by
        rw [length_nextLayer]
        omega
      rw [List.map_cons, ih hnext, List.range_succ_eq_map, List.map_cons, List.map_map]
      congr 1
      · simp
      · apply List.map_congr_left
        intro k _
        simp [Nat.div_div_eq_div_mul, Nat.pow_succ']

theorem computePath_bits {vs : List F} {i : Nat} (hi : i < vs.length) :
    (computePath P vs i).2 = (List.range fsrtDepth).map fun k => i / 2 ^ k % 2 :=
  pathLoop_bits hi

/-- The path of a leaf folds to the chain root along the bits of its index, and the frontier gives the
path of the next slot as long as there is one. -/
theorem chain_primitives_agree (P : Poseidon F) (vs : List F) :
    (vs.length ≤ 2 ^ fsrtDepth → ∀ (i : Nat) (v : F), vs[i]? = some v →
      foldPath (hashMerkleNode P) v (fsrtPath (computePath P vs i)) = computeChainRoot P vs ∧
        (computePath P vs i).2 = (List.range fsrtDepth).map fun k => i / 2 ^ k % 2) ∧
    (vs.length < 2 ^ fsrtDepth → ∃ c, absorb P (.empty P) vs = some c ∧
      ∀ x, foldPath (hashMerkleNode P) x (fsrtPath c.pathForCurrentSlot) = computeChainRoot P (vs ++ [x])) := by
  constructor
  · intro hlen i v hv
    obtain ⟨hi, -⟩ := List.getElem?_eq_some_iff.mp hv
    refine ⟨?_, computePath_bits hi⟩
    rw [path_root hv (by omega), computeChainRoot_eq]
  · intro hlen
    have h32 : vs.length < 2 ^ 32 := by
      simp only [fsrtDepth] at hlen
      omega
    -- the counter does not see the last value, so one state serves every `x`
    obtain ⟨c, hc, -⟩ := absorb_absorbed (P := P) (f := fun i => vs.getD i 0) h32 (fun i v hv => by simp [hv])
    refine ⟨c, hc, fun x => ?_⟩
    obtain ⟨c', hc', habs⟩ := absorb_absorbed (P := P)
      (f := fun i => (vs ++ [x]).getD i 0) h32 (fun i v hv => by
        obtain ⟨hi, -⟩ := List.getElem?_eq_some_iff.mp hv
        simp [List.getElem?_append_left hi, hv])
    obtain rfl : c = c' := Option.some.inj (hc.symm.trans hc')
    exact habs.fold_path hlen

/-- A frontier that has absorbed `2 ^ 24` values starts again with the path of slot `0`: under an
injective node hash, that path does not fold to the root of the chain. -/
theorem frontier_full (hinj : Function.Injective2 (hashMerkleNode P)) {vs : List F}
    (hlen : vs.length = 2 ^ fsrtDepth) {v x : F} (hhead : vs.head? = some v) (hne : v ≠ x) :
    ∃ c, absorb P (.empty P) vs = some c ∧ foldPath (hashMerkleNode P) x (fsrtPath c.pathForCurrentSlot) ≠
        computeChainRoot P (vs ++ [x]) := by
  have h32 : vs.length < 2 ^ 32 := by
    rw [hlen, fsrtDepth]
    omega
  obtain ⟨c, hc, habs⟩ := absorb_absorbed (P := P) (f := fun i => vs.getD i 0) h32 (fun i v hv => by simp [hv])
  rw [hlen] at habs
  refine ⟨c, hc, fun hfold => hne ?_⟩
  rw [habs.fold_path_full, computeChainRoot_eq, computeChainRoot_eq] at hfold
  -- equal roots have equal first leaves
  have hleaf := Merkle.nodeAt_inj hinj hfold (j := 0) (Nat.zero_div _)
  cases vs with
  | nil => simp at hhead
  | cons w vs =>
    obtain rfl : w = v := Option.some.inj hhead
    exact hleaf.symm

end

theorem chain_frontier_full : ∃ c : Caterpillar Unbounded,
    absorb idealPoseidon (.empty idealPoseidon) (List.replicate (2 ^ fsrtDepth) ⟨1⟩) = some c ∧
      foldPath (hashMerkleNode idealPoseidon) ⟨0⟩ (fsrtPath c.pathForCurrentSlot) ≠
        computeChainRoot idealPoseidon (List.replicate (2 ^ fsrtDepth) ⟨1⟩ ++ [⟨0⟩]) := by
  apply frontier_full idealPoseidon_leafIdeal.node_inj List.length_replicate (v := ⟨1⟩)
  · rw [List.head?_replicate, if_neg (Nat.two_pow_pos _).ne']
  · decide

end Pocs.Civic

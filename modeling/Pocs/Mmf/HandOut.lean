import Pocs.Lib.Totals
import Pocs.Mmf.Claims
import Pocs.Mmf.Completeness

/-! # The hand-out tree

`plan_hand_out` of `agent.rs`: the day's orders are split in halves, breadth first, until each half is one
order. The queue holds the groups whose note is made and not yet spent, so it stands for the orders that the
plan does not pay yet (`HandOutInv`). -/

namespace Pocs.Mmf

variable {F V : Type}

/-- An output with the viewing key it is delivered to. -/
structure Delivery (F V : Type) extends Output F where
  vpk : V

/-- A subscription order to hand out, held until the epoch `holdUntil` under a holding period. -/
structure HandOutOrder (F V : Type) where
  owner : F
  vpk : V
  units : UInt64
  holdUntil : Option UInt64

/-- The day's aggregate note, or an output of an earlier transfer of the same tree. -/
inductive HandOutSource where
  | aggregate
  | output (transfer index : Nat)
  deriving DecidableEq

structure PlannedHandOut (F V : Type) where
  source : HandOutSource
  outputs : Delivery F V × Delivery F V

abbrev HandOutGroup (F V : Type) := HandOutSource × List (HandOutOrder F V)

section
variable [FeedField F]

def HandOutOrder.output (o : HandOutOrder F V) : Delivery F V where
  owner := o.owner
  units := o.units
  opening := o.holdUntil.elim noLock .hold
  vpk := o.vpk

def agentNote (owner : F) (vpk : V) (units : UInt64) : Delivery F V where
  owner
  units
  opening := noLock
  vpk

variable (owner : F) (vpk : V)

/-- The output for a half, and what is queued for it: its note is split again unless it is one order's. -/
def handOutHalf (transfer index : Nat) (part : List (HandOutOrder F V)) :
    Delivery F V × List (HandOutGroup F V) :=
  match part with
  | [single] => (single.output, [])
  | part => (agentNote owner vpk (part.map HandOutOrder.units).sum, [(.output transfer index, part)])

/-- The outputs for a group, and what is queued for them. -/
def handOutGroup (transfer : Nat) (group : List (HandOutOrder F V)) :
    (Delivery F V × Delivery F V) × List (HandOutGroup F V) :=
  match group with
  | [single] => ((single.output, agentNote owner vpk 0), [])
  | group =>
    let (left, right) := group.splitAt (group.length / 2)
    let first := handOutHalf owner vpk transfer 0 left
    let second := handOutHalf owner vpk transfer 1 right
    ((first.1, second.1), first.2 ++ second.2)

/-- The loop over the queue; `none` is out of fuel. -/
def handOutLoop : Nat → List (HandOutGroup F V) → List (PlannedHandOut F V) → Option (List (PlannedHandOut F V))
  | _, [], plan => some plan
  | 0, _ :: _, _ => none
  | fuel + 1, (source, group) :: queue, plan =>
    let (outputs, queued) := handOutGroup owner vpk plan.length group
    handOutLoop fuel (queue ++ queued) (plan ++ [⟨source, outputs⟩])

/-- The hand-out tree for the day's orders, with the agent's viewing key. -/
def TransferAgent.planHandOut (P : Primitives F) (self : TransferAgent F) (vpk : V) (fuel : Nat)
    (orders : List (HandOutOrder F V)) : Option (List (PlannedHandOut F V)) :=
  handOutLoop (self.owner P) vpk fuel (if orders = [] then [] else [(.aggregate, orders)]) []

end

/-! ## What a plan says -/

def unitsOf (group : List (HandOutOrder F V)) : Nat := (group.map fun o => o.units.toNat).sum

def PlannedHandOut.units (p : PlannedHandOut F V) : Nat := p.outputs.1.units.toNat + p.outputs.2.units.toNat

def planOutputs (plan : List (PlannedHandOut F V)) : List (HandOutSource × Delivery F V) :=
  plan.zipIdx.flatMap fun e => [(.output e.2 0, e.1.outputs.1), (.output e.2 1, e.1.outputs.2)]

/-- The outputs that are not spent. -/
def paidOut (plan : List (PlannedHandOut F V)) (sources : List HandOutSource) : List (Delivery F V) :=
  ((planOutputs plan).filter fun e => decide (e.1 ∉ sources)).map Prod.snd

/-- The source has the units: it is the aggregate, or a note of the agent's from a transfer before `k`. -/
def Funded [FeedField F] (owner : F) (vpk : V) (total : Nat) (plan : List (PlannedHandOut F V)) (k : Nat)
    (source : HandOutSource) (units : Nat) : Prop :=
  source = .aggregate ∧ units = total ∨ ∃ t i u, source = .output t i ∧ t < k ∧
    (source, agentNote owner vpk u) ∈ planOutputs plan ∧ units = u.toNat

/-- The plan pays the orders: as many transfers as it takes, each source spent once and after it is made, the
units kept by every transfer, and what is not spent is the orders' notes. -/
structure PaysOut [FeedField F] (owner : F) (vpk : V) (orders : List (HandOutOrder F V))
    (plan : List (PlannedHandOut F V)) : Prop where
  transfers : plan.length = if orders.length = 1 then 1 else orders.length - 1
  aggregate : orders ≠ [] → (plan.map PlannedHandOut.source).count .aggregate = 1
  once : (plan.map PlannedHandOut.source).Nodup
  funded : ∀ (k : Nat) (p : PlannedHandOut F V), plan[k]? = some p →
    Funded owner vpk (unitsOf orders) plan k p.source p.units
  paid : (paidOut plan (plan.map PlannedHandOut.source)).Perm
    (orders.map HandOutOrder.output ++ if orders.length = 1 then [agentNote owner vpk 0] else [])

/-- What holds of the queue and the plan before each round. -/
structure HandOutInv [FeedField F] (owner : F) (vpk : V) (orders : List (HandOutOrder F V))
    (queue : List (HandOutGroup F V)) (plan : List (PlannedHandOut F V)) : Prop where
  long : ∀ e ∈ queue, 2 ≤ e.2.length
  count : plan.length + (queue.map fun e => e.2.length - 1).sum = orders.length - 1
  aggregate : .aggregate ∈ plan.map PlannedHandOut.source ++ queue.map Prod.fst
  once : (plan.map PlannedHandOut.source ++ queue.map Prod.fst).Nodup
  queued : ∀ e ∈ queue, Funded owner vpk (unitsOf orders) plan plan.length e.1 (unitsOf e.2)
  funded : ∀ (k : Nat) (p : PlannedHandOut F V), plan[k]? = some p →
    Funded owner vpk (unitsOf orders) plan k p.source p.units
  paid : (paidOut plan (plan.map PlannedHandOut.source ++ queue.map Prod.fst) ++
    queue.flatMap fun e => e.2.map HandOutOrder.output).Perm (orders.map HandOutOrder.output)

section
variable {plan : List (PlannedHandOut F V)} {p : PlannedHandOut F V}

theorem planOutputs_concat : planOutputs (plan ++ [p]) =
    planOutputs plan ++ [(.output plan.length 0, p.outputs.1), (.output plan.length 1, p.outputs.2)] := by
  simp [planOutputs, List.zipIdx_append]

theorem exists_of_mem_planOutputs {e : HandOutSource × Delivery F V} (h : e ∈ planOutputs plan) :
    ∃ t i, e.1 = .output t i ∧ t < plan.length := by
  obtain ⟨x, hx, he⟩ := List.mem_flatMap.mp h
  obtain ⟨p, t⟩ := x
  have hlt := (List.getElem?_eq_some_iff.mp (List.mem_zipIdx_iff_getElem?.mp hx)).1
  simp only [List.mem_cons, List.not_mem_nil, or_false] at he
  rcases he with rfl | rfl
  · exact ⟨t, 0, rfl, hlt⟩
  · exact ⟨t, 1, rfl, hlt⟩

/-- The outputs of a transfer are unspent unless they are queued. -/
theorem paidOut_concat {sources : List HandOutSource} {first second : List (HandOutGroup F V)}
    (hold : ∀ i, .output plan.length i ∉ sources) (hfirst : ∀ e ∈ first, e.1 = .output plan.length 0)
    (hsecond : ∀ e ∈ second, e.1 = .output plan.length 1) :
    paidOut (plan ++ [p]) (sources ++ (first ++ second).map Prod.fst) = paidOut plan sources ++
      ((if first = [] then [p.outputs.1] else []) ++ if second = [] then [p.outputs.2] else []) := by
  have hmem : ∀ {index : Nat} {queued : List (HandOutGroup F V)},
      (∀ e ∈ queued, e.1 = .output plan.length index) → ∀ s, s ∈ queued.map Prod.fst ↔ s = .output plan.length index ∧ queued ≠ [] := by
    intro index queued hq s
    rw [List.mem_map]
    constructor
    · rintro ⟨e, he, rfl⟩
      exact ⟨hq e he, List.ne_nil_of_mem he⟩
    · rintro ⟨rfl, hne⟩
      obtain ⟨e, he⟩ := List.exists_mem_of_ne_nil _ hne
      exact ⟨e, he, hq e he⟩
  simp only [paidOut, planOutputs_concat, List.filter_append, List.map_append, List.mem_append,
    hmem hfirst, hmem hsecond]
  congr 1
  · refine congrArg _ (List.filter_congr fun e he => ?_)
    obtain ⟨t, i, ht, hlt⟩ := exists_of_mem_planOutputs he
    have hne : t ≠ plan.length := hlt.ne
    simp [ht, hne]
  · have h0 := hold 0
    have h1 := hold 1
    by_cases hf : first = [] <;> by_cases hs : second = [] <;> simp [hf, hs, h0, h1]

end

/-! ## One round -/

theorem toNat_units {group : List (HandOutOrder F V)} (h : unitsOf group < 2 ^ 64) :
    ((group.map HandOutOrder.units).sum).toNat = unitsOf group := by
  have hmap : (group.map HandOutOrder.units).map UInt64.toNat = group.map fun o => o.units.toNat := List.map_map
  rw [toNat_sum_of_lt (by rwa [hmap]), hmap, unitsOf]

section
variable [FeedField F] {owner : F} {vpk : V} {orders : List (HandOutOrder F V)}
  {plan : List (PlannedHandOut F V)} {queue : List (HandOutGroup F V)}

/-- The output and the queued groups of a half. -/
structure HalfMade (owner : F) (vpk : V) (source : HandOutSource) (part : List (HandOutOrder F V))
    (d : Delivery F V) (queued : List (HandOutGroup F V)) : Prop where
  units : d.units.toNat = unitsOf part
  source : ∀ e ∈ queued, e.1 = source
  once : (queued.map Prod.fst).Nodup
  long : ∀ e ∈ queued, 2 ≤ e.2.length
  count : (queued.map fun e => e.2.length - 1).sum = part.length - 1
  note : ∀ e ∈ queued, ∃ u, d = agentNote owner vpk u ∧ unitsOf e.2 = u.toNat
  paid : (if queued = [] then [d] else []) ++ (queued.flatMap fun e => e.2.map HandOutOrder.output) =
    part.map HandOutOrder.output

theorem handOutHalf_made {t i : Nat} {part : List (HandOutOrder F V)} (hne : part ≠ [])
    (hsum : unitsOf part < 2 ^ 64) : HalfMade owner vpk (.output t i) part
      (handOutHalf owner vpk t i part).1 (handOutHalf owner vpk t i part).2 := by
  unfold handOutHalf
  split
  · next single =>
    exact ⟨by simp [unitsOf, HandOutOrder.output], by simp, by simp, by simp, by simp, by simp, by simp⟩
  · next hmany =>
    have hlong : 2 ≤ part.length := by
      rcases part with _ | ⟨o, _ | ⟨o', rest⟩⟩
      · exact absurd rfl hne
      · exact absurd rfl (hmany o)
      · simp
    have hu := toNat_units hsum
    refine ⟨hu, by simp, by simp, by simpa using hlong, by simp, ?_, by simp⟩
    intro e he
    obtain rfl := List.mem_singleton.mp he
    exact ⟨_, rfl, hu.symm⟩

/-- A group of several orders is split in two. -/
theorem handOutGroup_eq {t : Nat} {group : List (HandOutOrder F V)} (hlong : 2 ≤ group.length) :
    ∃ left right, group = left ++ right ∧ left ≠ [] ∧ right ≠ [] ∧ handOutGroup owner vpk t group =
      (((handOutHalf owner vpk t 0 left).1, (handOutHalf owner vpk t 1 right).1),
        (handOutHalf owner vpk t 0 left).2 ++ (handOutHalf owner vpk t 1 right).2) := by
  refine ⟨group.take (group.length / 2), group.drop (group.length / 2), (List.take_append_drop _ _).symm,
    ?_, ?_, ?_⟩
  · apply List.ne_nil_of_length_pos
    rw [List.length_take]
    omega
  · apply List.ne_nil_of_length_pos
    rw [List.length_drop]
    omega
  · unfold handOutGroup
    split
    · simp at hlong
    · rw [List.splitAt_eq]

theorem Funded.mono {total k k' units : Nat} {source : HandOutSource}
    (h : Funded owner vpk total plan k source units) (hk : k ≤ k') (p : PlannedHandOut F V) :
    Funded owner vpk total (plan ++ [p]) k' source units := by
  rcases h with ⟨rfl, rfl⟩ | ⟨t, i, u, rfl, ht, hmem, rfl⟩
  · exact .inl ⟨rfl, rfl⟩
  · refine .inr ⟨t, i, u, rfl, by omega, ?_, rfl⟩
    rw [planOutputs_concat]
    exact List.mem_append_left _ hmem

theorem Funded.lt {total k t i units : Nat} (h : Funded owner vpk total plan k (.output t i) units) :
    t < k := by
  rcases h with ⟨h, -⟩ | ⟨t', i', u, heq, ht, -⟩
  · cases h
  · cases heq
    exact ht

/-- No source is an output of the next transfer. -/
theorem HandOutInv.not_mem_sources (inv : HandOutInv owner vpk orders queue plan) (i : Nat) :
    .output plan.length i ∉ plan.map PlannedHandOut.source ++ queue.map Prod.fst := by
  rw [List.mem_append, List.mem_map, List.mem_map]
  rintro (⟨p, hp, hs⟩ | ⟨e, he, hs⟩)
  · obtain ⟨k, hk⟩ := List.mem_iff_getElem?.mp hp
    have hfunded := inv.funded k p hk
    rw [hs] at hfunded
    have hlt := (List.getElem?_eq_some_iff.mp hk).1
    have hk := hfunded.lt
    omega
  · have hfunded := inv.queued e he
    rw [hs] at hfunded
    exact Nat.lt_irrefl _ hfunded.lt

/-- A round keeps the invariant. -/
theorem HandOutInv.step {source : HandOutSource} {group : List (HandOutOrder F V)}
    (htotal : unitsOf orders < 2 ^ 64) (inv : HandOutInv owner vpk orders ((source, group) :: queue) plan) :
    HandOutInv owner vpk orders (queue ++ (handOutGroup owner vpk plan.length group).2)
      (plan ++ [⟨source, (handOutGroup owner vpk plan.length group).1⟩]) := by
  have hlong := inv.long _ List.mem_cons_self
  have hhead := inv.queued _ List.mem_cons_self
  have hsum : unitsOf group < 2 ^ 64 := by
    rcases hhead with ⟨-, hu⟩ | ⟨_, _, u, -, -, -, hu⟩
    · exact hu ▸ htotal
    · exact hu ▸ u.toNat_lt
  obtain ⟨left, right, rfl, hleft, hright, heq⟩ := @handOutGroup_eq _ _ _ owner vpk plan.length group hlong
  have hunits : unitsOf (left ++ right) = unitsOf left + unitsOf right := by
    simp [unitsOf]
  have first : HalfMade owner vpk (.output plan.length 0) left _ _ := handOutHalf_made hleft (by omega)
  have second : HalfMade owner vpk (.output plan.length 1) right _ _ := handOutHalf_made hright (by omega)
  rw [heq]
  generalize handOutHalf owner vpk plan.length 0 left = h0 at first ⊢
  generalize handOutHalf owner vpk plan.length 1 right = h1 at second ⊢
  obtain ⟨d0, q0⟩ := h0
  obtain ⟨d1, q1⟩ := h1
  simp only at first second ⊢
  -- the sources of a round are those before it and the queued outputs
  have hsources : (plan ++ [(⟨source, (d0, d1)⟩ : PlannedHandOut F V)]).map PlannedHandOut.source ++
      (queue ++ (q0 ++ q1)).map Prod.fst = (plan.map PlannedHandOut.source ++
        ((source, left ++ right) :: queue).map Prod.fst) ++ (q0 ++ q1).map Prod.fst := by
    simp
  have hnew := inv.not_mem_sources
  have hlen : (plan ++ [(⟨source, (d0, d1)⟩ : PlannedHandOut F V)]).length = plan.length + 1 := by simp
  refine ⟨?_, ?_, ?_, ?_, ?_, ?_, ?_⟩
  · intro e he
    simp only [List.mem_append] at he
    rcases he with he | he | he
    · exact inv.long e (List.mem_cons_of_mem _ he)
    · exact first.long e he
    · exact second.long e he
  · have hcount := inv.count
    have hpos := List.length_pos_iff.mpr hleft
    have hpos' := List.length_pos_iff.mpr hright
    simp only [List.map_cons, List.sum_cons, List.length_append] at hcount
    rw [hlen, List.map_append, List.map_append, List.sum_append, List.sum_append, first.count, second.count]
    omega
  · rw [hsources]
    exact List.mem_append_left _ inv.aggregate
  · rw [hsources, List.nodup_append]
    refine ⟨inv.once, ?_, ?_⟩
    · rw [List.map_append, List.nodup_append]
      refine ⟨first.once, second.once, ?_⟩
      intro s hs s' hs' heq'
      obtain ⟨e, he, rfl⟩ := List.mem_map.mp hs
      obtain ⟨e', he', rfl⟩ := List.mem_map.mp hs'
      rw [first.source e he, second.source e' he'] at heq'
      cases heq'
    · intro s hs s' hs' heq'
      rw [List.map_append, List.mem_append] at hs'
      subst heq'
      rcases hs' with hs' | hs'
      · obtain ⟨e, he, rfl⟩ := List.mem_map.mp hs'
        exact hnew 0 (first.source e he ▸ hs)
      · obtain ⟨e, he, rfl⟩ := List.mem_map.mp hs'
        exact hnew 1 (second.source e he ▸ hs)
  · intro e he
    rw [hlen]
    simp only [List.mem_append] at he
    rcases he with he | he | he
    · exact (inv.queued e (List.mem_cons_of_mem _ he)).mono (Nat.le_succ _) _
    · obtain ⟨u, rfl, hu⟩ := first.note e he
      refine .inr ⟨plan.length, 0, u, first.source e he, Nat.lt_succ_self _, ?_, hu⟩
      rw [first.source e he, planOutputs_concat]
      exact List.mem_append_right _ List.mem_cons_self
    · obtain ⟨u, rfl, hu⟩ := second.note e he
      refine .inr ⟨plan.length, 1, u, second.source e he, Nat.lt_succ_self _, ?_, hu⟩
      rw [second.source e he, planOutputs_concat]
      exact List.mem_append_right _ (List.mem_cons_of_mem _ List.mem_cons_self)
  · intro k p hk
    rcases Nat.lt_or_ge k plan.length with hlt | hge
    · rw [List.getElem?_append_left hlt] at hk
      exact (inv.funded k p hk).mono (Nat.le_refl _) _
    · rw [List.getElem?_append_right hge] at hk
      obtain ⟨hk0, hp⟩ := List.getElem?_eq_some_iff.mp hk
      have hk : k = plan.length := by
        simp at hk0
        omega
      subst hk
      simp only [Nat.sub_self, List.getElem_cons_zero] at hp
      subst hp
      have hbalance : PlannedHandOut.units (⟨source, (d0, d1)⟩ : PlannedHandOut F V) =
          unitsOf (left ++ right) := by
        rw [hunits, ← first.units, ← second.units]
        rfl
      rw [hbalance]
      exact hhead.mono (Nat.le_refl _) _
  · rw [hsources, paidOut_concat hnew first.source second.source]
    refine List.Perm.trans ?_ inv.paid
    simp only [List.flatMap_append, List.flatMap_cons, List.map_append, ← first.paid, ← second.paid,
      List.append_assoc]
    rw [← Multiset.coe_eq_coe]
    simp only [← Multiset.coe_add]
    abel

/-! ## The whole plan -/

/-- The queue empties after as many rounds as it stands for transfers. -/
theorem handOutLoop_spec (htotal : unitsOf orders < 2 ^ 64) (inv : HandOutInv owner vpk orders queue plan) :
    ∃ plan', HandOutInv owner vpk orders [] plan' ∧ ∀ fuel, (queue.map fun e => e.2.length - 1).sum ≤ fuel →
        handOutLoop owner vpk fuel queue plan = some plan' := by
  generalize hrounds : (queue.map fun e => e.2.length - 1).sum = rounds
  induction rounds generalizing queue plan with
  | zero =>
    cases queue with
    | nil => exact ⟨plan, inv, fun fuel _ => by cases fuel <;> rfl⟩
    | cons e queue =>
      have hlong := inv.long e List.mem_cons_self
      rw [List.map_cons, List.sum_cons] at hrounds
      omega
  | succ rounds ih =>
    cases queue with
    | nil => cases hrounds
    | cons e queue =>
      obtain ⟨source, group⟩ := e
      have hstep := inv.step htotal
      have hlen : (plan ++ [(⟨source, (handOutGroup owner vpk plan.length group).1⟩ :
          PlannedHandOut F V)]).length = plan.length + 1 := by simp
      have hcount := inv.count
      have hcount' := hstep.count
      rw [hlen] at hcount'
      obtain ⟨plan', inv', hfuel⟩ := ih hstep (by omega)
      refine ⟨plan', inv', fun fuel hle => ?_⟩
      obtain ⟨fuel, rfl⟩ : ∃ n, fuel = n + 1 := ⟨fuel - 1, by omega⟩
      exact hfuel fuel (by omega)

theorem HandOutInv.paysOut (inv : HandOutInv owner vpk orders [] plan) (hmany : orders.length ≠ 1) :
    PaysOut owner vpk orders plan := by
  have hcount := inv.count
  have honce := inv.once
  have haggregate := inv.aggregate
  have hpaid := inv.paid
  simp only [List.map_nil, List.sum_nil, Nat.add_zero, List.append_nil, List.flatMap_nil]
    at hcount honce haggregate hpaid
  refine ⟨?_, fun _ => List.count_eq_one_of_mem honce haggregate, honce, inv.funded, ?_⟩
  · rw [if_neg hmany, hcount]
  · rwa [if_neg hmany, List.append_nil]

theorem handOutInv_init (hlong : 2 ≤ orders.length) : HandOutInv owner vpk orders [(.aggregate, orders)] [] where
  long := by simpa using hlong
  count := by simp
  aggregate := by simp
  once := by simp
  queued := by
    intro e he
    obtain rfl := List.mem_singleton.mp he
    exact .inl ⟨rfl, rfl⟩
  funded := by simp
  paid := by simp [paidOut, planOutputs]

/-- Every list of orders that fit a note is paid out by a plan, which the loop returns. -/
theorem planHandOut_pays (P : Primitives F) (agent : TransferAgent F) (vpk : V)
    (orders : List (HandOutOrder F V)) (htotal : unitsOf orders ≤ 2 ^ 64 - 1) :
    ∃ plan, (∀ fuel, orders.length ≤ fuel → agent.planHandOut P vpk fuel orders = some plan) ∧
      PaysOut (agent.owner P) vpk orders plan := by
  have hlt : unitsOf orders < 2 ^ 64 := by omega
  rcases orders with _ | ⟨o, _ | ⟨o', rest⟩⟩
  · refine ⟨[], fun fuel _ => by cases fuel <;> rfl, ?_⟩
    exact ⟨rfl, fun h => absurd rfl h, List.nodup_nil, by simp, by simp [paidOut, planOutputs]⟩
  · refine ⟨[⟨.aggregate, (o.output, agentNote (agent.owner P) vpk 0)⟩], fun fuel hle => ?_, ?_⟩
    · obtain ⟨fuel, rfl⟩ : ∃ n, fuel = n + 1 := ⟨fuel - 1, by simp at hle; omega⟩
      cases fuel <;> rfl
    · refine ⟨rfl, fun _ => rfl, by simp, ?_, by simp [paidOut, planOutputs]⟩
      intro k p hk
      obtain ⟨rfl, rfl⟩ : k = 0 ∧ p = ⟨.aggregate, (o.output, agentNote (agent.owner P) vpk 0)⟩ := by
        cases k with
        | zero => exact ⟨rfl, (Option.some.inj hk).symm⟩
        | succ k => simp at hk
      exact .inl ⟨rfl, by simp [PlannedHandOut.units, unitsOf, HandOutOrder.output, agentNote]⟩
  · have hlong : 2 ≤ (o :: o' :: rest).length := by simp
    have hinit : HandOutInv (agent.owner P) vpk _ _ [] := handOutInv_init hlong
    obtain ⟨plan, inv, hfuel⟩ := handOutLoop_spec hlt hinit
    refine ⟨plan, fun fuel hle => ?_, inv.paysOut (by simp)⟩
    rw [TransferAgent.planHandOut, if_neg (List.cons_ne_nil _ _)]
    refine hfuel fuel ?_
    simp only [List.map_cons, List.map_nil, List.sum_cons, List.sum_nil]
    omega

end

/-- A free order and a held one. -/
def Sample.orders : List (HandOutOrder Unbounded Unit) := [⟨⟨5⟩, (), 7, none⟩, ⟨⟨6⟩, (), 9, some 200⟩]

theorem planHandOut_pays_two : unitsOf Sample.orders ≤ 2 ^ 64 - 1 ∧ ∃ plan,
    (∀ fuel, Sample.orders.length ≤ fuel → (TransferAgent.new Sample.wallet 2).planHandOut
      Sample.sample.toPrimitives () fuel Sample.orders = some plan) ∧
    PaysOut ((TransferAgent.new Sample.wallet 2).owner Sample.sample.toPrimitives) () Sample.orders plan :=
  ⟨by decide, planHandOut_pays _ _ _ Sample.orders (by decide)⟩

end Pocs.Mmf

import Pocs.Lib.Method

/-! # Calls that nest and roll back

A contract that calls another one can be called again before the call returns. `Nested` is a state
together with the calls that have not returned, each with the state that its failure restores. A call
may return or fail at any time. -/

namespace Pocs

/-- A state and the pending calls, innermost first, each with its label and its snapshot. -/
structure Nested (σ φ : Type _) where
  state : σ
  frames : List (φ × σ)

namespace Nested
variable {σ φ ℓ : Type _}

inductive Label (φ ℓ : Type _) where
  | act (l : ℓ)
  | enter (f : φ)
  | leave (f : φ)
  | revert (f : φ)

/-- The steps of a machine `act` whose calls start with `enter`. -/
inductive Step (act : σ → ℓ → σ → Prop) (enter : σ → φ → σ → Prop) :
    Nested σ φ → Label φ ℓ → Nested σ φ → Prop where
  | act {s s' l frames} (h : act s l s') : Step act enter ⟨s, frames⟩ (.act l) ⟨s', frames⟩
  | enter {s s' f frames} (h : enter s f s') : Step act enter ⟨s, frames⟩ (.enter f) ⟨s', (f, s) :: frames⟩
  | leave {s s' f frames} : Step act enter ⟨s, (f, s') :: frames⟩ (.leave f) ⟨s, frames⟩
  | revert {s s' f frames} : Step act enter ⟨s, (f, s') :: frames⟩ (.revert f) ⟨s', frames⟩

variable {act : σ → ℓ → σ → Prop} {enter : σ → φ → σ → Prop} {n n' : Nested σ φ} {tr : List (Label φ ℓ)}

/-- What the machine keeps and each call keeps holds of the state and of the snapshots, and the
snapshot of a pending call is a state in which it was entered. -/
structure Inv (enter : σ → φ → σ → Prop) (I : σ → Prop) (n : Nested σ φ) : Prop where
  state : I n.state
  snapshot : ∀ {f s}, (f, s) ∈ n.frames → I s
  entered : ∀ {f s}, (f, s) ∈ n.frames → ∃ s', enter s f s'

theorem Inv.step {I : σ → Prop} (hact : ∀ {s l s'}, act s l s' → I s → I s')
    (henter : ∀ {s f s'}, enter s f s' → I s → I s') (inv : Inv enter I n) {l : Label φ ℓ}
    (h : Step act enter n l n') : Inv enter I n' := by
  cases h with
  | act h => exact ⟨hact h inv.state, inv.snapshot, inv.entered⟩
  | enter h =>
    refine ⟨henter h inv.state, fun hmem => ?_, fun hmem => ?_⟩
    · rcases List.mem_cons.mp hmem with heq | hmem
      · cases heq
        exact inv.state
      · exact inv.snapshot hmem
    · rcases List.mem_cons.mp hmem with heq | hmem
      · cases heq
        exact ⟨_, h⟩
      · exact inv.entered hmem
  | leave =>
    exact ⟨inv.state, fun hmem => inv.snapshot (List.mem_cons_of_mem _ hmem),
      fun hmem => inv.entered (List.mem_cons_of_mem _ hmem)⟩
  | revert =>
    exact ⟨inv.snapshot List.mem_cons_self, fun hmem => inv.snapshot (List.mem_cons_of_mem _ hmem),
      fun hmem => inv.entered (List.mem_cons_of_mem _ hmem)⟩

theorem Inv.imp {I J : σ → Prop} (hIJ : ∀ s, I s → J s) (inv : Inv enter I n) : Inv enter J n :=
  ⟨hIJ _ inv.state, fun hmem => hIJ _ (inv.snapshot hmem), inv.entered⟩

/-- An invariant of the machine and of its calls holds along every run with calls nested in it. -/
theorem Inv.run {I : σ → Prop} (hact : ∀ {s l s'}, act s l s' → I s → I s')
    (henter : ∀ {s f s'}, enter s f s' → I s → I s') {s₀ : σ} (h₀ : I s₀)
    (hrun : Run (Step act enter) ⟨s₀, []⟩ tr n) : Inv enter I n := by
  have hinit : Inv enter I ⟨s₀, []⟩ :=
    ⟨h₀, fun hmem => absurd hmem List.not_mem_nil, fun hmem => absurd hmem List.not_mem_nil⟩
  exact @Run.invariant _ _ _ _ _ _ (fun _ n => Inv enter I n) hrun hinit
    fun _ _ _ _ _ hstep inv => inv.step hact henter hstep

/-- The failure of a call restores the state before it. -/
theorem restored {n₁ n₂ n₃ : Nested σ φ} {f g : φ} (henter : Step act enter n (.enter f) n₁)
    (hframes : n₂.frames = n₁.frames) (hrevert : Step act enter n₂ (.revert g) n₃) : n₃ = n := by
  cases henter with
  | enter h =>
    cases hrevert with
    | revert =>
      cases hframes
      rfl

end Nested

end Pocs

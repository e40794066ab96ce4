import Pocs.Lib.Checked

/-! # Methods with a mutable receiver, and runs of a machine

`Method σ ε α` is a fallible method on a receiver of type `σ`. An error keeps the writes made before
it, and `none` is a panic. `Run` collects the steps of a machine, newest first. -/

namespace Pocs

/-- A method with receiver `σ`: `none` is a panic, and an error keeps the writes made before it. -/
def Method (σ ε α : Type) := σ → Option (Except ε α × σ)

namespace Method
variable {σ τ ε α β : Type}

instance : Monad (Method σ ε) where
  pure a := fun s => some (.ok a, s)
  bind x f := fun s =>
    match x s with
    | some (.ok a, s') => f a s'
    | some (.error e, s') => some (.error e, s')
    | none => none

def get : Method σ ε σ := fun s => some (.ok s, s)

def set (s : σ) : Method σ ε Unit := fun _ => some (.ok (), s)

/-- `x?` for a computation that does not touch the receiver. -/
def ofExcept (x : Except ε α) : Method σ ε α := fun s => some (x, s)

/-- A computation that panics where it has no value. -/
def orPanic (x : Option α) : Method σ ε α := fun s => x.map fun a => (.ok a, s)

/-- Run a method on the value stored under `k` of a map, which must be there. -/
def onKey {κ : Type} [DecidableEq κ] (k : κ) (missing : ε) (m : Method τ ε α) :
    Method (κ → Option τ) ε α := fun map =>
  match map k with
  | none => some (.error missing, map)
  | some v => (m v).map fun r => (r.1, Function.update map k (some r.2))

/-- Run a method on the second part of a receiver. -/
def onSnd {κ : Type} (m : Method τ ε α) : Method (κ × τ) ε α := fun s =>
  (m s.2).map fun r => (r.1, (s.1, r.2))

def mapOk (f : α → β) (m : Method σ ε α) : Method σ ε β := fun s =>
  (m s).map fun r => (r.1.map f, r.2)

variable {s s' : σ}

theorem mapOk_eq_some {f : α → β} {m : Method σ ε α} {r : Except ε β} :
    mapOk f m s = some (r, s') ↔ ∃ r₀, m s = some (r₀, s') ∧ r = r₀.map f := by
  simp only [mapOk, Option.map_eq_some_iff, Prod.mk.injEq, Prod.exists]
  constructor
  · rintro ⟨r₀, _, hm, rfl, rfl⟩
    exact ⟨r₀, hm, rfl⟩
  · rintro ⟨r₀, hm, rfl⟩
    exact ⟨r₀, s', hm, rfl, rfl⟩

/-- A sequence either runs to its end or stops at the error of its first part. -/
theorem bind_eq_some {x : Method σ ε α} {f : α → Method σ ε β} {r : Except ε β} : (x >>= f) s = some (r, s') ↔
      (∃ a s₁, x s = some (.ok a, s₁) ∧ f a s₁ = some (r, s')) ∨
        ∃ e, x s = some (.error e, s') ∧ r = .error e := by
  show (match x s with
    | some (.ok a, s') => f a s'
    | some (.error e, s') => some (.error e, s')
    | none => none) = some (r, s') ↔ _
  cases hx : x s with
  | none => simp
  | some p =>
    obtain ⟨r₁, s₁⟩ := p
    cases r₁ with
    | ok a => simp
    | error e =>
      simp only [Option.some.injEq, Prod.mk.injEq, reduceCtorEq, false_and, exists_false, false_or,
        Except.error.injEq]
      constructor
      · rintro ⟨rfl, rfl⟩
        exact ⟨e, ⟨rfl, rfl⟩, rfl⟩
      · rintro ⟨e', ⟨rfl, rfl⟩, rfl⟩
        exact ⟨rfl, rfl⟩

theorem bind_eq_ok {x : Method σ ε α} {f : α → Method σ ε β} {b : β} : (x >>= f) s = some (.ok b, s') ↔
      ∃ a s₁, x s = some (.ok a, s₁) ∧ f a s₁ = some (.ok b, s') := by
  simp [bind_eq_some]

theorem bind_of_ok {x : Method σ ε α} {a : α} {s₁ : σ} (h : x s = some (.ok a, s₁))
    (f : α → Method σ ε β) : (x >>= f) s = f a s₁ := by
  show (match x s with
    | some (.ok a, s') => f a s'
    | some (.error e, s') => some (.error e, s')
    | none => none) = _
  rw [h]

@[simp] theorem get_bind (f : σ → Method σ ε β) : (get >>= f) s = f s s := rfl

@[simp] theorem set_bind (f : Unit → Method σ ε β) : (set s' >>= f) s = f () s' := rfl

@[simp] theorem pure_apply (a : α) : (pure a : Method σ ε α) s = some (.ok a, s) := rfl

@[simp] theorem ofExcept_eq_some {x : Except ε α} {r : Except ε α} :
    ofExcept x s = some (r, s') ↔ x = r ∧ s = s' := by
  simp [ofExcept]

@[simp] theorem orPanic_eq_some {x : Option α} {r : Except ε α} :
    orPanic x s = some (r, s') ↔ (∃ a, x = some a ∧ .ok a = r) ∧ s = s' := by
  cases x <;> simp [orPanic]

theorem ofExcept_ok_bind {x : Except ε α} {a : α} (h : x = .ok a) (f : α → Method σ ε β) :
    (ofExcept x >>= f) s = f a s := by
  subst h
  rfl

theorem ofExcept_error_bind {x : Except ε α} {e : ε} (h : x = .error e) (f : α → Method σ ε β) :
    (ofExcept x >>= f) s = some (.error e, s) := by
  subst h
  rfl

theorem ofExcept_bind_eq_ok {x : Except ε α} {f : α → Method σ ε β} {b : β} :
    (ofExcept x >>= f) s = some (.ok b, s') ↔ ∃ a, x = .ok a ∧ f a s = some (.ok b, s') := by
  simp [bind_eq_ok]

/-- A lifted result does not panic. -/
theorem exists_ofExcept_bind {x : Except ε α} {f : α → Method σ ε β}
    (h : ∀ a, x = .ok a → ∃ r, f a s = some r) : ∃ r, (ofExcept x >>= f) s = some r := by
  cases x with
  | ok a => exact h a rfl
  | error e => exact ⟨_, rfl⟩

theorem orPanic_bind {x : Option α} {a : α} (h : x = some a) (f : α → Method σ ε β) :
    (orPanic x >>= f) s = f a s := by
  subst h
  rfl

theorem onSnd_eq_some {κ : Type} {m : Method τ ε α} {k k' : κ} {v v' : τ} {r : Except ε α} :
    onSnd m (k, v) = some (r, (k', v')) ↔ m v = some (r, v') ∧ k = k' := by
  simp only [onSnd, Option.map_eq_some_iff, Prod.mk.injEq, Prod.exists]
  constructor
  · rintro ⟨r₀, v₀, hm, rfl, rfl, rfl⟩
    exact ⟨hm, rfl⟩
  · rintro ⟨hm, rfl⟩
    exact ⟨r, v', hm, rfl, rfl, rfl⟩

theorem onKey_eq_some {κ : Type} [DecidableEq κ] {k : κ} {missing : ε} {m : Method τ ε α}
    {map map' : κ → Option τ} {r : Except ε α} : onKey k missing m map = some (r, map') ↔
      (map k = none ∧ r = .error missing ∧ map' = map) ∨
        ∃ v v', map k = some v ∧ m v = some (r, v') ∧ map' = Function.update map k (some v') := by
  unfold onKey
  cases hv : map k with
  | none =>
    simp only [Option.some.injEq, Prod.mk.injEq, true_and, reduceCtorEq, false_and, exists_false, or_false]
    exact and_congr eq_comm eq_comm
  | some v =>
    simp only [Option.map_eq_some_iff, Prod.mk.injEq, reduceCtorEq, false_and, Option.some.injEq, false_or]
    constructor
    · rintro ⟨⟨r', v'⟩, hm, rfl, rfl⟩
      exact ⟨v, v', rfl, hm, rfl⟩
    · rintro ⟨_, v', rfl, hm, rfl⟩
      exact ⟨(r, v'), hm, rfl, rfl⟩

end Method

/-! ## Runs -/

/-- A run of the machine `step` from `s₀`, with its labels newest first. -/
inductive Run {σ ℓ : Type _} (step : σ → ℓ → σ → Prop) (s₀ : σ) : List ℓ → σ → Prop where
  | nil : Run step s₀ [] s₀
  | cons {tr : List ℓ} {s s' : σ} {l : ℓ} (run : Run step s₀ tr s) (h : step s l s') : Run step s₀ (l :: tr) s'

namespace Run
variable {σ ℓ : Type _} {step : σ → ℓ → σ → Prop} {s₀ s : σ} {tr : List ℓ}

/-- What holds at the start and is kept by every step holds along the run. -/
theorem invariant {I : List ℓ → σ → Prop} (h : Run step s₀ tr s) (h₀ : I [] s₀)
    (hstep : ∀ tr s l s', Run step s₀ tr s → step s l s' → I tr s → I (l :: tr) s') : I tr s := by
  induction h with
  | nil => exact h₀
  | cons run hs ih => exact hstep _ _ _ _ run hs ih

/-- A run of the machine is one of any machine with its steps. -/
theorem mono {step' : σ → ℓ → σ → Prop} (h : Run step s₀ tr s)
    (hstep : ∀ s l s', step s l s' → step' s l s') : Run step' s₀ tr s := by
  induction h with
  | nil => exact .nil
  | cons _ hs ih => exact .cons ih (hstep _ _ _ hs)

/-- A run goes on where another one ended. -/
theorem append {s' : σ} {tr' : List ℓ} (h : Run step s₀ tr s) (h' : Run step s tr' s') :
    Run step s₀ (tr' ++ tr) s' := by
  induction h' with
  | nil => exact h
  | cons _ hs ih => exact .cons ih hs

/-- A run passes through a state after each part of its trace. -/
theorem split {tr' : List ℓ} (h : Run step s₀ (tr' ++ tr) s) : ∃ m, Run step s₀ tr m ∧ Run step m tr' s := by
  induction tr' generalizing s with
  | nil => exact ⟨s, h, .nil⟩
  | cons l tr' ih =>
    cases h with
    | cons run hs =>
      obtain ⟨m, hbefore, hafter⟩ := ih run
      exact ⟨m, hbefore, .cons hafter hs⟩

/-- The labels determine the run of a machine with one successor for each. -/
theorem unique {s' : σ} (h : Run step s₀ tr s) (h' : Run step s₀ tr s')
    (hstep : ∀ s l s₁ s₂, step s l s₁ → step s l s₂ → s₁ = s₂) : s = s' := by
  induction h generalizing s' with
  | nil =>
    cases h'
    rfl
  | cons run hs ih =>
    cases h' with
    | cons run' hs' =>
      obtain rfl := ih run'
      exact hstep _ _ _ _ hs hs'

end Run

/-- A step with the states around it. -/
structure Passage (σ ℓ : Type _) where
  before : σ
  label : ℓ
  after : σ

/-- The machine whose labels tell the states they lead from and to. -/
inductive Passes {σ ℓ : Type _} (step : σ → ℓ → σ → Prop) : σ → Passage σ ℓ → σ → Prop where
  | mk {s s' : σ} {l : ℓ} (h : step s l s') : Passes step s ⟨s, l, s'⟩ s'

namespace Run
variable {σ ℓ : Type _} {step : σ → ℓ → σ → Prop} {s₀ s : σ}

variable {ps : List (Passage σ ℓ)}

theorem step_of_mem (h : Run (Passes step) s₀ ps s) : ∀ p ∈ ps, step p.before p.label p.after := by
  induction h with
  | nil => exact fun _ hp => absurd hp List.not_mem_nil
  | cons _ hs ih =>
    obtain ⟨hs⟩ := hs
    exact List.forall_mem_cons.mpr ⟨hs, ih⟩

/-- What no step decreases is at most as large after an earlier passage as before a later one. -/
theorem passes_le {m : σ → Nat} (h : Run (Passes step) s₀ ps s) (hstep : ∀ s l s', step s l s' → m s ≤ m s') :
    (∀ p ∈ ps, m p.after ≤ m s) ∧ ps.Pairwise fun later earlier => m earlier.after ≤ m later.before := by
  induction h with
  | nil => exact ⟨fun _ hp => absurd hp List.not_mem_nil, .nil⟩
  | cons _ hs ih =>
    obtain ⟨hs⟩ := hs
    obtain ⟨hle, hpairwise⟩ := ih
    exact ⟨List.forall_mem_cons.mpr ⟨Nat.le_refl _, fun p hp => (hle p hp).trans (hstep _ _ _ hs)⟩,
      .cons hle hpairwise⟩

end Run

/-- The latest label of the trace with `p` has `Q`, with the trace before it. -/
def Latest {ℓ : Type _} (p : ℓ → Bool) (Q : ℓ → List ℓ → Prop) (tr : List ℓ) : Prop :=
  ∃ after l before, tr = after ++ l :: before ∧ p l = true ∧ Q l before ∧ ∀ l' ∈ after, p l' = false

theorem latest_cons_of_pos {ℓ : Type _} {p : ℓ → Bool} {Q : ℓ → List ℓ → Prop} {l : ℓ} {tr : List ℓ}
    (h : p l = true) : Latest p Q (l :: tr) ↔ Q l tr := by
  constructor
  · rintro ⟨after, l', before, htr, -, hQ, hafter⟩
    cases after with
    | nil =>
      obtain ⟨rfl, rfl⟩ := List.cons.inj htr
      exact hQ
    | cons l₁ after =>
      obtain ⟨rfl, -⟩ := List.cons.inj htr
      exact absurd (h.symm.trans (hafter _ List.mem_cons_self)) (Bool.false_ne_true).symm
  · exact fun hQ => ⟨[], l, tr, rfl, h, hQ, fun _ hmem => absurd hmem List.not_mem_nil⟩

theorem latest_cons_of_neg {ℓ : Type _} {p : ℓ → Bool} {Q : ℓ → List ℓ → Prop} {l : ℓ} {tr : List ℓ}
    (h : p l = false) : Latest p Q (l :: tr) ↔ Latest p Q tr := by
  constructor
  · rintro ⟨after, l', before, htr, hl', hQ, hafter⟩
    cases after with
    | nil =>
      obtain ⟨rfl, -⟩ := List.cons.inj htr
      exact absurd (h.symm.trans hl') Bool.false_ne_true
    | cons l₁ after =>
      obtain ⟨-, rfl⟩ := List.cons.inj htr
      exact ⟨after, l', before, rfl, hl', hQ, fun _ hmem => hafter _ (List.mem_cons_of_mem _ hmem)⟩
  · rintro ⟨after, l', before, rfl, hl', hQ, hafter⟩
    exact ⟨l :: after, l', before, rfl, hl', hQ, List.forall_mem_cons.mpr ⟨h, hafter⟩⟩

theorem not_latest_nil {ℓ : Type _} {p : ℓ → Bool} {Q : ℓ → List ℓ → Prop} : ¬ Latest p Q [] := by
  rintro ⟨after, l, before, htr, -⟩
  exact absurd htr (List.append_ne_nil_of_right_ne_nil _ (List.cons_ne_nil _ _)).symm

/-- Each label of the trace has `p`, with the trace before it. -/
def Each {ℓ : Type _} (p : ℓ → List ℓ → Prop) (tr : List ℓ) : Prop :=
  ∀ after l before, tr = after ++ l :: before → p l before

theorem each_nil {ℓ : Type _} {p : ℓ → List ℓ → Prop} : Each p [] := fun _ _ _ htr =>
  absurd htr (List.append_ne_nil_of_right_ne_nil _ (List.cons_ne_nil _ _)).symm

theorem Each.cons {ℓ : Type _} {p : ℓ → List ℓ → Prop} {l : ℓ} {tr : List ℓ} (h : p l tr) (htr : Each p tr) :
    Each p (l :: tr) := by
  intro after l' before hsplit
  cases after with
  | nil =>
    obtain ⟨rfl, rfl⟩ := List.cons.inj hsplit
    exact h
  | cons l₁ after =>
    obtain ⟨-, rfl⟩ := List.cons.inj hsplit
    exact htr after l' before rfl

/-- Where the values written by the steps of a trace are pairwise distinct, a value stands for its
step. -/
theorem index_eq_of_mem {α β : Type _} {f : α → List β} {xs : List α} (h : (xs.flatMap f).Nodup)
    {i j : Nat} {a b : α} {n : β} (hi : xs[i]? = some a) (hj : xs[j]? = some b) (ha : n ∈ f a)
    (hb : n ∈ f b) : i = j := by
  have hdisjoint := (List.nodup_flatMap.mp h).2
  obtain ⟨hi', hgeti⟩ := List.getElem?_eq_some_iff.mp hi
  obtain ⟨hj', hgetj⟩ := List.getElem?_eq_some_iff.mp hj
  rw [List.pairwise_iff_getElem] at hdisjoint
  rcases Nat.lt_trichotomy i j with hlt | heq | hlt
  · have hd := hdisjoint i j hi' hj' hlt
    rw [Function.onFun, hgeti, hgetj] at hd
    exact absurd hb (hd ha)
  · exact heq
  · have hd := hdisjoint j i hj' hi' hlt
    rw [Function.onFun, hgeti, hgetj] at hd
    exact absurd ha (hd hb)

end Pocs

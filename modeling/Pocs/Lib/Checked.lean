import Mathlib.Tactic

/-! # Checked computations

Early returns and assertions in `Except`, with the inversion lemmas that peel a successful
computation apart, and the checked additions of fixed-width integers. -/

namespace Pocs

/-- `if c { return Err(e) }`. -/
def failIf (c : Prop) [Decidable c] (e : ε) : Except ε Unit := if c then .error e else .ok ()

/-- `assert(c, msg)`. -/
def require (c : Prop) [Decidable c] (msg : String) : Except String Unit :=
  if c then .ok () else .error msg

/-- `if c { x }` for a check `x`. -/
def onlyIf (c : Prop) [Decidable c] (x : Except ε Unit) : Except ε Unit := if c then x else .ok ()

/-- `ok_or(e)`. -/
def okOr (x : Option α) (e : ε) : Except ε α :=
  match x with
  | some a => .ok a
  | none => .error e

/-- `map_err(f)`. -/
def mapErr (f : ε → ε') : Except ε α → Except ε' α
  | .ok a => .ok a
  | .error e => .error (f e)

/-- Unsigned addition in `w` bits, `none` on overflow. -/
def checkedAdd (w a b : Nat) : Option Nat := if a + b < 2 ^ w then some (a + b) else none

/-- Unsigned multiplication in `w` bits, `none` on overflow. -/
def checkedMul (w a b : Nat) : Option Nat := if a * b < 2 ^ w then some (a * b) else none

theorem ok_bind (a : α) (f : α → Except ε β) : (Except.ok a >>= f) = f a := rfl

theorem error_bind (e : ε) (f : α → Except ε β) : (Except.error e >>= f) = .error e := rfl

theorem failIf_pos {c : Prop} [Decidable c] (h : c) (e : ε) : failIf c e = .error e := if_pos h

theorem failIf_neg {c : Prop} [Decidable c] (h : ¬ c) (e : ε) : failIf c e = .ok () := if_neg h

@[simp] theorem failIf_eq_ok {c : Prop} [Decidable c] {e : ε} {u : Unit} : failIf c e = .ok u ↔ ¬ c := by
  unfold failIf
  split <;> simp_all

@[simp] theorem require_eq_ok {c : Prop} [Decidable c] {msg : String} {u : Unit} :
    require c msg = .ok u ↔ c := by
  unfold require
  split <;> simp_all

@[simp] theorem onlyIf_eq_ok {c : Prop} [Decidable c] {x : Except ε Unit} {u : Unit} :
    onlyIf c x = .ok u ↔ (c → x = .ok ()) := by
  unfold onlyIf
  split <;> simp_all

@[simp] theorem okOr_eq_ok {x : Option α} {e : ε} {a : α} : okOr x e = .ok a ↔ x = some a := by
  cases x <;> simp [okOr]

@[simp] theorem mapErr_eq_ok {f : ε → ε'} {x : Except ε α} {a : α} : mapErr f x = .ok a ↔ x = .ok a := by
  cases x <;> simp [mapErr]

/-- A successful sequence is a success of each part. -/
@[simp] theorem bind_eq_ok {x : Except ε α} {f : α → Except ε β} {b : β} :
    (x >>= f) = .ok b ↔ ∃ a, x = .ok a ∧ f a = .ok b := by
  cases x <;> simp [bind, Except.bind]

/-- A sequence fails where one of its parts does. -/
theorem bind_eq_error {x : Except ε α} {f : α → Except ε β} {e : ε} :
    (x >>= f) = .error e ↔ x = .error e ∨ ∃ a, x = .ok a ∧ f a = .error e := by
  cases x <;> simp [bind, Except.bind]

theorem failIf_eq_error {c : Prop} [Decidable c] {e e' : ε} : failIf c e = .error e' ↔ c ∧ e = e' := by
  unfold failIf
  split <;> simp_all

theorem mapErr_eq_error {f : ε → ε'} {x : Except ε α} {e : ε'} :
    mapErr f x = .error e ↔ ∃ e₀, x = .error e₀ ∧ f e₀ = e := by
  cases x <;> simp [mapErr]

theorem okOr_eq_error {x : Option α} {e e' : ε} : okOr x e = .error e' ↔ x = none ∧ e = e' := by
  cases x <;> simp [okOr]

@[simp] theorem pure_eq_ok {a b : α} : (pure a : Except ε α) = .ok b ↔ a = b := by
  simp [pure, Except.pure]

@[simp] theorem guard_eq_some {c : Prop} [Decidable c] {u : Unit} : (guard c : Option Unit) = some u ↔ c := by
  by_cases h : c <;> simp [guard, h]

@[simp] theorem checkedAdd_eq_some {w a b c : Nat} : checkedAdd w a b = some c ↔ a + b < 2 ^ w ∧ a + b = c := by
  unfold checkedAdd
  split <;> simp_all

@[simp] theorem checkedMul_eq_some {w a b c : Nat} : checkedMul w a b = some c ↔ a * b < 2 ^ w ∧ a * b = c := by
  unfold checkedMul
  split <;> simp_all

/-! ## Loops over an index range -/

section
variable {m : Type _ → Type _} [Monad m] [LawfulMonad m]

omit [LawfulMonad m] in
/-- A loop over the indices of a list is a loop over its elements. -/
theorem foldlM_range {f : β → Nat → m β} {g : β → α → m β} {xs : List α}
    (h : ∀ b i a, xs[i]? = some a → f b i = g b a) (b : β) :
    (List.range xs.length).foldlM f b = xs.foldlM g b := by
  induction xs generalizing f b with
  | nil => rfl
  | cons x xs ih =>
    simp only [List.length_cons, List.range_succ_eq_map, List.foldlM_cons, List.foldlM_map]
    rw [h b 0 x rfl]
    congr 1
    funext b'
    exact ih (fun b i a hi => h b (i + 1) a hi) b'

theorem mapM_range {f : Nat → m β} {g : α → m β} {xs : List α} (h : ∀ i a, xs[i]? = some a → f i = g a) :
    (List.range xs.length).mapM f = xs.mapM g := by
  induction xs generalizing f with
  | nil => rfl
  | cons x xs ih =>
    simp only [List.length_cons, List.range_succ_eq_map, List.mapM_cons, List.mapM_map]
    rw [h 0 x rfl]
    congr 1
    funext b
    rw [ih (f := f ∘ Nat.succ) fun i a hi => h (i + 1) a hi]

end

theorem mapM_eq_ok {f : α → Except ε β} {xs : List α} {ys : List β} :
    xs.mapM f = .ok ys ↔ List.Forall₂ (fun x y => f x = .ok y) xs ys := by
  induction xs generalizing ys with
  | nil =>
    rw [List.mapM_nil, pure_eq_ok, List.forall₂_nil_left_iff]
    exact eq_comm
  | cons x xs ih =>
    simp only [List.mapM_cons, bind_eq_ok, pure_eq_ok, ih]
    constructor
    · rintro ⟨y, hy, ys', hys, rfl⟩
      exact .cons hy hys
    · intro h
      cases h with
      | cons hy hys => exact ⟨_, hy, _, hys, rfl⟩

/-- A loop whose rounds all succeed succeeds, with what the rounds establish. -/
theorem exists_mapM_eq_ok {f : α → Except ε β} {Q : α → β → Prop} {xs : List α}
    (h : ∀ x ∈ xs, ∃ y, f x = .ok y ∧ Q x y) : ∃ ys, xs.mapM f = .ok ys ∧ List.Forall₂ Q xs ys := by
  induction xs with
  | nil => exact ⟨[], rfl, .nil⟩
  | cons x xs ih =>
    obtain ⟨⟨y, hy, hq⟩, hxs⟩ := List.forall_mem_cons.mp h
    obtain ⟨ys, hys, hqs⟩ := ih hxs
    exact ⟨y :: ys, mapM_eq_ok.mpr (.cons hy (mapM_eq_ok.mp hys)), .cons hq hqs⟩

theorem forM_eq_ok {f : α → Except ε Unit} {xs : List α} {u : Unit} :
    xs.forM f = .ok u ↔ ∀ x ∈ xs, f x = .ok () := by
  induction xs with
  | nil => simp
  | cons x xs ih =>
    have hcons : (x :: xs).forM f = (f x >>= fun _ => xs.forM f) := rfl
    rw [hcons, bind_eq_ok, List.forall_mem_cons, ih]
    constructor
    · rintro ⟨_, hx, hxs⟩
      exact ⟨hx, hxs⟩
    · rintro ⟨hx, hxs⟩
      exact ⟨(), hx, hxs⟩

/-- A loop of checks fails with the error of one of them. -/
theorem exists_of_forM_eq_error {f : α → Except ε Unit} {xs : List α} {e : ε}
    (h : xs.forM f = .error e) : ∃ x ∈ xs, f x = .error e := by
  induction xs with
  | nil => cases h
  | cons x xs ih =>
    have hcons : (x :: xs).forM f = (f x >>= fun _ => xs.forM f) := rfl
    rw [hcons, bind_eq_error] at h
    rcases h with h | ⟨_, -, h⟩
    · exact ⟨x, List.mem_cons_self, h⟩
    · obtain ⟨x', hx', he⟩ := ih h
      exact ⟨x', List.mem_cons_of_mem _ hx', he⟩

theorem exists_of_mapM_eq_error {f : α → Except ε β} {xs : List α} {e : ε} (h : xs.mapM f = .error e) :
    ∃ x ∈ xs, f x = .error e := by
  induction xs with
  | nil => cases h
  | cons x xs ih =>
    rw [List.mapM_cons, bind_eq_error] at h
    rcases h with h | ⟨_, -, h⟩
    · exact ⟨x, List.mem_cons_self, h⟩
    · rw [bind_eq_error] at h
      rcases h with h | ⟨_, -, h⟩
      · obtain ⟨x', hx', he⟩ := ih h
        exact ⟨x', List.mem_cons_of_mem _ hx', he⟩
      · cases h

theorem exists_of_foldlM_eq_error {f : β → α → Except ε β} {xs : List α} {b : β} {e : ε}
    (h : xs.foldlM f b = .error e) : ∃ x ∈ xs, ∃ c, f c x = .error e := by
  induction xs generalizing b with
  | nil => cases h
  | cons x xs ih =>
    rw [List.foldlM_cons, bind_eq_error] at h
    rcases h with h | ⟨_, -, h⟩
    · exact ⟨x, List.mem_cons_self, b, h⟩
    · obtain ⟨x', hx', he⟩ := ih h
      exact ⟨x', List.mem_cons_of_mem _ hx', he⟩

/-- An invariant of the loop body is an invariant of the loop. -/
theorem foldlM_ok_induction {f : β → α → Except ε β} {motive : β → Prop} {l : List α} {b b' : β}
    (h : l.foldlM f b = .ok b') (hb : motive b)
    (hstep : ∀ a ∈ l, ∀ {c c'}, f c a = .ok c' → motive c → motive c') : motive b' := by
  induction l generalizing b with
  | nil => simp only [List.foldlM_nil, pure_eq_ok] at h; exact h ▸ hb
  | cons a l ih =>
    simp only [List.foldlM_cons, bind_eq_ok] at h
    obtain ⟨c, hc, hl⟩ := h
    exact ih hl (hstep a List.mem_cons_self hc hb) fun a' ha' _ _ => hstep a' (List.mem_cons_of_mem _ ha')

end Pocs

import Mathlib.Tactic

/-! # Boolean postfix programs

A postfix program over atoms `τ` is run on a stack of values of any type, given an algebra for its
operators. Running it in the free algebra parses it, and every run is a fold of the parsed
expressions (`run_eq_singleton`), so two interpretations of one program are compared by structural
induction on its expression. -/

namespace Pocs.Postfix

inductive Op (τ : Type _) where
  | push (t : τ)
  | and
  | or
  | not
  | nop
  deriving DecidableEq, Repr

inductive Expr (τ : Type _) where
  | leaf (t : τ)
  | and (a b : Expr τ)
  | or (a b : Expr τ)
  | not (a : Expr τ)
  deriving DecidableEq, Repr

/-- An interpretation of the atoms and operators. -/
structure Alg (τ : Type _) (α : Type _) where
  leaf : τ → α
  and : α → α → α
  or : α → α → α
  not : α → α

variable {τ : Type _} {α : Type _}

/-- The parsing algebra. -/
def free : Alg τ (Expr τ) := ⟨.leaf, .and, .or, .not⟩

def Expr.fold (A : Alg τ α) : Expr τ → α
  | .leaf t => A.leaf t
  | .and a b => A.and (a.fold A) (b.fold A)
  | .or a b => A.or (a.fold A) (b.fold A)
  | .not a => A.not (a.fold A)

/-- One operator on a stack, top first; `none` on underflow. -/
def step (A : Alg τ α) : List α → Op τ → Option (List α)
  | st, .push t => some (A.leaf t :: st)
  | b :: a :: st, .and => some (A.and a b :: st)
  | b :: a :: st, .or => some (A.or a b :: st)
  | a :: st, .not => some (A.not a :: st)
  | st, .nop => some st
  | _, _ => none

/-- An operator grows the stack by at most one. -/
theorem length_step {A : Alg τ α} {st st' : List α} {op : Op τ} (h : step A st op = some st') :
    st'.length ≤ st.length + 1 := by
  cases op with
  | push t =>
    obtain rfl := Option.some.inj h
    simp
  | nop =>
    have h' : st = st' := by cases st <;> exact Option.some.inj h
    exact h' ▸ Nat.le_succ _
  | not =>
    rcases st with _ | ⟨a, st⟩
    · simp [step] at h
    · obtain rfl := Option.some.inj h
      simp
  | and | or =>
    rcases st with _ | ⟨b, _ | ⟨a, st⟩⟩
    · simp [step] at h
    · simp [step] at h
    · obtain rfl := Option.some.inj h
      simp

def run (A : Alg τ α) (ops : List (Op τ)) (st : List α) : Option (List α) :=
  ops.foldlM (step A) st

@[simp] theorem run_nil (A : Alg τ α) (st : List α) : run A [] st = some st := rfl

@[simp] theorem run_cons (A : Alg τ α) (op : Op τ) (ops : List (Op τ)) (st : List α) :
    run A (op :: ops) st = (step A st op).bind (run A ops) := rfl

/-- Parse a program; a well-formed program leaves one expression. -/
def parse (ops : List (Op τ)) : Option (List (Expr τ)) := run free ops []

theorem step_fold (A : Alg τ α) (st : List (Expr τ)) (op : Op τ) :
    step A (st.map (Expr.fold A)) op = (step free st op).map (List.map (Expr.fold A)) := by
  cases op with
  | push t => rfl
  | nop => cases st <;> rfl
  | not => cases st <;> rfl
  | and | or =>
    rcases st with _ | ⟨b, _ | ⟨a, st⟩⟩ <;> rfl

/-- Running is parsing, then folding. -/
theorem run_fold (A : Alg τ α) (ops : List (Op τ)) (st : List (Expr τ)) :
    run A ops (st.map (Expr.fold A)) = (run free ops st).map (List.map (Expr.fold A)) := by
  induction ops generalizing st with
  | nil => rfl
  | cons op ops ih =>
    simp only [run_cons, step_fold]
    cases step free st op with
    | none => rfl
    | some st' => exact ih st'

theorem run_eq_map_parse (A : Alg τ α) (ops : List (Op τ)) :
    run A ops [] = (parse ops).map (List.map (Expr.fold A)) := run_fold A ops []

theorem run_eq_singleton {A : Alg τ α} {ops : List (Op τ)} {x : α} :
    run A ops [] = some [x] ↔ ∃ e, parse ops = some [e] ∧ e.fold A = x := by
  rw [run_eq_map_parse, Option.map_eq_some_iff]
  constructor
  · rintro ⟨es, hes, h⟩
    obtain ⟨e, rfl, he⟩ := List.map_eq_singleton_iff.mp h
    exact ⟨e, hes, he⟩
  · rintro ⟨e, he, rfl⟩
    exact ⟨[e], he, rfl⟩

/-- A run depends on the values of the atoms it pushes only. -/
theorem run_congr {A : Alg τ α} {leaf : τ → α} {ops : List (Op τ)}
    (h : ∀ t, .push t ∈ ops → A.leaf t = leaf t) (st : List α) :
    run A ops st = run { A with leaf := leaf } ops st := by
  induction ops generalizing st with
  | nil => rfl
  | cons op ops ih =>
    have hstep : step A st op = step { A with leaf := leaf } st op := by
      cases op with
      | push t =>
        show some (A.leaf t :: st) = some (leaf t :: st)
        rw [h t List.mem_cons_self]
      | nop => cases st <;> rfl
      | not => cases st <;> rfl
      | and | or => rcases st with _ | ⟨b, _ | ⟨a, st⟩⟩ <;> rfl
    rw [run_cons, run_cons, hstep]
    congr 1
    funext st'
    exact ih (fun t ht => h t (List.mem_cons_of_mem op ht)) st'

/-! ## Atoms of a parsed program -/

def Expr.atoms : Expr τ → List τ
  | .leaf t => [t]
  | .and a b => a.atoms ++ b.atoms
  | .or a b => a.atoms ++ b.atoms
  | .not a => a.atoms

private theorem step_atoms {st st' : List (Expr τ)} {op : Op τ} (h : step free st op = some st')
    {e : Expr τ} (he : e ∈ st') {t : τ} (ht : t ∈ e.atoms) : (∃ e ∈ st, t ∈ e.atoms) ∨ op = .push t := by
  cases op with
  | push u =>
    obtain rfl := Option.some.inj h
    rcases List.mem_cons.mp he with rfl | he
    · obtain rfl := List.mem_singleton.mp ht
      exact .inr rfl
    · exact .inl ⟨e, he, ht⟩
  | nop =>
    have h' : st = st' := by cases st <;> exact Option.some.inj h
    exact .inl ⟨e, h' ▸ he, ht⟩
  | not =>
    rcases st with _ | ⟨a, st⟩
    · simp [step] at h
    obtain rfl := Option.some.inj h
    rcases List.mem_cons.mp he with rfl | he
    · exact .inl ⟨a, List.mem_cons_self, ht⟩
    · exact .inl ⟨e, List.mem_cons_of_mem _ he, ht⟩
  | and | or =>
    rcases st with _ | ⟨b, _ | ⟨a, st⟩⟩
    · simp [step] at h
    · simp [step] at h
    obtain rfl := Option.some.inj h
    rcases List.mem_cons.mp he with rfl | he
    · rcases List.mem_append.mp ht with ht | ht
      · exact .inl ⟨a, by simp, ht⟩
      · exact .inl ⟨b, by simp, ht⟩
    · exact .inl ⟨e, by simp [he], ht⟩

theorem push_mem_of_atoms {ops : List (Op τ)} {es : List (Expr τ)} (h : parse ops = some es)
    {e : Expr τ} (he : e ∈ es) {t : τ} (ht : t ∈ e.atoms) : .push t ∈ ops := by
  have key : ∀ (ops : List (Op τ)) (st : List (Expr τ)), run free ops st = some es →
      (∃ e ∈ st, t ∈ e.atoms) ∨ .push t ∈ ops := by
    intro ops
    induction ops with
    | nil =>
      intro st h
      obtain rfl := Option.some.inj h
      exact .inl ⟨e, he, ht⟩
    | cons op ops ih =>
      intro st h
      obtain ⟨st', hst, h⟩ := Option.bind_eq_some_iff.mp h
      rcases ih st' h with ⟨e', he', ht'⟩ | hmem
      · rcases step_atoms hst he' ht' with hold | rfl
        · exact .inl hold
        · exact .inr List.mem_cons_self
      · exact .inr (List.mem_cons_of_mem _ hmem)
  rcases key ops [] h with ⟨_, hnil, -⟩ | hmem
  · simp at hnil
  · exact hmem

/-! ## Commitment to a set of atoms -/

/-- The expression commits to an atom of `B`: a conjunction through either side, a disjunction
through both, a negation never. -/
def Expr.Commits (B : τ → Prop) : Expr τ → Prop
  | .leaf t => B t
  | .and a b => a.Commits B ∨ b.Commits B
  | .or a b => a.Commits B ∧ b.Commits B
  | .not _ => False

theorem Expr.Commits.mono {B C : τ → Prop} (h : ∀ t, B t → C t) {e : Expr τ}
    (he : e.Commits B) : e.Commits C := by
  induction e with
  | leaf t => exact h t he
  | and a b iha ihb => exact he.imp iha ihb
  | or a b iha ihb => exact he.imp iha ihb
  | not a => exact he

theorem Expr.Commits.exists_atom {B : τ → Prop} {e : Expr τ} (he : e.Commits B) : ∃ t ∈ e.atoms, B t := by
  induction e with
  | leaf t => exact ⟨t, List.mem_singleton_self t, he⟩
  | and a b iha ihb =>
    rcases he with he | he
    · obtain ⟨t, ht, hb⟩ := iha he
      exact ⟨t, List.mem_append_left _ ht, hb⟩
    · obtain ⟨t, ht, hb⟩ := ihb he
      exact ⟨t, List.mem_append_right _ ht, hb⟩
  | or a b iha ihb =>
    obtain ⟨t, ht, hb⟩ := iha he.1
    exact ⟨t, List.mem_append_left _ ht, hb⟩
  | not a => exact he.elim

/-- The program is one expression, and it commits to `B`. -/
def Commits (B : τ → Prop) (ops : List (Op τ)) : Prop :=
  ∃ e, parse ops = some [e] ∧ e.Commits B

theorem Commits.mono {B C : τ → Prop} (h : ∀ t, B t → C t) {ops : List (Op τ)}
    (hops : Commits B ops) : Commits C ops := by
  obtain ⟨e, hp, he⟩ := hops
  exact ⟨e, hp, he.mono h⟩

theorem Commits.exists_push {B : τ → Prop} {ops : List (Op τ)} (h : Commits B ops) :
    ∃ t, .push t ∈ ops ∧ B t := by
  obtain ⟨e, hp, he⟩ := h
  obtain ⟨t, ht, hb⟩ := he.exists_atom
  exact ⟨t, push_mem_of_atoms hp List.mem_cons_self ht, hb⟩

end Pocs.Postfix

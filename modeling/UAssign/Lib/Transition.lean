import Mathlib

/-!
# Transition systems and their runs

A `System` is a set of initial states and a step function that takes the action from a label; a
label that is not enabled has no successor. `Run P` are the runs every step of which meets `P` in
the state before it, so that one invariant rule (`Run.invariant`) serves both the runs of the system
itself and the runs under a condition on the schedule. `exec` computes a run from its labels.
-/

namespace UAssign

/-- A transition system with a computable step function. -/
structure System (S A : Type) where
  init : S → Prop
  step : S → A → Option S

namespace System

variable {S A : Type} (M : System S A)

/-- The runs from `s` along a list of actions to `s'`, each step of which meets `P`. -/
inductive Run (P : S → A → Prop) (s : S) : List A → S → Prop
  | nil : Run P s [] s
  | snoc {s' s'' : S} {as : List A} {a : A} : Run P s as s' → P s' a → M.step s' a = some s'' →
      Run P s (as ++ [a]) s''

/-- No condition on the steps of a run. -/
def Any : S → A → Prop := fun _ _ => True

/-- The states of runs from an initial state, under a condition on their steps. -/
def Reaches (P : S → A → Prop) (s : S) : Prop := ∃ s₀ as, M.init s₀ ∧ M.Run P s₀ as s

variable {M} {P Q : S → A → Prop} {s s' s'' : S} {as bs : List A} {a : A}

/-- **The invariant rule.** What holds at the start and is kept by every step that meets `P` holds
at the end of every such run. -/
theorem Run.invariant {I : S → Prop} (h : M.Run P s as s') (h₀ : I s)
    (hstep : ∀ t a t', I t → P t a → M.step t a = some t' → I t') : I s' := by
  induction h with
  | nil => exact h₀
  | snoc _ hp hs ih => exact hstep _ _ _ ih hp hs

/-- An invariant of the reachable states. -/
theorem Reaches.invariant {I : S → Prop} (h : M.Reaches P s) (h₀ : ∀ s, M.init s → I s)
    (hstep : ∀ t a t', I t → P t a → M.step t a = some t' → I t') : I s := by
  obtain ⟨s₀, as, hi, hr⟩ := h
  exact hr.invariant (h₀ _ hi) hstep

/-- A run under one condition is a run under a weaker one. -/
theorem Run.mono (h : M.Run P s as s') (hPQ : ∀ s a, P s a → Q s a) : M.Run Q s as s' := by
  induction h with
  | nil => exact .nil
  | snoc _ hp hs ih => exact .snoc ih (hPQ _ _ hp) hs

/-- Runs compose. -/
theorem Run.trans (h : M.Run P s as s') (h' : M.Run P s' bs s'') : M.Run P s (as ++ bs) s'' := by
  induction h' with
  | nil => rw [List.append_nil]; exact h
  | snoc _ hp hs ih => rw [← List.append_assoc]; exact .snoc ih hp hs

/-- A run ends with its last step. -/
theorem Run.snoc_inv (h : M.Run P s (as ++ [a]) s'') :
    ∃ s', M.Run P s as s' ∧ P s' a ∧ M.step s' a = some s'' := by
  generalize hbs : as ++ [a] = bs at h
  cases h with
  | nil => exact absurd hbs (by simp)
  | snoc hrun hp hs =>
    obtain ⟨rfl, rfl⟩ : as = _ ∧ a = _ := by simpa using hbs
    exact ⟨_, hrun, hp, hs⟩

/-- The labels of a run determine where it leads. -/
theorem Run.unique (h : M.Run P s as s') (h' : M.Run Q s as s'') : s' = s'' := by
  induction h generalizing s'' with
  | nil =>
    generalize has : ([] : List A) = bs at h'
    cases h' with
    | nil => rfl
    | snoc => simp at has
  | snoc _ _ hs ih =>
    obtain ⟨t, hrun, -, ht⟩ := h'.snoc_inv
    rw [ih hrun, ht] at hs
    exact (Option.some.inj hs).symm

/-- A run meets a condition if it does up to its last step, and in that step. -/
theorem Run.snoc_iff (h : M.Run Q s as s') (hs : M.step s' a = some s'') :
    M.Run P s (as ++ [a]) s'' ↔ M.Run P s as s' ∧ P s' a := by
  constructor
  · intro hrun
    obtain ⟨t, hrun, hp, -⟩ := hrun.snoc_inv
    rw [h.unique hrun]
    exact ⟨hrun, hp⟩
  · rintro ⟨hrun, hp⟩
    exact .snoc hrun hp hs

/-- A run of one step. -/
theorem Run.single (hp : P s a) (hs : M.step s a = some s') : M.Run P s [a] s' :=
  .snoc .nil hp hs

variable (M)

/-- From `s`, some run whose steps meet `P` leads to `Q`. -/
def Can (P : S → A → Prop) (Q : S → Prop) (s : S) : Prop := ∃ as s', M.Run P s as s' ∧ Q s'

variable {M} {R R' : S → Prop}

theorem Can.here (h : R s) : M.Can P R s := ⟨[], s, .nil, h⟩

/-- One step, and then on. -/
theorem Can.step (hp : P s a) (hs : M.step s a = some s') (h : M.Can P R s') : M.Can P R s := by
  obtain ⟨as, t, hrun, ht⟩ := h
  exact ⟨[a] ++ as, t, (Run.single hp hs).trans hrun, ht⟩

/-- Where one run can end, another can start. -/
theorem Can.trans (h : M.Can P R s) (h' : ∀ t, R t → M.Can P R' t) : M.Can P R' s := by
  obtain ⟨as, t, hrun, ht⟩ := h
  obtain ⟨bs, u, hrun', hu⟩ := h' t ht
  exact ⟨as ++ bs, u, hrun.trans hrun', hu⟩

/-- What the steps keep holds where such a run leads. -/
theorem Can.invariant {I : S → Prop} (h : M.Can P R s) (h₀ : I s)
    (hstep : ∀ t a t', I t → P t a → M.step t a = some t' → I t') : ∃ t, I t ∧ R t := by
  obtain ⟨as, t, hrun, ht⟩ := h
  exact ⟨t, hrun.invariant h₀ hstep, ht⟩

variable (M)

/-- The state a list of actions leads to, if each of them is enabled in turn. -/
def exec (s : S) : List A → Option S
  | [] => some s
  | a :: as => (M.step s a).bind fun s' => exec s' as

variable {M}

/-- Executing one list behind another. -/
theorem exec_append : M.exec s (as ++ bs) = (M.exec s as).bind fun t => M.exec t bs := by
  induction as generalizing s with
  | nil => rfl
  | cons a as ih =>
    show (M.step s a).bind _ = ((M.step s a).bind _).bind _
    rw [Option.bind_assoc]
    exact Option.bind_congr fun t _ => ih

/-- Executing a list of actions is a run. -/
theorem run_of_exec (h : M.exec s as = some s') : M.Run Any s as s' := by
  induction as generalizing s with
  | nil => cases h; exact .nil
  | cons a as ih =>
    obtain ⟨t, ht, h⟩ := Option.bind_eq_some_iff.1 h
    exact (Run.single trivial ht).trans (ih h)

variable (M)

/-- The same, if each of them also meets a condition in the state before it. -/
def execWhere (C : S → A → Bool) (s : S) : List A → Option S
  | [] => some s
  | a :: as => if C s a then (M.step s a).bind fun s' => execWhere C s' as else none

variable {M}

/-- Executing a list of actions that meet a condition is a run under this condition. -/
theorem run_of_execWhere {C : S → A → Bool} (h : M.execWhere C s as = some s') :
    M.Run (fun s a => C s a = true) s as s' := by
  induction as generalizing s with
  | nil => cases h; exact .nil
  | cons a as ih =>
    obtain ⟨hC, h⟩ := Option.ite_none_right_eq_some.1 h
    obtain ⟨t, ht, h⟩ := Option.bind_eq_some_iff.1 h
    have hstep : M.Run (fun s a => C s a = true) s [a] t := .single hC ht
    exact hstep.trans (ih h)

end System
end UAssign

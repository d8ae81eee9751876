import UAssign.Lib.Transition

/-!
# Fair schedules

A `Trace` is a run that goes on forever, with idle moments. It is `Fair` if no party that is ready
from some moment on is left out. `Fair.leadsTo` is the rule for what must happen in such a trace: in
every state short of the goal, some party is ready whose steps bring the goal closer, and which the
others' steps do not hold up.
-/

namespace UAssign.System

variable {S A P : Type} {M : System S A}

/-- A run that goes on forever; nothing happens in its idle moments. -/
structure Trace (M : System S A) where
  state : Nat → S
  act : Nat → Option A
  init : M.init (state 0)
  next : ∀ n, act n = none ∧ state (n + 1) = state n ∨
    ∃ a, act n = some a ∧ M.step (state n) a = some (state (n + 1))

/-- Every party that is ready from some moment on takes a step. -/
def Trace.Fair (σ : Trace M) (ready : P → S → Prop) (owner : A → Option P) : Prop :=
  ∀ p n, (∀ m, n ≤ m → ready p (σ.state m)) →
    ∃ m a, n ≤ m ∧ σ.act m = some a ∧ owner a = some p

namespace Trace

variable {σ : Trace M} {ready : P → S → Prop} {owner : A → Option P} {I : S → Prop} {n : Nat}

/-- The states of a trace are reachable. -/
theorem reaches (σ : Trace M) (n : Nat) : M.Reaches Any (σ.state n) := by
  induction n with
  | zero => exact ⟨_, [], σ.init, .nil⟩
  | succ n ih =>
    rcases σ.next n with ⟨-, hsame⟩ | ⟨a, -, hs⟩
    · rw [hsame]
      exact ih
    · obtain ⟨s₀, as, hinit, hrun⟩ := ih
      exact ⟨s₀, as ++ [a], hinit, .snoc hrun trivial hs⟩

/-- What every step keeps holds from then on. -/
theorem stable (hI : ∀ s a s', I s → M.step s a = some s' → I s') (h : I (σ.state n)) {m : Nat}
    (hm : n ≤ m) : I (σ.state m) := by
  induction hm with
  | refl => exact h
  | step _ ih =>
    rcases σ.next _ with ⟨-, hsame⟩ | ⟨a, -, hs⟩
    · rw [hsame]
      exact ih
    · exact hI _ _ _ ih hs

/-- **What must happen in a fair trace.** -/
theorem Fair.leadsTo (hfair : σ.Fair ready owner) (I G : S → Prop) (rank : S → Nat)
    (helper : S → P) (hI : ∀ s a s', I s → M.step s a = some s' → I s')
    (hready : ∀ s, I s → ¬ G s → ready (helper s) s)
    (hstep : ∀ s a s', I s → ¬ G s → M.step s a = some s' → G s' ∨ rank s' < rank s ∨
      rank s' = rank s ∧ helper s' = helper s ∧ owner a ≠ some (helper s))
    (h : I (σ.state n)) : ∃ m, n ≤ m ∧ G (σ.state m) := by
  induction hk : rank (σ.state n) using Nat.strong_induction_on generalizing n with
  | _ k ih =>
    -- if the goal is not reached, the rank stays, and so does the helper, who takes no step
    by_contra hnever
    have hG : ∀ m, n ≤ m → ¬ G (σ.state m) := fun m hm hg => hnever ⟨m, hm, hg⟩
    have hstays : ∀ m, n ≤ m →
        rank (σ.state m) = k ∧ helper (σ.state m) = helper (σ.state n) := by
      intro m hm
      induction hm with
      | refl => exact ⟨hk, rfl⟩
      | @step m hm ihm =>
        rcases σ.next m with ⟨-, hsame⟩ | ⟨a, -, hs⟩
        · rw [hsame]
          exact ihm
        · have hm1 : n ≤ m + 1 := Nat.le_succ_of_le hm
          rcases hstep _ _ _ (stable hI h hm) (hG m hm) hs with hg | hlt | ⟨hrank, hhelper, -⟩
          · exact absurd hg (hG (m + 1) hm1)
          · rw [ihm.1] at hlt
            obtain ⟨m', hm', hg⟩ := ih _ hlt (stable hI h hm1) rfl
            exact absurd hg (hG m' (hm1.trans hm'))
          · exact ⟨hrank.trans ihm.1, hhelper.trans ihm.2⟩
    obtain ⟨m, a, hm, hact, howner⟩ := hfair (helper (σ.state n)) n fun m hm => by
      rw [← (hstays m hm).2]
      exact hready _ (stable hI h hm) (hG m hm)
    rcases σ.next m with ⟨hnone, -⟩ | ⟨b, hb, hs⟩
    · rw [hact] at hnone
      cases hnone
    · rw [hact] at hb
      cases hb
      have hm1 : n ≤ m + 1 := Nat.le_succ_of_le hm
      rcases hstep _ _ _ (stable hI h hm) (hG m hm) hs with hg | hlt | ⟨-, -, hother⟩
      · exact hG (m + 1) hm1 hg
      · rw [(hstays m hm).1, (hstays (m + 1) hm1).1] at hlt
        exact Nat.lt_irrefl k hlt
      · rw [(hstays m hm).2] at hother
        exact hother howner

/-! ## Runs that end -/

variable {s₀ s : S} {as : List A}

/-- The state of a run behind its first steps. -/
def stateOf (M : System S A) (s₀ : S) (as : List A) (n : Nat) : S :=
  (M.exec s₀ (as.take n)).getD s₀

/-- Another step, if there is one. -/
theorem stateOf_next (h : M.exec s₀ as = some s) (n : Nat) :
    as[n]? = none ∧ stateOf M s₀ as (n + 1) = stateOf M s₀ as n ∨
      ∃ a, as[n]? = some a ∧ M.step (stateOf M s₀ as n) a = some (stateOf M s₀ as (n + 1)) := by
  cases ha : as[n]? with
  | none =>
    have hn : as.length ≤ n := List.getElem?_eq_none_iff.1 ha
    refine .inl ⟨rfl, ?_⟩
    rw [stateOf, stateOf, List.take_of_length_le hn, List.take_of_length_le (by omega)]
  | some a =>
    have hsplit : as = as.take n ++ a :: as.drop (n + 1) := by
      obtain ⟨hn, rfl⟩ := List.getElem?_eq_some_iff.1 ha
      rw [← List.drop_eq_getElem_cons, List.take_append_drop]
    rw [hsplit, exec_append] at h
    obtain ⟨t, ht, h⟩ := Option.bind_eq_some_iff.1 h
    obtain ⟨t', ht', -⟩ := Option.bind_eq_some_iff.1 h
    have hnext : M.exec s₀ (as.take (n + 1)) = some t' := by
      rw [List.take_add_one, ha, exec_append, ht]
      show (M.step t a).bind (fun u => M.exec u []) = some t'
      rw [ht']
      rfl
    exact .inr ⟨a, rfl, by rw [stateOf, stateOf, ht, hnext]; exact ht'⟩

/-- A run behind which nothing happens. -/
def ofExec (hinit : M.init s₀) (h : M.exec s₀ as = some s) : Trace M where
  state := stateOf M s₀ as
  act n := as[n]?
  init := hinit
  next := stateOf_next h

/-- **It is fair** if nobody is ready at its end. -/
theorem fair_ofExec (hinit : M.init s₀) (h : M.exec s₀ as = some s) (hs : ∀ p, ¬ ready p s) :
    (ofExec hinit h).Fair ready owner := by
  intro p n hready
  have hend : stateOf M s₀ as (n + as.length) = s := by
    rw [stateOf, List.take_of_length_le (Nat.le_add_left _ n), h]
    rfl
  exact absurd (hend ▸ hready _ (Nat.le_add_right n as.length)) (hs p)

end Trace
end UAssign.System

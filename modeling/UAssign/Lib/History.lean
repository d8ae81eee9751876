import Mathlib

/-!
# Histories

A history lists the events of a run, the newest first. `since p q` says that there has been a `p`
and no `q` after it; it changes with each event in a way that an invariant can follow. `Always I`
says that every event had the past that `I` asks for, and is proved event by event.
-/

namespace UAssign.History

variable {E : Type}

/-- There has been a `p`, which may look at its own past, and no `q` since. -/
def since (p : E → List E → Bool) (q : E → Bool) : List E → Bool
  | [] => false
  | e :: h => p e h || (!q e && since p q h)

/-- Every event had the past that it should have. -/
def Always (I : E → List E → Prop) : List E → Prop
  | [] => True
  | e :: h => I e h ∧ Always I h

section

variable {p : E → List E → Bool} {q : E → Bool} {I : E → List E → Prop}
  {h later earlier : List E} {e : E}

@[simp] theorem since_nil : since p q [] = false := rfl

theorem since_cons : since p q (e :: h) = (p e h || (!q e && since p q h)) := rfl

/-- Where the `p` is. -/
theorem since_iff : since p q h = true ↔
    ∃ later e earlier, h = later ++ e :: earlier ∧ p e earlier = true ∧
      ∀ x ∈ later, q x = false := by
  induction h with
  | nil => simp
  | cons x h ih =>
    rw [since_cons, Bool.or_eq_true, Bool.and_eq_true, ih]
    refine ⟨?_, ?_⟩
    · rintro (hp | ⟨hq, later, e, earlier, rfl, hp, hall⟩)
      · exact ⟨[], x, h, rfl, hp, fun _ hx => by cases hx⟩
      · refine ⟨x :: later, e, earlier, rfl, hp, fun y hy => ?_⟩
        rcases List.mem_cons.1 hy with rfl | hy
        · simpa using hq
        · exact hall y hy
    · rintro ⟨later, e, earlier, heq, hp, hall⟩
      cases later with
      | nil =>
        obtain ⟨rfl, rfl⟩ := List.cons.inj heq
        exact .inl hp
      | cons y later =>
        obtain ⟨rfl, rfl⟩ := List.cons.inj heq
        refine .inr ⟨?_, later, e, earlier, rfl, hp, fun z hz => hall z (List.mem_cons_of_mem _ hz)⟩
        rw [hall x List.mem_cons_self]
        rfl

/-- If it is not so, each `p` has been followed by a `q`. -/
theorem exists_of_since_eq_false (h : since p q (later ++ e :: earlier) = false)
    (hp : p e earlier = true) : ∃ x ∈ later, q x = true := by
  by_contra hno
  have hall : ∀ x ∈ later, q x = false := fun x hx =>
    Bool.eq_false_iff.2 fun hq => hno ⟨x, hx, hq⟩
  exact Bool.false_ne_true (h.symm.trans (since_iff.2 ⟨later, e, earlier, rfl, hp, hall⟩))

/-- An event and its past. -/
theorem Always.past (h : Always I (later ++ e :: earlier)) : I e earlier := by
  induction later with
  | nil => exact h.1
  | cons x later ih => exact ih h.2

end

end UAssign.History

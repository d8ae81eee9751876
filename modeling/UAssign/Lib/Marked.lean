import Mathlib

/-!
# Searches that mark

A depth-first search that marks a node on its way in, goes on to the nodes that are not marked, and
takes the mark away on its way out. `Reach` is what it comes to. The marks get more on the way down
(`card_mark`), so that the depth is bounded; what is reached from a node is the node, or reached
from a next one behind the mark (`reach_iff`), so that nothing is left out because of it.
-/

namespace UAssign.Marked

variable {V : Type} [DecidableEq V] {marked : V → Bool} {next : V → List V} {n m r : V}

/-- What is reached from a node through nodes that are not marked. -/
def Reach (marked : V → Bool) (next : V → List V) : V → V → Prop :=
  Relation.ReflTransGen fun x y => y ∈ next x ∧ marked y = false

/-- What is not marked behind a mark has not been marked before, and is another node. -/
theorem update_eq_false : Function.update marked n true m = false ↔ m ≠ n ∧ marked m = false := by
  by_cases hmn : m = n
  · subst hmn
    simp
  · simp [hmn]

/-- What is reached behind a mark is reached without it. -/
theorem Reach.unmark (h : Reach (Function.update marked n true) next r m) :
    Reach marked next r m := by
  induction h with
  | refl => exact .refl
  | tail _ hstep ih => exact ih.tail ⟨hstep.1, (update_eq_false.1 hstep.2).2⟩

/-- **A mark leaves nothing out**: -/
theorem Reach.mark (h : Reach marked next n m) :
    m = n ∨ ∃ r ∈ next n, Function.update marked n true r = false ∧
      Reach (Function.update marked n true) next r m := by
  induction h with
  | refl => exact .inl rfl
  | @tail x y _ hstep ih =>
    obtain ⟨hnext, hy⟩ := hstep
    by_cases hyn : y = n
    · exact .inl hyn
    have hfree : Function.update marked n true y = false := update_eq_false.2 ⟨hyn, hy⟩
    right
    rcases ih with rfl | ⟨r, hr, hrfree, hreach⟩
    · exact ⟨y, hnext, hfree, .refl⟩
    · exact ⟨r, hr, hrfree, hreach.tail ⟨hnext, hfree⟩⟩

/-- what is reached from a node is the node, or reached from a next one behind the mark. -/
theorem reach_iff : Reach marked next n m ↔ m = n ∨ ∃ r ∈ next n,
    Function.update marked n true r = false ∧
      Reach (Function.update marked n true) next r m := by
  refine ⟨Reach.mark, ?_⟩
  rintro (rfl | ⟨r, hr, hfree, hreach⟩)
  · exact .refl
  · exact Relation.ReflTransGen.head ⟨hr, (update_eq_false.1 hfree).2⟩ hreach.unmark

/-- **Every mark leaves fewer nodes.** -/
theorem card_mark {G : Finset V} (hn : n ∈ G) (hfree : marked n = false) :
    (G.filter fun x => Function.update marked n true x = false).card <
      (G.filter fun x => marked x = false).card := by
  refine Finset.card_lt_card ((Finset.ssubset_iff_of_subset fun x hx => ?_).2 ⟨n, ?_, ?_⟩)
  · obtain ⟨hxG, hx⟩ := Finset.mem_filter.1 hx
    exact Finset.mem_filter.2 ⟨hxG, (update_eq_false.1 hx).2⟩
  · exact Finset.mem_filter.2 ⟨hn, hfree⟩
  · intro hmem
    exact (update_eq_false.1 (Finset.mem_filter.1 hmem).2).1 rfl

end UAssign.Marked

import Mathlib

/-!
# Timelines

A timeline lists the events of some keys with their times, the newest first, under a clock that does
not go back. A key is `Regular` if no window of a certain length has passed without an event of it;
its last event is then at most this length ago (`Regular.recent`), and the key was as regular at
every moment before (`Regular.earlier`).
-/

namespace UAssign

/-- The events of keys, with their times. -/
abbrev Timeline (K T : Type) : Type := List (K × T)

namespace Timeline

section

variable {K T : Type} [LinearOrder T] {now now' u : T} {k : K} {l new : Timeline K T}

/-- No event is behind one that is listed before it, or behind the clock. -/
structure Ordered (l : Timeline K T) (now : T) : Prop where
  newest : l.Pairwise fun x y => y.2 ≤ x.2
  past : ∀ x ∈ l, x.2 ≤ now

theorem ordered_nil : Ordered ([] : Timeline K T) now := ⟨.nil, nofun⟩

/-- The clock goes on. -/
theorem Ordered.mono (h : l.Ordered now) (hnow : now ≤ now') : l.Ordered now' :=
  ⟨h.newest, fun x hx => (h.past x hx).trans hnow⟩

/-- An event happens. -/
theorem Ordered.cons (h : l.Ordered now) : Ordered ((k, now) :: l) now := by
  refine ⟨List.pairwise_cons.2 ⟨h.past, h.newest⟩, fun x hx => ?_⟩
  rcases List.mem_cons.1 hx with rfl | hx
  · exact le_rfl
  · exact h.past x hx

variable [DecidableEq K]

/-- When the last event of a key was. -/
def last (l : Timeline K T) (k : K) : Option T := l.lookup k

omit [LinearOrder T] in
theorem last_cons (k' : K) (t : T) :
    last ((k', t) :: l) k = if k = k' then some t else last l k := by
  unfold last
  rw [List.lookup_cons]
  by_cases hk : k = k'
  · simp [hk]
  · rw [if_neg hk, beq_false_of_ne hk]

/-- The last event is one, and the latest. -/
theorem Ordered.last_max (h : l.Ordered now) (hlast : l.last k = some u) :
    (k, u) ∈ l ∧ ∀ t, (k, t) ∈ l → t ≤ u := by
  obtain ⟨l₁, l₂, rfl, hnot⟩ := List.lookup_eq_some_iff.1 hlast
  refine ⟨by simp, fun t ht => ?_⟩
  have hpair := (List.pairwise_append.1 h.newest).2.1
  rcases List.mem_append.1 ht with ht | ht
  · have hne := hnot _ ht
    simp at hne
  · rcases List.mem_cons.1 ht with heq | ht
    · cases heq
      exact le_rfl
    · exact (List.pairwise_cons.1 hpair).1 _ ht

end

section

variable {K T : Type} [LinearOrder T] [Add T] {now now' u w : T} {k : K} {l new : Timeline K T}

/-- From its first event on, the key has an event in every window of length `w` that has passed: the
window `(x, x + w]` has its end, but not its beginning. -/
def Regular (w : T) (k : K) (l : Timeline K T) (now : T) : Prop :=
  ∀ a x, (k, a) ∈ l → a ≤ x → x + w < now → ∃ u, (k, u) ∈ l ∧ x < u ∧ u ≤ x + w

/-- **The last event of a regular key is recent.** -/
theorem Regular.recent [DecidableEq K] (h : Regular w k l now) (hl : l.Ordered now)
    (hlast : l.last k = some u) : now ≤ u + w := by
  obtain ⟨hmem, hmax⟩ := hl.last_max hlast
  by_contra hlate
  obtain ⟨t, ht, hafter, -⟩ := h u u hmem le_rfl (not_le.1 hlate)
  exact absurd (hmax t ht) (not_le.2 hafter)

/-- **What is regular was so before**: later events are in no window that had passed. -/
theorem Regular.earlier (h : Regular w k (new ++ l) now') (hnew : ∀ x ∈ new, now ≤ x.2)
    (hnow : now ≤ now') : Regular w k l now := by
  intro a x ha hax hpassed
  obtain ⟨u, hu, hxu, hux⟩ := h a x (List.mem_append_right _ ha) hax (hpassed.trans_le hnow)
  rcases List.mem_append.1 hu with hu | hu
  · exact absurd (hnew _ hu) (not_le.2 (hux.trans_lt hpassed))
  · exact ⟨u, hu, hxu, hux⟩

end

end Timeline

end UAssign

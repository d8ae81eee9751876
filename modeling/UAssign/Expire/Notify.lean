import UAssign.Expire.HandOff

/-!
# Telling who loses a name

A token leaves the entries when it is displaced, taken out or released. In the first two cases its
`onExpire` has been launched, a release launches nothing, and nothing that comes behind a release
launches the closure of the token that has been released (`notify`).
-/

namespace UAssign.Expire

namespace HandOff

section

variable {s s' : State} {a : Act} {as bs : List Act} {limit t n : Nat}

/-- **What a step launches** are closures of tokens that hold a name before it. -/
theorem Inv.launches (h : Inv s) (hs : HandOff.step s a = some s') :
    ∃ l, s'.launched = s.launched ++ l ∧ ∀ t ∈ l, ∃ n, s.manager.holder n = some t := by
  cases a with
  | acquire name token chan =>
    obtain ⟨-, hs⟩ := Option.ite_none_right_eq_some.1 hs
    cases hs
    refine ⟨_, rfl, fun t ht => ⟨name, ?_⟩⟩
    obtain ⟨-, -, -, -, -, hstarted⟩ := @acquire_spec s.manager s.now name token chan token
    rw [hstarted, h.started] at ht
    exact Option.mem_toList.1 ht
  | resume token chan =>
    obtain ⟨-, hs⟩ := Option.ite_none_right_eq_some.1 hs
    cases hs
    exact ⟨[], (List.append_nil _).symm, List.forall_mem_nil _⟩
  | expireAndRemove name =>
    cases hs
    refine ⟨_, rfl, fun t ht => ⟨name, ?_⟩⟩
    obtain ⟨-, -, -, -, hstarted⟩ := @expireAndRemove_spec s.manager name
    rw [hstarted, h.started] at ht
    exact Option.mem_toList.1 ht
  | expireAndRemoveAll =>
    cases hs
    exact ⟨_, rfl, fun t ht => h.launched_each ht⟩
  | tick =>
    cases hs
    exact ⟨_, rfl, fun t ht => h.expired ht⟩
  | release | update | advance =>
    cases hs
    exact ⟨[], (List.append_nil _).symm, List.forall_mem_nil _⟩

/-- What has been released stays so. -/
theorem released_subset (hs : HandOff.step s a = some s') : s.released ⊆ s'.released := by
  cases a with
  | acquire | resume =>
    obtain ⟨-, hs⟩ := Option.ite_none_right_eq_some.1 hs
    exact Option.some.inj hs ▸ List.Subset.refl _
  | release => exact Option.some.inj hs ▸ List.subset_cons_self _ _
  | update | expireAndRemove | expireAndRemoveAll | tick | advance =>
    exact Option.some.inj hs ▸ List.Subset.refl _

/-- **A run behind a release** does not launch the closure of the token. -/
theorem Inv.quiet (h : Inv s) (ht : t ∈ s.released)
    (hrun : (handOff limit).Run System.Any s bs s') :
    (Inv s' ∧ t ∈ s'.released) ∧ ∃ l, s'.launched = s.launched ++ l ∧ t ∉ l := by
  induction hrun with
  | nil => exact ⟨⟨h, ht⟩, [], (List.append_nil _).symm, List.not_mem_nil⟩
  | snoc _ _ hs ih =>
    obtain ⟨⟨hinv, hreleased⟩, l, hl, htl⟩ := ih
    obtain ⟨l', hl', hheld⟩ := hinv.launches hs
    refine ⟨⟨hinv.step hs, released_subset hs hreleased⟩, l ++ l', ?_, fun hmem => ?_⟩
    · rw [hl', hl, List.append_assoc]
    · rcases List.mem_append.1 hmem with hmem | hmem
      · exact htl hmem
      · obtain ⟨n, hn⟩ := hheld t hmem
        exact (hinv.current t n hn).2.1 hreleased

/-! ## The name of a token -/

/-- The entries against the calls of `Acquire` that a run has made. -/
structure Named (as : List Act) (s : State) : Prop where
  held : ∀ n t, s.manager.holder n = some t → ∃ chan, .acquire n t chan ∈ as
  registered : ∀ n t chan, .acquire n t chan ∈ as → t ∈ s.registered
  unique : ∀ n n' t chan chan', .acquire n t chan ∈ as → .acquire n' t chan' ∈ as → n = n'

/-- Only `Acquire` makes a holder. -/
theorem holder_step (hs : HandOff.step s a = some s') (hn : s'.manager.holder n = some t) :
    s.manager.holder n = some t ∨ ∃ chan, a = .acquire n t chan := by
  cases a with
  | acquire name token chan =>
    obtain ⟨-, hs⟩ := Option.ite_none_right_eq_some.1 hs
    cases hs
    rw [holder_acquire] at hn
    split at hn
    · next heq =>
      cases hn
      exact .inr ⟨chan, by rw [heq]⟩
    · exact .inl hn
  | resume token chan =>
    obtain ⟨-, hs⟩ := Option.ite_none_right_eq_some.1 hs
    cases hs
    exact .inl hn
  | update token => cases hs; exact .inl hn
  | release token =>
    cases hs
    rw [holder_release] at hn
    split at hn
    · cases hn
    · exact .inl hn
  | expireAndRemove name =>
    cases hs
    rw [holder_expireAndRemove] at hn
    split at hn
    · cases hn
    · exact .inl hn
  | expireAndRemoveAll =>
    cases hs
    rw [Manager.holder, lookup_expireAndRemoveAll] at hn
    cases hn
  | tick => cases hs; exact .inl hn
  | advance m => cases hs; exact .inl hn

/-- A token that has been registered stays so; it has to be new in a call of `Acquire`. -/
theorem registered_step (hs : HandOff.step s a = some s') :
    s.registered ⊆ s'.registered ∧
      ∀ n t chan, a = .acquire n t chan → t ∉ s.registered ∧ t ∈ s'.registered := by
  cases a with
  | acquire name token chan =>
    obtain ⟨hnew, hs⟩ := Option.ite_none_right_eq_some.1 hs
    cases hs
    refine ⟨List.subset_cons_self _ _, ?_⟩
    rintro n t chan ⟨⟩
    exact ⟨hnew.1, List.mem_cons_self⟩
  | resume token chan =>
    obtain ⟨-, hs⟩ := Option.ite_none_right_eq_some.1 hs
    cases hs
    exact ⟨List.Subset.refl _, nofun⟩
  | update | release | expireAndRemove | expireAndRemoveAll | tick | advance =>
    cases hs
    exact ⟨List.Subset.refl _, nofun⟩

/-- **A run keeps it.** -/
theorem named (h : (handOff limit).Run System.Any (State.initial limit) as s) : Named as s := by
  induction h with
  | nil =>
    refine ⟨fun n t hn => ?_, fun n t chan hmem => ?_, fun n n' t chan chan' hmem => ?_⟩
    · cases hn
    · cases hmem
    · cases hmem
  | @snoc s s' as a _ _ hs ih =>
    obtain ⟨hsubset, hnew⟩ := registered_step hs
    have hmem : ∀ x, x ∈ as ++ [a] ↔ x ∈ as ∨ x = a := by simp
    refine ⟨fun n t hn => ?_, fun n t chan hx => ?_, fun n n' t chan chan' hx hx' => ?_⟩
    · rcases holder_step hs hn with hn | ⟨chan, rfl⟩
      · obtain ⟨chan, hx⟩ := ih.held n t hn
        exact ⟨chan, List.mem_append_left _ hx⟩
      · exact ⟨chan, List.mem_append_right _ (List.mem_singleton_self _)⟩
    · rcases (hmem _).1 hx with hx | hx
      · exact hsubset (ih.registered n t chan hx)
      · exact (hnew n t chan hx.symm).2
    · rcases (hmem _).1 hx with hx | hx <;> rcases (hmem _).1 hx' with hx' | hx'
      · exact ih.unique n n' t chan chan' hx hx'
      · exact absurd (ih.registered _ _ _ hx) (hnew n' t chan' hx'.symm).1
      · exact absurd (ih.registered _ _ _ hx') (hnew n t chan hx.symm).1
      · cases hx.trans hx'.symm
        rfl

/-- **No holder is displaced silently, and none is notified after its release.** -/
theorem notify (h : (handOff limit).Run System.Any (State.initial limit) as s) :
    (∀ name token chan, .acquire name token chan ∈ as → token ∉ s.released →
      s.manager.holder name ≠ some token → token ∈ s.launched) ∧
    (∀ token s', HandOff.step s (.release token) = some s' → s'.launched = s.launched) ∧
    ∀ token ∈ s.released, ∀ bs s', (handOff limit).Run System.Any s bs s' →
      ∃ l, s'.launched = s.launched ++ l ∧ token ∉ l := by
  have hinv : Inv s := inv_of_reaches ⟨_, as, rfl, h⟩
  have hnamed := named h
  refine ⟨fun name token chan hmem hreleased hholder => ?_, fun token s' hs => ?_,
    fun token ht bs s' hrun => (hinv.quiet ht hrun).2⟩
  · rcases hinv.notified token (hnamed.registered _ _ _ hmem) hreleased with ⟨n, hn⟩ | hlaunched
    · obtain ⟨chan', hmem'⟩ := hnamed.held n token hn
      rw [hnamed.unique _ _ _ _ _ hmem' hmem] at hn
      exact absurd hn hholder
    · exact hlaunched
  · cases hs
    rfl

/-- A token is displaced, and the one that displaced it is taken out. -/
def displacedAndRemoved : List Act :=
  [.acquire 0 1 2, .acquire 0 3 4, .expireAndRemove 0, .release 1]

/-- The second token has been told. -/
theorem notify_removed : ∃ s, (handOff 0).exec (State.initial 0) displacedAndRemoved = some s ∧
    (Act.acquire 0 3 4 ∈ displacedAndRemoved ∧ 3 ∉ s.released ∧ s.manager.holder 0 ≠ some 3) ∧
    3 ∈ s.launched := by
  refine ⟨_, rfl, ⟨by decide, by decide, by decide⟩, ?_⟩
  have hrun : (handOff 0).Run System.Any (State.initial 0) displacedAndRemoved _ :=
    System.run_of_exec rfl
  exact (notify hrun).1 0 3 4 (by decide) (by decide) (by decide)

end

end HandOff

end UAssign.Expire

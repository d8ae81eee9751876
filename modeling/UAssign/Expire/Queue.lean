import UAssign.Expire.HandOff

/-!
# First come, first served

A handler releases its token once, and not before its call of `Acquire` has returned; before the
shutdown nobody takes a name away. Used like this (`Handled`), the manager serves the calls for a
name in the order in which they have been made (`first_come`): the tokens that have been released
are the first ones that came, the next one is in service or may go on, and all others wait.

The queues are those of `Represents`, which are never empty of a token that has not been released.
-/

namespace UAssign.Expire.HandOff

/-! ## Arrivals and departures -/

/-- The steps of handlers, and of the manager before the shutdown. The channel of a call is known by
the number of its token. -/
def Handled (s : State) : Act → Prop
  | .acquire _ token chan => chan = token
  | .release token =>
    token ∈ s.registered ∧ token ∉ s.released ∧ (token, token) ∉ s.waiting
  | .expireAndRemove _ | .expireAndRemoveAll => False
  | .resume _ _ | .update _ | .tick | .advance _ => True

instance (s : State) (a : Act) : Decidable (Handled s a) := by
  cases a with
  | acquire _ token chan => exact inferInstanceAs (Decidable (chan = token))
  | release token => exact inferInstanceAs (Decidable (_ ∧ _ ∧ _))
  | expireAndRemove | expireAndRemoveAll => exact instDecidableFalse
  | resume | update | tick | advance => exact instDecidableTrue

/-- The tokens of the calls for a name, in the order of the calls. -/
def arrivals (name : Nat) (acts : List Act) : List Nat :=
  acts.filterMap fun
    | .acquire n token _ => if n = name then some token else none
    | _ => none

/-- The tokens that are released, in the order of the releases. -/
def releases (acts : List Act) : List Nat :=
  acts.filterMap fun
    | .release token => some token
    | _ => none

/-- Those of them that belong to a name. -/
def departures (name : Nat) (acts : List Act) : List Nat :=
  (releases acts).filter (· ∈ arrivals name acts)

section

variable {acts : List Act} {name n token chan t : Nat}

theorem arrivals_acquire : arrivals n (acts ++ [.acquire name token chan]) =
    arrivals n acts ++ if name = n then [token] else [] := by
  unfold arrivals
  rw [List.filterMap_append]
  by_cases h : name = n <;> simp [h]

theorem arrivals_release : arrivals n (acts ++ [.release token]) = arrivals n acts := by
  simp [arrivals]

theorem releases_release : releases (acts ++ [.release token]) = releases acts ++ [token] := by
  simp [releases]

/-- A token that has not been released departs from no name. -/
theorem departures_acquire (h : token ∉ releases acts) :
    departures n (acts ++ [.acquire name token chan]) = departures n acts := by
  have hreleases : releases (acts ++ [.acquire name token chan]) = releases acts := by
    simp [releases]
  unfold departures
  rw [hreleases, arrivals_acquire]
  refine List.filter_congr fun t ht => ?_
  have hne : t ≠ token := fun heq => h (heq ▸ ht)
  by_cases hn : name = n <;> simp [hn, hne]

theorem departures_release : departures n (acts ++ [.release token]) =
    departures n acts ++ if token ∈ arrivals n acts then [token] else [] := by
  unfold departures
  rw [arrivals_release, releases_release, List.filter_append]
  by_cases h : token ∈ arrivals n acts <;> simp [h]

/-! ## The lines -/

/-- What a run behind `acts` has made of the queues: each holds the tokens of a name that have come
and not gone, and all but the first one wait. -/
structure Lines (acts : List Act) (s : State) (q : Nat → List Nat) : Prop where
  represents : Represents s.manager q
  order : ∀ n, arrivals n acts = departures n acts ++ q n
  released : ∀ t, t ∈ s.released ↔ t ∈ releases acts
  present : ∀ n, ∀ t ∈ q n, t ∈ s.registered ∧ t ∉ s.released
  queued : ∀ t ∈ s.registered, t ∉ s.released → ∃ n, t ∈ q n
  own : ∀ x ∈ s.waiting, x.2 = x.1 ∧ ∃ n, x.1 ∈ q n
  once : s.waiting.Nodup
  waits : ∀ n, ∀ t ∈ (q n).tail, (t, t) ∈ s.waiting
  head : ∀ n, ∀ t ∈ (q n).head?, (t, t) ∈ s.waiting → t ∈ s.manager.closed
  chans : ∀ t, t ∈ s.chans ↔ t ∈ s.registered

theorem lines_initial (limit : Nat) : Lines [] (State.initial limit) fun _ => [] where
  represents := represents_newManager limit
  order _ := rfl
  released _ := by simp [State.initial, releases]
  present _ := by simp
  queued := by simp [State.initial]
  own := by simp [State.initial]
  once := List.nodup_nil
  waits _ := by simp
  head _ := by simp
  chans _ := by simp [State.initial]

variable {s s' : State} {q : Nat → List Nat}

/-- A token that has come and is not in the queue has been released. -/
theorem Lines.arrived (h : Lines acts s q) (ht : t ∈ arrivals n acts) (hnot : t ∉ s.released) :
    t ∈ q n := by
  rw [h.order n] at ht
  refine (List.mem_append.1 ht).resolve_left fun hmem => ?_
  exact hnot ((h.released t).2 (List.mem_filter.1 hmem).1)

/-- A token in a queue that does not wait is the first one. -/
theorem Lines.first (h : Lines acts s q) (ht : t ∈ q n) (hgo : (t, t) ∉ s.waiting) :
    ∃ rest, q n = t :: rest := by
  cases hq : q n with
  | nil => rw [hq] at ht; cases ht
  | cons x rest =>
    rw [hq] at ht
    rcases List.mem_cons.1 ht with rfl | hmem
    · exact ⟨rest, rfl⟩
    · exact (hgo (h.waits n t (by rw [hq]; exact hmem))).elim

/-- Behind the first of a queue nobody has been let go on. -/
theorem Lines.tail_open (h : Lines acts s q) (ht : t ∈ (q n).tail) : t ∉ s.manager.closed :=
  h.represents.waiting n t ht

/-- **`Acquire`** puts its token at the end of the line, where it waits unless it is the first. -/
theorem Lines.acquire (h : Lines acts s q) (hi : Inv s) (htok : token ∉ s.registered)
    (hrel : token ∉ s.released) : Lines (acts ++ [.acquire name token token])
      (s.acquire name token token) (join q name token) := by
  have hfresh : ∀ n, token ∉ q n := fun n hmem => htok (h.present n token hmem).1
  have hopen : token ∉ s.manager.closed := fun hmem =>
    htok ((h.chans token).1 (hi.made token hmem))
  obtain ⟨hrep, hblocker, hclosed⟩ := h.represents.acquire s.now name token hfresh hopen
  have hwaiting : (s.acquire name token token).waiting =
      (if q name = [] then [] else [(token, token)]) ++ s.waiting := by
    show ((s.manager.acquire s.now name token token token).blocker.map
      fun c => (token, c)).toList ++ s.waiting = _
    rw [hblocker]
    split <;> rfl
  have hnew : ∀ x ∈ s.waiting, x.1 ≠ token := by
    intro x hx heq
    obtain ⟨-, n, hmem⟩ := h.own x hx
    exact hfresh n (heq ▸ hmem)
  have hjoined : ∀ n, join q name token n = q n ++ if name = n then [token] else [] := by
    intro n
    by_cases hn : n = name
    · subst hn; simp [join]
    · simp [join, setQueue_ne hn, Ne.symm hn]
  refine ⟨hrep, fun n => ?_, fun t => ?_, fun n t ht => ?_, fun t ht hnot => ?_, fun x hx => ?_,
    ?_, fun n t ht => ?_, fun n t ht hwait => ?_, fun t => ?_⟩
  · rw [arrivals_acquire, departures_acquire fun hmem => hrel ((h.released _).2 hmem),
      h.order n, hjoined n, List.append_assoc]
  · rw [releases, List.filterMap_append, List.filterMap_cons_none rfl, List.filterMap_nil,
      List.append_nil]
    exact h.released t
  · rcases mem_join.1 ht with hmem | ⟨rfl, -⟩
    · obtain ⟨hreg, hnot⟩ := h.present n t hmem
      exact ⟨List.mem_cons_of_mem _ hreg, hnot⟩
    · exact ⟨List.mem_cons_self, hrel⟩
  · rcases List.mem_cons.1 ht with rfl | hreg
    · exact ⟨name, mem_join.2 (.inr ⟨rfl, rfl⟩)⟩
    · obtain ⟨n, hmem⟩ := h.queued t hreg hnot
      exact ⟨n, mem_join.2 (.inl hmem)⟩
  · rw [hwaiting] at hx
    rcases List.mem_append.1 hx with hx | hx
    · split at hx
      · cases hx
      · rw [List.mem_singleton.1 hx]
        exact ⟨rfl, name, mem_join.2 (.inr ⟨rfl, rfl⟩)⟩
    · obtain ⟨heq, n, hmem⟩ := h.own x hx
      exact ⟨heq, n, mem_join.2 (.inl hmem)⟩
  · rw [hwaiting]
    split
    · exact h.once
    · exact List.nodup_cons.2 ⟨fun hmem => hnew _ hmem rfl, h.once⟩
  · rw [hwaiting]
    rw [hjoined n] at ht
    by_cases hn : name = n
    · subst hn
      rw [if_pos rfl] at ht
      cases hq : q name with
      | nil => rw [hq] at ht; cases ht
      | cons x rest =>
        rw [hq, List.cons_append, List.tail_cons, List.mem_append, List.mem_singleton] at ht
        rw [if_neg (List.cons_ne_nil _ _)]
        rcases ht with hmem | rfl
        · exact List.mem_append_right _ (h.waits name t (by rw [hq]; exact hmem))
        · exact List.mem_cons_self
    · rw [if_neg hn, List.append_nil] at ht
      exact List.mem_append_right _ (h.waits n t ht)
  · rw [closed_acquire]
    rw [hwaiting] at hwait
    rw [hjoined n] at ht
    have hold : t ∈ (q n).head? → t ∈ s.manager.closed := by
      intro ht
      have hmem : t ∈ q n := List.mem_of_head? ht
      refine h.head n t ht ((List.mem_append.1 hwait).resolve_left fun hx => ?_)
      split at hx
      · cases hx
      · cases List.mem_singleton.1 hx
        exact hfresh n hmem
    cases hq : q n with
    | cons x rest =>
      rw [hq] at ht
      exact hold (by rw [hq]; exact ht)
    | nil =>
      rw [hq, List.nil_append] at ht
      split at ht
      · next hname =>
        cases ht
        rw [hname, if_pos hq, List.nil_append] at hwait
        exact (hnew _ hwait rfl).elim
      · cases ht
  · exact (List.mem_cons.trans (or_congr_right (h.chans t))).trans List.mem_cons.symm

/-- **`Release`** takes the first token out of its line, and lets the next one go on. -/
theorem Lines.release (h : Lines acts s q) (htok : token ∈ s.registered)
    (hrel : token ∉ s.released) (hgo : (token, token) ∉ s.waiting) :
    ∃ q', Lines (acts ++ [.release token]) (s.release token) q' := by
  obtain ⟨name, hmem⟩ := h.queued token htok hrel
  obtain ⟨rest, hq⟩ := h.first hmem hgo
  obtain ⟨hrep, hclosed⟩ := h.represents.release hq
  have hnodup : (token :: rest).Nodup := hq ▸ h.represents.nodup name
  have hother : ∀ n, n ≠ name → token ∉ q n := fun n hn hmem' =>
    hn (h.represents.disjoint token n name hmem' hmem)
  have hleave : ∀ n t, t ∈ setQueue q name rest n ↔ t ∈ q n ∧ t ≠ token := by
    intro n t
    by_cases hn : n = name
    · subst hn
      rw [setQueue_self, hq, List.mem_cons]
      refine ⟨fun ht => ⟨.inr ht, ?_⟩, fun ⟨ht, hne⟩ => ht.resolve_left hne⟩
      rintro rfl
      exact (List.nodup_cons.1 hnodup).1 ht
    · rw [setQueue_ne hn]
      refine ⟨fun ht => ⟨ht, ?_⟩, And.left⟩
      rintro rfl
      exact hother n hn ht
  refine ⟨setQueue q name rest, hrep, fun n => ?_, fun t => ?_, fun n t ht => ?_,
    fun t ht hnot => ?_, fun x hx => ?_, h.once, fun n t ht => ?_, fun n t ht hwait => ?_,
    h.chans⟩
  · rw [arrivals_release, departures_release, h.order n]
    by_cases hn : n = name
    · subst hn
      rw [setQueue_self, hq, if_pos (List.mem_append_right _ List.mem_cons_self),
        List.append_assoc, List.singleton_append]
    · have hnot : token ∉ departures n acts ++ q n := by
        intro ht
        rw [← h.order n] at ht
        exact hother n hn (h.arrived ht hrel)
      rw [setQueue_ne hn, if_neg hnot, List.append_nil]
  · rw [releases_release, List.mem_append, List.mem_singleton, ← h.released t]
    exact List.mem_cons.trans or_comm
  · obtain ⟨hmem', hne⟩ := (hleave n t).1 ht
    obtain ⟨hreg, hnot⟩ := h.present n t hmem'
    exact ⟨hreg, List.not_mem_cons_of_ne_of_not_mem hne hnot⟩
  · obtain ⟨hne, hnot⟩ := List.ne_and_not_mem_of_not_mem_cons hnot
    obtain ⟨n, hmem'⟩ := h.queued t ht hnot
    exact ⟨n, (hleave n t).2 ⟨hmem', hne⟩⟩
  · obtain ⟨heq, n, hmem'⟩ := h.own x hx
    refine ⟨heq, n, (hleave n _).2 ⟨hmem', fun hx' => hgo ?_⟩⟩
    rwa [← hx', show (x.1, x.1) = x from Prod.ext rfl heq.symm]
  · by_cases hn : n = name
    · subst hn
      rw [setQueue_self] at ht
      exact h.waits n t (by rw [hq]; exact List.mem_of_mem_tail ht)
    · rw [setQueue_ne hn] at ht
      exact h.waits n t ht
  · refine (hclosed t).2 ?_
    by_cases hn : n = name
    · subst hn
      rw [setQueue_self] at ht
      exact .inr ht
    · rw [setQueue_ne hn] at ht
      exact .inl (h.head n t ht hwait)

/-- The other steps call neither. -/
def Act.Quiet : Act → Prop
  | .acquire .. | .release _ => False
  | _ => True

theorem Act.Quiet.arrivals {a : Act} (ha : a.Quiet) (n : Nat) :
    HandOff.arrivals n (acts ++ [a]) = HandOff.arrivals n acts := by
  cases a with
  | acquire | release => exact ha.elim
  | _ => simp [HandOff.arrivals]

theorem Act.Quiet.releases {a : Act} (ha : a.Quiet) :
    HandOff.releases (acts ++ [a]) = HandOff.releases acts := by
  cases a with
  | acquire | release => exact ha.elim
  | _ => simp [HandOff.releases]

/-- They leave the lines as they are. -/
theorem Lines.quiet (h : Lines acts s q) {a : Act} (ha : a.Quiet) : Lines (acts ++ [a]) s q :=
  { h with
    order := fun n => by
      rw [departures, ha.arrivals, ha.releases]
      exact h.order n
    released := fun t => by
      rw [ha.releases]
      exact h.released t }

/-- A call that goes on leaves its place in the line as it is. -/
theorem Lines.resume (h : Lines acts s q) (hclosed : chan ∈ s.manager.closed) :
    Lines acts { s with waiting := s.waiting.erase (token, chan) } q := by
  have hsub : ∀ {x}, x ∈ s.waiting.erase (token, chan) → x ∈ s.waiting := List.mem_of_mem_erase
  refine { h with
    own := fun x hx => h.own x (hsub hx)
    once := h.once.erase _
    waits := fun n t ht => ?_
    head := fun n t ht hw => h.head n t ht (hsub hw) }
  refine (List.mem_erase_of_ne fun heq => ?_).2 (h.waits n t ht)
  obtain ⟨rfl, rfl⟩ := Prod.mk.inj heq
  exact h.tail_open ht hclosed

/-- **Each step** of a handler or the manager keeps the lines. -/
theorem Lines.step (h : Lines acts s q) (hi : Inv s) {a : Act} (ha : Handled s a)
    (hs : step s a = some s') : ∃ q', Lines (acts ++ [a]) s' q' := by
  cases a with
  | acquire name token chan =>
    obtain ⟨⟨htok, hrel, -⟩, hs⟩ := Option.ite_none_right_eq_some.1 hs
    obtain rfl : chan = token := ha
    exact ⟨_, Option.some.inj hs ▸ h.acquire hi htok hrel⟩
  | release token =>
    obtain ⟨htok, hrel, hgo⟩ := ha
    exact Option.some.inj hs ▸ h.release htok hrel hgo
  | resume token chan =>
    obtain ⟨⟨-, hclosed⟩, hs⟩ := Option.ite_none_right_eq_some.1 hs
    exact ⟨q, Option.some.inj hs ▸ (h.resume hclosed).quiet trivial⟩
  | expireAndRemove | expireAndRemoveAll => exact ha.elim
  | update token =>
    have hq : Lines (acts ++ [.update token]) s q := h.quiet trivial
    exact ⟨q, Option.some.inj hs ▸ { hq with represents := hq.represents.update }⟩
  | tick =>
    have hq : Lines (acts ++ [.tick]) s q := h.quiet trivial
    exact ⟨q, Option.some.inj hs ▸ { hq with }⟩
  | advance n =>
    have hq : Lines (acts ++ [.advance n]) s q := h.quiet trivial
    exact ⟨q, Option.some.inj hs ▸ { hq with }⟩

/-- **The lines of a run.** -/
theorem lines_of_run {limit : Nat}
    (h : (handOff limit).Run Handled (State.initial limit) acts s) : ∃ q, Lines acts s q := by
  induction h with
  | nil => exact ⟨_, lines_initial limit⟩
  | snoc hrun ha hs ih =>
    obtain ⟨q, hq⟩ := ih
    exact hq.step (inv_of_reaches ⟨_, _, rfl, hrun.mono fun _ _ _ => trivial⟩) ha hs

/-- **First come, first served.** In every run of handlers, and for every name, the tokens released
are the first ones that came, in their order. Of those left, the last one has the entry, all but
the first wait on a channel that is open, and the first one's call of `Acquire` has returned, or
finds its channel closed. -/
theorem first_come {limit : Nat}
    (h : (handOff limit).Run Handled (State.initial limit) acts s) (name : Nat) :
    ∃ line, arrivals name acts = departures name acts ++ line ∧
      (s.manager.entries.lookup name).map Entry.token = line.getLast? ∧
      (∀ t ∈ line.tail, (t, t) ∈ s.waiting ∧ t ∉ s.manager.closed) ∧
      ∀ t ∈ line.head?, (t, t) ∉ s.waiting ∨ t ∈ s.manager.closed := by
  obtain ⟨q, hq⟩ := lines_of_run h
  refine ⟨q name, hq.order name, hq.represents.entry name,
    fun t ht => ⟨hq.waits name t ht, hq.tail_open ht⟩, fun t ht => ?_⟩
  exact or_iff_not_imp_left.2 fun hw => hq.head name t ht (not_not.1 hw)

/-- Three handlers of an instance; the first one leaves, and the second one goes on. -/
def threeHandlers : List Act :=
  [.acquire 0 1 1, .acquire 0 2 2, .acquire 0 3 3, .tick, .release 1, .resume 2 2]

/-- The third one waits for the second. -/
theorem first_come_threeHandlers : ∃ s, (handOff 0).exec (State.initial 0) threeHandlers = some s ∧
    departures 0 threeHandlers = [1] ∧ ∃ line, [1, 2, 3] = [1] ++ line ∧
      ∀ t ∈ line.tail, (t, t) ∈ s.waiting ∧ t ∉ s.manager.closed := by
  refine ⟨_, rfl, by decide, ?_⟩
  have hrun : (handOff 0).Run (fun s a => decide (Handled s a) = true) (State.initial 0)
      threeHandlers _ := System.run_of_execWhere rfl
  obtain ⟨line, hline, -, htail, -⟩ := first_come (hrun.mono fun _ _ => of_decide_eq_true) 0
  exact ⟨line, hline, htail⟩

end

end UAssign.Expire.HandOff

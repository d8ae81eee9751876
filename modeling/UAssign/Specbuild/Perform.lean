import UAssign.Specbuild.Actions

/-!
# Performing actions

Every run of `PerformActions` comes to an end: a call that has not returned can always go on, itself
or below itself (`Fits.progress`), and each step uses up some of what the tree of actions allows
(`measure_lt`). With what `Fits` and `Logged` say of a reachable state that gives the order of the
leaves (`performActions_seriesParallel`).
-/

namespace UAssign.Specbuild

open History

/-! ## Somebody can go on -/

section

variable {root : Action} {s s' : State} {p : List Nat} {n : Nat}

/-- What a call that goes on performs. -/
theorem Fits.place (h : Fits root s) (hp : s.calls p ≠ .idle) :
    ∃ ac, root.atPlace p = some ac := by
  have hloc := h p
  match hst : s.calls p with
  | .idle => exact (hp hst).elim
  | .ready => rw [hst] at hloc; exact Option.isSome_iff_exists.1 hloc.1
  | .running => rw [hst] at hloc; obtain ⟨⟨a, -, ha, -⟩, -⟩ := hloc; exact ⟨a, ha⟩
  | .loop n => rw [hst] at hloc; obtain ⟨⟨a, ha, -⟩, -⟩ := hloc; exact ⟨a, ha⟩
  | .group n err => rw [hst] at hloc; obtain ⟨⟨a, ha, -⟩, -⟩ := hloc; exact ⟨a, ha⟩
  | .returned none => rw [hst] at hloc; obtain ⟨a, ha, -⟩ := hloc; exact ⟨a, ha⟩
  | .returned (some err) => rw [hst] at hloc; obtain ⟨a, ha, -⟩ := hloc; exact ⟨a, ha⟩

/-- A call that has been made goes on or has returned. -/
theorem active_or_outcome (hp : s.calls p ≠ .idle) :
    (s.calls p).active = true ∨ ∃ err, s.outcome p = some err := by
  unfold State.outcome
  cases hst : s.calls p with
  | idle => exact (hp hst).elim
  | returned err => exact .inr ⟨err, rfl⟩
  | ready | running | loop | group => exact .inl rfl

/-- A subaction is smaller. -/
theorem sizeOf_child {ac child : Action} (h : ac.children[n]? = some child) :
    sizeOf child < sizeOf ac := by
  have hmem : child ∈ ac.subactions := by
    have hmem := List.mem_of_getElem? h
    unfold Action.children at hmem
    split at hmem
    · exact hmem
    · exact hmem
    · cases hmem
  cases ac with
  | mk =>
    have hlt := List.sizeOf_lt_of_mem hmem
    simp only [Action.mk.sizeOf_spec] at hlt ⊢
    omega

/-- **A call that has not returned can go on**, or one below it can. -/
theorem Fits.progress (h : Fits root s) {p : List Nat} (ac : Action)
    (hac : root.atPlace p = some ac) (hactive : (s.calls p).active = true) :
    ∃ a, (step root s a).isSome = true := by
  have hloc := h p
  -- a child that goes on can go on by induction on the action
  have hbelow : ∀ i, (s.calls (p ++ [i])).active = true →
      ∃ a, (step root s a).isSome = true := by
    intro i hi
    have hne : s.calls (p ++ [i]) ≠ .idle := fun he => by rw [he] at hi; cases hi
    obtain ⟨child, hchild⟩ := h.place hne
    have hget : ac.children[i]? = some child := by
      rw [atPlace_append, hac, Option.bind_some, Action.atPlace] at hchild
      obtain ⟨c, hc, hchild⟩ := Option.bind_eq_some_iff.1 hchild
      exact hc.trans hchild
    have := sizeOf_child hget
    exact h.progress child hchild hi
  cases hst : s.calls p with
  | idle => rw [hst] at hactive; cases hactive
  | returned err => rw [hst] at hactive; cases hactive
  | ready => exact ⟨.dispatch p, by simp [step, hac, hst]⟩
  | running => exact ⟨.finish p none, by simp [step, hst]⟩
  | loop n =>
    rw [hst] at hloc
    obtain ⟨-, hbegun, -⟩ := hloc
    have hgo : ∀ err, s.last p n = some err → ∃ a, (step root s a).isSome = true := by
      intro err hlast
      refine ⟨.next p, ?_⟩
      simp only [step, hac, Option.bind_some, hst, State.next, hlast]
      cases err <;> rfl
    cases n with
    | zero => exact hgo none rfl
    | succ n =>
      rcases active_or_outcome (hbegun n (Nat.lt_succ_self n)) with hchild | ⟨err, herr⟩
      · exact hbelow n hchild
      · exact hgo err herr
  | group n err =>
    rw [hst] at hloc
    obtain ⟨-, hbegun, -⟩ := hloc
    rcases Nat.lt_or_ge n ac.children.length with hn | hn
    · exact ⟨.spawn p, by simp [step, hac, hst, hn]⟩
    · by_cases hjoined : s.joined p n err = true
      · exact ⟨.wait p, by simp [step, hac, hst, hn, hjoined]⟩
      · -- a goroutine goes on, or has failed and not recorded it
        obtain ⟨i, hi, hno⟩ : ∃ i, i < n ∧
            ¬ ∃ e, s.calls (p ++ [i]) = .returned e ∧ (err = none → e = none) := by
          rw [joined_iff] at hjoined
          simpa using hjoined
        rcases active_or_outcome (hbegun i hi) with hchild | ⟨e, he⟩
        · exact hbelow i hchild
        · have hret := outcome_eq_some he
          cases err with
          | some err => exact (hno ⟨e, hret, fun hnone => by cases hnone⟩).elim
          | none =>
            cases e with
            | none => exact (hno ⟨none, hret, fun _ => rfl⟩).elim
            | some e => exact ⟨.record p i, by simp [step, hst, he, hi]⟩
  termination_by sizeOf ac

end

/-! ## Nobody goes on for ever -/

mutual

/-- The places in a tree of actions, -/
def Action.places : Action → List (List Nat)
  | ⟨_, _, _, _, _, _, _, _, _, _, _, _, subactions⟩ => [] :: placesFrom 0 subactions

/-- and in a list whose first element has the number `n`. -/
def placesFrom (n : Nat) : List Action → List (List Nat)
  | [] => []
  | ac :: acs => ac.places.map (n :: ·) ++ placesFrom (n + 1) acs

end

/-- The steps that a call with `k` children has ahead of it. -/
def Status.weight (k : Nat) : Status → Nat
  | .idle | .ready => k + 3
  | .running => 1
  | .loop n => k - n + 1
  | .group n none => k - n + 2
  | .group n (some _) => k - n + 1
  | .returned _ => 0

/-- The number of children at a place. -/
def childrenAt (root : Action) (p : List Nat) : Nat :=
  ((root.atPlace p).map fun ac => ac.children.length).getD 0

/-- The steps that are left. -/
def measure (root : Action) (s : State) : Nat :=
  (root.places.map fun p => (s.calls p).weight (childrenAt root p)).sum

section

variable {root : Action} {s s' : State} {p : List Nat} {n : Nat} {t : Status}

/-- The places of an element. -/
theorem mem_placesFrom {acs : List Action} {i : Nat} {ac : Action} (hi : acs[i]? = some ac)
    (hp : p ∈ ac.places) : (n + i) :: p ∈ placesFrom n acs := by
  induction acs generalizing n i with
  | nil => cases hi
  | cons ac' acs ih =>
    rw [placesFrom, List.mem_append]
    cases i with
    | zero =>
      obtain rfl := Option.some.inj hi
      exact .inl (List.mem_map.2 ⟨p, hp, rfl⟩)
    | succ i =>
      refine .inr ?_
      have hplace := ih (n := n + 1) (i := i) hi
      rwa [Nat.add_right_comm, Nat.add_assoc] at hplace

/-- Every place is one of them. -/
theorem mem_places {ac : Action} (h : root.atPlace p = some ac) : p ∈ root.places := by
  induction p generalizing root with
  | nil => cases root; exact List.mem_cons_self
  | cons i p ih =>
    obtain ⟨child, hchild, hp⟩ := Option.bind_eq_some_iff.1 h
    have hsub : root.subactions[i]? = some child := by
      unfold Action.children at hchild
      split at hchild
      · exact hchild
      · exact hchild
      · cases hchild
    have hmem := mem_placesFrom (n := 0) hsub (ih hp)
    rw [Nat.zero_add] at hmem
    cases root
    exact List.mem_cons_of_mem _ hmem

theorem childrenAt_eq {ac : Action} (h : root.atPlace p = some ac) :
    childrenAt root p = ac.children.length := by
  rw [childrenAt, h]
  rfl

/-- One call has fewer steps ahead of it, and no other one has more. -/
theorem measure_lt_of (h : Fits root s) (hp : s.calls p ≠ .idle)
    (hlt : (s'.calls p).weight (childrenAt root p) < (s.calls p).weight (childrenAt root p))
    (hle : ∀ q, q ≠ p →
      (s'.calls q).weight (childrenAt root q) ≤ (s.calls q).weight (childrenAt root q)) :
    measure root s' < measure root s := by
  obtain ⟨ac, hac⟩ := h.place hp
  refine List.sum_lt_sum _ _ (fun q _ => ?_) ⟨p, mem_places hac, hlt⟩
  by_cases hq : q = p
  · subst hq
    exact hlt.le
  · exact hle q hq

/-- A call moves on. -/
theorem measure_put (h : Fits root s) (hp : (s.calls p).active = true)
    (hlt : t.weight (childrenAt root p) < (s.calls p).weight (childrenAt root p)) :
    measure root (s.put p t) < measure root s := by
  refine measure_lt_of h (fun he => by rw [he] at hp; cases hp) ?_ fun q hq => ?_
  · rw [put_self]
    exact hlt
  · rw [put_ne hq]

/-- It performs a subaction. -/
theorem measure_call (h : Fits root s) (hp : (s.calls p).active = true)
    (hidle : s.calls (p ++ [n]) = .idle)
    (hlt : t.weight (childrenAt root p) < (s.calls p).weight (childrenAt root p)) :
    measure root (s.call p t n) < measure root s := by
  refine measure_lt_of h (fun he => by rw [he] at hp; cases hp) ?_ fun q hq => ?_
  · rw [State.call, put_self]
    exact hlt
  · rw [State.call, put_ne hq]
    by_cases hchild : q = p ++ [n]
    · rw [hchild, put_self, hidle]
      rfl
    · rw [put_ne hchild]

/-- **Each step** leaves fewer. -/
theorem measure_lt (h : Fits root s) (hs : Next root s s') : measure root s' < measure root s := by
  cases hs with
  | @enter p ac st hac hp hst =>
    refine measure_put h (by rw [hp]; rfl) ?_
    rw [hp]
    rcases hst with ⟨rfl, -⟩ | ⟨rfl, -⟩ <;> simp [Status.weight]
  | @start p ac f hac hp hf hleaf =>
    exact measure_put (t := .running) h (by rw [hp]; rfl) (by rw [hp]; simp [Status.weight])
  | @unknown p ac msg hac hp hf =>
    exact measure_put (t := .returned (some msg)) h (by rw [hp]; rfl)
      (by rw [hp]; simp [Status.weight])
  | @finish p err hp =>
    exact measure_put (t := .returned err) h (by rw [hp]; rfl) (by rw [hp]; simp [Status.weight])
  | @element p ac n hac hp hlast hn =>
    have hloc := h.known hp
    refine measure_call h (by rw [hp]; rfl) (hloc.2.2.2 n (Nat.le_refl n)) ?_
    rw [hp, childrenAt_eq hac]
    simp only [Status.weight]
    omega
  | @fail p n err hp hlast =>
    exact measure_put (t := .returned (some err)) h (by rw [hp]; rfl)
      (by rw [hp]; simp [Status.weight])
  | @complete p ac n hac hp hlast hn =>
    exact measure_put (t := .returned none) h (by rw [hp]; rfl) (by rw [hp]; simp [Status.weight])
  | @spawn p ac n err hac hp hn =>
    have hloc := h.known hp
    refine measure_call h (by rw [hp]; rfl) (hloc.2.2 n (Nat.le_refl n)) ?_
    rw [hp, childrenAt_eq hac]
    cases err <;> simp only [Status.weight] <;> omega
  | @record p n i err hp hi hchild =>
    exact measure_put h (by rw [hp]; rfl) (by rw [hp]; simp [Status.weight])
  | @wait p ac n err hac hp hn hjoined =>
    refine measure_put (t := .returned err) h (by rw [hp]; rfl) ?_
    rw [hp]
    cases err <;> simp [Status.weight]

end

/-! ## The order of the leaves -/

section

variable {actions : List Action} {as : List Act} {s : State}

/-- A call that has been made stays made. -/
theorem Next.ne_idle {root : Action} {s s' : State} {q : List Nat} (hs : Next root s s')
    (hq : s.calls q ≠ .idle) : s'.calls q ≠ .idle := by
  have hput : ∀ {t : State} {p : List Nat} {st : Status}, st ≠ .idle → t.calls q ≠ .idle →
      (t.put p st).calls q ≠ .idle := by
    intro t p st hst ht
    by_cases hp : q = p
    · rw [hp, put_self]
      exact hst
    · rw [put_ne hp]
      exact ht
  cases hs with
  | enter _ _ hst =>
    refine hput ?_ hq
    rcases hst with ⟨rfl, -⟩ | ⟨rfl, -⟩ <;> exact fun he => by cases he
  | start | unknown | finish | fail | complete | record | wait =>
    exact hput (fun he => by cases he) hq
  | element | spawn => exact hput (fun he => by cases he) (hput (fun he => by cases he) hq)

/-- The runs of `PerformActions` keep the calls and the history right, and use up their steps. -/
theorem run_performActions (h : (performActions actions).Run System.Any State.initial as s) :
    Fits (ordered actions) s ∧ Logged (ordered actions) s ∧ s.calls [] ≠ .idle ∧
      as.length + measure (ordered actions) s ≤ measure (ordered actions) State.initial := by
  induction h with
  | nil =>
    exact ⟨fits_initial actions, logged_initial actions, fun he => (by cases he), by simp⟩
  | @snoc s s' as a _ _ hs ih =>
    obtain ⟨hf, hl, hroot, hm⟩ := ih
    have hnext := step_sound hs
    have hlt := measure_lt hf hnext
    refine ⟨hf.next hnext, hl.next hf hnext, hnext.ne_idle hroot, ?_⟩
    rw [List.length_append, List.length_singleton]
    omega

/-- **Post-build actions follow the order of their tree.** For every list of actions, every outcome
of the leaves and every schedule of the goroutines:
if `PerformActions` has returned nil, every leaf has been executed once and has succeeded;
whenever a leaf starts, every leaf under an earlier element of a sequence that it is in has
succeeded before;
if an element of a sequence has failed, no leaf under a later one has been started, and
`PerformActions` does not return nil;
once `PerformActions` has returned, every leaf's function that has been called has returned;
and it returns: as long as it has not, some call can go on, and the number of steps is bounded. -/
theorem performActions_seriesParallel
    (h : (performActions actions).Run System.Any State.initial as s) :
    (s.outcome [] = some none → ∀ p, leafAt (ordered actions) p = true →
      s.history.count (.started p) = 1 ∧ s.history.count (.returned p none) = 1 ∧
        ∀ err, .returned p (some err) ∉ s.history) ∧
    (∀ later earlier q i j r r', s.history = later ++ .started (q ++ j :: r) :: earlier →
      sequenceAt (ordered actions) q = true → i < j →
      leafAt (ordered actions) (q ++ i :: r') = true → .returned (q ++ i :: r') none ∈ earlier) ∧
    (∀ q i err, sequenceAt (ordered actions) q = true →
      .returned (q ++ [i]) (some err) ∈ s.history →
      (∀ j r, i < j → .started (q ++ j :: r) ∉ s.history) ∧ s.outcome [] ≠ some none) ∧
    (s.outcome [] ≠ none → ∀ p, .started p ∈ s.history → ∃ err, .returned p err ∈ s.history) ∧
    (s.outcome [] = none → ∃ a, (step (ordered actions) s a).isSome = true) ∧
    as.length ≤ measure (ordered actions) State.initial := by
  obtain ⟨hf, hl, hroot, hm⟩ := run_performActions h
  refine ⟨fun hnil p hleaf => ?_, fun later earlier q i j r r' hh hq hij hleaf => ?_,
    fun q i err hq hfail => ⟨fun j r hij hstart => ?_, fun hnil => ?_⟩, fun hsome p hstart => ?_,
    fun hnone => ?_, by omega⟩
  · have hplace : ((ordered actions).atPlace p).isSome = true := by
      cases hat : (ordered actions).atPlace p with
      | none => rw [leafAt, hat] at hleaf; cases hleaf
      | some a => rfl
    have hret : s.calls p = .returned none := hf.below_nil (p := []) (outcome_eq_some hnil) hplace
    refine ⟨?_, ?_, fun err hmem => ?_⟩
    · rw [hl.started, hret, if_pos ⟨hleaf, rfl⟩]
    · rw [hl.returned, if_pos hret]
    · rw [hl.of_returned, hret] at hmem
      cases hmem
  · have hpast := hl.past
    rw [hh] at hpast
    exact hpast.past q i j r r' rfl hq hij hleaf
  · have hidle := hf.later (hl.of_returned.1 hfail) hq hij
    have hbegun := (hl.of_started hstart).2
    rw [List.append_cons, hf.below_idle hidle] at hbegun
    cases hbegun
  · have hret := hl.of_returned.1 hfail
    obtain ⟨ac, hac⟩ := hf.place (p := q ++ [i]) fun he => by rw [hret] at he; cases he
    have hnil' := hf.below_nil (p := []) (r := q ++ [i]) (outcome_eq_some hnil)
      (by rw [List.nil_append, hac]; rfl)
    rw [List.nil_append, hret] at hnil'
    cases hnil'
  · obtain ⟨err, herr⟩ := Option.ne_none_iff_exists'.1 hsome
    have hquiet := hf.below_returned (p := []) (by rw [outcome_eq_some herr]; rfl) p
    have hbegun := (hl.of_started hstart).2
    rw [List.nil_append] at hquiet
    cases hst : s.calls p with
    | returned err => exact ⟨err, hl.of_returned.2 hst⟩
    | running => rw [hst] at hquiet; cases hquiet
    | _ => rw [hst] at hbegun; cases hbegun
  · have hloc := hf []
    refine hf.progress (ordered actions) (p := []) rfl ?_
    refine (active_or_outcome hroot).resolve_right ?_
    rintro ⟨err, herr⟩
    exact Option.some_ne_none err (herr.symm.trans hnone)

end

/-- An `exec`, two leaves in parallel, and a `gobuild`. -/
def fourLeaves : List Action :=
  [{ ordered [] with action := "exec" },
    { ordered [{ ordered [] with action := "write" }, { ordered [] with action := "append" }] with
      action := "parallel" },
    { ordered [] with action := "gobuild" }]

/-- The second goroutine is faster than the first one. -/
def fourLeavesSchedule : List Act :=
  [.next [], .dispatch [0], .finish [0] none, .next [], .dispatch [1], .spawn [1], .spawn [1],
    .dispatch [1, 1], .finish [1, 1] none, .dispatch [1, 0], .finish [1, 0] none, .wait [1],
    .next [], .dispatch [2], .finish [2] none, .next []]

/-- All of them have been executed once, the `gobuild` after the two that are in parallel. -/
theorem performActions_seriesParallel_fourLeaves :
    ∃ s, (performActions fourLeaves).exec State.initial fourLeavesSchedule = some s ∧
      s.outcome [] = some none ∧ s.history.count (.started [1, 0]) = 1 ∧
      ∀ later earlier, s.history = later ++ .started [2] :: earlier →
        .returned [1, 0] none ∈ earlier ∧ .returned [1, 1] none ∈ earlier := by
  refine ⟨_, rfl, rfl, ?_⟩
  have hrun : (performActions fourLeaves).Run System.Any State.initial fourLeavesSchedule _ :=
    System.run_of_exec rfl
  obtain ⟨hall, horder, -⟩ := performActions_seriesParallel hrun
  exact ⟨(hall rfl [1, 0] rfl).1, fun later earlier hh =>
    ⟨horder later earlier [] 1 2 [] [0] hh rfl (by decide) rfl,
      horder later earlier [] 1 2 [] [1] hh rfl (by decide) rfl⟩⟩

end UAssign.Specbuild

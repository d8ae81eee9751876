import UAssign.Sched.Runner

/-!
# Late triggers

The debug routes call `Run`, and `App.Shutdown` calls `Stop`, which closes the channel that `Run`
sends on; nothing orders the two. In the runs in which no `Run` finds the channel closed, there is
no panic, and in no other; and a `Stop` never waits for ever, since the loop, or the call that
executes `stop`, can go on (`runner_survives`).
-/

namespace UAssign.Sched

/-! ## The calls of `Stop` -/

/-- A call executes `stop`. -/
def StopPc.inside : StopPc → Bool
  | .stopTicker | .closeManual | .await => true
  | .idle | .called | .returned => false

/-- What the calls of `Stop` keep: at most one executes `stop`, and does so while `stopOnce` is
busy; `manual` has been closed if this call is behind `close`, or has returned. -/
structure Stops (r : Runner) : Prop where
  busy : ∀ i, (r.stops i).inside = true → r.stopOnce = .busy
  unique : ∀ i j, (r.stops i).inside = true → (r.stops j).inside = true → i = j
  exists_inside : r.stopOnce = .busy → ∃ i, (r.stops i).inside = true
  closed : r.closed = true ↔ r.stopOnce = .done ∨ ∃ i, r.stops i = .await

section

variable {r r' : Runner} {a : Act} {i j : Nat} {pc : StopPc}

@[simp]
theorem put_self : (r.put i pc).stops i = pc := if_pos rfl

theorem put_of_ne (h : j ≠ i) : (r.put i pc).stops j = r.stops j := if_neg h

theorem stops_newRunner : Stops newRunner where
  busy i h := by cases h
  unique i j h := by cases h
  exists_inside h := by cases h
  closed := iff_of_false Bool.false_ne_true fun h => by
    rcases h with h | ⟨i, h⟩ <;> cases h

/-- Steps that are not those of a `Stop`. -/
theorem Stops.frame (h : Stops r) (hstops : r'.stops = r.stops) (honce : r'.stopOnce = r.stopOnce)
    (hclosed : r'.closed = r.closed) : Stops r' where
  busy := by rw [hstops, honce]; exact h.busy
  unique := by rw [hstops]; exact h.unique
  exists_inside := by rw [hstops, honce]; exact h.exists_inside
  closed := by rw [hstops, honce, hclosed]; exact h.closed

/-- Before `stop` is executed, the channel is open. -/
theorem Stops.free (h : Stops r) (hfree : r.stopOnce = .free) :
    r.closed = false ∧ ∀ i, (r.stops i).inside = false := by
  have hnone : ∀ i, (r.stops i).inside = false := fun i => Bool.eq_false_iff.2 fun hi => by
    cases hfree.symm.trans (h.busy i hi)
  refine ⟨Bool.eq_false_iff.2 fun hclosed => ?_, hnone⟩
  rcases h.closed.1 hclosed with hdone | ⟨i, hi⟩
  · cases hfree.symm.trans hdone
  · have hinside := hnone i
    rw [hi] at hinside
    cases hinside

/-- In front of `close`, the channel is open: it is not closed twice. -/
theorem Stops.opened (h : Stops r) (hi : (r.stops i).inside = true) (hne : r.stops i ≠ .await) :
    r.closed = false := by
  refine Bool.eq_false_iff.2 fun hclosed => ?_
  rcases h.closed.1 hclosed with hdone | ⟨j, hj⟩
  · cases hdone.symm.trans (h.busy i hi)
  · obtain rfl := h.unique i j hi (by rw [hj]; rfl)
    exact hne hj

/-- **A call moves that does not execute `stop`.** -/
theorem Stops.put (h : Stops r) (hold : (r.stops i).inside = false) (hnew : pc.inside = false) :
    Stops (r.put i pc) := by
  have hinside : ∀ j, ((r.put i pc).stops j).inside = (r.stops j).inside := by
    intro j
    by_cases hj : j = i
    · rw [hj, put_self, hold, hnew]
    · rw [put_of_ne hj]
  have hawait : ∀ j, (r.put i pc).stops j = .await ↔ r.stops j = .await := by
    intro j
    by_cases hj : j = i
    · rw [hj, put_self]
      exact iff_of_false (fun hpc => by rw [hpc] at hnew; cases hnew)
        (fun hpc => by rw [hpc] at hold; cases hold)
    · rw [put_of_ne hj]
  refine ⟨fun j hj => h.busy j ?_, fun j k hj hk => h.unique j k ?_ ?_, fun hbusy => ?_, ?_⟩
  · rwa [← hinside]
  · rwa [← hinside]
  · rwa [← hinside]
  · obtain ⟨j, hj⟩ := h.exists_inside hbusy
    exact ⟨j, by rwa [hinside]⟩
  · simp only [hawait]
    exact h.closed

/-- **The call that executes `stop` moves**: it is the only one. -/
theorem Stops.only (hothers : ∀ j, j ≠ i → (r.stops j).inside = false)
    (hmoves : r'.stops = (r.put i pc).stops) (hbusy : pc.inside = true ↔ r'.stopOnce = .busy)
    (hclosed : r'.closed = true ↔ r'.stopOnce = .done ∨ pc = .await) : Stops r' := by
  have hself : r'.stops i = pc := by rw [hmoves, put_self]
  have hothers : ∀ j, (r'.stops j).inside = true → j = i := by
    intro j hj
    by_contra hne
    rw [hmoves, put_of_ne hne, hothers j hne] at hj
    cases hj
  refine ⟨fun j hj => ?_, fun j k hj hk => (hothers j hj).trans (hothers k hk).symm,
    fun honce => ?_, hclosed.trans (or_congr_right ⟨fun hpc => ⟨i, hself.trans hpc⟩, ?_⟩)⟩
  · obtain rfl := hothers j hj
    exact hbusy.1 (hself ▸ hj)
  · exact ⟨i, by rw [hself]; exact hbusy.2 honce⟩
  · rintro ⟨j, hj⟩
    obtain rfl := hothers j (by rw [hj]; rfl)
    exact hself.symm.trans hj

/-- **Each step** keeps it. -/
theorem Stops.step (h : Stops r) (hs : step r a = some r') : Stops r' := by
  have hothers : ∀ {i}, (r.stops i).inside = true → ∀ j, j ≠ i → (r.stops j).inside = false :=
    fun hi j hne => Bool.eq_false_iff.2 fun hj => hne (h.unique j _ hj hi)
  cases step_next hs with
  | started => exact h
  | start | panic | run | tick | recvTick | recvManual | begin | exit | finish =>
    exact h.frame rfl rfl rfl
  | stop hidle => exact (h.put (by rw [hidle]; rfl) rfl).frame rfl rfl rfl
  | enter _ hfree =>
    obtain ⟨hclosed, hnone⟩ := h.free hfree
    exact Stops.only (fun j _ => hnone j) rfl (iff_of_true rfl rfl)
      (iff_of_false (Bool.eq_false_iff.1 hclosed) (by simp))
  | enterDone hcalled => exact (h.put (by rw [hcalled]; rfl) rfl).frame rfl rfl rfl
  | @stopTicker i hpc =>
    have hi : (r.stops i).inside = true := by rw [hpc]; rfl
    have hopen : r.closed = false := h.opened hi (by rw [hpc]; simp)
    refine Stops.only (hothers hi) rfl (iff_of_true rfl (h.busy i hi))
      (iff_of_false (Bool.eq_false_iff.1 hopen) ?_)
    rintro (hdone | hawait)
    · cases hdone.symm.trans (h.busy i hi)
    · cases hawait
  | @closeManual i hpc =>
    have hi : (r.stops i).inside = true := by rw [hpc]; rfl
    exact Stops.only (hothers hi) rfl (iff_of_true rfl (h.busy i hi)) (iff_of_true rfl (.inr rfl))
  | @await i hpc _ =>
    have hi : (r.stops i).inside = true := by rw [hpc]; rfl
    exact Stops.only (hothers hi) rfl (by simp [Runner.log, StopPc.inside])
      (iff_of_true (h.closed.2 (.inr ⟨i, hpc⟩)) (.inl rfl))

/-! ## Nobody waits for ever -/

/-- The call, or the loop, can take a step. -/
def CanMove (r : Runner) (i : Nat) : Prop :=
  ∃ a r', (a = .proceed i ∨ a.ofLoop = true) ∧ step r a = some r'

/-- **A call that executes `stop` can go on, or the loop can**: where the call waits for its end,
the channel has been closed. -/
theorem Stops.canMove (h : Stops r) (hinv : Inv r) (hstarted : r.startOnce = true)
    (hi : (r.stops i).inside = true) : CanMove r i := by
  cases hpc : r.stops i with
  | stopTicker => exact ⟨.proceed i, _, .inl rfl, by rw [Sched.step, Runner.proceed, hpc]⟩
  | closeManual => exact ⟨.proceed i, _, .inl rfl, by rw [Sched.step, Runner.proceed, hpc]⟩
  | await =>
    have hclosed : r.closed = true := h.closed.2 (.inr ⟨i, hpc⟩)
    cases hl : r.loop with
    | idle => cases (hinv.started.1 hl).symm.trans hstarted
    | selecting => exact ⟨.recvManual, _, .inr rfl, if_pos ⟨hl, .inr hclosed⟩⟩
    | received ok => cases ok <;> exact ⟨.next, _, .inr rfl, by rw [Sched.step, Runner.next, hl]⟩
    | running => exact ⟨.finish, _, .inr rfl, if_pos hl⟩
    | exited =>
      refine ⟨.proceed i, ({ r.put i .returned with stopOnce := .done }.log .stopReturned),
        .inl rfl, ?_⟩
      rw [Sched.step, Runner.proceed, hpc]
      exact if_pos hl
  | idle | called | returned =>
    rw [hpc] at hi
    cases hi

/-- A call that has been made enters, or waits for the one that executes `stop`. -/
theorem Stops.called (h : Stops r) (hcalled : r.stops i = .called) :
    (∃ r', Sched.step r (.enter i) = some r') ∨ ∃ j, (r.stops j).inside = true := by
  cases honce : r.stopOnce with
  | free => exact .inl ⟨_, by rw [Sched.step, if_pos hcalled, Runner.enter, honce]⟩
  | busy => exact .inr (h.exists_inside honce)
  | done => exact .inl ⟨_, by rw [Sched.step, if_pos hcalled, Runner.enter, honce]⟩

/-! ## Panics -/

/-- A call of `Run` finds the channel open. -/
def Opened (r : Runner) (a : Act) : Prop := a = .run → r.closed = false

/-- Other steps than `Run` do not panic. -/
theorem step_history (hne : a ≠ .run) (hs : step r a = some r') :
    r'.history = r.history ∨ ∃ e, e ≠ .panicked ∧ r'.history = e :: r.history := by
  cases step_next hs with
  | panic | run => exact absurd rfl hne
  | started | start | tick | recvTick | recvManual | enter | stopTicker | closeManual =>
    exact .inl rfl
  | begin | exit | finish | stop | enterDone | await => exact .inr ⟨_, by simp, rfl⟩

/-- **A step panics if and only if it is a call of `Run` that finds the channel closed.** -/
theorem step_panicked (hs : step r a = some r') :
    .panicked ∉ r'.history ↔ .panicked ∉ r.history ∧ Opened r a := by
  by_cases ha : a = .run
  · subst ha
    obtain rfl := Option.some.inj hs
    unfold Runner.run
    split
    · next hclosed =>
      refine iff_of_false (fun hnot => hnot List.mem_cons_self) fun hh => ?_
      cases hclosed.symm.trans (hh.2 rfl)
    · next hopen =>
      have hopened : Opened r .run := fun _ => Bool.eq_false_iff.2 hopen
      simp [Runner.log, hopened]
  · have hopened : Opened r a := fun h => absurd h ha
    rcases step_history ha hs with hsame | ⟨e, hne, hcons⟩
    · simp [hsame, hopened]
    · simp [hcons, hne.symm, hopened]

end

variable {r : Runner} {as : List Act}

/-- The reachable states. -/
theorem stops_of_run (h : runner.Run System.Any newRunner as r) : Stops r :=
  h.invariant stops_newRunner fun _ _ _ hi _ hs => hi.step hs

/-- **A run is without a panic if and only if no call of `Run` in it finds the channel closed.** -/
theorem run_panicked (h : runner.Run System.Any newRunner as r) :
    .panicked ∉ r.history ↔ runner.Run Opened newRunner as r := by
  induction h with
  | nil => exact iff_of_true List.not_mem_nil .nil
  | snoc hrun _ hs ih => rw [step_panicked hs, ih, hrun.snoc_iff hs]

/-- **Runners survive triggers that come in time.** A run of a runner, with any calls of `Start`,
`Run` and `Stop`, is without a panic if and only if no call of `Run` finds `manual` closed, as it
does behind `close` in a `Stop`; it is never closed twice. Of a runner that has been started, a call
that executes `stop` can go on, or its loop can, and any other call of `Stop` enters, or waits for
that one. -/
theorem runner_survives {r : Runner} {as : List Act}
    (h : runner.Run System.Any newRunner as r) :
    (.panicked ∉ r.history ↔ runner.Run Opened newRunner as r) ∧
    (∀ i, r.stops i = .closeManual → r.closed = false) ∧
    (r.startOnce = true → ∀ i, (r.stops i).inside = true → CanMove r i) ∧
    (r.startOnce = true → ∀ i, r.stops i = .called →
      (∃ r', step r (.enter i) = some r') ∨ ∃ j, (r.stops j).inside = true ∧ CanMove r j) := by
  have hstops := stops_of_run h
  have hinv := inv_of_reaches ⟨_, _, rfl, h⟩
  refine ⟨run_panicked h, fun i hi => ?_, fun hs i => hstops.canMove hinv hs, fun hs i hi => ?_⟩
  · exact hstops.opened (by rw [hi]; rfl) (by rw [hi]; simp)
  · exact (hstops.called hi).imp_right fun ⟨j, hj⟩ => ⟨j, hj, hstops.canMove hinv hs hj⟩

/-- It holds of a run with two triggers that come in time. -/
theorem runner_survives_twoTriggers :
    ∃ r, runner.Run System.Any newRunner twoTriggers r ∧ .panicked ∉ r.history := by
  have hrun : runner.Run System.Any newRunner twoTriggers _ := System.run_of_exec rfl
  have hopened : runner.Run Opened newRunner twoTriggers _ :=
    (System.run_of_execWhere (C := fun r a => a != .run || !r.closed) rfl).mono
      fun r a ha hrun => by simpa [hrun] using ha
  exact ⟨_, hrun, (runner_survives hrun).1.2 hopened⟩

/-- **A trigger behind `Stop` panics.** -/
theorem runner_panics : ∃ r, runner.Run System.Any newRunner
    [.start, .stop 0, .enter 0, .proceed 0, .proceed 0, .recvManual, .next, .proceed 0, .run] r ∧
      r.history = [.panicked, .stopReturned, .exited, .stopCalled] :=
  ⟨_, System.run_of_exec rfl, rfl⟩

end UAssign.Sched

import UAssign.App.Lifecycle

/-!
# Shutdown cut short

`Shutdown` does not panic in the runs in which it finds the server, and in no others but for
`autoPullRunner`; but once it has closed the server, `main` may return, so that it is at no point
sure to go through all its statements. Until then only a task of the runner that it stops, or the
websocket handlers, hold it up (`shutdown_iff`).
-/

namespace UAssign.Lifecycle

/-! ## What may happen to `Shutdown` -/

/-- `Shutdown` uses the server and `autoPullRunner` only if they exist. -/
def Finds (a : App) (s : State) : Act → Prop
  | .shutdown => ∀ st rest, s.shutdown = some (st :: rest) →
    (.srv ∈ st.uses → .srv ∈ s.created) ∧
      (.autoPullRunner ∈ st.uses → a.config.disableAutoPull = false)
  | .run _ | .signal | .exit | .task _ _ | .handler _ => True

/-- The process goes on. -/
def State.Live (s : State) : Prop := s.exited = false ∧ s.panicked = none

/-- The process has ended, by a panic or with `main`, while `Shutdown` had something left to do. -/
def State.CutShort (s : State) : Prop :=
  (s.panicked ≠ none ∨ s.exited = true) ∧ ∃ st rest, s.shutdown = some (st :: rest)

/-- `Shutdown` waits for a task of the runner that it stops, or for the websocket handlers. -/
inductive Waits (s : State) : Stmt → Prop
  | task {st : Stmt} {c : Component} (hop : st.op = .stop c)
    (hpc : (s.tasks c).stops 0 = .await) (hloop : (s.tasks c).loop = .running) : Waits s st
  | handlers {st : Stmt} (hop : st.op = .websockets .wait) (hwsWG : s.handlers.wsWG ≠ []) :
    Waits s st

/-- `Shutdown` goes on, or the loop of the runner that it stops, if that is not in a task. -/
def Moves (a : App) (s : State) (st : Stmt) : Prop :=
  (∃ s', (lifecycle a).step s .shutdown = some s') ∨
    ∃ c b s', st.op = .stop c ∧ b.ofLoop = true ∧ b ≠ .finish ∧
      (lifecycle a).step s (.task c b) = some s'

section

variable {a : App} {s s' : State} {act : Act} {st : Stmt} {rest : List Stmt} {ok : Bool}
  {c : Component}

/-! ## What a process that goes on can do -/

theorem step_run (h : s.Live) : (lifecycle a).step s (.run ok) = s.runs ok :=
  if_neg (by simp [h.1, h.2])

theorem step_shutdown (h : s.Live) : (lifecycle a).step s .shutdown = s.shuts :=
  if_neg (by simp [h.1, h.2])

theorem step_signal (h : s.Live) (hnone : s.shutdown = none) :
    (lifecycle a).step s .signal = some { s with shutdown := some a.shutdown } := by
  have hisNone : s.shutdown.isNone = true := by rw [hnone]; rfl
  exact (if_neg (by simp [h.1, h.2])).trans (if_pos hisNone)

theorem step_exit (h : s.Live) (hrun : s.run = .returned ok) :
    (lifecycle a).step s .exit = some { s with exited := true } := by
  refine (if_neg (by simp [h.1, h.2])).trans ?_
  rw [hrun]

theorem step_task {b : Sched.Act} (h : s.Live) (hc : c ∈ s.created) (hb : ofTask b = true) :
    (lifecycle a).step s (.task c b) = (Sched.step (s.tasks c) b).map fun r => s.put c r :=
  (if_neg (by simp [h.1, h.2])).trans (if_pos ⟨hc, hb⟩)

theorem shuts_eq (hst : s.shutdown = some (st :: rest)) (hmissing : s.missing st = none) :
    s.shuts = s.performs st rest := by
  unfold State.shuts
  rw [hst]
  dsimp only
  rw [hmissing]

theorem shuts_missing (hst : s.shutdown = some (st :: rest)) (hmissing : s.missing st = some c) :
    s.shuts = some { s with panicked := some c } := by
  unfold State.shuts
  rw [hst]
  dsimp only
  rw [hmissing]

/-! ## Panics -/

/-- Without the server, `Shutdown` is in front of its first statement. -/
theorem Inv.front (h : Inv a s) (hst : s.shutdown = some (st :: rest)) (hsrv : .srv ∉ s.created) :
    st = { uses := [.srv], closes := true } := by
  rcases (h.shutdown _ hst).2 with hall | hfront
  · exact shutdown_head hall.symm
  · exact absurd hfront.1 hsrv

/-- What `Shutdown` comes to is there if and only if the server is and autopull is not disabled, as
far as the statement uses them. -/
theorem Inv.finds_iff (h : Inv a s) (hst : s.shutdown = some (st :: rest)) :
    s.missing st = none ↔ Finds a s .shutdown := by
  rw [missing_eq_none]
  constructor
  · intro huses st' rest' hst'
    cases hst.symm.trans hst'
    refine ⟨huses .srv, fun hauto => ?_⟩
    have hsrv : .srv ∈ s.created := by
      by_contra hsrv
      rw [h.front hst hsrv] at hauto
      cases List.mem_singleton.1 hauto
    exact (h.mem_created hsrv).1 (huses _ hauto) rfl
  · intro hfinds c hc
    obtain ⟨hfirst, hauto⟩ := hfinds st rest hst
    have hsrv : .srv ∈ s.created := by
      by_contra hsrv
      refine hsrv (hfirst ?_)
      rw [h.front hst hsrv]
      exact List.mem_singleton_self _
    exact (h.mem_created hsrv).2 fun heq => hauto (heq ▸ hc)

theorem Performs.panicked (h : Performs s st rest s') : s'.panicked = s.panicked := by
  cases h <;> rfl

/-- **A step does not panic if and only if `Shutdown` finds what it uses.** -/
theorem Inv.panicked_iff (h : Inv a s) (hs : Lifecycle.step a s act = some s') :
    s'.panicked = none ↔ s.panicked = none ∧ Finds a s act := by
  obtain ⟨-, hpanicked, hs⟩ := step_spec hs
  cases act with
  | run ok => exact iff_of_true ((h.runs hs).2.1.trans hpanicked) ⟨hpanicked, trivial⟩
  | signal | exit =>
    obtain ⟨-, rfl⟩ := hs
    exact iff_of_true hpanicked ⟨hpanicked, trivial⟩
  | shutdown =>
    obtain ⟨st, rest, hst, ⟨c, hmissing, rfl⟩ | ⟨hmissing, hperforms⟩⟩ := shuts_spec hs
    · refine iff_of_false (fun hnone => by cases hnone) fun hfinds => ?_
      cases hmissing.symm.trans ((h.finds_iff hst).2 hfinds.2)
    · exact iff_of_true (hperforms.panicked.trans hpanicked)
        ⟨hpanicked, (h.finds_iff hst).1 hmissing⟩
  | task c act | handler act =>
    obtain ⟨-, r, -, rfl⟩ := hs
    exact iff_of_true hpanicked ⟨hpanicked, trivial⟩

/-- **A run does not panic if and only if `Shutdown` finds what it uses in each of its steps.** -/
theorem panicked_iff {acts : List Act} (h : (lifecycle a).Run System.Any (.initial a) acts s) :
    s.panicked = none ↔ (lifecycle a).Run (Finds a) (.initial a) acts s := by
  induction h with
  | nil => exact iff_of_true rfl .nil
  | snoc hrun _ hs ih => rw [(inv_of_run hrun).panicked_iff hs, ih, hrun.snoc_iff hs]

/-! ## The end of `main` -/

/-- `main` returns once `Run` has. -/
theorem cutShort_returned (h : s.Live) (hrun : s.run = .returned ok)
    (hst : s.shutdown = some (st :: rest)) :
    (lifecycle a).Can (fun _ act => act ≠ .run false) State.CutShort s :=
  .step (a := Act.exit) (by simp) (step_exit h hrun) (.here ⟨.inr rfl, st, rest, hst⟩)

/-- **Once the server has been closed**, `Run` can return. -/
theorem Inv.cutShort_closed (h : Inv a s) (hlive : s.Live) (hclosed : s.closed = true)
    (hst : s.shutdown = some (st :: rest)) :
    (lifecycle a).Can (fun _ act => act ≠ .run false) State.CutShort s := by
  rcases h.serves (h.closed hclosed) with hrun | ⟨ok, hrun⟩
  · have hruns : s.runs true = some { s with run := .returned true } := by
      unfold State.runs
      rw [hrun]
      exact if_neg (by simp [hclosed])
    exact .step (a := Act.run true) (by simp) ((step_run hlive).trans hruns)
      (cutShort_returned hlive rfl hst)
  · exact cutShort_returned hlive hrun hst

/-- **`Shutdown` can be cut short from wherever it is.** -/
theorem Inv.cutShort (h : Inv a s) (hlive : s.Live) (hst : s.shutdown = some (st :: rest)) :
    (lifecycle a).Can (fun _ act => act ≠ .run false) State.CutShort s := by
  rcases (h.shutdown _ hst).2 with hall | ⟨-, hclosed⟩
  · cases hmissing : s.missing st with
    | some c =>
      exact .step (a := Act.shutdown) (by simp)
        ((step_shutdown hlive).trans (shuts_missing hst hmissing))
        (.here ⟨.inl (by simp), st, rest, hst⟩)
    | none =>
      -- the server is closed, and there are other statements
      have hshuts : s.shuts = some (s.passes st rest) := by
        rw [shuts_eq hst hmissing, shutdown_head hall.symm]
        rfl
      obtain ⟨st', rest', rfl⟩ : ∃ st' rest', rest = st' :: rest' := ⟨_, _, (List.cons.inj hall).2⟩
      have hclosed : (s.passes st (st' :: rest')).closed = true := by
        rw [shutdown_head hall.symm]
        exact Bool.or_true _
      exact .step (a := Act.shutdown) (by simp) ((step_shutdown hlive).trans hshuts)
        ((h.shuts hshuts).cutShort_closed hlive hclosed rfl)
  · exact h.cutShort_closed hlive hclosed hst

/-- **There is no point from which `Shutdown` is sure to go through all its statements.** -/
theorem Inv.can_cutShort (h : Inv a s) (hlive : s.Live) (hleft : s.shutdown ≠ some []) :
    (lifecycle a).Can (fun _ act => act ≠ .run false) State.CutShort s := by
  cases hshutdown : s.shutdown with
  | none =>
    have hstep : Lifecycle.step a s .signal = some { s with shutdown := some a.shutdown } :=
      step_signal hlive hshutdown
    exact .step (a := Act.signal) (by simp) hstep ((h.step hstep).cutShort hlive rfl)
  | some left =>
    cases left with
    | nil => exact absurd hshutdown hleft
    | cons st rest => exact h.cutShort hlive hshutdown

/-! ## What holds `Shutdown` up -/

/-- A runner that `Shutdown` stops is there, and has been started. -/
theorem Inv.stops_started (h : Inv a s) (hst : s.shutdown = some (st :: rest))
    (hmissing : s.missing st = none) (hop : st.op = .stop c) :
    c ∈ s.created ∧ (s.tasks c).startOnce = true := by
  have hmem : st ∈ a.shutdown := (h.shutdown _ hst).1.subset List.mem_cons_self
  have hc : c ∈ s.created := by
    refine missing_eq_none.1 hmissing c ?_
    rw [(started_of_stop hmem hop).1]
    exact List.mem_singleton_self c
  have hsrv : .srv ∈ s.created := by
    by_contra hsrv
    rw [h.front hst hsrv] at hop
    cases hop
  exact ⟨hc, h.startOnce hsrv hmem hop hc⟩

/-- **A `Stop` goes on**, or the loop that it waits for does, unless that is in a task. -/
theorem Inv.stop_moves (h : Inv a s) (hlive : s.Live) (hst : s.shutdown = some (st :: rest))
    (hmissing : s.missing st = none) (hop : st.op = .stop c) (hwaits : ¬Waits s st) :
    Moves a s st := by
  obtain ⟨hc, hstarted⟩ := h.stops_started hst hmissing hop
  have hkept := h.tasks c
  have hcall : (s.tasks c).stops 0 = .returned ∨
      (∃ r, Sched.step (s.tasks c) (stopAct ((s.tasks c).stops 0)) = some r) → Moves a s st := by
    intro hcall
    refine .inl ?_
    rw [step_shutdown hlive, shuts_eq hst hmissing, State.performs, hop]
    dsimp only
    split
    · exact ⟨_, rfl⟩
    · next hne =>
      obtain ⟨r, hr⟩ := hcall.resolve_left hne
      exact ⟨_, by rw [hr]; rfl⟩
  cases hpc : (s.tasks c).stops 0 with
  | returned => exact hcall (.inl hpc)
  | idle => exact hcall (.inr ⟨_, by rw [hpc]; exact if_pos hpc⟩)
  | called =>
    rcases hkept.stops.called hpc with hr | ⟨i, hi⟩
    · exact hcall (.inr (by rw [hpc]; exact hr))
    · -- nobody else calls `Stop`
      by_cases hzero : i = 0
      · rw [hzero, hpc] at hi
        cases hi
      · rw [hkept.others i hzero] at hi
        cases hi
  | stopTicker | closeManual =>
    exact hcall (.inr ⟨_, by rw [hpc, stopAct, Sched.step, Sched.Runner.proceed, hpc]⟩)
  | await =>
    obtain ⟨b, r, hb, hr⟩ := hkept.stops.canMove hkept.inv hstarted (by rw [hpc]; rfl)
    rcases hb with rfl | hb
    · exact hcall (.inr ⟨r, by rw [hpc]; exact hr⟩)
    · have hne : b ≠ .finish := by
        rintro rfl
        cases Sched.step_next hr with
        | finish hloop => exact hwaits (.task hop hpc hloop)
      have htask : ofTask b = true := by
        cases b <;> first | rfl | cases hb
      exact .inr ⟨c, b, _, hop, hb, hne, by rw [step_task hlive hc htask, hr]; rfl⟩

/-- **What the websocket handlers hold up** is the wait for them. -/
theorem Inv.websockets_moves {b : App.Shutdown.Act} (h : Inv a s) (hlive : s.Live)
    (hst : s.shutdown = some (st :: rest)) (hmissing : s.missing st = none)
    (hop : st.op = .websockets b) (hwaits : ¬Waits s st) : Moves a s st := by
  have hstage : s.handlers.stage = stageOf (st :: rest) := by
    have hstage := h.stage
    rwa [hst] at hstage
  have hstep : ∃ h', App.Shutdown.step s.handlers b = some h' := by
    rcases staged_websockets (staged_shutdown (h.shutdown _ hst).1) hop with
      ⟨rfl, hnow, -⟩ | ⟨rfl, hnow, -⟩ | ⟨rfl, hnow, -⟩
    · exact ⟨_, if_pos (hstage.trans hnow)⟩
    · exact ⟨_, if_pos (hstage.trans hnow)⟩
    · have hwsWG : s.handlers.wsWG = [] := by
        by_contra hne
        exact hwaits (.handlers hop hne)
      exact ⟨_, if_pos ⟨hstage.trans hnow, hwsWG⟩⟩
  obtain ⟨h', hh⟩ := hstep
  refine .inl ⟨{ s.passes st rest with handlers := h' }, ?_⟩
  rw [step_shutdown hlive, shuts_eq hst hmissing, State.performs, hop]
  dsimp only
  rw [hh]
  rfl

/-- Where `Shutdown` waits, it does not go on, and neither does the loop. -/
theorem Waits.not_moves (hw : Waits s st) (hlive : s.Live) (hst : s.shutdown = some (st :: rest))
    (hmissing : s.missing st = none) : ¬Moves a s st := by
  rintro (⟨s', hs⟩ | ⟨c, b, s', hop, hb, hne, hs⟩)
  · rw [step_shutdown hlive, shuts_eq hst hmissing, State.performs] at hs
    cases hw with
    | task hop hpc hloop =>
      simp only [hop, hpc, stopAct, Sched.step, Sched.Runner.proceed, hloop] at hs
      cases hs
    | handlers hop hwsWG =>
      simp only [hop, App.Shutdown.step, hwsWG, and_false] at hs
      cases hs
  · cases hw with
    | handlers hop' => cases hop.symm.trans hop'
    | task hop' hpc hloop =>
      cases hop.symm.trans hop'
      have hs : Lifecycle.step a s (.task c b) = some s' := hs
      obtain ⟨-, -, -, r, hr, -⟩ := step_spec hs
      cases Sched.step_next hr with
      | recvTick hl | recvManual hl | begin hl | exit hl => cases hloop.symm.trans hl
      | finish => exact hne rfl
      | started | start | panic | run | tick | stop | enter | enterDone | stopTicker | closeManual
      | await => cases hb

/-- **`Shutdown` is held up if and only if it waits**, where it finds what it uses. -/
theorem Inv.moves_iff (h : Inv a s) (hlive : s.Live) (hst : s.shutdown = some (st :: rest))
    (hfinds : Finds a s .shutdown) : Moves a s st ↔ ¬Waits s st := by
  have hmissing := (h.finds_iff hst).2 hfinds
  refine ⟨fun hmoves hw => hw.not_moves hlive hst hmissing hmoves, fun hw => ?_⟩
  cases hop : st.op with
  | stop c => exact h.stop_moves hlive hst hmissing hop hw
  | websockets b => exact h.websockets_moves hlive hst hmissing hop hw
  | other | start =>
    refine .inl ⟨s.passes st rest, ?_⟩
    rw [step_shutdown hlive, shuts_eq hst hmissing, State.performs, hop]

/-- **Shutdown is safe at no time.** A run of the process is without a panic if and only if
`Shutdown`, in each of its steps, finds what it uses: the server, and, at `autoPullRunner`, autopull
not disabled. From every state of every run, before or within `Shutdown`, the process can end before
`Shutdown` is through. Until it does, and where it finds what it uses, `Shutdown` goes on, or the loop
of the runner that it stops, unless that is in a task, or `Shutdown` waits for handlers that are
counted. -/
theorem shutdown_iff {a : App} {s : State} {acts : List Act}
    (h : (lifecycle a).Run System.Any (.initial a) acts s) :
    (s.panicked = none ↔ (lifecycle a).Run (Finds a) (.initial a) acts s) ∧
    (s.Live → s.shutdown ≠ some [] →
      (lifecycle a).Can (fun _ act => act ≠ .run false) State.CutShort s) ∧
    (∀ st rest, s.Live → s.shutdown = some (st :: rest) → Finds a s .shutdown →
      (Moves a s st ↔ ¬Waits s st)) :=
  ⟨panicked_iff h, (inv_of_run h).can_cutShort, fun _ _ => (inv_of_run h).moves_iff⟩

end

/-- A config that is accepted; the key is one of 16 zeros. -/
def accepted (disableAutoPull : Bool) : Config :=
  { letsEncryptDomain := "", certFile := "", keyFile := "", database := "ua", migrateUp := false,
    migrateReset := false, aesKey := "AAAAAAAAAAAAAAAAAAAAAA==", websocketTimeout := 60,
    forceInactive := false, disableAutoPull := disableAutoPull }

/-- The app that `NewApp` makes of it. -/
def acceptedApp (disableAutoPull : Bool) : App :=
  { config := accepted disableAutoPull, aesKey := List.replicate 16 0, cli := false }

theorem newApp_accepted (disableAutoPull : Bool) :
    newApp (accepted disableAutoPull) false = .ok (acceptedApp disableAutoPull) := by
  have hbytes : (accepted disableAutoPull).aesKey.toUTF8.data.toList =
      List.replicate 22 65 ++ [61, 61] := rfl
  have hkey : Base64.decode (List.replicate 22 65 ++ [61, 61]) = some (List.replicate 16 0) := by
    decide
  have hverify : (accepted disableAutoPull).verify = .ok () := by
    cases disableAutoPull <;> rfl
  have hdecode : Base64.decode (accepted disableAutoPull).aesKey.toUTF8.data.toList =
      some (List.replicate 16 0) := by
    rw [hbytes, hkey]
  unfold newApp
  rw [hverify, hdecode]
  rfl

/-- `Run` has come to the call that serves, there is a signal, and the server is closed. -/
def closing (a : App) : List Act := List.replicate a.run.length (.run true) ++ [.signal, .shutdown]

/-- `Shutdown` stops a runner, whose loop selects, up to the wait for the loop. -/
def stopping : List Act := [.shutdown, .shutdown, .shutdown, .shutdown]

/-- The loop ends, and so does the `Stop`. -/
def stoppedTask (c : Component) : List Act :=
  stopping ++ [.task c .recvManual, .task c .next, .shutdown, .shutdown]

/-- It holds of a run in which the server is there at the signal, and `Shutdown` is in its first
`Stop`. -/
theorem shutdown_iff_served : ∃ s,
    (lifecycle (acceptedApp false)).Run (Finds (acceptedApp false)) (.initial (acceptedApp false))
      (closing (acceptedApp false) ++ stopping) s ∧
    Moves (acceptedApp false) s (stopped .cleanInactiveRunner) ∧
    (lifecycle (acceptedApp false)).Can (fun _ act => act ≠ .run false) State.CutShort s := by
  have hrun : (lifecycle (acceptedApp false)).Run System.Any (.initial (acceptedApp false))
      (closing (acceptedApp false) ++ stopping) _ := System.run_of_exec rfl
  obtain ⟨hfinds, hcut, hmoves⟩ := shutdown_iff hrun
  have hhere : ∀ st rest, some (acceptedApp false).shutdown.tail = some (st :: rest) →
      (.srv ∈ st.uses → .srv ∈ (acceptedApp false).created (acceptedApp false).run) ∧
        (.autoPullRunner ∈ st.uses → false = false) := by
    intro st rest hst
    cases hst
    exact ⟨by simp [stopped], fun _ => rfl⟩
  have hleft : some (acceptedApp false).shutdown.tail ≠ some [] := by simp [App.shutdown]
  refine ⟨_, hfinds.1 rfl, (hmoves _ _ ⟨rfl, rfl⟩ rfl hhere).2 ?_, hcut ⟨rfl, rfl⟩ hleft⟩
  rintro (⟨hop, -, hloop⟩ | ⟨hop, -⟩)
  · cases hop
    have hselecting : Sched.Loop.selecting = .running := hloop
    cases hselecting
  · cases hop

/-- **Shutdown is not safe at any time**: at a signal before the server is there, it is nil; with
`DisableAutoPull`, `autoPullRunner` is; and once the server has been closed, `main` can return. -/
theorem shutdown_unsafe :
    newApp (accepted true) false = .ok (acceptedApp true) ∧
    (∃ s, (lifecycle (acceptedApp true)).Run System.Any (.initial (acceptedApp true))
      [.signal, .shutdown] s ∧ s.panicked = some .srv) ∧
    (∃ s, (lifecycle (acceptedApp true)).Run System.Any (.initial (acceptedApp true))
      (closing (acceptedApp true) ++ stoppedTask .cleanInactiveRunner ++
        stoppedTask .checkExpiredRunner ++ [.shutdown]) s ∧ s.panicked = some .autoPullRunner) ∧
    newApp (accepted false) false = .ok (acceptedApp false) ∧
    ∃ s, (lifecycle (acceptedApp false)).Run System.Any (.initial (acceptedApp false))
      (closing (acceptedApp false) ++ [.run true, .exit]) s ∧
        s.exited = true ∧ s.shutdown = some (acceptedApp false).shutdown.tail :=
  ⟨newApp_accepted true, ⟨_, System.run_of_exec rfl, rfl⟩, ⟨_, System.run_of_exec rfl, rfl⟩,
    newApp_accepted false, ⟨_, System.run_of_exec rfl, rfl, rfl⟩⟩

end UAssign.Lifecycle

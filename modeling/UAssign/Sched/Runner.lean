import UAssign.Lib.History
import UAssign.Lib.Transition

/-!
# Scheduled tasks

`pkg/sched/sched.go`: a goroutine selects between the ticker and the channel `manual`, each with one
slot, and calls `fn`; `Stop` closes `manual` and waits for the goroutine. A channel that has been
closed still hands out what is in its slot, so that a trigger is not lost. `Inv` follows the history
of a runner (`runner_safe`).
-/

namespace UAssign.Sched

open History

/-! ## The runner -/

/-- Where the goroutine of the loop is. `received` is behind the `select`, with its `ok`. -/
inductive Loop where
  | idle
  | selecting
  | received (ok : Bool)
  | running
  | exited
  deriving DecidableEq

/-- Where a call of `Stop` is: before or inside `stopOnce.Do`, and then at one of the three
statements of `stop`. -/
inductive StopPc where
  | idle
  | called
  | stopTicker
  | closeManual
  | await
  | returned
  deriving DecidableEq

/-- `sync.Once`. -/
inductive Once where
  | free
  | busy
  | done
  deriving DecidableEq

/-- What happens: the calls of `Run` and `Stop`, the executions of `fn` and the end of the loop. A
call of `Run` may find `manual` closed, which panics. -/
inductive Event where
  | ran
  | panicked
  | stopCalled
  | stopReturned
  | began
  | finished
  | exited
  deriving DecidableEq

/-- `Runner`, with its goroutine, the calls of `Stop` and its history. `tick` and `manual` are the
slots of the two channels. -/
structure Runner where
  startOnce : Bool
  stopOnce : Once
  ticking : Bool
  tick : Bool
  manual : Bool
  closed : Bool
  loop : Loop
  stops : Nat → StopPc
  history : List Event

/-- `NewRunner`. -/
def newRunner : Runner :=
  { startOnce := false, stopOnce := .free, ticking := true, tick := false, manual := false,
    closed := false, loop := .idle, stops := fun _ => .idle, history := [] }

/-- The steps: `Start` and `Run`, which do not block, the ticker, the statements of the loop, and
the call, the entry into `stopOnce.Do` and the statements of a `Stop`. -/
inductive Act where
  | start
  | run
  | tick
  | recvTick
  | recvManual
  | next
  | finish
  | stop (i : Nat)
  | enter (i : Nat)
  | proceed (i : Nat)
  deriving DecidableEq

namespace Runner

/-- An event. -/
def log (r : Runner) (e : Event) : Runner := { r with history := e :: r.history }

/-- A call of `Stop` has moved. -/
def put (r : Runner) (i : Nat) (pc : StopPc) : Runner :=
  { r with stops := fun j => if j = i then pc else r.stops j }

/-- `Start`. -/
def start (r : Runner) : Runner :=
  if r.startOnce then r else { r with startOnce := true, loop := .selecting }

/-- `Run`: a trigger for the slot, if it is free. -/
def run (r : Runner) : Runner :=
  if r.closed then r.log .panicked else { r with manual := true }.log .ran

/-- The loop behind its `select`. -/
def next (r : Runner) : Option Runner :=
  match r.loop with
  | .received true => some ({ r with loop := .running }.log .began)
  | .received false => some ({ r with loop := .exited }.log .exited)
  | _ => none

/-- A call of `Stop` enters `stopOnce.Do`: the first one executes `stop`, and the others wait until
it is through. -/
def enter (r : Runner) (i : Nat) : Option Runner :=
  match r.stopOnce with
  | .free => some { r.put i .stopTicker with stopOnce := .busy }
  | .busy => none
  | .done => some ((r.put i .returned).log .stopReturned)

/-- `stop`. -/
def proceed (r : Runner) (i : Nat) : Option Runner :=
  match r.stops i with
  | .stopTicker => some { r.put i .closeManual with ticking := false }
  | .closeManual => some { r.put i .await with closed := true }
  | .await =>
    if r.loop = .exited then
      some ({ r.put i .returned with stopOnce := .done }.log .stopReturned)
    else none
  | _ => none

end Runner

/-- One step. -/
def step (r : Runner) : Act → Option Runner
  | .start => some r.start
  | .run => some r.run
  | .tick => if r.ticking = true then some { r with tick := true } else none
  | .recvTick =>
    if r.loop = .selecting ∧ r.tick = true then
      some { r with tick := false, loop := .received true }
    else none
  | .recvManual =>
    if r.loop = .selecting ∧ (r.manual = true ∨ r.closed = true) then
      some { r with manual := false, loop := .received r.manual }
    else none
  | .next => r.next
  | .finish =>
    if r.loop = .running then some ({ r with loop := .selecting }.log .finished) else none
  | .stop i => if r.stops i = .idle then some ((r.put i .called).log .stopCalled) else none
  | .enter i => if r.stops i = .called then r.enter i else none
  | .proceed i => r.proceed i

/-- A runner and everybody who uses it. -/
def runner : System Runner Act := { init := (· = newRunner), step := step }

/-- The steps that the loop takes by itself. -/
def Act.ofLoop : Act → Bool
  | .recvTick | .recvManual | .next | .finish => true
  | _ => false

/-- What the steps do, where they are taken. -/
inductive Next (r : Runner) : Act → Runner → Prop
  | started (honce : r.startOnce = true) : Next r .start r
  | start (honce : r.startOnce = false) :
    Next r .start { r with startOnce := true, loop := .selecting }
  | panic (hclosed : r.closed = true) : Next r .run (r.log .panicked)
  | run (hopen : r.closed = false) : Next r .run ({ r with manual := true }.log .ran)
  | tick : Next r .tick { r with tick := true }
  | recvTick (hl : r.loop = .selecting) :
    Next r .recvTick { r with tick := false, loop := .received true }
  | recvManual (hl : r.loop = .selecting) (hready : r.manual = true ∨ r.closed = true) :
    Next r .recvManual { r with manual := false, loop := .received r.manual }
  | begin (hl : r.loop = .received true) : Next r .next ({ r with loop := .running }.log .began)
  | exit (hl : r.loop = .received false) : Next r .next ({ r with loop := .exited }.log .exited)
  | finish (hl : r.loop = .running) : Next r .finish ({ r with loop := .selecting }.log .finished)
  | stop {i : Nat} (hi : r.stops i = .idle) : Next r (.stop i) ((r.put i .called).log .stopCalled)
  | enter {i : Nat} (hi : r.stops i = .called) (hfree : r.stopOnce = .free) :
    Next r (.enter i) { r.put i .stopTicker with stopOnce := .busy }
  | enterDone {i : Nat} (hi : r.stops i = .called) (hdone : r.stopOnce = .done) :
    Next r (.enter i) ((r.put i .returned).log .stopReturned)
  | stopTicker {i : Nat} (hi : r.stops i = .stopTicker) :
    Next r (.proceed i) { r.put i .closeManual with ticking := false }
  | closeManual {i : Nat} (hi : r.stops i = .closeManual) :
    Next r (.proceed i) { r.put i .await with closed := true }
  | await {i : Nat} (hi : r.stops i = .await) (hl : r.loop = .exited) :
    Next r (.proceed i) ({ r.put i .returned with stopOnce := .done }.log .stopReturned)

theorem step_next {r r' : Runner} {a : Act} (h : step r a = some r') : Next r a r' := by
  cases a with
  | start =>
    obtain rfl := Option.some.inj h
    unfold Runner.start
    split
    · next honce => exact .started honce
    · next honce => exact .start (Bool.eq_false_iff.2 honce)
  | run =>
    obtain rfl := Option.some.inj h
    unfold Runner.run
    split
    · next hclosed => exact .panic hclosed
    · next hopen => exact .run (Bool.eq_false_iff.2 hopen)
  | tick =>
    obtain ⟨-, h⟩ := Option.ite_none_right_eq_some.1 h
    exact Option.some.inj h ▸ .tick
  | recvTick =>
    obtain ⟨⟨hl, -⟩, h⟩ := Option.ite_none_right_eq_some.1 h
    exact Option.some.inj h ▸ .recvTick hl
  | recvManual =>
    obtain ⟨⟨hl, hready⟩, h⟩ := Option.ite_none_right_eq_some.1 h
    exact Option.some.inj h ▸ .recvManual hl hready
  | next =>
    have h : r.next = some r' := h
    unfold Runner.next at h
    split at h
    · next hl => exact Option.some.inj h ▸ .begin hl
    · next hl => exact Option.some.inj h ▸ .exit hl
    · cases h
  | finish =>
    obtain ⟨hl, h⟩ := Option.ite_none_right_eq_some.1 h
    exact Option.some.inj h ▸ .finish hl
  | stop i =>
    obtain ⟨hi, h⟩ := Option.ite_none_right_eq_some.1 h
    exact Option.some.inj h ▸ .stop hi
  | enter i =>
    obtain ⟨hi, h⟩ := Option.ite_none_right_eq_some.1 h
    unfold Runner.enter at h
    split at h
    · next hfree => exact Option.some.inj h ▸ .enter hi hfree
    · cases h
    · next hdone => exact Option.some.inj h ▸ .enterDone hi hdone
  | proceed i =>
    have h : r.proceed i = some r' := h
    unfold Runner.proceed at h
    split at h
    · next hi => exact Option.some.inj h ▸ .stopTicker hi
    · next hi => exact Option.some.inj h ▸ .closeManual hi
    · next hi =>
      obtain ⟨hl, h⟩ := Option.ite_none_right_eq_some.1 h
      exact Option.some.inj h ▸ .await hi hl
    · cases h

/-! ## The invariant -/

/-- An execution of `fn` is in progress. -/
def executing : List Event → Bool := since (fun e _ => e == .began) (· == .finished)

/-- A call of `Run` before the first `Stop` has not been followed by an execution yet. -/
def owed : List Event → Bool :=
  since (fun e past => e == .ran && !past.contains .stopCalled) (· == .began)

/-- What each event finds: no two executions at once and none once a `Stop` has returned, no
execution in progress when it returns, and nobody waiting for one when the loop ends. -/
def Lawful (e : Event) (past : List Event) : Prop :=
  match e with
  | .began => executing past = false ∧ .stopReturned ∉ past
  | .finished => .stopReturned ∉ past
  | .stopReturned => executing past = false
  | .exited => owed past = false
  | .ran | .panicked | .stopCalled => True

/-- What all runs keep. -/
structure Inv (r : Runner) : Prop where
  executing : executing r.history = decide (r.loop = .running)
  owed : owed r.history = true → r.manual = true ∨ r.loop = .received true
  drained : r.loop = .received false ∨ r.loop = .exited → r.closed = true ∧ r.manual = false
  once : r.stopOnce = .done → r.loop = .exited
  returned : .stopReturned ∈ r.history → r.loop = .exited
  started : r.loop = .idle ↔ r.startOnce = false
  lawful : Always Lawful r.history

section

variable {r r' : Runner} {a : Act} {i : Nat} {pc : StopPc}

/-- A new runner. -/
theorem inv_newRunner : Inv newRunner where
  executing := rfl
  owed h := by cases h
  drained h := by rcases h with h | h <;> cases h
  once h := by cases h
  returned h := by cases h
  started := iff_of_true rfl rfl
  lawful := trivial

/-- While the loop has not ended, no `Stop` has returned. -/
theorem Inv.alive (h : Inv r) (hl : r.loop ≠ .exited) :
    r.stopOnce ≠ .done ∧ .stopReturned ∉ r.history :=
  ⟨fun hd => hl (h.once hd), fun hmem => hl (h.returned hmem)⟩

/-- **The loop moves** from one place inside it to another, and may start or end an execution. -/
theorem Inv.move {l : Loop} {history : List Event} {tick manual : Bool} (h : Inv r)
    (hidle : r.loop ≠ .idle) (hexit : r.loop ≠ .exited) (hl : l ≠ .idle)
    (hlawful : Always Lawful history) (hsame : .stopReturned ∈ history → .stopReturned ∈ r.history)
    (hexec : Sched.executing history = decide (l = .running))
    (howed : Sched.owed history = true → manual = true ∨ l = .received true)
    (hdrained : l = .received false ∨ l = .exited → r.closed = true ∧ manual = false) :
    Inv { r with tick := tick, manual := manual, loop := l, history := history } where
  executing := hexec
  owed := howed
  drained := hdrained
  once hd := ((h.alive hexit).1 hd).elim
  returned hmem := ((h.alive hexit).2 (hsame hmem)).elim
  started := iff_of_false hl fun hs => hidle (h.started.2 hs)
  lawful := hlawful

/-- `Start`, the first time. -/
theorem Inv.start (h : Inv r) (honce : r.startOnce = false) :
    Inv { r with startOnce := true, loop := .selecting } := by
  have hidle : r.loop = .idle := h.started.2 honce
  have hexit : r.loop ≠ .exited := by rw [hidle]; exact fun hl => by cases hl
  refine ⟨h.executing.trans (by rw [hidle]; rfl), fun ho => ?_, fun hl => ?_,
    fun hd => ((h.alive hexit).1 hd).elim, fun hmem => ((h.alive hexit).2 hmem).elim,
    iff_of_false (fun hl => by cases hl) (fun ht => by cases ht), h.lawful⟩
  · rcases h.owed ho with hm | hl
    · exact .inl hm
    · rw [hidle] at hl
      cases hl
  · rcases hl with hl | hl <;> cases hl

/-- An event before a `Stop` returns. -/
theorem Inv.returned_cons {e : Event} (h : Inv r) (hne : e ≠ .stopReturned)
    (hmem : .stopReturned ∈ e :: r.history) : r.loop = .exited :=
  h.returned ((List.mem_cons.1 hmem).resolve_left hne.symm)

/-- **The loop begins an execution**, which is what everybody has been waiting for. -/
theorem Inv.begin (h : Inv r) (hl : r.loop = .received true) :
    Inv ({ r with loop := .running }.log .began) := by
  have hidle : r.loop ≠ .idle := by rw [hl]; exact fun hl => by cases hl
  have hexit : r.loop ≠ .exited := by rw [hl]; exact fun hl => by cases hl
  refine h.move hidle hexit (fun hl => by cases hl)
    ⟨⟨h.executing.trans (by rw [hl]; rfl), (h.alive hexit).2⟩, h.lawful⟩ (fun hmem => ?_) rfl
    (fun ho => by cases ho) fun hl => by rcases hl with hl | hl <;> cases hl
  exact (List.mem_cons.1 hmem).resolve_left fun he => by cases he

/-- **The loop ends**, with the slot empty. -/
theorem Inv.exit (h : Inv r) (hl : r.loop = .received false) :
    Inv ({ r with loop := .exited }.log .exited) := by
  have hidle : r.loop ≠ .idle := by rw [hl]; exact fun hl => by cases hl
  have hexit : r.loop ≠ .exited := by rw [hl]; exact fun hl => by cases hl
  obtain ⟨hclosed, hempty⟩ := h.drained (.inl hl)
  have howed : Sched.owed r.history = false := by
    refine Bool.eq_false_iff.2 fun ho => ?_
    rcases h.owed ho with hm | hr
    · exact Bool.false_ne_true (hempty.symm.trans hm)
    · rw [hl] at hr
      cases hr
  refine h.move hidle hexit (fun hl => by cases hl) ⟨howed, h.lawful⟩ (fun hmem => ?_)
    (h.executing.trans (by rw [hl]; rfl)) (fun ho => ?_) fun _ => ⟨hclosed, hempty⟩
  · exact (List.mem_cons.1 hmem).resolve_left fun he => by cases he
  · exact (Bool.false_ne_true (howed.symm.trans ho)).elim

/-- **`Stop`** returns when the loop has ended. -/
theorem Inv.stopReturned (h : Inv r) {once : Once} (hl : r.loop = .exited) :
    Inv ({ r.put i pc with stopOnce := once }.log .stopReturned) where
  executing := h.executing
  owed := h.owed
  drained := h.drained
  once _ := hl
  returned _ := hl
  started := h.started
  lawful := ⟨h.executing.trans (by rw [hl]; rfl), h.lawful⟩

/-- **Each step** keeps the invariant. -/
theorem Inv.step (h : Inv r) (hs : step r a = some r') : Inv r' := by
  cases step_next hs with
  | started => exact h
  | start honce => exact h.start honce
  | panic =>
    exact { h with
      executing := h.executing
      owed := h.owed
      returned := h.returned_cons fun he => by cases he
      lawful := ⟨trivial, h.lawful⟩ }
  | run hopen =>
    exact { h with
      executing := h.executing
      owed := fun _ => .inl rfl
      drained := fun hl => (Bool.false_ne_true (hopen.symm.trans (h.drained hl).1)).elim
      returned := h.returned_cons fun he => by cases he
      lawful := ⟨trivial, h.lawful⟩ }
  | tick => exact { h with }
  | recvTick hl =>
    refine h.move (by rw [hl]; exact fun hl => by cases hl)
      (by rw [hl]; exact fun hl => by cases hl) (fun hl => by cases hl) h.lawful id
      (h.executing.trans (by rw [hl]; rfl)) (fun _ => .inr rfl) fun hl => ?_
    rcases hl with hl | hl <;> cases hl
  | recvManual hl hready =>
    refine h.move (by rw [hl]; exact fun hl => by cases hl)
      (by rw [hl]; exact fun hl => by cases hl) (fun hl => by cases hl) h.lawful id
      (h.executing.trans (by rw [hl]; rfl)) (fun ho => ?_) fun hl => ?_
    · rcases h.owed ho with hm | hr
      · exact .inr (by rw [hm])
      · rw [hl] at hr
        cases hr
    · -- nothing was in the slot
      rcases hl with hl | hl
      · have hm : r.manual = false := Loop.received.inj hl
        refine ⟨hready.resolve_left fun hm' => ?_, rfl⟩
        exact Bool.false_ne_true (hm.symm.trans hm')
      · cases hl
  | begin hl => exact h.begin hl
  | exit hl => exact h.exit hl
  | finish hl =>
    have hexit : r.loop ≠ .exited := by rw [hl]; exact fun hl => by cases hl
    refine h.move (by rw [hl]; exact fun hl => by cases hl) hexit (fun hl => by cases hl)
      ⟨(h.alive hexit).2, h.lawful⟩ (fun hmem => ?_) rfl (fun ho => ?_) fun hl => ?_
    · exact (List.mem_cons.1 hmem).resolve_left fun he => by cases he
    · rcases h.owed ho with hm | hr
      · exact .inl hm
      · rw [hl] at hr
        cases hr
    · rcases hl with hl | hl <;> cases hl
  | stop =>
    exact { h with
      executing := h.executing
      owed := h.owed
      returned := h.returned_cons fun he => by cases he
      lawful := ⟨trivial, h.lawful⟩ }
  | enter => exact { h with once := fun hd => by cases hd }
  | enterDone _ hdone => exact h.stopReturned (h.once hdone)
  | stopTicker => exact { h with }
  | closeManual => exact { h with drained := fun hl => ⟨rfl, (h.drained hl).2⟩ }
  | await _ hl => exact h.stopReturned hl

end

/-- The reachable states. -/
theorem inv_of_reaches {r : Runner} (h : runner.Reaches System.Any r) : Inv r :=
  h.invariant (fun _ h₀ => h₀ ▸ inv_newRunner) fun _ _ _ hi _ hs => hi.step hs

/-! ## Triggers -/

section

variable {r : Runner}

/-- The loop executes `fn`, having received a value. -/
theorem began_of_received (hl : r.loop = .received true) :
    runner.Run (fun _ a => a.ofLoop = true) r [.next]
      ({ r with loop := .running }.log .began) := by
  refine .single rfl ?_
  show r.next = _
  rw [Runner.next, hl]

/-- The loop executes `fn` for the trigger in its slot. -/
theorem began_of_selecting (hl : r.loop = .selecting) (hm : r.manual = true) :
    ∃ as r', runner.Run (fun _ a => a.ofLoop = true) r as r' ∧
      r'.history = .began :: r.history := by
  have hrecv : runner.step r .recvManual =
      some { r with manual := false, loop := .received true } := by
    rw [← hm]
    exact if_pos ⟨hl, .inl hm⟩
  have hrun : runner.Run (fun _ a => a.ofLoop = true) r [.recvManual] _ := .single rfl hrecv
  exact ⟨_, _, hrun.trans (began_of_received rfl), rfl⟩

/-- **A trigger is never lost**: as long as a call of `Run` from before the first `Stop` has not
been followed by an execution, the loop has one ahead, and once started needs nobody else for it. -/
theorem Inv.can_begin (h : Inv r) (ho : Sched.owed r.history = true) (hs : r.startOnce = true) :
    ∃ as r', runner.Run (fun _ a => a.ofLoop = true) r as r' ∧
      ∃ later, r'.history = later ++ r.history ∧ .began ∈ later := by
  have hpending := h.owed ho
  cases hl : r.loop with
  | idle => exact (Bool.false_ne_true ((h.started.1 hl).symm.trans hs)).elim
  | selecting =>
    have hm : r.manual = true := hpending.resolve_right fun hr => by
      rw [hl] at hr
      cases hr
    obtain ⟨as, r', hrun, hh⟩ := began_of_selecting hl hm
    exact ⟨as, r', hrun, [.began], hh, List.mem_cons_self⟩
  | received ok =>
    cases ok with
    | true => exact ⟨_, _, began_of_received hl, [.began], rfl, List.mem_cons_self⟩
    | false =>
      rcases hpending with hm | hr
      · exact (Bool.false_ne_true ((h.drained (.inl hl)).2.symm.trans hm)).elim
      · rw [hl] at hr
        cases hr
  | running =>
    have hm : r.manual = true := hpending.resolve_right fun hr => by
      rw [hl] at hr
      cases hr
    have hfinish : runner.step r .finish =
        some ({ r with loop := .selecting }.log .finished) := if_pos hl
    obtain ⟨as, r', hrun, hh⟩ := @began_of_selecting
      ({ r with loop := .selecting }.log .finished) rfl hm
    have hrun₁ : runner.Run (fun _ a => a.ofLoop = true) r [.finish] _ := .single rfl hfinish
    exact ⟨_, r', hrun₁.trans hrun, [.began, .finished], hh, List.mem_cons_self⟩
  | exited =>
    rcases hpending with hm | hr
    · exact (Bool.false_ne_true ((h.drained (.inr hl)).2.symm.trans hm)).elim
    · rw [hl] at hr
      cases hr

end

/-- **Scheduled tasks never overlap, lose no trigger and stop cleanly.** In every state that a run
of the ticker, the loop and any calls of `Start`, `Run` and `Stop` reaches, and for its history (the
newest event first):
an execution has finished before the next one begins;
every `Run` before the first `Stop` has been followed by an execution by the time the loop has
ended, and until it has been the loop has not ended and can get there by itself;
and once a `Stop` has returned, no execution is in progress or begins. -/
theorem runner_safe {r : Runner} (h : runner.Reaches System.Any r) :
    (∀ later mid earlier : List Event, r.history = later ++ .began :: (mid ++ .began :: earlier) →
      .finished ∈ mid) ∧
    (∀ later mid earlier : List Event, r.history = later ++ .exited :: (mid ++ .ran :: earlier) →
      .stopCalled ∉ earlier → .began ∈ mid) ∧
    (∀ later earlier : List Event, r.history = later ++ .ran :: earlier → .stopCalled ∉ earlier →
      .began ∉ later → r.startOnce = true → r.loop ≠ .exited ∧
        ∃ as r', runner.Run (fun _ a => a.ofLoop = true) r as r' ∧
          ∃ new, r'.history = new ++ r.history ∧ .began ∈ new) ∧
    (∀ later earlier : List Event, r.history = later ++ .stopReturned :: earlier →
      (.began ∉ later ∧ .finished ∉ later) ∧
      ∀ mid older : List Event, earlier = mid ++ .began :: older → .finished ∈ mid) := by
  have hi := inv_of_reaches h
  have hfinished : ∀ {mid older : List Event}, executing (mid ++ .began :: older) = false →
      .finished ∈ mid := fun hno => by
    obtain ⟨x, hx, hq⟩ := exists_of_since_eq_false hno rfl
    exact beq_iff_eq.1 hq ▸ hx
  have hran : ∀ {older : List Event}, .stopCalled ∉ older →
      (Event.ran == .ran && !older.contains .stopCalled) = true := fun hnot => by
    simpa using hnot
  have hlawful := hi.lawful
  refine ⟨fun later mid earlier hh => ?_, fun later mid earlier hh hnot => ?_,
    fun later earlier hh hnot hno hs => ?_,
    fun later earlier hh => ⟨⟨fun hb => ?_, fun hf => ?_⟩, ?_⟩⟩
  · rw [hh] at hlawful
    exact hfinished hlawful.past.1
  · rw [hh] at hlawful
    obtain ⟨x, hx, hq⟩ := exists_of_since_eq_false hlawful.past (hran hnot)
    exact beq_iff_eq.1 hq ▸ hx
  · have ho : owed r.history = true := by
      refine since_iff.2 ⟨later, _, earlier, hh, hran hnot, fun x hx => ?_⟩
      exact beq_eq_false_iff_ne.2 fun he => hno (he ▸ hx)
    refine ⟨fun hl => ?_, hi.can_begin ho hs⟩
    rcases hi.owed ho with hm | hr
    · exact Bool.false_ne_true ((hi.drained (.inr hl)).2.symm.trans hm)
    · rw [hl] at hr
      cases hr
  · obtain ⟨a, b, rfl⟩ := List.append_of_mem hb
    rw [hh, List.append_assoc, List.cons_append] at hlawful
    exact hlawful.past.2 (List.mem_append_right b List.mem_cons_self)
  · obtain ⟨a, b, rfl⟩ := List.append_of_mem hf
    rw [hh, List.append_assoc, List.cons_append] at hlawful
    exact hlawful.past (List.mem_append_right b List.mem_cons_self)
  · rintro mid older rfl
    rw [hh] at hlawful
    exact hfinished hlawful.past

/-- Two triggers while `fn` is executing, and a `Stop` before it has finished. -/
def twoTriggers : List Act :=
  [.start, .run, .recvManual, .next, .run, .run, .stop 0, .enter 0, .proceed 0, .proceed 0, .finish,
    .recvManual, .next, .finish, .recvManual, .next, .proceed 0]

/-- One more execution serves both of them before the loop ends. -/
theorem runner_safe_twoTriggers :
    ∃ r, runner.exec newRunner twoTriggers = some r ∧
      r.history = [.stopReturned, .exited, .finished, .began, .finished, .stopCalled, .ran, .ran,
        .began, .ran] ∧
      .began ∈ [Event.finished, .began, .finished, .stopCalled] := by
  refine ⟨_, rfl, rfl, ?_⟩
  have hrun : runner.Run System.Any newRunner twoTriggers _ := System.run_of_exec rfl
  obtain ⟨-, h, -⟩ := runner_safe ⟨_, _, rfl, hrun⟩
  exact h [.stopReturned] _ [.ran, .began, .ran] rfl (by decide)

end UAssign.Sched

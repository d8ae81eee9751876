import UAssign.App.Shutdown
import UAssign.Go.Base64
import UAssign.Sched.Late

/-!
# The life of the server

`Config.Verify`, `NewApp`, `App.Run` and `App.Shutdown` of `app/config.go` and `app/app.go`, and
what `main` makes of them: it starts a goroutine that calls `Shutdown` at a signal, and returns when
`Run` does. `Run` and `Shutdown` are lists of statements that create components and use them; the
statements of `Shutdown` that stop a runner, or wait for the websocket handlers, are those of
`Sched/Runner` and `App/Shutdown`. `Shutdown` uses `srv` first, which `Run` creates last, and
`autoPullRunner`, which may not exist (`shutdown_uses_iff`).
-/

namespace UAssign.Lifecycle

/-! ## The app -/

/-- What `Verify`, `NewApp`, `Run` and `Shutdown` look at of a `Config`. -/
structure Config where
  letsEncryptDomain : String
  certFile : String
  keyFile : String
  database : String
  migrateUp : Bool
  migrateReset : Bool
  aesKey : String
  websocketTimeout : Nat
  forceInactive : Bool
  disableAutoPull : Bool

/-- An error of `NewApp`. -/
inductive NewError where
  | new (text : String)
  | corruptInput
  deriving DecidableEq

/-- `Config.Verify`. -/
def Config.verify (c : Config) : Except NewError Unit :=
  if c.database = "" then .error (.new "database connection string cannot be empty")
  else if c.migrateUp ∧ c.migrateReset then
    .error (.new "both MigrateUp and MigrateReset cannot be set")
  else if c.letsEncryptDomain ≠ "" then
    if c.certFile ≠ "" ∨ c.keyFile ≠ "" then
      .error (.new "cannot use both Let's Encrypt and regular TLS certs at the same time")
    else .ok ()
  else if (c.certFile ≠ "" ∧ c.keyFile = "") ∨ (c.certFile = "" ∧ c.keyFile ≠ "") then
    .error (.new "both CertFile and KeyFile must be specified together")
  else .ok ()

/-- `App`, as `NewApp` makes it; `cli` says whether an option has set a client. -/
structure App where
  config : Config
  aesKey : List UInt8
  cli : Bool

/-- `NewApp`. -/
def newApp (config : Config) (cli : Bool) : Except NewError App := do
  config.verify
  let key ←
    if config.aesKey ≠ "" then
      match Base64.decode config.aesKey.toUTF8.data.toList with
      | some key => .ok key
      | none => .error .corruptInput
    else .ok []
  if key.length = 0 then .error (.new "zero-length aes key")
  else if key.length ∈ [16, 24, 32] then .ok { config := config, aesKey := key, cli := cli }
  else .error (.new "AES key must be of length 16, 24, or 32")

/-! ## Run and Shutdown -/

/-- The fields of an `App` that `Run` sets. -/
inductive Component where
  | cli
  | db
  | specStore
  | instanceStore
  | cleanInactiveRunner
  | checkExpiredRunner
  | autoPullImages
  | autoPullRunner
  | pruneRunner
  | wsManager
  | dockerCheckRunner
  | databaseCheckRunner
  | srv
  deriving DecidableEq

/-- What a statement does with a component, if that matters: `Start` and `Stop` of a runner, and
what `Shutdown` does among the websocket handlers. -/
inductive Op where
  | other
  | start (c : Component)
  | stop (c : Component)
  | websockets (act : App.Shutdown.Act)
  deriving DecidableEq

/-- A statement: the components it uses, which panics if they are nil, the one it creates, what it
does, whether it may fail, and whether it closes the server. -/
structure Stmt where
  uses : List Component := []
  creates : Option Component := none
  op : Op := .other
  fails : Bool := false
  closes : Bool := false
  deriving DecidableEq

/-- A runner that is created and started. -/
def started (c : Component) : List Stmt :=
  [{ creates := some c }, { uses := [c], op := .start c }]

/-- `markAllInstancesCleanedAndInactive`, if the config asks for it. -/
def App.markAll (a : App) : List Stmt :=
  if a.config.forceInactive then [{ uses := [.instanceStore, .cli] }] else []

/-- `Run`, before it creates the server. -/
def App.setup (a : App) : List Stmt :=
  (if a.cli then [] else [{ creates := some .cli, fails := true }]) ++
  -- dcompat.Wrap, precheckDockerTask, sql.Open, precheckDatabaseTask
  [{ uses := [.cli] }, { uses := [.cli] }, { creates := some .db, fails := true },
    { uses := [.db] }] ++
  (if a.config.migrateReset || a.config.migrateUp then [{ uses := [.db], fails := true }]
    else []) ++
  [{ uses := [.db], creates := some .specStore },
    { uses := [.db], creates := some .instanceStore }] ++
  a.markAll ++
  started .cleanInactiveRunner ++
  started .checkExpiredRunner ++
  [{ creates := some .autoPullImages }] ++
  (if a.config.disableAutoPull then [] else started .autoPullRunner) ++
  started .pruneRunner ++
  [{ creates := some .wsManager }, { uses := [.wsManager] }] ++
  started .dockerCheckRunner ++
  started .databaseCheckRunner ++
  -- zap.NewStdLogAt
  [{ fails := true }]

/-- `Run`, up to the call that serves. -/
def App.run (a : App) : List Stmt := a.setup ++ [{ creates := some .srv }]

/-- A runner that is stopped. -/
def stopped (c : Component) : Stmt := { uses := [c], op := .stop c }

/-- `Shutdown`. -/
def App.shutdown (a : App) : List Stmt :=
  [{ uses := [.srv], closes := true },
    stopped .cleanInactiveRunner,
    stopped .checkExpiredRunner,
    stopped .autoPullRunner,
    stopped .pruneRunner,
    stopped .dockerCheckRunner,
    stopped .databaseCheckRunner,
    { uses := [.wsManager], op := .websockets .stop },
    { uses := [.wsManager], op := .websockets .expireAndRemoveAll },
    { op := .websockets .wait },
    -- cleanupLeftoverInstances
    { uses := [.instanceStore, .cli] }] ++
  a.markAll ++
  [{ uses := [.cli] }, { uses := [.db] }]

/-- What there is behind some statements of `Run`. -/
def App.created (a : App) (stmts : List Stmt) : List Component :=
  (if a.cli then [.cli] else []) ++ stmts.flatMap fun st => st.creates.toList

/-! ## The process -/

/-- Where `Run` is: before these statements, or in the call that serves if there are none; or
returned, with or without an error. -/
inductive Running where
  | running (rest : List Stmt)
  | returned (ok : Bool)

/-- The process: its components, where `Run` is, what is left of `Shutdown` once it has been called,
the runners, the websocket handlers, whether the server has been closed, the component that was nil,
and whether `main` has ended. -/
structure State where
  created : List Component
  run : Running
  shutdown : Option (List Stmt)
  tasks : Component → Sched.Runner
  handlers : App.Shutdown.State
  closed : Bool
  panicked : Option Component
  exited : Bool

/-- The steps: the next statement of `Run`, and its outcome; the signal; the next statement of
`Shutdown`, or of a `Stop` it is in; the end of `main`, behind `Run`; and those of a runner, and of
the websocket handlers. -/
inductive Act where
  | run (ok : Bool)
  | signal
  | shutdown
  | exit
  | task (c : Component) (act : Sched.Act)
  | handler (act : App.Shutdown.Act)
  deriving DecidableEq

/-- What happens to a runner without `Run` and `Shutdown`: its loop, its ticker and manual runs. -/
def ofTask : Sched.Act → Bool
  | .run | .tick | .recvTick | .recvManual | .next | .finish => true
  | .start | .stop _ | .enter _ | .proceed _ => false

/-- What happens among the websocket handlers without `Shutdown`. -/
def ofHandler : App.Shutdown.Act → Bool
  | .stop | .expireAndRemoveAll | .wait => false
  | .upgrade _ | .add _ | .spawn _ | .acquire _ _ _ | .resume _ _ | .update _ | .release _ | .done _
  | .tick | .advance _ => true

/-- The first component that a statement uses and that is nil. -/
def State.missing (s : State) (st : Stmt) : Option Component :=
  st.uses.find? fun c => decide (c ∉ s.created)

/-- A runner moves. -/
def State.put (s : State) (c : Component) (r : Sched.Runner) : State :=
  { s with tasks := Function.update s.tasks c r }

/-- The runners behind a statement of `Run`. -/
def Op.started (op : Op) (tasks : Component → Sched.Runner) : Component → Sched.Runner :=
  match op with
  | .start c => Function.update tasks c (tasks c).start
  | .other | .stop _ | .websockets _ => tasks

/-- `Run` goes on. `ListenAndServe` returns `ErrServerClosed` once the server has been closed, and
other errors at any time. -/
def State.runs (s : State) (ok : Bool) : Option State :=
  match s.run with
  | .running (st :: rest) =>
    match s.missing st with
    | some c => some { s with panicked := some c }
    | none =>
      if ok then
        some { s with
          run := .running rest, created := s.created ++ st.creates.toList
          tasks := st.op.started s.tasks }
      else if st.fails then some { s with run := .returned false }
      else none
  | .running [] => if ok ∧ s.closed = false then none else some { s with run := .returned ok }
  | .returned _ => none

/-- `Shutdown` is through with a statement. -/
def State.passes (s : State) (st : Stmt) (rest : List Stmt) : State :=
  { s with shutdown := some rest, closed := s.closed || st.closes }

/-- What a call of `Stop` does next. -/
def stopAct : Sched.StopPc → Sched.Act
  | .idle => .stop 0
  | .called => .enter 0
  | .stopTicker | .closeManual | .await | .returned => .proceed 0

/-- A statement of `Shutdown` goes on: it may have to wait. -/
def State.performs (s : State) (st : Stmt) (rest : List Stmt) : Option State :=
  match st.op with
  | .other | .start _ => some (s.passes st rest)
  | .stop c =>
    if (s.tasks c).stops 0 = .returned then some (s.passes st rest)
    else (Sched.step (s.tasks c) (stopAct ((s.tasks c).stops 0))).map fun r => s.put c r
  | .websockets act =>
    (App.Shutdown.step s.handlers act).map fun handlers =>
      { s.passes st rest with handlers := handlers }

/-- `Shutdown` goes on. -/
def State.shuts (s : State) : Option State :=
  match s.shutdown with
  | some (st :: rest) =>
    match s.missing st with
    | some c => some { s with panicked := some c }
    | none => s.performs st rest
  | _ => none

/-- One step. A panic ends the process, in whatever goroutine it is. There are tasks of a runner that
has been created, and handlers of a server. -/
def step (a : App) (s : State) (act : Act) : Option State :=
  if s.exited = true ∨ s.panicked ≠ none then none
  else
    match act with
    | .run ok => s.runs ok
    | .signal => if s.shutdown.isNone then some { s with shutdown := some a.shutdown } else none
    | .shutdown => s.shuts
    | .exit =>
      match s.run with
      | .running _ => none
      | .returned _ => some { s with exited := true }
    | .task c act =>
      if c ∈ s.created ∧ ofTask act = true then (Sched.step (s.tasks c) act).map fun r => s.put c r
      else none
    | .handler act =>
      if .srv ∈ s.created ∧ ofHandler act = true then
        (App.Shutdown.step s.handlers act).map fun handlers => { s with handlers := handlers }
      else none

/-- `main` calls `Run`. -/
def State.initial (a : App) : State :=
  { created := a.created [], run := .running a.run, shutdown := none
    tasks := fun _ => Sched.newRunner, handlers := .initial a.config.websocketTimeout
    closed := false, panicked := none, exited := false }

/-- The process. -/
def lifecycle (a : App) : System State Act := { init := (· = State.initial a), step := step a }

/-! ## What `Run` creates -/

section

variable {a : App} {c : Component} {done rest : List Stmt}

/-- Before the server, `Run` creates the other components, but for `autoPullRunner` if the config
disables it. -/
theorem mem_created_setup :
    c ∈ a.created a.setup ↔
      c ≠ .srv ∧ (c = .autoPullRunner → a.config.disableAutoPull = false) := by
  have hmarkAll : a.markAll.flatMap (fun st => st.creates.toList) = [] := by
    unfold App.markAll
    split <;> rfl
  have hmigrate : (if a.config.migrateReset || a.config.migrateUp then
      [({ uses := [.db], fails := true } : Stmt)] else []).flatMap
        (fun st => st.creates.toList) = [] := by
    split <;> rfl
  unfold App.created App.setup
  simp only [List.flatMap_append, hmarkAll, hmigrate]
  cases a.cli <;> cases a.config.disableAutoPull <;> cases c <;> decide

/-- The server comes last. -/
theorem mem_created_run :
    c ∈ a.created a.run ↔ (c = .autoPullRunner → a.config.disableAutoPull = false) := by
  have happend : a.created a.run = a.created a.setup ++ [Component.srv] := by
    simp [App.created, App.run]
  rw [happend, List.mem_append, mem_created_setup, List.mem_singleton]
  constructor
  · rintro (h | rfl) hauto
    · exact h.2 hauto
    · cases hauto
  · intro h
    by_cases hc : c = .srv
    · exact .inr hc
    · exact .inl ⟨hc, h⟩

theorem mem_created_mono {stmts : List Stmt} (h : done <+: stmts) (hc : c ∈ a.created done) :
    c ∈ a.created stmts := by
  obtain ⟨rest, rfl⟩ := h
  unfold App.created at hc ⊢
  rw [List.flatMap_append, ← List.append_assoc]
  exact List.mem_append_left _ hc

/-- **With the server, there is all that `Run` creates.** -/
theorem srv_mem_created (h : done <+: a.run) : .srv ∈ a.created done ↔ done = a.run := by
  constructor
  · intro hsrv
    rcases List.prefix_concat_iff.1 h with hall | hsetup
    · exact hall
    · exact absurd rfl (mem_created_setup.1 (mem_created_mono hsetup hsrv)).1
  · intro hall
    rw [hall]
    exact mem_created_run.2 fun hc => by cases hc

/-- **`Shutdown` uses what `Run` has created, if and only if `Run` has created the server, and
autopull is not disabled.** -/
theorem shutdown_uses_iff (h : done <+: a.run) :
    (∀ st ∈ a.shutdown, ∀ c ∈ st.uses, c ∈ a.created done) ↔
      .srv ∈ a.created done ∧ a.config.disableAutoPull = false := by
  constructor
  · intro huses
    have hsrv : .srv ∈ a.created done :=
      huses { uses := [.srv], closes := true } (by simp [App.shutdown]) .srv (by simp)
    have hauto : .autoPullRunner ∈ a.created done :=
      huses (stopped .autoPullRunner) (by simp [App.shutdown]) .autoPullRunner (by simp [stopped])
    exact ⟨hsrv, mem_created_run.1 (mem_created_mono h hauto) rfl⟩
  · rintro ⟨hsrv, hauto⟩ st - c -
    rw [(srv_mem_created h).1 hsrv]
    exact mem_created_run.2 fun _ => hauto

/-- Statements use what there is, or what those before them have created. -/
def WellFormed (created : List Component) : List Stmt → Prop
  | [] => True
  | st :: rest => (∀ c ∈ st.uses, c ∈ created) ∧ WellFormed (created ++ st.creates.toList) rest

instance decidableWellFormed : ∀ created l, Decidable (WellFormed created l)
  | _, [] => isTrue trivial
  | created, st :: rest =>
    have := decidableWellFormed (created ++ st.creates.toList) rest
    inferInstanceAs (Decidable (_ ∧ _))

/-- `Run` itself uses nothing too early. -/
theorem wellFormed_run : WellFormed (a.created []) a.run := by
  unfold App.run App.setup App.markAll App.created
  generalize (a.config.migrateReset || a.config.migrateUp) = migrates
  cases a.cli <;> cases migrates <;> cases a.config.forceInactive <;>
    cases a.config.disableAutoPull <;> decide

end

/-! ## What the statements of `Shutdown` rely on -/

/-- How far `Shutdown` is with the websocket handlers in front of these statements. -/
def stageOf (rest : List Stmt) : App.Shutdown.Stage :=
  let ops := rest.map Stmt.op
  if .websockets .stop ∈ ops then .serving
  else if .websockets .expireAndRemoveAll ∈ ops then .stopped
  else if .websockets .wait ∈ ops then .expired
  else .waited

/-- The first statement is taken in its stage, and leads to the next. -/
def Staged : List Stmt → Bool
  | [] => true
  | st :: rest =>
    match st.op with
    | .websockets .stop => stageOf (st :: rest) = .serving ∧ stageOf rest = .stopped
    | .websockets .expireAndRemoveAll => stageOf (st :: rest) = .stopped ∧ stageOf rest = .expired
    | .websockets .wait => stageOf (st :: rest) = .expired ∧ stageOf rest = .waited
    | .websockets _ => false
    | .other | .start _ | .stop _ => stageOf (st :: rest) = stageOf rest

section

variable {a : App} {st : Stmt} {rest : List Stmt} {c : Component}

theorem staged_shutdown (h : rest <:+ a.shutdown) : Staged rest = true := by
  have hall : ∀ l ∈ a.shutdown.tails, Staged l = true := by
    unfold App.shutdown App.markAll
    cases a.config.forceInactive <;> decide
  exact hall rest ((List.mem_tails _ _).2 h)

theorem stageOf_shutdown : stageOf a.shutdown = .serving := by
  unfold App.shutdown App.markAll
  cases a.config.forceInactive <;> decide

/-- A statement that does nothing among the handlers. -/
theorem staged_other (h : Staged (st :: rest) = true) (hop : ∀ b, st.op ≠ .websockets b) :
    stageOf (st :: rest) = stageOf rest := by
  cases hop' : st.op with
  | websockets b => exact absurd hop' (hop b)
  | other | start | stop =>
    simp only [Staged, hop'] at h
    exact of_decide_eq_true h

/-- One that does. -/
theorem staged_websockets {b : App.Shutdown.Act} (h : Staged (st :: rest) = true)
    (hop : st.op = .websockets b) :
    b = .stop ∧ stageOf (st :: rest) = .serving ∧ stageOf rest = .stopped ∨
      b = .expireAndRemoveAll ∧ stageOf (st :: rest) = .stopped ∧ stageOf rest = .expired ∨
      b = .wait ∧ stageOf (st :: rest) = .expired ∧ stageOf rest = .waited := by
  simp only [Staged, hop] at h
  cases b with
  | stop => exact .inl ⟨rfl, of_decide_eq_true h⟩
  | expireAndRemoveAll => exact .inr (.inl ⟨rfl, of_decide_eq_true h⟩)
  | wait => exact .inr (.inr ⟨rfl, of_decide_eq_true h⟩)
  | _ => cases h

/-- A runner that is stopped has been started, if there is one. -/
theorem started_of_stop (hst : st ∈ a.shutdown) (hop : st.op = .stop c) :
    st.uses = [c] ∧ ((c = .autoPullRunner → a.config.disableAutoPull = false) →
      .start c ∈ a.run.map Stmt.op) := by
  have hall : ∀ st ∈ a.shutdown, ∀ c, st.op = .stop c → st = stopped c ∧ c ∈
      [Component.cleanInactiveRunner, .checkExpiredRunner, .autoPullRunner, .pruneRunner,
        .dockerCheckRunner, .databaseCheckRunner] := by
    unfold App.shutdown App.markAll stopped
    cases a.config.forceInactive <;> simp
  obtain ⟨rfl, hc⟩ := hall st hst c hop
  refine ⟨rfl, fun hauto => ?_⟩
  unfold App.run App.setup started
  simp only [List.mem_cons, List.not_mem_nil, or_false] at hc
  rcases hc with rfl | rfl | rfl | rfl | rfl | rfl <;> simp [hauto]

end

/-! ## Runners and handlers -/

/-- What is known of a runner that only `Shutdown` stops. -/
structure Kept (r : Sched.Runner) : Prop where
  inv : Sched.Inv r
  stops : Sched.Stops r
  others : ∀ i, i ≠ 0 → r.stops i = .idle

section

variable {r r' : Sched.Runner} {act : Sched.Act}

theorem kept_newRunner : Kept Sched.newRunner where
  inv := Sched.inv_newRunner
  stops := Sched.stops_newRunner
  others _ _ := rfl

/-- **Its steps** keep it, and a runner that has been started stays so. -/
theorem Kept.step (h : Kept r) (ha : act = .start ∨ ofTask act = true ∨ ∃ pc, act = stopAct pc)
    (hs : Sched.step r act = some r') :
    Kept r' ∧ (r.startOnce = true → r'.startOnce = true) := by
  have hself : ∀ i, act = .stop i ∨ act = .enter i ∨ act = .proceed i → i = 0 := by
    intro i hi
    rcases ha with rfl | hloop | ⟨pc, rfl⟩
    · rcases hi with hi | hi | hi <;> cases hi
    · rcases hi with rfl | rfl | rfl <;> cases hloop
    · cases pc <;> rcases hi with hi | hi | hi <;> cases hi <;> rfl
  have hput : ∀ {i : Nat} {pc : Sched.StopPc}, i = 0 → ∀ j, j ≠ 0 →
      (r.put i pc).stops j = .idle := by
    intro i pc hi j hj
    rw [Sched.put_of_ne (by rw [hi]; exact hj)]
    exact h.others j hj
  refine ⟨⟨h.inv.step hs, h.stops.step hs, ?_⟩, ?_⟩
  · cases Sched.step_next hs with
    | started | start | panic | run | tick | recvTick | recvManual | begin | exit | finish =>
      exact h.others
    | stop => exact hput (hself _ (.inl rfl))
    | enter | enterDone => exact hput (hself _ (.inr (.inl rfl)))
    | stopTicker | closeManual | await => exact hput (hself _ (.inr (.inr rfl)))
  · cases Sched.step_next hs with
    | start => exact fun _ => rfl
    | _ => exact id

variable {h h' : App.Shutdown.State} {b : App.Shutdown.Act}

/-- The handlers leave the stage alone. -/
theorem handler_stage (hb : ofHandler b = true) (hs : App.Shutdown.step h b = some h') :
    h'.stage = h.stage := by
  cases App.Shutdown.step_next hs with
  | upgrade | add | spawn | acquire | resume | update | release | done | tick | advance => rfl
  | stop | expireAndRemoveAll | wait => cases hb

end

/-! ## What all runs keep -/

section

variable {a : App} {s s' : State} {act : Act} {st : Stmt} {rest : List Stmt} {ok : Bool}
  {c : Component}

theorem missing_eq_none : s.missing st = none ↔ ∀ c ∈ st.uses, c ∈ s.created := by
  simp [State.missing]

theorem missing_eq_some (h : s.missing st = some c) : c ∈ st.uses ∧ c ∉ s.created :=
  ⟨List.mem_of_find?_eq_some h, by simpa using List.find?_some h⟩

/-- A step of the process, which neither has panicked nor has ended. -/
theorem step_spec (h : step a s act = some s') :
    s.exited = false ∧ s.panicked = none ∧
      match act with
      | .run ok => s.runs ok = some s'
      | .signal => s.shutdown = none ∧ s' = { s with shutdown := some a.shutdown }
      | .shutdown => s.shuts = some s'
      | .exit => (∃ ok, s.run = .returned ok) ∧ s' = { s with exited := true }
      | .task c act => ofTask act = true ∧
        ∃ r, Sched.step (s.tasks c) act = some r ∧ s' = s.put c r
      | .handler act => ofHandler act = true ∧
        ∃ h, App.Shutdown.step s.handlers act = some h ∧ s' = { s with handlers := h } := by
  unfold step at h
  split at h
  · cases h
  · next hlive =>
    obtain ⟨hexited, hpanicked⟩ := not_or.1 hlive
    refine ⟨Bool.eq_false_iff.2 hexited, not_not.1 hpanicked, ?_⟩
    cases act with
    | run ok => exact h
    | signal =>
      obtain ⟨hnone, h⟩ := Option.ite_none_right_eq_some.1 h
      exact ⟨Option.isNone_iff_eq_none.1 hnone, (Option.some.inj h).symm⟩
    | shutdown => exact h
    | exit =>
      dsimp only at h
      split at h
      · cases h
      · next ok hrun => exact ⟨⟨ok, hrun⟩, (Option.some.inj h).symm⟩
    | task c act =>
      obtain ⟨⟨-, hact⟩, h⟩ := Option.ite_none_right_eq_some.1 h
      obtain ⟨r, hr, rfl⟩ := Option.map_eq_some_iff.1 h
      exact ⟨hact, r, hr, rfl⟩
    | handler act =>
      obtain ⟨⟨-, hact⟩, h⟩ := Option.ite_none_right_eq_some.1 h
      obtain ⟨r, hr, rfl⟩ := Option.map_eq_some_iff.1 h
      exact ⟨hact, r, hr, rfl⟩

/-- `Run` finds a component nil, or goes on, or returns. -/
theorem runs_spec (h : s.runs ok = some s') :
    (∃ st rest, s.run = .running (st :: rest) ∧
      ((∃ c, s.missing st = some c) ∨
        s' = { s with
          run := .running rest, created := s.created ++ st.creates.toList
          tasks := st.op.started s.tasks })) ∨
    ∃ ok, s' = { s with run := .returned ok } := by
  unfold State.runs at h
  split at h
  · next st rest hrun =>
    split at h
    · next c hmissing => exact .inl ⟨st, rest, hrun, .inl ⟨c, hmissing⟩⟩
    · split at h
      · exact .inl ⟨st, rest, hrun, .inr (Option.some.inj h).symm⟩
      · obtain ⟨-, h⟩ := Option.ite_none_right_eq_some.1 h
        exact .inr ⟨_, (Option.some.inj h).symm⟩
  · obtain ⟨-, h⟩ := Option.ite_none_left_eq_some.1 h
    exact .inr ⟨_, (Option.some.inj h).symm⟩
  · cases h

/-- What a statement of `Shutdown` does, where all that it uses is there. -/
inductive Performs (s : State) (st : Stmt) (rest : List Stmt) : State → Prop
  | passes (hop : ∀ b, st.op ≠ .websockets b) : Performs s st rest (s.passes st rest)
  | stop {c : Component} {r : Sched.Runner} (hop : st.op = .stop c) {pc : Sched.StopPc}
    (hr : Sched.step (s.tasks c) (stopAct pc) = some r) : Performs s st rest (s.put c r)
  | websockets {b : App.Shutdown.Act} {h : App.Shutdown.State} (hop : st.op = .websockets b)
    (hh : App.Shutdown.step s.handlers b = some h) :
    Performs s st rest { s.passes st rest with handlers := h }

theorem performs_spec (h : s.performs st rest = some s') : Performs s st rest s' := by
  unfold State.performs at h
  split at h
  · next hop =>
    cases h
    exact .passes fun b => by rw [hop]; simp
  · next hop =>
    cases h
    exact .passes fun b => by rw [hop]; simp
  · next c hop =>
    split at h
    · cases h
      exact .passes fun b => by rw [hop]; simp
    · obtain ⟨r, hr, rfl⟩ := Option.map_eq_some_iff.1 h
      exact .stop hop hr
  · next b hop =>
    obtain ⟨r, hr, rfl⟩ := Option.map_eq_some_iff.1 h
    exact .websockets hop hr

/-- `Shutdown` finds a component nil, or goes on. -/
theorem shuts_spec (h : s.shuts = some s') : ∃ st rest, s.shutdown = some (st :: rest) ∧
    ((∃ c, s.missing st = some c ∧ s' = { s with panicked := some c }) ∨
      s.missing st = none ∧ Performs s st rest s') := by
  unfold State.shuts at h
  split at h
  · next st rest hshutdown =>
    refine ⟨st, rest, hshutdown, ?_⟩
    split at h
    · next c hmissing => exact .inl ⟨c, hmissing, (Option.some.inj h).symm⟩
    · next hmissing => exact .inr ⟨hmissing, performs_spec h⟩
  · cases h

/-- What all runs keep: `Run` has created what its statements so far create, has started the
runners, and uses nothing too early; `Shutdown` has not gone further than its first statement
without the server, which it has closed behind it; and the runners and handlers are as far as its
statements. -/
structure Inv (a : App) (s : State) : Prop where
  created : ∃ done rest, a.run = done ++ rest ∧ s.created = a.created done ∧
    (∀ c, .start c ∈ done.map Stmt.op → (s.tasks c).startOnce = true) ∧
    (s.run = .running rest ∨ ∃ ok, s.run = .returned ok)
  wellFormed : ∀ rest, s.run = .running rest → WellFormed s.created rest
  shutdown : ∀ rest, s.shutdown = some rest → rest <:+ a.shutdown ∧
    (rest = a.shutdown ∨ .srv ∈ s.created ∧ s.closed = true)
  closed : s.closed = true → .srv ∈ s.created
  tasks : ∀ c, Kept (s.tasks c)
  stage : s.handlers.stage = stageOf (s.shutdown.getD a.shutdown)

theorem inv_initial : Inv a (.initial a) where
  created := ⟨[], a.run, (List.nil_append _).symm, rfl, fun c hc => absurd hc List.not_mem_nil,
    .inl rfl⟩
  wellFormed _ h := Running.running.inj h ▸ wellFormed_run
  shutdown rest h := by cases h
  closed h := by cases h
  tasks _ := kept_newRunner
  stage := stageOf_shutdown.symm

/-- **A runner moves.** -/
theorem Inv.put {act : Sched.Act} {r : Sched.Runner} (h : Inv a s)
    (hact : act = .start ∨ ofTask act = true ∨ ∃ pc, act = stopAct pc)
    (hs : Sched.step (s.tasks c) act = some r) : Inv a (s.put c r) := by
  obtain ⟨hkept, hstarted⟩ := (h.tasks c).step hact hs
  obtain ⟨done, rest, hdone, hcreated, hall, hrun⟩ := h.created
  refine ⟨⟨done, rest, hdone, hcreated, fun c' hc' => ?_, hrun⟩, h.wellFormed, h.shutdown,
    h.closed, fun c' => ?_, h.stage⟩
  · by_cases hc : c' = c
    · subst hc
      simp only [State.put, Function.update_self]
      exact hstarted (hall c' hc')
    · simp only [State.put, Function.update_of_ne hc]
      exact hall c' hc'
  · by_cases hc : c' = c
    · subst hc
      simpa only [State.put, Function.update_self] using hkept
    · simpa only [State.put, Function.update_of_ne hc] using h.tasks c'

/-- **`Run` goes on**: it finds no component nil. -/
theorem Inv.runs (h : Inv a s) (hs : s.runs ok = some s') :
    Inv a s' ∧ s'.panicked = s.panicked ∧ s'.exited = s.exited ∧ s'.shutdown = s.shutdown := by
  obtain ⟨done, left, hdone, hcreated, hall, hrun⟩ := h.created
  rcases runs_spec hs with ⟨st, rest, hst, ⟨c, hmissing⟩ | rfl⟩ | ⟨ok, rfl⟩
  · have hwf := h.wellFormed _ hst
    obtain ⟨huses, hnot⟩ := missing_eq_some hmissing
    exact absurd (hwf.1 c huses) hnot
  · have hleft : left = st :: rest := by
      rcases hrun with hrun | ⟨ok, hrun⟩
      · exact Running.running.inj (hrun.symm.trans hst)
      · cases hrun.symm.trans hst
    -- the statement may start a runner
    have htasks : ∀ c, Kept (st.op.started s.tasks c) ∧
        (.start c ∈ (done ++ [st]).map Stmt.op →
          (st.op.started s.tasks c).startOnce = true) := by
      intro c
      have hold : .start c ∈ done.map Stmt.op → (s.tasks c).startOnce = true := hall c
      rw [List.map_append, List.mem_append, List.map_singleton, List.mem_singleton]
      cases hop : st.op with
      | start c' =>
        have hstart : Sched.step (s.tasks c') .start = some (s.tasks c').start := rfl
        obtain ⟨hkept, hstarted⟩ := (h.tasks c').step (.inl rfl) hstart
        by_cases hc : c = c'
        · subst hc
          simp only [Op.started, Function.update_self]
          refine ⟨hkept, fun _ => ?_⟩
          unfold Sched.Runner.start
          split
          · assumption
          · rfl
        · simp only [Op.started, Function.update_of_ne hc]
          refine ⟨h.tasks c, fun hmem => hold (hmem.resolve_right fun heq => hc ?_)⟩
          exact Op.start.inj heq
      | other | stop | websockets =>
        exact ⟨h.tasks c, fun hmem => hold (hmem.resolve_right (by simp))⟩
    refine ⟨⟨⟨done ++ [st], rest, ?_, ?_, fun c => (htasks c).2, .inl rfl⟩, fun rest' hrest => ?_,
      fun rest' hrest => ?_, fun hclosed => List.mem_append_left _ (h.closed hclosed),
      fun c => (htasks c).1, h.stage⟩, rfl, rfl, rfl⟩
    · rw [hdone, hleft, List.append_assoc]
      rfl
    · simp [hcreated, App.created]
    · cases hrest
      exact (h.wellFormed _ hst).2
    · exact (h.shutdown rest' hrest).imp_right fun hor =>
        hor.imp_right fun hsrv => ⟨List.mem_append_left _ hsrv.1, hsrv.2⟩
  · refine ⟨⟨⟨done, left, hdone, hcreated, hall, .inr ⟨ok, rfl⟩⟩, fun rest hrest => ?_, h.shutdown,
      h.closed, h.tasks, h.stage⟩, rfl, rfl, rfl⟩
    cases hrest

/-- In front of its first statement, `Shutdown` has the server to close. -/
theorem shutdown_head (h : a.shutdown = st :: rest) :
    st = { uses := [.srv], closes := true } := (List.cons.inj h).1.symm

/-- **`Shutdown` is through with a statement.** -/
theorem Inv.passes (h : Inv a s) (hst : s.shutdown = some (st :: rest))
    (hmissing : s.missing st = none) {handlers : App.Shutdown.State}
    (hstage : handlers.stage = stageOf rest) :
    Inv a { s.passes st rest with handlers := handlers } := by
  obtain ⟨hsuffix, hfront⟩ := h.shutdown _ hst
  have hbehind : .srv ∈ s.created ∧ (s.closed || st.closes) = true := by
    rcases hfront with hall | ⟨hsrv, hclosed⟩
    · have hhead := shutdown_head hall.symm
      refine ⟨missing_eq_none.1 hmissing .srv ?_, ?_⟩
      · rw [hhead]
        exact List.mem_singleton_self _
      · rw [hhead, Bool.or_true]
    · exact ⟨hsrv, by rw [hclosed, Bool.true_or]⟩
  refine ⟨h.created, h.wellFormed, fun rest' hrest => ?_, fun _ => hbehind.1, h.tasks, hstage⟩
  cases hrest
  exact ⟨(List.suffix_cons st rest).trans hsuffix, .inr hbehind⟩

/-- **`Shutdown` goes on.** -/
theorem Inv.shuts (h : Inv a s) (hs : s.shuts = some s') : Inv a s' := by
  obtain ⟨st, rest, hst, ⟨c, -, rfl⟩ | ⟨hmissing, hperforms⟩⟩ := shuts_spec hs
  · exact { h with }
  · have hstaged := staged_shutdown (h.shutdown _ hst).1
    have hstage : s.handlers.stage = stageOf (st :: rest) := by
      have hstage := h.stage
      rwa [hst] at hstage
    cases hperforms with
    | passes hop => exact h.passes hst hmissing (hstage.trans (staged_other hstaged hop))
    | stop hop hr => exact h.put (.inr (.inr ⟨_, rfl⟩)) hr
    | websockets hop hh =>
      refine h.passes hst hmissing ?_
      rcases staged_websockets hstaged hop with ⟨rfl, -, hnext⟩ | ⟨rfl, -, hnext⟩ | ⟨rfl, -, hnext⟩
      all_goals
        rw [hnext]
        cases App.Shutdown.step_next hh with
        | _ => rfl

/-- **Each step** keeps it. -/
theorem Inv.step (h : Inv a s) (hs : Lifecycle.step a s act = some s') : Inv a s' := by
  obtain ⟨-, -, hs⟩ := step_spec hs
  cases act with
  | run ok => exact (h.runs hs).1
  | signal =>
    obtain ⟨hnone, rfl⟩ := hs
    refine ⟨h.created, h.wellFormed, fun rest hrest => ?_, h.closed, h.tasks, ?_⟩
    · cases hrest
      exact ⟨List.suffix_rfl, .inl rfl⟩
    · have hstage := h.stage
      rwa [hnone] at hstage
  | shutdown => exact h.shuts hs
  | exit =>
    obtain ⟨-, rfl⟩ := hs
    exact { h with }
  | task c act =>
    obtain ⟨hact, r, hr, rfl⟩ := hs
    exact h.put (.inr (.inl hact)) hr
  | handler act =>
    obtain ⟨hact, handlers, hh, rfl⟩ := hs
    exact { h with stage := (handler_stage hact hh).trans h.stage }

theorem inv_of_run {acts : List Act} (h : (lifecycle a).Run System.Any (.initial a) acts s) :
    Inv a s :=
  h.invariant inv_initial fun _ _ _ hi _ hs => hi.step hs

/-- With the server, `Run` is in the call that serves, or has returned from it. -/
theorem Inv.serves (h : Inv a s) (hsrv : .srv ∈ s.created) :
    s.run = .running [] ∨ ∃ ok, s.run = .returned ok := by
  obtain ⟨done, rest, hdone, hcreated, -, hrun⟩ := h.created
  rw [hcreated] at hsrv
  have hall := (srv_mem_created ⟨rest, hdone.symm⟩).1 hsrv
  rw [hall, List.self_eq_append_right] at hdone
  rwa [hdone] at hrun

/-- With the server, there is what `Run` creates. -/
theorem Inv.mem_created (h : Inv a s) (hsrv : .srv ∈ s.created) :
    c ∈ s.created ↔ (c = .autoPullRunner → a.config.disableAutoPull = false) := by
  obtain ⟨done, rest, hdone, hcreated, -⟩ := h.created
  rw [hcreated] at hsrv ⊢
  rw [(srv_mem_created ⟨rest, hdone.symm⟩).1 hsrv, mem_created_run]

/-- With the server, a runner that is there and that `Shutdown` stops has been started. -/
theorem Inv.startOnce (h : Inv a s) (hsrv : .srv ∈ s.created) (hst : st ∈ a.shutdown)
    (hop : st.op = .stop c) (hc : c ∈ s.created) : (s.tasks c).startOnce = true := by
  have hstart := (started_of_stop hst hop).2 ((h.mem_created hsrv).1 hc)
  obtain ⟨done, rest, hdone, hcreated, hall, -⟩ := h.created
  rw [hcreated] at hsrv
  rw [← (srv_mem_created ⟨rest, hdone.symm⟩).1 hsrv] at hstart
  exact hall c hstart

end

end UAssign.Lifecycle

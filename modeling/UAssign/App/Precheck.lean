import UAssign.Lib.Transition

/-!
# The health gate

`app/precheck.go`: two tasks ping Docker and the database and set a flag each, two middlewares let
requests through, and four tasks of `app/cleanup.go` look at the flags before they start. The
database's task clears the Docker flag when its ping fails, and the four tasks go on if either flag
is set, so that `Truthful` holds of the runs whose steps meet `agreeing` (`gate_truthful`).
-/

namespace UAssign.App.Precheck

/-! ## The system -/

/-- Where `precheckDockerTask` or `precheckDatabaseTask` is: inside its ping, or behind it with the
outcome. -/
inductive Task where
  | idle
  | pinging
  | pinged (ok : Bool)
  deriving DecidableEq

/-- The tasks that look at the flags before they start. -/
inductive Guarded where
  | checkExpiredInstances
  | cleanInactiveInstances
  | cleanupLeftoverInstances
  | markAllInstancesCleanedAndInactive
  deriving DecidableEq

/-- Who has passed. -/
inductive Passage where
  | request
  | start (f : Guarded)
  deriving DecidableEq

/-- A passage, with the outcomes of the last completed pings at that moment. -/
structure Pass where
  passage : Passage
  docker : Bool
  database : Bool
  deriving DecidableEq

/-- The flags, the tasks and the outcomes of their last completed pings. `requests` are those
between the two middlewares, `starts` the guards that have found `dockerOk` false; `passes` and
`refused` is what has become of them. -/
structure State where
  dockerOk : Bool
  databaseOk : Bool
  docker : Task
  database : Task
  lastDocker : Bool
  lastDatabase : Bool
  requests : List Nat
  starts : List (Guarded × Nat)
  passes : List Pass
  refused : List (Nat × String)

/-- The steps: the tasks begin, complete their pings and store; a request comes to the first and to
the second middleware; a guard loads its first and its second flag. -/
inductive Act where
  | beginDocker
  | pingDocker (ok : Bool)
  | storeDocker
  | beginDatabase
  | pingDatabase (ok : Bool)
  | storeDatabase
  | requestDocker (i : Nat)
  | requestDatabase (i : Nat)
  | startDocker (f : Guarded) (i : Nat)
  | startDatabase (f : Guarded) (i : Nat)
  deriving DecidableEq

namespace State

/-- Somebody passes. -/
def pass (s : State) (p : Passage) : State :=
  { s with passes := ⟨p, s.lastDocker, s.lastDatabase⟩ :: s.passes }

/-- `httpError` of a middleware. -/
def refuse (s : State) (i : Nat) (message : String) : State :=
  { s with refused := (i, message) :: s.refused }

/-- `precheckDockerTask` behind its ping. -/
def storeDocker (s : State) (ok : Bool) : State :=
  if ok then { s with docker := .idle, dockerOk := true }
  else { s with docker := .idle, dockerOk := false }

/-- `precheckDatabaseTask` behind its ping. -/
def storeDatabase (s : State) (ok : Bool) : State :=
  if ok then { s with database := .idle, databaseOk := true }
  -- a failed ping of the database is stored in `dockerOk`
  else { s with database := .idle, dockerOk := false }

/-- `precheckDockerMiddleware`. -/
def requestDocker (s : State) (i : Nat) : State :=
  if s.dockerOk then { s with requests := i :: s.requests }
  else s.refuse i "docker precheck failed"

/-- `precheckDatabaseMiddleware`. -/
def requestDatabase (s : State) (i : Nat) : State :=
  if s.databaseOk then { s with requests := s.requests.erase i }.pass .request
  else { s with requests := s.requests.erase i }.refuse i "database precheck failed"

/-- `!a.precheckDocker() && !a.precheckDatabase()` up to the first flag: if it is set, the task goes
past its guard. -/
def startDocker (s : State) (f : Guarded) (i : Nat) : State :=
  if s.dockerOk then s.pass (.start f) else { s with starts := (f, i) :: s.starts }

/-- The same with the second flag, if the first one is not set. -/
def startDatabase (s : State) (f : Guarded) (i : Nat) : State :=
  if s.databaseOk then { s with starts := s.starts.erase (f, i) }.pass (.start f)
  else { s with starts := s.starts.erase (f, i) }

end State

/-- One step. The ping of a task is completed when it has its outcome. -/
def step (s : State) : Act → Option State
  | .beginDocker => if s.docker = .idle then some { s with docker := .pinging } else none
  | .pingDocker ok =>
    if s.docker = .pinging then some { s with docker := .pinged ok, lastDocker := ok } else none
  | .storeDocker =>
    match s.docker with
    | .pinged ok => some (s.storeDocker ok)
    | _ => none
  | .beginDatabase => if s.database = .idle then some { s with database := .pinging } else none
  | .pingDatabase ok =>
    if s.database = .pinging then some { s with database := .pinged ok, lastDatabase := ok }
    else none
  | .storeDatabase =>
    match s.database with
    | .pinged ok => some (s.storeDatabase ok)
    | _ => none
  | .requestDocker i => if i ∈ s.requests then none else some (s.requestDocker i)
  | .requestDatabase i => if i ∈ s.requests then some (s.requestDatabase i) else none
  | .startDocker f i => if (f, i) ∈ s.starts then none else some (s.startDocker f i)
  | .startDatabase f i => if (f, i) ∈ s.starts then some (s.startDatabase f i) else none

/-- The server before the first pings. -/
def State.initial : State :=
  { dockerOk := false, databaseOk := false, docker := .idle, database := .idle,
    lastDocker := false, lastDatabase := false, requests := [], starts := [], passes := [],
    refused := [] }

/-- The tasks, the requests and the guards. -/
def gate : System State Act := { init := (· = State.initial), step := step }

/-- While no task is in progress the flags are the outcomes of the last completed pings, and who has
passed did so after two pings that succeeded. -/
def Truthful (s : State) : Prop :=
  (s.docker = .idle → s.database = .idle →
    s.dockerOk = s.lastDocker ∧ s.databaseOk = s.lastDatabase) ∧
  ∀ p ∈ s.passes, p.docker = true ∧ p.database = true

/-- A Docker ping has failed, and its outcome has not been stored yet. -/
def State.stale (s : State) : Bool := s.dockerOk && !s.lastDocker

/-- The database's ping fails only while its flag is not set, and is stored while the Docker flag is
not set or going to be set again by the Docker task. The second check of a request, and a guard, find
one flag set only while the last ping of the other service has succeeded; and no guard looks at the
Docker flag between a failure and its store. -/
def agreeing (s : State) : Act → Bool
  | .pingDatabase ok => ok || !s.databaseOk
  | .storeDatabase => s.database != .pinged false || !s.dockerOk || s.docker != .idle
  | .requestDatabase _ => !s.databaseOk || s.lastDocker
  | .startDocker _ _ => !s.stale && (!s.dockerOk || s.lastDatabase)
  | .startDatabase _ _ => !s.databaseOk || s.lastDocker
  | .beginDocker | .pingDocker _ | .storeDocker | .beginDatabase | .requestDocker _ => true

/-! ## The invariant -/

/-- What the runs under `agreeing` keep. -/
structure Inv (s : State) : Prop where
  docker : s.docker = .idle → s.dockerOk = s.lastDocker
  pinging : s.docker = .pinging → s.dockerOk = true → s.lastDocker = true
  dockerPinged : ∀ ok, s.docker = .pinged ok → s.lastDocker = ok
  database : s.database = .idle → s.databaseOk = s.lastDatabase
  databasePinged : ∀ ok, s.database = .pinged ok → s.lastDatabase = ok
  databaseOk : s.databaseOk = true → s.lastDatabase = true
  passes : ∀ p ∈ s.passes, p.docker = true ∧ p.database = true

section

variable {s s' : State} {a : Act} {p : Passage}

/-- Who passes while both last pings have succeeded. -/
theorem Inv.pass (h : Inv s) (hdocker : s.lastDocker = true) (hdatabase : s.lastDatabase = true) :
    Inv (s.pass p) :=
  { h with
    passes := fun q hq => by
      rcases List.mem_cons.1 hq with rfl | hq
      · exact ⟨hdocker, hdatabase⟩
      · exact h.passes q hq }

/-- The Docker flag, where it may be trusted. -/
theorem lastDocker_of_not_stale (hstale : (!s.stale) = true) (hok : s.dockerOk = true) :
    s.lastDocker = true := by
  simpa [State.stale, hok] using hstale

/-- The Docker task stores the outcome of its ping. -/
theorem Inv.storeDocker (h : Inv s) {ok : Bool} (hp : s.docker = .pinged ok) :
    Inv (s.storeDocker ok) := by
  have hlast := h.dockerPinged ok hp
  unfold State.storeDocker
  split
  · next hok =>
    exact { h with
      docker := fun _ => (hlast.trans hok).symm
      pinging := fun hp => by cases hp
      dockerPinged := fun _ hp => by cases hp }
  · next hok =>
    exact { h with
      docker := fun _ => (hlast.trans (Bool.eq_false_iff.2 hok)).symm
      pinging := fun hp => by cases hp
      dockerPinged := fun _ hp => by cases hp }

/-- The database's task stores the outcome of its ping: a failure where it does no harm. -/
theorem Inv.storeDatabase (h : Inv s) {ok : Bool} (hp : s.database = .pinged ok)
    (hharm : ok = false → s.dockerOk = false ∨ s.docker ≠ .idle) : Inv (s.storeDatabase ok) := by
  have hlast := h.databasePinged ok hp
  unfold State.storeDatabase
  split
  · next hok =>
    exact { h with
      database := fun _ => (hlast.trans hok).symm
      databasePinged := fun _ hp => by cases hp
      databaseOk := fun _ => hlast.trans hok }
  · next hok =>
    have hlast : s.lastDatabase = false := hlast.trans (Bool.eq_false_iff.2 hok)
    exact { h with
      docker := fun hidle => by
        rcases hharm (Bool.eq_false_iff.2 hok) with hflag | hbusy
        · exact hflag.symm.trans (h.docker hidle)
        · exact (hbusy hidle).elim
      pinging := fun _ hflag => by cases hflag
      database := fun _ => (Bool.eq_false_iff.2 fun hflag =>
        Bool.false_ne_true (hlast.symm.trans (h.databaseOk hflag))).trans hlast.symm
      databasePinged := fun _ hp => by cases hp }

/-- **Each step** that meets `agreeing` keeps the invariant. -/
theorem Inv.step (h : Inv s) (hagree : agreeing s a = true) (hs : step s a = some s') :
    Inv s' := by
  cases a with
  | beginDocker =>
    obtain ⟨hidle, hs⟩ := Option.ite_none_right_eq_some.1 hs
    obtain rfl := Option.some.inj hs
    exact { h with
      docker := fun hp => by cases hp
      pinging := fun _ hok => (h.docker hidle).symm.trans hok
      dockerPinged := fun _ hp => by cases hp }
  | pingDocker ok =>
    obtain ⟨-, hs⟩ := Option.ite_none_right_eq_some.1 hs
    obtain rfl := Option.some.inj hs
    exact { h with
      docker := fun hp => by cases hp
      pinging := fun hp => by cases hp
      dockerPinged := fun _ hp => Task.pinged.inj hp }
  | storeDocker =>
    simp only [Precheck.step] at hs
    split at hs
    · next ok hp => exact Option.some.inj hs ▸ h.storeDocker hp
    · cases hs
  | beginDatabase =>
    obtain ⟨-, hs⟩ := Option.ite_none_right_eq_some.1 hs
    obtain rfl := Option.some.inj hs
    exact { h with
      database := fun hp => by cases hp
      databasePinged := fun _ hp => by cases hp }
  | pingDatabase ok =>
    obtain ⟨-, hs⟩ := Option.ite_none_right_eq_some.1 hs
    obtain rfl := Option.some.inj hs
    exact { h with
      database := fun hp => by cases hp
      databasePinged := fun _ hp => Task.pinged.inj hp
      databaseOk := fun hflag => by
        rcases Bool.or_eq_true _ _ ▸ hagree with hok | hclear
        · exact hok
        · rw [show s.databaseOk = true from hflag] at hclear
          cases hclear }
  | storeDatabase =>
    simp only [Precheck.step] at hs
    split at hs
    · next ok hp =>
      obtain rfl := Option.some.inj hs
      refine h.storeDatabase hp ?_
      rintro rfl
      simpa [agreeing, hp] using hagree
    · cases hs
  | requestDocker i =>
    simp only [Precheck.step] at hs
    split at hs
    · cases hs
    · obtain rfl := Option.some.inj hs
      unfold State.requestDocker
      split <;> exact { h with }
  | requestDatabase i =>
    obtain ⟨-, hs⟩ := Option.ite_none_right_eq_some.1 hs
    obtain rfl := Option.some.inj hs
    have hleaves : Inv { s with requests := s.requests.erase i } := { h with }
    unfold State.requestDatabase
    split
    · next hok =>
      have hdocker : s.lastDocker = true := by simpa [agreeing, hok] using hagree
      exact hleaves.pass hdocker (h.databaseOk hok)
    · exact { hleaves with }
  | startDocker f i =>
    simp only [Precheck.step] at hs
    split at hs
    · cases hs
    · obtain rfl := Option.some.inj hs
      obtain ⟨hstale, hother⟩ := Bool.and_eq_true _ _ ▸ hagree
      unfold State.startDocker
      split
      · next hok =>
        have hdatabase : s.lastDatabase = true := by simpa [hok] using hother
        exact h.pass (lastDocker_of_not_stale hstale hok) hdatabase
      · exact { h with }
  | startDatabase f i =>
    obtain ⟨-, hs⟩ := Option.ite_none_right_eq_some.1 hs
    obtain rfl := Option.some.inj hs
    unfold State.startDatabase
    split
    · next hok =>
      have hdocker : s.lastDocker = true := by simpa [agreeing, hok] using hagree
      have hstart : Inv { s with starts := s.starts.erase (f, i) } := { h with }
      exact hstart.pass hdocker (h.databaseOk hok)
    · exact { h with }

end

/-- The server before the first pings. -/
theorem inv_initial : Inv State.initial where
  docker _ := rfl
  pinging hp := by cases hp
  dockerPinged _ hp := by cases hp
  database _ := rfl
  databasePinged _ hp := by cases hp
  databaseOk hok := by cases hok
  passes _ hp := by cases hp

/-- **The health gate is truthful** on the runs whose steps meet `agreeing`: while neither task is
in progress the flags are the outcomes of the last completed pings, and every request that is let
through and every task that goes past its guard does so after two pings that succeeded. -/
theorem gate_truthful {s : State} (h : gate.Reaches (fun s a => agreeing s a = true) s) :
    Truthful s := by
  have hi : Inv s := h.invariant (fun _ h₀ => h₀ ▸ inv_initial)
    fun _ _ _ hi hagree hs => hi.step hagree hs
  exact ⟨fun hdocker hdatabase => ⟨hi.docker hdocker, hi.database hdatabase⟩, hi.passes⟩

/-- Both services answer, and a request and a task come. -/
def bothAnswer : List Act :=
  [.beginDocker, .pingDocker true, .storeDocker, .beginDatabase, .pingDatabase true, .storeDatabase,
    .requestDocker 1, .requestDatabase 1, .startDocker .cleanInactiveInstances 2]

/-- They pass, after two pings that succeeded. -/
theorem gate_truthful_bothAnswer :
    ∃ s, gate.execWhere agreeing State.initial bothAnswer = some s ∧
      s.passes = [⟨.start .cleanInactiveInstances, true, true⟩, ⟨.request, true, true⟩] ∧
      s.dockerOk = s.lastDocker ∧ s.databaseOk = s.lastDatabase := by
  refine ⟨_, rfl, rfl, ?_⟩
  have hrun : gate.Run (fun s a => agreeing s a = true) State.initial bothAnswer _ :=
    System.run_of_execWhere rfl
  exact (gate_truthful ⟨_, _, rfl, hrun⟩).1 rfl rfl

/-- The database goes down. -/
def databaseDown : List Act :=
  [.beginDocker, .pingDocker true, .storeDocker, .beginDatabase, .pingDatabase true, .storeDatabase,
    .beginDatabase, .pingDatabase false, .storeDatabase]

/-- **The wrong flag is cleared**: no task is in progress, the database's last ping has failed and
`databaseOk` is set, Docker's has succeeded and `dockerOk` is not. -/
theorem gate_not_truthful :
    ¬ ∀ s, gate.Reaches System.Any s → Truthful s := by
  intro h
  have hrun : gate.Run System.Any State.initial databaseDown _ := System.run_of_exec rfl
  have hflag := ((h _ ⟨_, _, rfl, hrun⟩).1 rfl rfl).2
  cases hflag

end UAssign.App.Precheck

import UAssign.Expire.Manager
import UAssign.Lib.Transition

/-!
# The server

The goroutines of `app/` over one database, one Docker daemon and one expiry manager: connections
(`instanceWS`, `handleInstance`), the two scheduled passes (`checkExpiredInstances`,
`cleanInactiveInstances`), the clean-ups of all instances and of a spec's, and the requests for an
instance. A step of a goroutine is one call to the database, to Docker or to the manager. What such
a call answers is part of the step's label (`Event`); a call that returns an error may have been
carried out or not. `next` says what the step does to the world (`Effect`) and where the goroutine
goes on; `World.apply` does it.

The instances a goroutine works on are copies of rows, as they were when it read them.
-/

namespace UAssign.App

open Expire

/-! ## The database -/

/-- `models.Instance`: a row of the table, and a goroutine's copy of one. The spec is known by its
ID; `Command` is only passed on to `proxy.Proxy`. -/
structure Instance where
  id : Nat
  createdAt : Nat
  spec : Nat
  imageID : Nat
  containerID : Nat
  expiresAt : Option Nat
  active : Bool
  cleaned : Bool
  deriving DecidableEq

/-- The columns that updates name. -/
inductive Column where
  | expiresAt
  | active
  | cleaned
  deriving DecidableEq

/-- A row with one column taken from a copy. -/
def Instance.setColumn (row copy : Instance) : Column → Instance
  | .expiresAt => { row with expiresAt := copy.expiresAt }
  | .active => { row with active := copy.active }
  | .cleaned => { row with cleaned := copy.cleaned }

/-- `instanceStore.Update`, on the copy's row. -/
def Instance.setColumns (row copy : Instance) (cols : List Column) : Instance :=
  cols.foldl (fun r c => r.setColumn copy c) row

/-- `FindByActive(true).FindByExpiresAt(kallax.Lt, now)`. -/
def Instance.expired (now : Nat) (r : Instance) : Bool :=
  r.active && match r.expiresAt with
    | some t => t < now
    | none => false

/-- What a clean-up queries for: the scheduled pass (`cleanInactiveInstances`), the one at shutdown
(`cleanupLeftoverInstances`) and that of a spec (`specClean`). -/
inductive CleanKind where
  | inactive
  | leftover
  | spec (id : Nat)
  deriving DecidableEq

/-- The rows a clean-up queries for. -/
def CleanKind.selects : CleanKind → Instance → Bool
  | .inactive, r => !r.active && !r.cleaned
  | .leftover, r => r.active
  | .spec id, r => r.spec = id && !r.cleaned

/-! ## Goroutines -/

/-- The place of a handler in `handleInstance`, named by what it has done; `waiting` is in
`Acquire`, before the channel is closed. -/
inductive HandlerPc where
  | start
  | waiting
  | acquired
  | cleared
  | started
  | proxied
  | renewed
  | stopped
  | released
  | done
  deriving DecidableEq

/-- The place in `cleanInstance`, by the call to come. -/
inductive CleanPc where
  | kill
  | remove
  | image
  | mark
  deriving DecidableEq

/-- The two requests that `specProcessRequest` serves. -/
inductive Request where
  | specPost
  | specClean
  deriving DecidableEq

/-- The place of a request, by the call to come, and how it ended. -/
inductive RequestPc where
  | findSpec
  | insertSpec
  | findActive
  | findInfo
  | create
  | setup (image container : Nat)
  | transact (image container expiresAt : Nat)
  | responded (id : Nat)
  | failed
  deriving DecidableEq

/-- A goroutine. -/
inductive Proc where
  | idle
  | connect (id : Nat)
  | upgrade (inst : Instance)
  | handler (pc : HandlerPc) (inst : Instance)
  | checkExpired
  | expiring (todo : List Instance)
  | cleanup (kind : CleanKind)
  | cleaning (pc : CleanPc) (todo : List Instance)
  | request (r : Request) (spec : Nat) (pc : RequestPc)
  | finished
  deriving DecidableEq

/-- The goroutines that the server starts. -/
def Proc.isStart : Proc → Bool
  | .connect _ | .checkExpired | .cleanup .inactive | .cleanup .leftover => true
  | .request _ _ .findSpec => true
  | _ => false

/-! ## The world -/

/-- A command to a container. -/
inductive Command where
  | start
  | stop
  | kill
  deriving DecidableEq

/-- The configuration, as far as the goroutines read it. -/
structure Config where
  instanceExpire : Nat
  websocketTimeout : Nat

/-- The state of the server and of what it talks to: the clock, the specs and instances in the
database, the containers that exist and those that ever have, the commands that have been issued,
the manager, the connections that `onExpire` closures have closed, and the goroutines. -/
structure World where
  now : Nat
  specs : List Nat
  instances : List Instance
  containers : List Nat
  everCreated : List Nat
  commands : List (Nat × Command)
  wsManager : Manager
  closing : List Nat
  procs : Nat → Proc

/-- What a step does to the world. -/
inductive Effect where
  | none
  | insertSpec (id : Nat)
  | insertInstance (r : Instance)
  | update (copy : Instance) (cols : List Column)
  | create (container : Nat)
  | issue (container : Nat) (c : Command)
  | remove (container : Nat)
  | acquire (name : Nat)
  | release
  | touch
  deriving DecidableEq

namespace World

/-- `wsManager.Acquire` by the goroutine `tid`, whose token, channel and closure have its number. -/
def acquire (w : World) (tid name : Nat) : Manager.Acquired :=
  w.wsManager.acquire w.now name tid tid tid

/-- The world after an effect of the goroutine `tid`. -/
def apply (w : World) (tid : Nat) : Effect → World
  | .none => w
  | .insertSpec id => { w with specs := id :: w.specs }
  | .insertInstance r => { w with instances := w.instances ++ [r] }
  | .update copy cols =>
    { w with
      instances := w.instances.map fun r => if r.id = copy.id then r.setColumns copy cols else r }
  | .create c => { w with containers := c :: w.containers, everCreated := c :: w.everCreated }
  | .issue c cmd => { w with commands := w.commands ++ [(c, cmd)] }
  | .remove c => { w with containers := w.containers.filter (· ≠ c) }
  | .acquire name =>
    { w with
      wsManager := (w.acquire tid name).manager
      closing := w.closing ++ (w.acquire tid name).started.toList }
  | .release => { w with wsManager := w.wsManager.release tid }
  | .touch => { w with wsManager := w.wsManager.update w.now tid }

/-- The world with a goroutine replaced. -/
def setProc (w : World) (tid : Nat) (p : Proc) : World :=
  { w with procs := fun t => if t = tid then p else w.procs t }

/-- A row with this ID. -/
def hasInstance (w : World) (id : Nat) : Bool := w.instances.any fun r => r.id = id

end World

/-! ## Steps -/

/-- What the call of a step answers: success, an error (the call may have been carried out), that
there is no such object, the rows of a query, a new image and container, the ID of a new instance
(and whether the insertion is reported as a success), that the connection is closed, or that there
are no more rows. -/
inductive Event where
  | ok
  | failed (applied : Bool)
  | notFound
  | rows (result : List Instance)
  | created (image container : Nat)
  | inserted (id : Nat) (reported : Bool)
  | touch
  | closed
  | abort
  deriving DecidableEq

/-- An update of the database: carried out, or not. -/
def update (copy : Instance) (cols : List Column) : Event → Option Effect
  | .ok | .failed true => some (.update copy cols)
  | .failed false => some .none
  | _ => none

/-- A command to a container; it has been issued, whatever comes of it. -/
def command (container : Nat) (c : Command) : Event → Option Effect
  | .ok | .failed _ | .notFound => some (.issue container c)
  | _ => none

/-- `instanceWS`: `FindOne`, then `UpgradeHTTP`. -/
def connectNext (w : World) (id : Nat) : Event → Option (Effect × Proc)
  | .ok =>
    match w.instances.find? fun r => r.id = id && r.active with
    | some r => some (.none, .upgrade r)
    | none => some (.none, .finished)
  | .failed _ => some (.none, .finished)
  | _ => none

@[inherit_doc connectNext]
def upgradeNext (inst : Instance) : Event → Option (Effect × Proc)
  | .ok => some (.none, .handler .start inst)
  | .failed _ => some (.none, .finished)
  | _ => none

/-- `handleInstance`. -/
def handlerNext (cfg : Config) (w : World) (tid : Nat) (inst : Instance) (e : Event) :
    HandlerPc → Option (Effect × Proc)
  | .start =>
    if e = .ok then
      some (.acquire inst.id,
        .handler (if (w.acquire tid inst.id).blocker.isSome then .waiting else .acquired) inst)
    else none
  | .waiting =>
    if e = .ok ∧ tid ∈ w.wsManager.closed then some (.none, .handler .acquired inst) else none
  | .acquired =>
    let inst := { inst with expiresAt := none }
    (update inst [.expiresAt] e).map fun eff => (eff, .handler .cleared inst)
  | .cleared =>
    (command inst.containerID .start e).map fun eff => (eff, .handler .started inst)
  | .started =>
    match e with
    | .touch => some (.touch, .handler .started inst)
    -- `Proxy` returns: on its own, or since the connection has been closed under it
    | .ok | .failed _ => some (.none, .handler .proxied inst)
    | .closed => if tid ∈ w.closing then some (.none, .handler .proxied inst) else none
    | _ => none
  | .proxied =>
    let inst := { inst with expiresAt := some (w.now + cfg.instanceExpire) }
    (update inst [.expiresAt] e).map fun eff => (eff, .handler .renewed inst)
  | .renewed =>
    (command inst.containerID .stop e).map fun eff => (eff, .handler .stopped inst)
  | .stopped => if e = .ok then some (.release, .handler .released inst) else none
  | .released => if e = .ok then some (.none, .handler .done inst) else none
  | .done => none

/-- `checkExpiredInstances`: the query, -/
def checkExpiredNext (w : World) : Event → Option (Effect × Proc)
  | .rows result =>
    if result.Perm (w.instances.filter fun r => r.expired w.now) then
      some (.none, .expiring result)
    else none
  | .failed _ => some (.none, .finished)
  | _ => none

/-- and the update of each row. -/
def expiringNext (todo : List Instance) (e : Event) : Option (Effect × Proc) :=
  if e = .abort then some (.none, .finished)
  else
    match todo with
    | [] => none
    | r :: todo =>
      (update { r with active := false } [.active] e).map fun eff => (eff, .expiring todo)

/-- `cleanupInstancesByQuery`: the query, -/
def cleanupNext (w : World) (kind : CleanKind) : Event → Option (Effect × Proc)
  | .rows result =>
    if result.Perm (w.instances.filter kind.selects) then some (.none, .cleaning .kill result)
    else none
  | .failed _ => some (.none, .finished)
  | _ => none

/-- and `cleanInstance` for each row. -/
def cleaningNext (w : World) (todo : List Instance) (e : Event) :
    CleanPc → Option (Effect × Proc)
  | .kill =>
    if e = .abort then some (.none, .finished)
    else
      match todo with
      | [] => none
      | r :: _ =>
        (command r.containerID .kill e).map fun eff => (eff, .cleaning .remove todo)
  | .remove =>
    match todo, e with
    | r :: _, .ok => some (.remove r.containerID, .cleaning .image todo)
    | r :: _, .notFound =>
      if r.containerID ∈ w.containers then none else some (.none, .cleaning .image todo)
    | r :: todo, .failed applied =>
      some (if applied then .remove r.containerID else .none, .cleaning .kill todo)
    | _, _ => none
  | .image =>
    match todo, e with
    -- an image that is not found, or in use by a stopped container, is no error
    | _ :: _, .ok | _ :: _, .notFound => some (.none, .cleaning .mark todo)
    | _ :: todo, .failed _ => some (.none, .cleaning .kill todo)
    | _, _ => none
  | .mark =>
    match todo with
    | [] => none
    | r :: todo =>
      (update { r with active := false, cleaned := true } [.active, .cleaned] e).map
        fun eff => (eff, .cleaning .kill todo)

/-- The most recently created of some instances; of several, `sort.Slice` may put any first. -/
def mostRecent : List Instance → Option Instance
  | [] => none
  | r :: rs =>
    match mostRecent rs with
    | some r' => if r.createdAt < r'.createdAt then some r' else some r
    | none => some r

/-- Where a request goes on behind `specProcessRequest`. -/
def Request.after (r : Request) (spec : Nat) : Proc :=
  match r with
  | .specPost => .request .specPost spec .findActive
  | .specClean => .cleanup (.spec spec)

/-- `specPost` and `specClean`, from the lookup of the spec on: `specProcessRequest`,
`getActiveInstance` and `createInstance`. -/
def requestNext (cfg : Config) (w : World) (r : Request) (spec : Nat) (e : Event) :
    RequestPc → Option (Effect × Proc)
  | .findSpec =>
    match e with
    | .ok =>
      some (.none, if spec ∈ w.specs then r.after spec else .request r spec .insertSpec)
    | .failed _ => some (.none, .request r spec .failed)
    | _ => none
  | .insertSpec =>
    match e with
    -- the primary key is taken: the insertion is an error
    | .ok =>
      some (if spec ∈ w.specs then (.none, .request r spec .failed)
        else (.insertSpec spec, r.after spec))
    | .failed applied =>
      some (if applied ∧ spec ∉ w.specs then .insertSpec spec else .none,
        .request r spec .failed)
    | _ => none
  | .findActive =>
    match e with
    | .rows result =>
      if result.Perm (w.instances.filter fun i => i.spec = spec && i.active) then
        match mostRecent result with
        | some i => some (.none, .request r spec (.responded i.id))
        | none => some (.none, .request r spec .findInfo)
      else none
    | .failed _ => some (.none, .request r spec .failed)
    | _ => none
  | .findInfo =>
    match e with
    | .ok => some (.none, .request r spec (if spec ∈ w.specs then .create else .failed))
    | .failed _ => some (.none, .request r spec .failed)
    | _ => none
  | .create =>
    match e with
    | .created image c =>
      if c ∈ w.everCreated then none
      else some (.create c, .request r spec (.setup image c))
    | .failed _ => some (.none, .request r spec .failed)
    | _ => none
  | .setup image c =>
    match e with
    | .ok => some (.none, .request r spec (.transact image c (w.now + cfg.instanceExpire)))
    | .failed removed =>
      some (if removed then .remove c else .none, .request r spec .failed)
    | _ => none
  | .transact image c expiresAt =>
    match e with
    | .inserted id reported =>
      if spec ∈ w.specs ∧ w.hasInstance id = false then
        some (.insertInstance ⟨id, w.now, spec, image, c, some expiresAt, true, false⟩,
          .request r spec (if reported then .responded id else .failed))
      else some (.none, .request r spec .failed)
    | .failed _ => some (.none, .request r spec .failed)
    | _ => none
  | .responded _ => none
  | .failed => none

/-- What a goroutine does next. -/
def next (cfg : Config) (w : World) (tid : Nat) (e : Event) : Proc → Option (Effect × Proc)
  | .idle => none
  | .connect id => connectNext w id e
  | .upgrade inst => upgradeNext inst e
  | .handler pc inst => handlerNext cfg w tid inst e pc
  | .checkExpired => checkExpiredNext w e
  | .expiring todo => expiringNext todo e
  | .cleanup kind => cleanupNext w kind e
  | .cleaning pc todo => cleaningNext w todo e pc
  | .request r spec pc => requestNext cfg w r spec e pc
  | .finished => none

/-- The steps of the system: a goroutine starts, or runs on; the manager ticks; time passes; the
process ends, at whatever moment, and is started again; a container vanishes, pruned or removed by
hand. -/
inductive Act where
  | start (tid : Nat) (p : Proc)
  | run (tid : Nat) (e : Event)
  | tick
  | advance (n : Nat)
  | restart
  | vanish (container : Nat)
  deriving DecidableEq

/-- One step. -/
def step (cfg : Config) (w : World) : Act → Option World
  | .start tid p =>
    if w.procs tid = .idle ∧ p.isStart = true then some (w.setProc tid p) else none
  | .run tid e =>
    match next cfg w tid e (w.procs tid) with
    | some (eff, p) => some ((w.apply tid eff).setProc tid p)
    | none => none
  | .tick => some { w with closing := w.closing ++ w.wsManager.expire w.now }
  | .advance n => some { w with now := w.now + n }
  | .restart =>
    some { w with
      wsManager := newManager cfg.websocketTimeout
      closing := []
      procs := fun _ => .idle }
  | .vanish c => some (w.apply 0 (.remove c))

/-- The world before the server is first started: nothing in the database, and containers that are
not its own. -/
def World.initial (cfg : Config) (foreign : List Nat) : World :=
  { now := 0, specs := [], instances := [], containers := foreign, everCreated := foreign,
    commands := [], wsManager := newManager cfg.websocketTimeout, closing := [],
    procs := fun _ => .idle }

/-- The server. -/
def app (cfg : Config) : System World Act where
  init w := ∃ foreign, w = World.initial cfg foreign
  step := step cfg

end UAssign.App

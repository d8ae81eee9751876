import UAssign.Docker.Image

/-!
# Creating an instance

`createInstance`, with `specCreate`, `specLegacyCreate` and the actions of `specbuild`: the image is
made, then the container, then the row, and who has made something removes it if what comes next
fails. `createsCleanly_iff` says when nothing is left behind: nobody undoes for the final
transaction, nor for `Build` once the daemon has tagged the image, nor for a builder that is not
waited for to its end; and of what a call has made that returns an error nobody knows.
-/

namespace UAssign.App

open Docker

/-! ## The assignment -/

/-- `specbuild.Action`, by the kinds of `actionFuncs`. -/
inductive Action where
  | exec
  | write
  | append
  | gobuild
  | parallel (subactions : List Action)
  | ordered (subactions : List Action)
  | unknown

/-- `specbuild.GenerateOutput`, as far as the creation depends on it. -/
structure GenerateOutput where
  imageName : String
  dockerfile : String
  postBuild : List Action

/-- What `specbuild.Generate` comes to: there is no JS code, an error, or its output. -/
inductive Generated where
  | noJS
  | failed
  | output (out : GenerateOutput)

/-- The environment of a creation. -/
abbrev CreateEnv := Env Generated

variable (env : CreateEnv)

/-! ## Actions -/

/-- `gobuild.DockerImageName`. -/
def gobuildImage : String := "jakebailey/gobuild-static"

/-- The container is made. -/
def addContainer (c : Container) (s : State) : State := { s with containers := c :: s.containers }

/-- The container is removed. -/
def dropContainer (c : Container) (s : State) : State :=
  { s with containers := s.containers.erase c }

/-- `tryContainerRemove`. -/
def tryContainerRemove (path : List Nat) : EStateM Step State Unit := do
  logged (env.call (.action path .kill) id)
  logged (env.call (.action path .remove) (dropContainer (.gobuild path)))

/-- `actionGobuild`, with `gobuild.Build`. The daemon removes the builder once it has ended, and
`ContainerWait` waits for that: a wait that fails and is carried out is one whose result is an error
or another code than 0, and one that is not carried out comes from the channel of errors, or says
that the removal has failed. -/
def actionGobuild (path : List Nat) : EStateM Step State Unit := do
  pullIfNotFound env (fun p => .action path (.pull p)) gobuildImage
  env.call (.action path .create) (addContainer (.gobuild path))
  onError (env.call (.action path .attach) id) (tryContainerRemove env path)
  onError (env.call (.action path .start) id) (tryContainerRemove env path)
  env.call (.action path .wait) (dropContainer (.gobuild path))
  env.call (.action path .exec) id

mutual

/-- `performAction`. -/
def performAction (path : List Nat) : Action → EStateM Step State Unit
  | .exec | .write | .append => env.call (.action path .exec) id
  | .gobuild => actionGobuild env path
  | .parallel acs => actionParallel path 0 acs
  | .ordered acs => performActions path 0 acs
  | .unknown => throw (.action path .unknown)

/-- `PerformActions`. -/
def performActions (path : List Nat) (n : Nat) : List Action → EStateM Step State Unit
  | [] => pure ()
  | ac :: acs => do
    performAction (n :: path) ac
    performActions path (n + 1) acs

/-- `actionParallel`: all of the actions run, and one error is returned. Each works with a container
of its own, so that they may as well run one after the other. -/
def actionParallel (path : List Nat) (n : Nat) : List Action → EStateM Step State Unit
  | [] => pure ()
  | ac :: acs => closing (performAction (n :: path) ac) (actionParallel path (n + 1) acs)

end

/-! ## Containers -/

/-- `specCreateContainerSetup`. -/
def specCreateContainerSetup (out : GenerateOutput) : EStateM Step State Unit := do
  env.call .startContainer id
  performActions env [] 0 out.postBuild
  env.call .disconnect id
  env.call .stopContainer id

/-- `specCreateContainer`. -/
def specCreateContainer (out : GenerateOutput) : EStateM Step State Unit := do
  env.call .createContainer (addContainer .own)
  onError (specCreateContainerSetup env out) do
    logged (env.call .killContainer id)
    logged (env.call .removeContainer (dropContainer .own))

/-- `specLegacyCreateContainer`, with `specLegacyCreateCmd`. An error of `GetLabel` means that there
is no label. -/
def specLegacyCreateContainer : EStateM Step State Unit := do
  env.call .createContainer (addContainer .own)
  onError (env.call .inspectContainer id) do
    logged (env.call .removeContainer (dropContainer .own))

/-! ## Instances -/

/-- The image of `specCreate`. -/
def specImage (out : GenerateOutput) : EStateM Step State Ref :=
  if out.imageName ≠ "" then do
    tagImage env out.imageName
    pure .tag
  else if out.dockerfile ≠ "" then do
    let imageID ← build env
    pure (.id imageID)
  else throw .noImage

/-- `specCreate`. -/
def specCreate (out : GenerateOutput) : EStateM Step State Ref := do
  let imageID ← specImage env out
  onError (specCreateContainer env out) do
    logged (env.call .removeImage (removeImage imageID))
  pure imageID

/-- `image.BuildLegacy`. -/
def buildLegacy : EStateM Step State String := do
  env.call .template id
  build env

/-- `specLegacyCreate`. -/
def specLegacyCreate : EStateM Step State Ref := do
  let imageID ← buildLegacy env
  onError (specLegacyCreateContainer env) do
    logged (env.call .removeImage (removeImage (.id imageID)))
  pure (.id imageID)

/-- The image and the container: by `specCreate`, or by `specLegacyCreate` if that finds no JS. -/
def createImageAndContainer : EStateM Step State Ref :=
  match env.generated with
  | .noJS => specLegacyCreate env
  | .failed => throw .generate
  | .output out => specCreate env out

/-- `createInstance`. -/
def createInstance : EStateM Step State Unit := do
  env.call .findSpec id
  let imageID ← createImageAndContainer env
  env.call .transaction fun s => { s with row := some imageID }

/-! ## When they succeed -/

/-- No call of a `gobuild` action fails. -/
def gobuildOk (path : List Nat) : Bool :=
  env.pullOk (fun p => .action path (.pull p)) gobuildImage && !env.fails (.action path .create) &&
    !env.fails (.action path .attach) && !env.fails (.action path .start) &&
    !env.fails (.action path .wait) && !env.fails (.action path .exec)

mutual

/-- No call of an action fails. -/
def actionOk (path : List Nat) : Action → Bool
  | .exec | .write | .append => !env.fails (.action path .exec)
  | .gobuild => gobuildOk env path
  | .parallel acs | .ordered acs => actionsOk path 0 acs
  | .unknown => false

/-- No call of some actions fails. -/
def actionsOk (path : List Nat) (n : Nat) : List Action → Bool
  | [] => true
  | ac :: acs => actionOk (n :: path) ac && actionsOk path (n + 1) acs

end

/-- The container is set up. -/
def setupOk (out : GenerateOutput) : Bool :=
  !env.fails .startContainer && actionsOk env [] 0 out.postBuild && !env.fails .disconnect &&
    !env.fails .stopContainer

/-- The container is made and set up. -/
def containerOk : Bool :=
  !env.fails .createContainer &&
    match env.generated with
    | .noJS => !env.fails .inspectContainer
    | .failed => false
    | .output out => setupOk env out

/-- `Build` makes the image. -/
def buildCalled : Bool :=
  match env.generated with
  | .noJS => !env.fails .template
  | .failed => false
  | .output out => out.imageName = "" && out.dockerfile ≠ ""

/-- So it does, and its build starts. -/
def buildStarts : Bool := env.buildStarts && buildCalled env

/-- The image is made. -/
def imageOk : Bool :=
  match env.generated with
  | .output out =>
    if out.imageName ≠ "" then env.pullOk .pull out.imageName && !env.fails .tag
    else buildStarts env && env.buildEnds
  | _ => buildStarts env && env.buildEnds

/-- The calls that remove containers and images again succeed. -/
structure RemovalsOk : Prop where
  container : env.fails .removeContainer = false
  image : env.fails .removeImage = false
  builder : ∀ path, env.fails (.action path .remove) = false

/-- If the creation fails, nothing of it is left. -/
def CreatesCleanly : Prop := ∀ e s, createInstance env .empty = .error e s → s = .empty

/-! ## What they leave when they fail -/

/-- The builder of a `gobuild` action is left: it is made by a call that fails, or has been started
and is there when the wait fails. -/
def builderLeft (path : List Nat) : Bool :=
  env.pullOk (fun p => .action path (.pull p)) gobuildImage &&
    (env.failsDone (.action path .create) ||
      !env.fails (.action path .create) && !env.fails (.action path .attach) &&
        !env.fails (.action path .start) && env.fails (.action path .wait) &&
        !env.failsDone (.action path .wait))

mutual

/-- The builders that an action leaves, the newest first. -/
def actionLeft (path : List Nat) : Action → List (List Nat)
  | .gobuild => if builderLeft env path then [path] else []
  | .parallel acs => parallelLeft path 0 acs
  | .ordered acs => actionsLeft path 0 acs
  | .exec | .write | .append | .unknown => []

/-- Those that actions in order leave, -/
def actionsLeft (path : List Nat) (n : Nat) : List Action → List (List Nat)
  | [] => []
  | ac :: acs =>
    if actionOk env (n :: path) ac then actionsLeft path (n + 1) acs
    else actionLeft (n :: path) ac

/-- and in parallel. -/
def parallelLeft (path : List Nat) (n : Nat) : List Action → List (List Nat)
  | [] => []
  | ac :: acs => parallelLeft path (n + 1) acs ++ actionLeft (n :: path) ac

end

/-- The containers that are left of a container that is not made. -/
def containersLeft : List Container :=
  if env.fails .createContainer then if env.failsDone .createContainer then [.own] else []
  else
    match env.generated with
    | .output out =>
      if env.fails .startContainer then [] else (actionsLeft env [] 0 out.postBuild).map .gobuild
    | _ => []

/-- The tag that is left of an image that is not made. -/
def tagLeft : Option String :=
  match env.generated with
  | .output out =>
    if out.imageName ≠ "" then
      if env.pullOk .pull out.imageName && env.failsDone .tag then some out.imageName else none
    else if buildCalled env then env.buildLeft else none
  | _ => if buildCalled env then env.buildLeft else none

/-- If all is made, the transaction succeeds; no call that makes or tags something returns an error
and has been carried out; all that `Build` does succeeds once the daemon has tagged the image, if it
stays tagged; and no builder is left. -/
structure Compensated : Prop where
  transaction : imageOk env = true → containerOk env = true → env.fails .transaction = false
  tag : ∀ out, env.generated = .output out → out.imageName ≠ "" →
    env.pullOk .pull out.imageName = true → env.failsDone .tag = false
  imageBuild : buildCalled env = true → env.fails .buildContext = false →
    env.failsDone .imageBuild = true → env.response.image = none
  build : buildStarts env = true → env.taggedImage ≠ none → env.buildEnds = true
  container : imageOk env = true → env.failsDone .createContainer = false
  builders : ∀ out, imageOk env = true → env.generated = .output out →
    env.fails .createContainer = false → env.fails .startContainer = false →
      actionsLeft env [] 0 out.postBuild = []

/-- The spec is not found, or nothing is left. -/
def CleansUp : Prop := env.fails .findSpec = false → Compensated env

/-! ## How they end -/

section

variable {env} {st : State}

/-- A call that changes nothing, and what it decides. -/
theorem call_ends_id {s : Step} :
    Ends (env.call s id) st (fun _ s' => env.fails s = false ∧ s' = st)
      fun _ s' => env.fails s = true ∧ s' = st :=
  call_id_ends (fun h => ⟨h, rfl⟩) fun h => ⟨h, rfl⟩

/-- Builders are left. -/
def addBuilders (paths : List (List Nat)) (s : State) : State :=
  { s with containers := paths.map .gobuild ++ s.containers }

@[simp] theorem addBuilders_nil : addBuilders [] st = st := rfl

theorem addBuilders_append {ps qs : List (List Nat)} :
    addBuilders ps (addBuilders qs st) = addBuilders (ps ++ qs) st := by
  simp [addBuilders]

/-- A container is removed that is there. -/
@[simp] theorem dropContainer_addContainer {c : Container} :
    dropContainer c (addContainer c st) = st := by
  simp [dropContainer, addContainer]

/-- The builders do not matter to the removal of the instance's container. -/
theorem dropContainer_addBuilders {ps : List (List Nat)} :
    dropContainer .own (addBuilders ps (addContainer .own st)) = addBuilders ps st := by
  have hps : Container.own ∉ ps.map Container.gobuild := by simp
  simp [dropContainer, addBuilders, addContainer, List.erase_append_right _ hps]

/-- The builder is removed. -/
theorem tryContainerRemove_ends (hrem : RemovalsOk env) {path : List Nat} {Q : State → Prop}
    (h : Q st) : Ends (tryContainerRemove env path) (addContainer (.gobuild path) st)
      (fun _ s => Q s) fun _ s => Q s := by
  refine Ends.bind (P := fun _ s => s = addContainer (.gobuild path) st)
    (Ends.logged (call_id_ends (fun _ => rfl) fun _ => rfl)) ?_
  rintro _ s rfl
  refine Ends.logged (call_ends (fun _ => ?_) fun hf => ?_)
  · rwa [dropContainer_addContainer]
  · rw [hrem.builder path] at hf; cases hf

/-- A `gobuild` action leaves at most its builder. -/
theorem actionGobuild_ends (hrem : RemovalsOk env) {path : List Nat} :
    Ends (actionGobuild env path) st (fun _ s => gobuildOk env path = true ∧ s = st)
      fun _ s => gobuildOk env path = false ∧
        s = addBuilders (if builderLeft env path then [path] else []) st := by
  refine Ends.bind (pullIfNotFound_ends.mono (fun _ _ => id) fun _ s hs => ?_) ?_
  · simp [gobuildOk, builderLeft, hs.1, hs.2]
  rintro _ s ⟨hpull, rfl⟩
  refine Ends.bind (P := fun _ s' => env.fails (.action path .create) = false ∧
    s' = addContainer (.gobuild path) s) (call_ends (fun h => ⟨h, rfl⟩) fun h => ⟨?_, ?_⟩) ?_
  · simp [gobuildOk, h]
  · simp only [builderLeft, hpull, h, Bool.true_and, Bool.not_true, Bool.false_and, Bool.or_false]
    split <;> rfl
  rintro _ s' ⟨hcreate, rfl⟩
  have hdone : ∀ s, env.fails s = false → env.failsDone s = false := fun s h =>
    Bool.eq_false_iff.2 fun hd => by rw [fails_of_failsDone hd] at h; cases h
  refine Ends.bind (Ends.onError call_ends_id fun _ s' hs => ?_) ?_
  · obtain ⟨hattach, rfl⟩ := hs
    refine tryContainerRemove_ends hrem ⟨by simp [gobuildOk, hattach], ?_⟩
    simp [builderLeft, hdone _ hcreate, hattach]
  rintro _ s' ⟨hattach, rfl⟩
  refine Ends.bind (Ends.onError call_ends_id fun _ s' hs => ?_) ?_
  · obtain ⟨hstart, rfl⟩ := hs
    refine tryContainerRemove_ends hrem ⟨by simp [gobuildOk, hstart], ?_⟩
    simp [builderLeft, hdone _ hcreate, hstart]
  rintro _ s' ⟨hstart, rfl⟩
  refine Ends.bind (P := fun _ s' => env.fails (.action path .wait) = false ∧ s' = s)
    (call_ends (fun h => ⟨h, dropContainer_addContainer⟩) fun h => ⟨by simp [gobuildOk, h], ?_⟩) ?_
  · simp only [builderLeft, hpull, hcreate, hattach, hstart, h, hdone _ hcreate]
    cases env.failsDone (.action path .wait)
    · rfl
    · exact dropContainer_addContainer
  rintro _ s' ⟨hwait, rfl⟩
  refine call_ends_id.mono (fun _ s' hs => ⟨?_, hs.2⟩) fun _ s' hs => ⟨?_, ?_⟩
  · simp [gobuildOk, hpull, hcreate, hattach, hstart, hwait, hs.1]
  · simp [gobuildOk, hs.1]
  · simp [builderLeft, hdone _ hcreate, hwait, hs.2]

/-- An action that succeeds leaves no builder. -/
theorem builderLeft_of_ok {path : List Nat} (h : gobuildOk env path = true) :
    builderLeft env path = false := by
  simp only [gobuildOk, Bool.and_eq_true, Bool.not_eq_true'] at h
  obtain ⟨⟨⟨⟨⟨-, hcreate⟩, -⟩, -⟩, hwait⟩, -⟩ := h
  have hdone : env.failsDone (.action path .create) = false :=
    Bool.eq_false_iff.2 fun hd => by rw [fails_of_failsDone hd] at hcreate; cases hcreate
  simp [builderLeft, hdone, hwait]

mutual

theorem actionLeft_of_ok {path : List Nat} {ac : Action} (h : actionOk env path ac = true) :
    actionLeft env path ac = [] := by
  cases ac with
  | exec | write | append | unknown => unfold actionLeft; rfl
  | gobuild =>
    unfold actionOk at h
    unfold actionLeft
    rw [builderLeft_of_ok h]
    rfl
  | parallel acs =>
    unfold actionOk at h
    unfold actionLeft
    exact parallelLeft_of_ok h
  | ordered acs =>
    unfold actionOk at h
    unfold actionLeft
    exact actionsLeft_of_ok h

theorem actionsLeft_of_ok {path : List Nat} {n : Nat} {acs : List Action}
    (h : actionsOk env path n acs = true) : actionsLeft env path n acs = [] := by
  cases acs with
  | nil => unfold actionsLeft; rfl
  | cons ac acs =>
    unfold actionsOk at h
    obtain ⟨hac, hacs⟩ := Bool.and_eq_true_iff.1 h
    unfold actionsLeft
    rw [if_pos hac]
    exact actionsLeft_of_ok hacs

theorem parallelLeft_of_ok {path : List Nat} {n : Nat} {acs : List Action}
    (h : actionsOk env path n acs = true) : parallelLeft env path n acs = [] := by
  cases acs with
  | nil => unfold parallelLeft; rfl
  | cons ac acs =>
    unfold actionsOk at h
    obtain ⟨hac, hacs⟩ := Bool.and_eq_true_iff.1 h
    unfold parallelLeft
    rw [actionLeft_of_ok hac, parallelLeft_of_ok hacs]
    rfl

end

mutual

/-- **An action** leaves nothing but builders. -/
theorem performAction_ends (hrem : RemovalsOk env) (path : List Nat) (ac : Action) (st : State) :
    Ends (performAction env path ac) st (fun _ s => actionOk env path ac = true ∧ s = st)
      fun _ s => actionOk env path ac = false ∧ s = addBuilders (actionLeft env path ac) st := by
  cases ac with
  | exec | write | append =>
    unfold performAction actionOk actionLeft
    exact call_id_ends (fun h => ⟨by simp [h], rfl⟩) fun h => ⟨by simp [h], rfl⟩
  | gobuild =>
    unfold performAction actionOk actionLeft
    exact actionGobuild_ends hrem
  | parallel acs =>
    unfold performAction actionOk actionLeft
    exact actionParallel_ends hrem path 0 acs st
  | ordered acs =>
    unfold performAction actionOk actionLeft
    exact performActions_ends hrem path 0 acs st
  | unknown =>
    unfold performAction actionOk actionLeft
    exact Ends.throw ⟨rfl, rfl⟩

/-- So do actions in order, -/
theorem performActions_ends (hrem : RemovalsOk env) (path : List Nat) (n : Nat)
    (acs : List Action) (st : State) :
    Ends (performActions env path n acs) st (fun _ s => actionsOk env path n acs = true ∧ s = st)
      fun _ s => actionsOk env path n acs = false ∧
        s = addBuilders (actionsLeft env path n acs) st := by
  cases acs with
  | nil =>
    unfold performActions actionsOk
    exact Ends.pure ⟨rfl, rfl⟩
  | cons ac acs =>
    unfold performActions actionsOk actionsLeft
    refine Ends.bind ((performAction_ends hrem (n :: path) ac st).mono (fun _ _ => id)
      fun _ s hs => ⟨by simp [hs.1], by simp [hs.1, hs.2]⟩) fun _ s hs => ?_
    obtain ⟨hac, rfl⟩ := hs
    simpa [hac] using performActions_ends hrem path (n + 1) acs s

/-- and in parallel. -/
theorem actionParallel_ends (hrem : RemovalsOk env) (path : List Nat) (n : Nat)
    (acs : List Action) (st : State) :
    Ends (actionParallel env path n acs) st (fun _ s => actionsOk env path n acs = true ∧ s = st)
      fun _ s => actionsOk env path n acs = false ∧
        s = addBuilders (parallelLeft env path n acs) st := by
  cases acs with
  | nil =>
    unfold actionParallel actionsOk
    exact Ends.pure ⟨rfl, rfl⟩
  | cons ac acs =>
    unfold actionParallel actionsOk parallelLeft
    refine Ends.closing (performAction_ends hrem (n :: path) ac st) (fun _ s hs => ?_)
      fun _ s hs => ?_
    · obtain ⟨hac, rfl⟩ := hs
      rw [actionLeft_of_ok hac, List.append_nil]
      simpa [hac] using actionParallel_ends hrem path (n + 1) acs s
    · obtain ⟨hac, rfl⟩ := hs
      refine (actionParallel_ends hrem path (n + 1) acs _).mono
        (fun _ s' hs => ⟨by simp [hac], ?_⟩) fun _ s' hs => ⟨by simp [hac], ?_⟩
      · rw [hs.2, parallelLeft_of_ok hs.1, List.nil_append]
      · rw [hs.2, addBuilders_append]

end

/-- What the setup of a container leaves. -/
def setupLeft (env : CreateEnv) (out : GenerateOutput) : List (List Nat) :=
  if env.fails .startContainer then [] else actionsLeft env [] 0 out.postBuild

/-- The setup leaves nothing but builders. -/
theorem specCreateContainerSetup_ends (hrem : RemovalsOk env) {out : GenerateOutput} :
    Ends (specCreateContainerSetup env out) st (fun _ s => setupOk env out = true ∧ s = st)
      fun _ s => setupOk env out = false ∧ s = addBuilders (setupLeft env out) st := by
  refine Ends.bind (call_ends_id.mono (fun _ _ => id) fun _ s hs => ⟨?_, ?_⟩) ?_
  · simp [setupOk, hs.1]
  · simp [setupLeft, hs.1, hs.2]
  rintro _ s ⟨hstart, rfl⟩
  have hleft : setupLeft env out = actionsLeft env [] 0 out.postBuild := by
    simp [setupLeft, hstart]
  rw [hleft]
  refine Ends.bind ((performActions_ends hrem [] 0 out.postBuild s).mono (fun _ _ => id)
    fun _ s hs => ⟨?_, hs.2⟩) ?_
  · simp [setupOk, hs.1]
  rintro _ s ⟨hactions, rfl⟩
  rw [actionsLeft_of_ok hactions, addBuilders_nil]
  refine Ends.bind (call_ends_id.mono (fun _ _ => id) fun _ s hs => ⟨?_, hs.2⟩) ?_
  · simp [setupOk, hs.1]
  rintro _ s ⟨hdisconnect, rfl⟩
  refine call_ends_id.mono (fun _ s' hs => ⟨?_, hs.2⟩) fun _ s' hs => ⟨?_, hs.2⟩
  · simp [setupOk, hstart, hactions, hdisconnect, hs.1]
  · simp [setupOk, hs.1]

/-- The instance's container is removed. -/
theorem removeContainer_ends (hrem : RemovalsOk env) {Q : State → Prop}
    (h : Q (dropContainer .own st)) :
    Ends (logged (env.call .removeContainer (dropContainer .own))) st
      (fun _ s => Q s) fun _ s => Q s := by
  refine Ends.logged (call_ends (fun _ => h) fun hf => ?_)
  rw [hrem.container] at hf
  cases hf

/-- What is left of a container that is not made. -/
def addLeft (env : CreateEnv) (s : State) : State :=
  { s with containers := containersLeft env ++ s.containers }

/-- The call that makes the container fails. -/
theorem addLeft_of_fails (h : env.fails .createContainer = true) : (if env.failsDone
    .createContainer then addContainer .own st else st) = addLeft env st := by
  unfold addLeft containersLeft
  rw [if_pos h]
  split <;> rfl

/-- The container is there, or not made at all. -/
theorem specCreateContainer_ends (hrem : RemovalsOk env) {out : GenerateOutput}
    (hgen : env.generated = .output out) :
    Ends (specCreateContainer env out) st
      (fun _ s => (!env.fails .createContainer && setupOk env out) = true ∧
        s = addContainer .own st)
      fun _ s => (!env.fails .createContainer && setupOk env out) = false ∧
        s = addLeft env st := by
  refine Ends.bind (P := fun _ s => env.fails .createContainer = false ∧ s = addContainer .own st)
    (call_ends (fun h => ⟨h, rfl⟩) fun h => ⟨by simp [h], addLeft_of_fails h⟩) ?_
  rintro _ s ⟨hcreate, rfl⟩
  have hleft : addLeft env st = addBuilders (setupLeft env out) st := by
    unfold addLeft containersLeft setupLeft
    rw [hgen, hcreate, if_neg Bool.false_ne_true]
    dsimp only
    split <;> rfl
  refine Ends.onError ((specCreateContainerSetup_ends hrem).mono
    (fun _ s hs => ⟨by simp [hcreate, hs.1], hs.2⟩) fun _ s => id) fun _ s hs => ?_
  obtain ⟨hsetup, rfl⟩ := hs
  refine Ends.bind (P := fun _ s => s = addBuilders (setupLeft env out) (addContainer .own st))
    (Ends.logged (call_id_ends (fun _ => rfl) fun _ => rfl)) ?_
  rintro _ s rfl
  refine removeContainer_ends hrem ⟨by simp [hsetup], ?_⟩
  rw [dropContainer_addBuilders, hleft]

/-- The same of the legacy container. -/
theorem specLegacyCreateContainer_ends (hrem : RemovalsOk env) (hgen : env.generated = .noJS) :
    Ends (specLegacyCreateContainer env) st
      (fun _ s => (!env.fails .createContainer && !env.fails .inspectContainer) = true ∧
        s = addContainer .own st)
      fun _ s => (!env.fails .createContainer && !env.fails .inspectContainer) = false ∧
        s = addLeft env st := by
  refine Ends.bind (P := fun _ s => env.fails .createContainer = false ∧ s = addContainer .own st)
    (call_ends (fun h => ⟨h, rfl⟩) fun h => ⟨by simp [h], addLeft_of_fails h⟩) ?_
  rintro _ s ⟨hcreate, rfl⟩
  have hleft : addLeft env st = st := by
    unfold addLeft containersLeft
    rw [hgen, hcreate, if_neg Bool.false_ne_true]
    rfl
  refine Ends.onError (call_ends_id.mono (fun _ s hs => ⟨by simp [hcreate, hs.1], hs.2⟩)
    fun _ s => id) fun _ s hs => ?_
  obtain ⟨hinspect, rfl⟩ := hs
  refine removeContainer_ends hrem ⟨by simp [hinspect], ?_⟩
  rw [dropContainer_addContainer, hleft]

/-- Removing the image leaves nothing of it. -/
theorem removeImage_empty {ref : Ref} {t : Option String} {cs : List Container}
    (h : ref = .tag ∨ t = none ∨ ∃ i, ref = .id i ∧ t = some i) :
    removeImage ref { State.empty with containers := cs, tag := t } =
      { State.empty with containers := cs } := by
  rcases h with rfl | rfl | ⟨i, rfl, rfl⟩
  · rfl
  · cases ref <;> rfl
  · simp [removeImage, State.empty]

/-- An image, and then a container: if the container fails, the image is removed. -/
theorem imageThenContainer_ends (hrem : RemovalsOk env) {image : EStateM Step State Ref}
    {container : EStateM Step State Unit} {iOk cOk : Bool}
    (hi : Ends image .empty (fun ref s => iOk = true ∧ ∃ t, s = { State.empty with tag := t } ∧
        (ref = .tag ∨ t = none ∨ ∃ i, ref = .id i ∧ t = some i))
      fun _ s => iOk = false ∧ s = { State.empty with tag := tagLeft env })
    (hc : ∀ s, Ends container s (fun _ s' => cOk = true ∧ s' = addContainer .own s)
      fun _ s' => cOk = false ∧ s' = addLeft env s) :
    Ends (do
        let imageID ← image
        onError container (logged (env.call .removeImage (removeImage imageID)))
        pure imageID) .empty
      (fun _ s => (iOk = true ∧ cOk = true) ∧ s.containers ≠ [])
      fun _ s => (iOk = true ∧ cOk = false ∧ s = addLeft env .empty) ∨
        (iOk = false ∧ s = { State.empty with tag := tagLeft env }) := by
  refine Ends.bind (hi.mono (fun _ _ => id) fun _ s hs => .inr hs) ?_
  rintro ref s ⟨hiOk, t, rfl, href⟩
  refine Ends.bind (P := fun _ s' => cOk = true ∧ s'.containers ≠ []) (Ends.onError ((hc _).mono
    (fun _ s' hs => ⟨hs.1, ?_⟩) fun _ s' => id) fun _ s' hs => ?_) ?_
  · rw [hs.2]; nofun
  · obtain ⟨hcOk, rfl⟩ := hs
    refine Ends.logged (call_ends (fun _ => .inl ⟨hiOk, hcOk, removeImage_empty href⟩) fun hf => ?_)
    rw [hrem.image] at hf
    cases hf
  · rintro _ s' ⟨hcOk, hs⟩
    exact Ends.pure ⟨⟨hiOk, hcOk⟩, hs⟩

/-- The image of `specCreate`. -/
theorem specImage_ends {out : GenerateOutput} (hgen : env.generated = .output out) :
    Ends (specImage env out) .empty
      (fun ref s => imageOk env = true ∧ ∃ t, s = { State.empty with tag := t } ∧
        (ref = .tag ∨ t = none ∨ ∃ i, ref = .id i ∧ t = some i))
      fun _ s => imageOk env = false ∧ s = { State.empty with tag := tagLeft env } := by
  unfold specImage imageOk tagLeft buildStarts buildCalled
  simp only [hgen]
  by_cases hname : out.imageName = ""
  swap
  · simp only [hname, ne_eq, not_false_eq_true, if_true]
    exact Ends.bind (tagImage_ends.mono (fun _ _ => id) fun _ s hs => hs) fun _ s hs =>
      Ends.pure ⟨hs.1, _, hs.2, .inl rfl⟩
  simp only [hname, ne_eq, not_true_eq_false, if_false, decide_true, Bool.true_and]
  by_cases hfile : out.dockerfile = ""
  · simp only [hfile, not_true_eq_false, if_false, decide_false, Bool.and_false, Bool.false_and,
      Bool.false_eq_true]
    exact Ends.throw ⟨trivial, rfl⟩
  · simp only [hfile, not_false_eq_true, if_true, decide_true, Bool.and_true]
    refine Ends.bind ((build_ends rfl).mono (fun _ _ => id) fun _ s => id) fun id s hs => ?_
    obtain ⟨hok, himage, rfl⟩ := hs
    exact Ends.pure ⟨hok, _, rfl, himage.elim (fun h => .inr (.inl h))
      fun h => .inr (.inr ⟨id, rfl, h⟩)⟩

/-- The image of the legacy path. -/
theorem buildLegacy_ends (hgen : env.generated = .noJS) :
    Ends (do let imageID ← buildLegacy env; pure (Ref.id imageID)) .empty
      (fun ref s => imageOk env = true ∧ ∃ t, s = { State.empty with tag := t } ∧
        (ref = .tag ∨ t = none ∨ ∃ i, ref = .id i ∧ t = some i))
      fun _ s => imageOk env = false ∧ s = { State.empty with tag := tagLeft env } := by
  unfold imageOk tagLeft buildStarts buildCalled
  simp only [hgen]
  refine Ends.bind (P := fun id s => (env.buildStarts && !env.fails .template && env.buildEnds) =
      true ∧ (env.taggedImage = none ∨ env.taggedImage = some id) ∧
      s = { State.empty with tag := env.taggedImage }) (Ends.bind (call_ends_id.mono
    (fun _ _ => id) fun _ s hs => ⟨by simp [hs.1], by simp [hs.1, hs.2, State.empty]⟩) ?_) ?_
  · rintro _ s ⟨htemplate, rfl⟩
    simpa [htemplate] using @build_ends _ env State.empty rfl
  · rintro id s ⟨hok, himage, rfl⟩
    exact Ends.pure ⟨hok, _, rfl, himage.elim (fun h => .inr (.inl h))
      fun h => .inr (.inr ⟨id, rfl, h⟩)⟩

/-- **How an instance is made**, up to its row: if the container fails, what is left of it; if the
image does, at most its tag. -/
theorem createImageAndContainer_ends (hrem : RemovalsOk env) :
    Ends (createImageAndContainer env) .empty
      (fun _ s => (imageOk env = true ∧ containerOk env = true) ∧ s.containers ≠ [])
      fun _ s => (imageOk env = true ∧ containerOk env = false ∧ s = addLeft env .empty) ∨
        (imageOk env = false ∧ s = { State.empty with tag := tagLeft env }) := by
  unfold createImageAndContainer
  cases hgen : env.generated with
  | noJS =>
    have hc : containerOk env = (!env.fails .createContainer && !env.fails .inspectContainer) := by
      unfold containerOk
      rw [hgen]
    have h := imageThenContainer_ends hrem (buildLegacy_ends hgen) fun s =>
      @specLegacyCreateContainer_ends env s hrem hgen
    simp only [bind_assoc, pure_bind] at h
    rw [hc]
    exact h
  | failed =>
    refine Ends.throw (.inr ⟨?_, ?_⟩)
    · simp [imageOk, buildStarts, buildCalled, hgen]
    · simp [tagLeft, buildCalled, hgen, State.empty]
  | output out =>
    have hc : containerOk env = (!env.fails .createContainer && setupOk env out) := by
      unfold containerOk
      rw [hgen]
    rw [hc]
    exact imageThenContainer_ends hrem (specImage_ends hgen) fun s =>
      specCreateContainer_ends hrem hgen

/-! ## Whether anything is left -/

/-- An image whose build starts. -/
theorem imageOk_of_buildStarts (h : buildStarts env = true) : imageOk env = env.buildEnds := by
  unfold imageOk
  split
  · next out hgen =>
    have hname : out.imageName = "" := by
      unfold buildStarts buildCalled at h
      rw [hgen] at h
      simp only [Bool.and_eq_true, decide_eq_true_eq] at h
      exact h.2.1
    rw [if_neg fun hne => hne hname, h, Bool.true_and]
  · rw [h, Bool.true_and]

/-- An image that is made by a build. -/
theorem buildStarts_of_imageOk (h : imageOk env = true) (hcalled : buildCalled env = true) :
    buildStarts env = true := by
  unfold imageOk at h
  split at h
  · next out hgen =>
    have hname : out.imageName = "" := by
      unfold buildCalled at hcalled
      rw [hgen] at hcalled
      simp only [Bool.and_eq_true, decide_eq_true_eq] at hcalled
      exact hcalled.1
    rw [if_neg fun hne => hne hname] at h
    exact (Bool.and_eq_true_iff.1 h).1
  · exact (Bool.and_eq_true_iff.1 h).1

/-- A call that has succeeded. -/
theorem failsDone_of_ok {s : Step} (h : env.fails s = false) : env.failsDone s = false :=
  Bool.eq_false_iff.2 fun hd => by rw [fails_of_failsDone hd] at h; cases h

/-- No image is left of one that is made. -/
theorem compensated_of_imageOk (h : imageOk env = true)
    (htransaction : containerOk env = true → env.fails .transaction = false)
    (hcontainer : env.failsDone .createContainer = false)
    (hbuilders : ∀ out, env.generated = .output out → env.fails .createContainer = false →
      env.fails .startContainer = false → actionsLeft env [] 0 out.postBuild = []) :
    Compensated env where
  transaction _ := htransaction
  tag out hgen hname hpull := by
    unfold imageOk at h
    rw [hgen] at h
    simp only [hname, ne_eq, not_false_eq_true, if_true, hpull, Bool.true_and,
      Bool.not_eq_true'] at h
    exact failsDone_of_ok h
  imageBuild hcalled _ hdone := by
    have hstarts := buildStarts_of_imageOk h hcalled
    simp only [buildStarts, Env.buildStarts, Bool.and_eq_true, Bool.not_eq_true'] at hstarts
    rw [failsDone_of_ok hstarts.1.2] at hdone
    cases hdone
  build hstarts _ := by rw [← imageOk_of_buildStarts hstarts, h]
  container _ := hcontainer
  builders out _ := hbuilders out

/-- What is left of a creation that fails to make the container. -/
theorem containersLeft_nil_iff (h : imageOk env = true) (hc : containerOk env = false) :
    addLeft env .empty = .empty ↔ Compensated env := by
  have hleft : addLeft env .empty = .empty ↔ containersLeft env = [] := by
    simp [addLeft, State.empty]
  rw [hleft]
  constructor
  · intro hnil
    refine compensated_of_imageOk h (fun hok => ?_) ?_ fun out hgen hcreate hstart => ?_
    · rw [hc] at hok; cases hok
    · refine Bool.eq_false_iff.2 fun hdone => ?_
      simp [containersLeft, fails_of_failsDone hdone, hdone] at hnil
    · simpa [containersLeft, hcreate, hgen, hstart] using hnil
  · intro hcomp
    unfold containersLeft
    split
    · rw [hcomp.container h]
      rfl
    · next hcreate =>
      split
      · next out hgen =>
        split
        · rfl
        · next hstart =>
          rw [hcomp.builders out h hgen (Bool.not_eq_true _ ▸ hcreate)
            (Bool.not_eq_true _ ▸ hstart)]
          rfl
      · rfl

/-- What is left by `Build`. -/
theorem buildLeft_none_iff (hcalled : buildCalled env = true) (h : imageOk env = false) :
    env.buildLeft = none ↔
      (env.fails .buildContext = false → env.failsDone .imageBuild = true →
        env.response.image = none) ∧
      (buildStarts env = true → env.taggedImage ≠ none → env.buildEnds = true) := by
  unfold Env.buildLeft
  cases hcontext : env.fails .buildContext with
  | true =>
    have hstarts : buildStarts env = false := by simp [buildStarts, Env.buildStarts, hcontext]
    simp [hstarts]
  | false =>
    cases hbuild : env.fails .imageBuild with
    | true =>
      have hstarts : buildStarts env = false := by simp [buildStarts, Env.buildStarts, hbuild]
      simp [hstarts]
    | false =>
      have hstarts : buildStarts env = true := by
        simp [buildStarts, Env.buildStarts, hcontext, hbuild, hcalled]
      have hends : env.buildEnds = false := by rw [← imageOk_of_buildStarts hstarts, h]
      simp [failsDone_of_ok hbuild, hstarts, hends]

/-- What is left of a creation that fails to make the image. -/
theorem tagLeft_none_iff (h : imageOk env = false) :
    { State.empty with tag := tagLeft env } = State.empty ↔ Compensated env := by
  have hleft : { State.empty with tag := tagLeft env } = State.empty ↔ tagLeft env = none := by
    simp [State.empty]
  have hno : ¬ imageOk env = true := by rw [h]; exact Bool.false_ne_true
  rw [hleft]
  have hbuild : (if buildCalled env then env.buildLeft else none) = none ↔
      (buildCalled env = true → env.fails .buildContext = false →
        env.failsDone .imageBuild = true → env.response.image = none) ∧
      (buildStarts env = true → env.taggedImage ≠ none → env.buildEnds = true) := by
    cases hcalled : buildCalled env with
    | true => simpa using buildLeft_none_iff hcalled h
    | false => simp [buildStarts, hcalled]
  have hcomp : Compensated env ↔
      (∀ out, env.generated = .output out → out.imageName ≠ "" →
        env.pullOk .pull out.imageName = true → env.failsDone .tag = false) ∧
      (buildCalled env = true → env.fails .buildContext = false →
        env.failsDone .imageBuild = true → env.response.image = none) ∧
      (buildStarts env = true → env.taggedImage ≠ none → env.buildEnds = true) :=
    ⟨fun hc => ⟨hc.tag, hc.imageBuild, hc.build⟩, fun ⟨htag, himage, hends⟩ =>
      ⟨fun hok => (hno hok).elim, htag, himage, hends, fun hok => (hno hok).elim,
        fun _ hok => (hno hok).elim⟩⟩
  rw [hcomp, ← hbuild]
  unfold tagLeft
  split
  · next out hgen =>
    by_cases hname : out.imageName = ""
    · simp [hgen, hname]
    · have hcalled : buildCalled env = false := by simp [buildCalled, hgen, hname]
      simp [hgen, hname, hcalled]
  · next hgen =>
    rw [iff_and_self]
    exact fun _ out hout => (hgen out hout).elim

/-- Nothing is left of what is made, but what the row refers to. -/
theorem compensated_of_ok (hi : imageOk env = true) (hc : containerOk env = true)
    (ht : env.fails .transaction = false) : Compensated env := by
  have hsetup := hc
  simp only [containerOk, Bool.and_eq_true, Bool.not_eq_true'] at hsetup
  refine compensated_of_imageOk hi (fun _ => ht) (failsDone_of_ok hsetup.1) fun out hgen _ _ => ?_
  have hout := hsetup.2
  rw [hgen] at hout
  simp only [setupOk, Bool.and_eq_true] at hout
  exact actionsLeft_of_ok hout.1.1.2

/-- **How `createInstance` ends.** -/
theorem createInstance_ends (hrem : RemovalsOk env) :
    Ends (createInstance env) .empty (fun _ _ => CleansUp env)
      fun _ s => s = .empty ↔ CleansUp env := by
  refine Ends.bind (call_ends_id.mono (fun _ _ => id) fun _ s hs => ?_) ?_
  · refine ⟨fun _ hok => ?_, fun _ => hs.2⟩
    rw [hs.1] at hok
    cases hok
  rintro _ s ⟨hspec, rfl⟩
  have hclean : CleansUp env ↔ Compensated env := ⟨fun h => h hspec, fun h _ => h⟩
  rw [hclean]
  refine Ends.bind ((createImageAndContainer_ends hrem).mono (fun _ _ => id) fun _ s hs => ?_)
    fun imageID s hs => ?_
  · rcases hs with ⟨hi, hc, rfl⟩ | ⟨hi, rfl⟩
    · exact containersLeft_nil_iff hi hc
    · exact tagLeft_none_iff hi
  · obtain ⟨⟨hi, hc⟩, hleft⟩ := hs
    refine call_ends (fun ht => compensated_of_ok hi hc ht) fun ht => ⟨fun hs => ?_, fun hcomp => ?_⟩
    · refine (hleft ?_).elim
      split at hs
      · exact congrArg State.containers hs
      · exact congrArg State.containers hs
    · rw [hcomp.transaction hi hc] at ht
      cases ht

end

/-- The assignment names an image that is there, and one call fails, which is not carried out. -/
def failing (s : Step) : CreateEnv :=
  { answer := fun t => if t = s then .failed false else .ok, hasImage := fun _ => true,
    response := ⟨[], none, false⟩, generated := .output ⟨"busybox", "", [.gobuild]⟩ }

end UAssign.App

import UAssign.Lib.Compensation

/-!
# Building and tagging images

`pkg/docker/image/build.go`, `pull.go`, `app/specbuild/tag.go` and the calls to Docker they share
with the rest of `createInstance`. Each call site is a `Step`, and an `Env` says which of them fail,
and whether the daemon has carried them out all the same. `State` is what a creation has made so
far. `build_ends` says how `Build` ends, and which image has the tag then: the daemon tags it before
`Build` has read the whole body and removed the images of the other stages.
-/

namespace UAssign.Docker

/-! ## The environment -/

/-- The calls of `PullIfNotFound` and `Pull`. -/
inductive PullStep where
  | inspect
  | parse
  | pull
  | close
  deriving DecidableEq

/-- The calls of an action; but for `unknown` and `exec`, they are those of `gobuild`. -/
inductive ActionStep where
  | unknown
  | pull (p : PullStep)
  | create
  | attach
  | start
  | wait
  | kill
  | remove
  | exec
  deriving DecidableEq

/-- The call sites of `createInstance`. An action is known by its path in the list of actions, and a
stage by its place among those to remove. -/
inductive Step where
  | findSpec
  | generate
  | noImage
  | pull (p : PullStep)
  | tag
  | template
  | buildContext
  | imageBuild
  | buildBody
  | removeStage (n : Nat)
  | closeBody
  | closeContext
  | createContainer
  | startContainer
  | action (path : List Nat) (s : ActionStep)
  | disconnect
  | stopContainer
  | inspectContainer
  | killContainer
  | removeContainer
  | removeImage
  | transaction
  deriving DecidableEq

/-- What an image is referred to by: the instance's tag, or an ID. -/
inductive Ref where
  | tag
  | id (s : String)
  deriving DecidableEq

/-- The containers a creation makes: the instance's own, and one for each `gobuild` action. -/
inductive Container where
  | own
  | gobuild (path : List Nat)
  deriving DecidableEq

/-- What a creation has made and not removed: containers, the image with the instance's tag, and
the row, by its image. -/
structure State where
  containers : List Container
  tag : Option String
  row : Option Ref
  deriving DecidableEq

/-- Nothing. -/
def State.empty : State := ⟨[], none, none⟩

/-- What the field `aux` of a message decodes to. -/
inductive Aux where
  | invalid
  | result (id : String)
  deriving DecidableEq

/-- `jsonmessage.JSONMessage`, as far as it is read. -/
structure Message where
  stream : String
  aux : Option Aux
  deriving DecidableEq

/-- The answer to a build: the messages that decode; if something breaks behind them, those that the
daemon sends all the same; and whether it tags the image in the end. -/
structure Response where
  decoded : List Message
  broken : Option (List Message)
  tagged : Bool
  deriving DecidableEq

/-- The image that the last of the messages with an `aux` names. -/
def lastImage : List Message → Option String
  | [] => none
  | m :: ms =>
    match lastImage ms, m.aux with
    | some id, _ => some id
    | none, some (.result id) => some id
    | none, _ => none

/-- The image that the daemon tags. -/
def Response.image (r : Response) : Option String :=
  if r.tagged then lastImage (r.decoded ++ r.broken.getD []) else none

/-- How a call ends: without an error, or with one, behind which it may have been carried out. -/
inductive Answer where
  | ok
  | failed (done : Bool)
  deriving DecidableEq

/-- What the calls answer. -/
structure Env (Generated : Type) where
  answer : Step → Answer
  hasImage : String → Bool
  response : Response
  generated : Generated

variable {G : Type} (env : Env G)

/-- A call fails. -/
def Env.fails (s : Step) : Bool := env.answer s ≠ .ok

/-- A call fails that has been carried out. -/
def Env.failsDone (s : Step) : Bool := env.answer s = .failed true

/-- A call. -/
def Env.call (s : Step) (effect : State → State) : EStateM Step State Unit :=
  match env.answer s with
  | .ok => modify effect
  | .failed true => do
    modify effect
    throw s
  | .failed false => throw s

/-- `ImageRemove`, of a tag or of an ID. -/
def removeImage : Ref → State → State
  | .tag, s => { s with tag := none }
  | .id i, s => { s with tag := if s.tag = some i then none else s.tag }

/-! ## Pulling and tagging -/

/-- `PullIfNotFound`, with `Pull`. -/
def pullIfNotFound (step : PullStep → Step) (name : String) : EStateM Step State Unit := do
  env.call (step .inspect) id
  if env.hasImage name then pure ()
  else do
    env.call (step .parse) id
    env.call (step .pull) id
    env.call (step .close) id

/-- `TagImage`. -/
def tagImage (name : String) : EStateM Step State Unit := do
  pullIfNotFound env .pull name
  env.call .tag fun s => { s with tag := some name }

/-! ## Building -/

/-- The loop of `readBuildBody` over the messages that decode. -/
def readMessages : List Message → String → List String → Nat →
    Option (String × List String × Nat)
  | [], imageID, toRemove, fromCount => some (imageID, toRemove, fromCount)
  | m :: ms, imageID, toRemove, fromCount =>
    let fromCount := if "FROM ".toList <:+: m.stream.toList then fromCount + 1 else fromCount
    match m.aux with
    | none => readMessages ms imageID toRemove fromCount
    | some .invalid => none
    | some (.result id) =>
      readMessages ms id (if imageID ≠ "" then toRemove ++ [imageID] else toRemove) fromCount

/-- `readBuildBody`. -/
def readBuildBody (r : Response) : Option (String × List String) :=
  match readMessages r.decoded "" [] 0 with
  | none => none
  | some (imageID, toRemove, fromCount) =>
    if r.broken.isSome then none
    else if imageID = "" then none
    else if toRemove.length + 1 ≠ fromCount then none
    else some (imageID, toRemove)

/-- The removal of the other stages' images. -/
def removeStages : List (String × Nat) → EStateM Step State Unit
  | [] => pure ()
  | (i, n) :: rest => do
    env.call (.removeStage n) (removeImage (.id i))
    removeStages rest

/-- `Build`, from the body on. -/
def readBuild : EStateM Step State String :=
  match readBuildBody env.response with
  | none => throw .buildBody
  | some (imageID, toRemove) => do
    removeStages env toRemove.zipIdx
    pure imageID

/-- `Build`. The daemon tags the image by the time the body ends. -/
def build : EStateM Step State String := do
  env.call .buildContext id
  closing
    (do
      env.call .imageBuild fun s => { s with tag := env.response.image.or s.tag }
      closing (readBuild env) (env.call .closeBody id))
    (env.call .closeContext id)

/-! ## When they succeed -/

/-- No call of `PullIfNotFound` fails. -/
def Env.pullOk (step : PullStep → Step) (name : String) : Bool :=
  !env.fails (step .inspect) && (env.hasImage name ||
    (!env.fails (step .parse) && !env.fails (step .pull) && !env.fails (step .close)))

/-- The calls of `Build` up to the one that starts the build succeed. -/
def Env.buildStarts : Bool := !env.fails .buildContext && !env.fails .imageBuild

/-- The body of the build reads well, and the removals of the stages' images succeed. -/
def Env.stagesOk : Bool :=
  match readBuildBody env.response with
  | none => false
  | some (_, toRemove) => toRemove.zipIdx.all fun x => !env.fails (.removeStage x.2)

/-- What is left to do once the build has started succeeds. -/
def Env.buildEnds : Bool := env.stagesOk && !env.fails .closeBody && !env.fails .closeContext

/-- The images that the removals remove, up to the first failure. -/
def Env.removed : List (String × Nat) → List String
  | [] => []
  | (i, n) :: rest =>
    if env.fails (.removeStage n) then if env.failsDone (.removeStage n) then [i] else []
    else i :: Env.removed rest

/-- The same of the stages of the build. -/
def Env.removedStages : List String :=
  match readBuildBody env.response with
  | none => []
  | some (_, toRemove) => env.removed toRemove.zipIdx

/-- The image that a build which has started leaves with the tag: the one the daemon tags, unless
it has been removed as a stage's. -/
def Env.taggedImage : Option String :=
  env.response.image.filter fun i => i ∉ env.removedStages

/-- The image that a build which fails leaves with the tag. -/
def Env.buildLeft : Option String :=
  if env.fails .buildContext then none
  else if env.fails .imageBuild then
    if env.failsDone .imageBuild then env.response.image else none
  else env.taggedImage

/-- Without the tag, if it is that of one of the images. -/
def State.untag (st : State) (l : List String) : State :=
  { st with tag := st.tag.filter fun i => i ∉ l }

variable {env}

/-! ## How they end -/

theorem fails_of_failsDone {s : Step} (h : env.failsDone s = true) : env.fails s = true := by
  simp [Env.fails, of_decide_eq_true h]

/-- A call. -/
theorem call_ends {s : Step} {effect : State → State} {st : State} {P : Unit → State → Prop}
    {Q : Step → State → Prop} (hok : env.fails s = false → P () (effect st))
    (hfail : env.fails s = true → Q s (if env.failsDone s then effect st else st)) :
    Ends (env.call s effect) st P Q := by
  unfold Env.call
  unfold Env.fails Env.failsDone at *
  split
  · next h => exact Ends.modify (hok (by simp [h]))
  · next h =>
    have hq := hfail (by simp [h])
    rw [h] at hq
    exact Ends.bind (P := fun _ s' => s' = effect st) (Ends.modify rfl) fun _ s' hs =>
      Ends.throw (hs ▸ hq)
  · next h =>
    have hq := hfail (by simp [h])
    rw [h] at hq
    exact Ends.throw hq

/-- A call that changes nothing. -/
theorem call_id_ends {s : Step} {st : State} {P : Unit → State → Prop} {Q : Step → State → Prop}
    (hok : env.fails s = false → P () st) (hfail : env.fails s = true → Q s st) :
    Ends (env.call s id) st P Q :=
  call_ends hok fun h => by rw [id, ite_self]; exact hfail h

/-- `PullIfNotFound` makes nothing of the instance's. -/
theorem pullIfNotFound_ends {step : PullStep → Step} {name : String} {st : State} :
    Ends (pullIfNotFound env step name) st (fun _ s => env.pullOk step name = true ∧ s = st)
      fun _ s => env.pullOk step name = false ∧ s = st := by
  unfold pullIfNotFound Env.pullOk
  refine Ends.bind (P := fun _ s => env.fails (step .inspect) = false ∧ s = st)
    (call_id_ends (fun h => ⟨h, rfl⟩) fun h => ⟨by simp [h], rfl⟩) ?_
  rintro _ s ⟨hinspect, rfl⟩
  cases himage : env.hasImage name with
  | true => exact Ends.pure ⟨by simp [hinspect], rfl⟩
  | false =>
    refine Ends.bind (P := fun _ s' => env.fails (step .parse) = false ∧ s' = s)
      (call_id_ends (fun h => ⟨h, rfl⟩) fun h => ⟨by simp [h], rfl⟩) ?_
    rintro _ s ⟨hparse, rfl⟩
    refine Ends.bind (P := fun _ s' => env.fails (step .pull) = false ∧ s' = s)
      (call_id_ends (fun h => ⟨h, rfl⟩) fun h => ⟨by simp [h], rfl⟩) ?_
    rintro _ s ⟨hpull, rfl⟩
    refine call_id_ends (fun h => ⟨?_, rfl⟩) fun h => ⟨by simp [h], rfl⟩
    simp [hinspect, hparse, hpull, h]

/-- `TagImage` tags the image, or fails, and may have tagged it. -/
theorem tagImage_ends {name : String} {st : State} :
    Ends (tagImage env name) st
      (fun _ s => (env.pullOk .pull name && !env.fails .tag) = true ∧
        s = { st with tag := some name })
      fun _ s => (env.pullOk .pull name && !env.fails .tag) = false ∧
        s = { st with tag := if env.pullOk .pull name && env.failsDone .tag then some name
          else st.tag } := by
  refine Ends.bind (pullIfNotFound_ends.mono (fun _ _ => id) fun _ s hs => ?_) fun _ s hs => ?_
  · obtain ⟨hpull, rfl⟩ := hs
    exact ⟨by rw [hpull, Bool.false_and], by rw [hpull]; rfl⟩
  · obtain ⟨hpull, rfl⟩ := hs
    refine call_ends (fun h => ⟨by simp [hpull, h], rfl⟩) fun h => ⟨by simp [h], ?_⟩
    rw [hpull, Bool.true_and]
    split <;> rfl

/-- The loop ends with the image that the last message names. -/
theorem readMessages_image {ms : List Message} {id id' : String} {rm rm' : List String} {n n' : Nat}
    (h : readMessages ms id rm n = some (id', rm', n')) : id' = (lastImage ms).getD id := by
  induction ms generalizing id rm n with
  | nil => cases h; rfl
  | cons m ms ih =>
    simp only [readMessages] at h
    unfold lastImage
    split at h
    · next haux =>
      rw [ih h, haux]
      cases lastImage ms <;> rfl
    · cases h
    · next i haux =>
      rw [ih h, haux]
      cases lastImage ms <;> rfl

/-- `readBuildBody` returns no error where the whole body decodes, the loop ends with an image, and
the counts agree. -/
theorem readBuildBody_ok {r : Response} {id : String} {rm : List String}
    (h : readBuildBody r = some (id, rm)) :
    r.broken = none ∧ id ≠ "" ∧ ∃ n, readMessages r.decoded "" [] 0 = some (id, rm, n) ∧
      rm.length + 1 = n := by
  unfold readBuildBody at h
  split at h
  · cases h
  · next id' rm' n hread =>
    split at h
    · cases h
    · next hbroken =>
      split at h
      · cases h
      · next hid =>
        split at h
        · cases h
        · next hlen =>
          cases h
          exact ⟨Option.not_isSome_iff_eq_none.1 hbroken, hid, n, hread, by omega⟩

/-- The image that `readBuildBody` returns is the one that the daemon tags, if it tags any. -/
theorem readBuildBody_image {r : Response} {id : String} {rm : List String}
    (h : readBuildBody r = some (id, rm)) : r.image = none ∨ r.image = some id := by
  obtain ⟨hbroken, -, n, hread, -⟩ := readBuildBody_ok h
  have himage := readMessages_image hread
  unfold Response.image
  rw [hbroken, Option.getD_none, List.append_nil]
  split
  · cases hlast : lastImage r.decoded with
    | none => exact .inl rfl
    | some i => rw [himage, hlast]; exact .inr rfl
  · exact .inl rfl

/-- Nothing is removed. -/
@[simp] theorem untag_nil {st : State} : st.untag [] = st := by
  obtain ⟨c, t, r⟩ := st
  cases t <;> simp [State.untag, Option.filter]

/-- One image is removed after the other. -/
theorem untag_cons {st : State} {i : String} {l : List String} :
    (removeImage (.id i) st).untag l = st.untag (i :: l) := by
  obtain ⟨c, t, r⟩ := st
  cases t with
  | none => simp [State.untag, removeImage]
  | some j => by_cases hj : j = i <;> simp [State.untag, removeImage, hj, Option.filter]

/-- The tag after the removal of some images. -/
theorem removeStages_ends {l : List (String × Nat)} {st : State} :
    Ends (removeStages env l) st
      (fun _ s => (l.all fun x => !env.fails (.removeStage x.2)) = true ∧
        s = st.untag (env.removed l))
      fun _ s => (l.all fun x => !env.fails (.removeStage x.2)) = false ∧
        s = st.untag (env.removed l) := by
  induction l generalizing st with
  | nil => exact Ends.pure ⟨rfl, untag_nil.symm⟩
  | cons x rest ih =>
    obtain ⟨i, n⟩ := x
    have hok : env.fails (.removeStage n) = false →
        env.removed ((i, n) :: rest) = i :: env.removed rest := by
      intro h
      simp [Env.removed, h]
    refine Ends.bind (P := fun _ s => env.fails (.removeStage n) = false ∧
      s = removeImage (.id i) st) (call_ends (fun h => ⟨h, rfl⟩) fun h => ⟨?_, ?_⟩) ?_
    · simp [h]
    · unfold Env.removed
      rw [if_pos h]
      split
      · rw [← untag_cons, untag_nil]
      · rw [untag_nil]
    · rintro _ s ⟨hn, rfl⟩
      refine ih.mono (fun _ s hs => ⟨?_, ?_⟩) fun _ s hs => ⟨?_, ?_⟩
      · simpa [hn] using hs.1
      · rw [hs.2, hok hn, untag_cons]
      · simpa [hn] using hs.1
      · rw [hs.2, hok hn, untag_cons]

/-- Reading the body and removing the stages. -/
theorem readBuild_ends {st : State} :
    Ends (readBuild env) st
      (fun id s => env.stagesOk = true ∧ (∃ rm, readBuildBody env.response = some (id, rm)) ∧
        s = st.untag env.removedStages)
      fun _ s => env.stagesOk = false ∧ s = st.untag env.removedStages := by
  unfold readBuild Env.stagesOk Env.removedStages
  cases readBuildBody env.response with
  | none => exact Ends.throw ⟨rfl, untag_nil.symm⟩
  | some x =>
    obtain ⟨id, rm⟩ := x
    refine Ends.bind removeStages_ends fun _ s hs => Ends.pure ⟨hs.1, ⟨rm, rfl⟩, hs.2⟩

/-- What a build leaves that has started. -/
theorem buildLeft_of_starts (hcontext : env.fails .buildContext = false)
    (hbuild : env.fails .imageBuild = false) : env.buildLeft = env.taggedImage := by
  simp [Env.buildLeft, hcontext, hbuild]

/-- **How `Build` ends**: the daemon's tag stays even where it fails, unless the build has not
started. -/
theorem build_ends {st : State} (htag : st.tag = none) :
    Ends (build env) st
      (fun id s => (env.buildStarts && env.buildEnds) = true ∧
        (env.taggedImage = none ∨ env.taggedImage = some id) ∧
        s = { st with tag := env.taggedImage })
      fun _ s => (env.buildStarts && env.buildEnds) = false ∧
        s = { st with tag := env.buildLeft } := by
  have hst : { st with tag := none } = st := by rw [← htag]
  have huntag : State.untag { st with tag := env.response.image } env.removedStages =
      { st with tag := env.taggedImage } := rfl
  refine Ends.bind (P := fun _ s => env.fails .buildContext = false ∧ s = st)
    (call_id_ends (fun h => ⟨h, rfl⟩) fun h => ⟨?_, ?_⟩) ?_
  · simp [Env.buildStarts, h]
  · simp [Env.buildLeft, h, hst]
  rintro _ s ⟨hcontext, rfl⟩
  refine Ends.closing
    (A := fun id s' => (env.fails .imageBuild = false ∧ env.stagesOk = true ∧
      env.fails .closeBody = false) ∧ (∃ rm, readBuildBody env.response = some (id, rm)) ∧
      s' = { s with tag := env.taggedImage })
    (B := fun _ s' => (env.buildStarts && env.buildEnds) = false ∧
      s' = { s with tag := env.buildLeft }) ?_ ?_ ?_
  · refine Ends.bind (P := fun _ s' => env.fails .imageBuild = false ∧
      s' = { s with tag := env.response.image }) (call_ends (fun h => ⟨h, ?_⟩) fun h => ⟨?_, ?_⟩) ?_
    · simp [htag]
    · simp [Env.buildStarts, h]
    · unfold Env.buildLeft
      rw [hcontext, h, if_neg Bool.false_ne_true, if_pos rfl]
      split
      · rw [htag, Option.or_none]
      · exact hst.symm
    rintro _ s' ⟨hbuild, rfl⟩
    have hleft := buildLeft_of_starts hcontext hbuild
    refine Ends.closing readBuild_ends (fun id s' hs => ?_) fun _ s' hs => ?_
    · obtain ⟨hstages, hread, rfl⟩ := hs
      refine call_id_ends (fun h => ⟨⟨hbuild, hstages, h⟩, hread, huntag⟩) fun h => ⟨?_, ?_⟩
      · simp [Env.buildEnds, h]
      · rw [hleft]; exact huntag
    · obtain ⟨hstages, rfl⟩ := hs
      have hend : (env.buildStarts && env.buildEnds) = false := by simp [Env.buildEnds, hstages]
      rw [← hleft] at huntag
      exact call_id_ends (fun _ => ⟨hend, huntag⟩) fun _ => ⟨hend, huntag⟩
  · rintro id s' ⟨⟨hbuild, hstages, hbody⟩, ⟨rm, hread⟩, rfl⟩
    refine call_id_ends (fun h => ⟨?_, ?_, rfl⟩) fun h => ⟨?_, ?_⟩
    · simp [Env.buildStarts, hcontext, hbuild, Env.buildEnds, hstages, hbody, h]
    · unfold Env.taggedImage
      rcases readBuildBody_image hread with himage | himage
      · exact .inl (by rw [himage]; rfl)
      · rw [himage]
        by_cases hmem : id ∈ env.removedStages
        · exact .inl (by simp [Option.filter, hmem])
        · exact .inr (by simp [Option.filter, hmem])
    · simp [Env.buildEnds, h]
    · rw [buildLeft_of_starts hcontext hbuild]
  · rintro _ s' hs
    exact call_id_ends (fun _ => hs) fun _ => hs

end UAssign.Docker

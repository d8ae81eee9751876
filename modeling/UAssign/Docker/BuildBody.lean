import UAssign.Docker.Image

/-!
# The body of a build

`readBuildBody` of `pkg/docker/image/build.go` infers from two counters whether all stages of a
build have succeeded: the messages whose text contains `FROM `, and the image IDs. A `Build` is a
body with its stages told apart. No failure is taken for a success (`readBuildBody_success`), but
the text of a message may turn a success into a failure, and errors are not looked at
(`readBuildBody_outcome_iff`). The images it returns for removal may have the result among them
(`toRemove_iff`).
-/

namespace UAssign.Docker

/-! ## Builds -/

/-- `jsonmessage.JSONMessage` with the field `error`, which `readBuildBody` does not look at. -/
structure BuildMessage extends Message where
  error : Option String
  deriving DecidableEq

/-- Its text contains `FROM `. -/
def Message.hasFrom (m : Message) : Bool := "FROM ".toList <:+: m.stream.toList

/-- The image ID that a message carries. -/
def Message.imageID (m : Message) : Option String :=
  match m.aux with
  | some (.result id) => if id = "" then none else some id
  | _ => none

/-- A stage that has started: the message that opens it, what it prints, the message with its image
ID if it succeeds, and what comes before the next stage. -/
structure Stage where
  opening : BuildMessage
  output : List BuildMessage
  closing : Option BuildMessage
  rest : List BuildMessage
  opens : opening.hasFrom = true
  opening_plain : opening.imageID = none
  plain : ∀ m ∈ output ++ rest, m.imageID = none
  closes : ∀ m ∈ closing, m.imageID ≠ none

/-- The messages of a stage but for the one that opens it, -/
def Stage.others (st : Stage) : List BuildMessage :=
  st.output ++ st.closing.toList ++ st.rest

/-- and all of them. -/
def Stage.messages (st : Stage) : List BuildMessage := st.opening :: st.others

/-- The image of a stage. -/
def Stage.imageID (st : Stage) : Option String := st.closing.bind fun m => m.imageID

/-- A build: what comes before the first stage, and the stages. -/
structure Build where
  preamble : List BuildMessage
  stages : List Stage
  plain : ∀ m ∈ preamble, m.imageID = none

/-- The body. -/
def Build.messages (b : Build) : List BuildMessage := b.preamble ++ b.stages.flatMap Stage.messages

/-- The messages that open no stage. -/
def Build.others (b : Build) : List BuildMessage := b.preamble ++ b.stages.flatMap Stage.others

/-- Every stage that has started has succeeded, and there is one. -/
def Build.Succeeds (b : Build) : Prop :=
  b.stages ≠ [] ∧ ∀ st ∈ b.stages, st.closing.isSome = true

/-- The answer with this body, all of which decodes. -/
def Build.response (b : Build) (tagged : Bool) : Response :=
  ⟨b.messages.map BuildMessage.toMessage, none, tagged⟩

/-! ## The counters -/

section

variable {ms : List Message} {id id' : String} {rm rm' : List String} {n n' : Nat} {b : Build}

/-- The image ID that the loop holds, if it holds one. -/
def held (id : String) : List String := if id = "" then [] else [id]

/-- **What the loop counts**: the messages with `FROM `, and the image IDs. -/
theorem readMessages_spec (h : readMessages ms id rm n = some (id', rm', n')) :
    n' = n + ms.countP Message.hasFrom ∧
      rm' ++ held id' = rm ++ held id ++ ms.filterMap Message.imageID := by
  induction ms generalizing id rm n with
  | nil =>
    cases h
    simp
  | cons m ms ih =>
    have hcount : ∀ k, k = (if "FROM ".toList <:+: m.stream.toList then n + 1 else n) →
        k + ms.countP Message.hasFrom = n + (m :: ms).countP Message.hasFrom := by
      rintro _ rfl
      rw [List.countP_cons]
      unfold Message.hasFrom
      split
      · next hfrom =>
        rw [if_pos (decide_eq_true hfrom)]
        omega
      · next hfrom =>
        rw [if_neg (by simpa using hfrom)]
        omega
    simp only [readMessages] at h
    split at h
    · next haux =>
      obtain ⟨hn, hids⟩ := ih h
      have hnone : m.imageID = none := by rw [Message.imageID, haux]
      exact ⟨hn.trans (hcount _ rfl), by rw [hids, List.filterMap_cons, hnone]⟩
    · cases h
    · next i haux =>
      obtain ⟨hn, hids⟩ := ih h
      refine ⟨hn.trans (hcount _ rfl), ?_⟩
      have hheld : (if id ≠ "" then rm ++ [id] else rm) = rm ++ held id := by
        unfold held
        by_cases hid : id = "" <;> simp [hid]
      have himage : (m :: ms).filterMap Message.imageID =
          held i ++ ms.filterMap Message.imageID := by
        rw [List.filterMap_cons, Message.imageID, haux]
        unfold held
        by_cases hi : i = "" <;> simp [hi]
      rw [hids, hheld, himage, List.append_assoc]

/-- The loop ends, if every `aux` decodes. -/
theorem readMessages_isSome (h : ∀ m ∈ ms, m.aux ≠ some .invalid) (id : String) (rm : List String)
    (n : Nat) : (readMessages ms id rm n).isSome = true := by
  induction ms generalizing id rm n with
  | nil => rfl
  | cons m ms ih =>
    have hms := ih fun m' hm' => h m' (List.mem_cons_of_mem _ hm')
    simp only [readMessages]
    split
    · exact hms ..
    · next haux => exact absurd haux (h m (List.mem_cons_self ..))
    · exact hms ..

/-- The image that the last message names is one that a message names. -/
theorem lastImage_mem (h : lastImage ms = some id) : ∃ m ∈ ms, m.aux = some (.result id) := by
  induction ms with
  | nil => cases h
  | cons m ms ih =>
    unfold lastImage at h
    split at h
    · next hlast =>
      cases h
      obtain ⟨m', hm', haux⟩ := ih hlast
      exact ⟨m', List.mem_cons_of_mem _ hm', haux⟩
    · next haux =>
      cases h
      exact ⟨m, List.mem_cons_self .., haux⟩
    · cases h

/-- There is one, if a message names an image. -/
theorem lastImage_isSome {m : Message} (hm : m ∈ ms) (haux : m.aux = some (.result id)) :
    (lastImage ms).isSome = true := by
  induction ms with
  | nil => cases hm
  | cons m' ms ih =>
    unfold lastImage
    rcases List.mem_cons.1 hm with rfl | hm
    · rw [haux]
      cases lastImage ms <;> rfl
    · obtain ⟨i, hi⟩ := Option.isSome_iff_exists.1 (ih hm)
      rw [hi]
      rfl

/-! ## The stages -/

/-- Each stage opens with one of the messages with `FROM `. -/
theorem count_from (b : Build) : b.messages.countP (fun m => m.hasFrom) =
    b.stages.length + b.others.countP fun m => m.hasFrom := by
  have hstages : ∀ stages : List Stage,
      (stages.flatMap Stage.messages).countP (fun m => m.hasFrom) =
        stages.length + (stages.flatMap Stage.others).countP fun m => m.hasFrom := by
    intro stages
    induction stages with
    | nil => rfl
    | cons st stages ih =>
      have hopen : st.messages.countP (fun m => m.hasFrom) =
          st.others.countP (fun m => m.hasFrom) + 1 := List.countP_cons_of_pos st.opens
      rw [List.flatMap_cons, List.flatMap_cons, List.countP_append, List.countP_append, ih, hopen,
        List.length_cons]
      omega
  rw [Build.messages, Build.others, List.countP_append, List.countP_append, hstages]
  omega

/-- Messages without an image ID. -/
theorem filterMap_plain {l : List BuildMessage} (h : ∀ m ∈ l, m.imageID = none) :
    l.filterMap (fun m => m.imageID) = [] := List.filterMap_eq_nil_iff.2 h

/-- A stage has one image ID if it has succeeded. -/
theorem stage_images (st : Stage) :
    st.messages.filterMap (fun m => m.imageID) = st.imageID.toList := by
  have houtput := filterMap_plain fun m hm => st.plain m (List.mem_append_left _ hm)
  have hrest := filterMap_plain fun m hm => st.plain m (List.mem_append_right _ hm)
  rw [Stage.messages, Stage.others, List.filterMap_cons, st.opening_plain]
  simp only [List.filterMap_append, houtput, hrest, List.nil_append, List.append_nil]
  unfold Stage.imageID
  cases st.closing with
  | none => rfl
  | some m => cases h : m.imageID <;> simp [h]

/-- The image IDs are those of the stages. -/
theorem build_images (b : Build) :
    b.messages.filterMap (fun m => m.imageID) = b.stages.filterMap Stage.imageID := by
  rw [Build.messages, List.filterMap_append, filterMap_plain b.plain, List.nil_append]
  induction b.stages with
  | nil => rfl
  | cons st stages ih =>
    rw [List.flatMap_cons, List.filterMap_append, stage_images, ih, List.filterMap_cons]
    cases st.imageID <;> rfl

theorem stage_imageID_isSome (st : Stage) : st.imageID.isSome = st.closing.isSome := by
  unfold Stage.imageID
  cases h : st.closing with
  | none => rfl
  | some m => simpa [Option.isSome_iff_ne_none] using st.closes m (by rw [h]; rfl)

/-- Not more stages have succeeded than have started; if as many have, all of them have. -/
theorem images_length (stages : List Stage) :
    (stages.filterMap Stage.imageID).length ≤ stages.length ∧
      (stages.length ≤ (stages.filterMap Stage.imageID).length ↔
        ∀ st ∈ stages, st.closing.isSome = true) := by
  induction stages with
  | nil => simp
  | cons st stages ih =>
    have hst := stage_imageID_isSome st
    obtain ⟨hle, hiff⟩ := ih
    rw [List.filterMap_cons]
    cases h : st.imageID with
    | none =>
      rw [h] at hst
      simp only [List.length_cons, List.mem_cons, forall_eq_or_imp, ← hst]
      refine ⟨by omega, fun h' => ?_, fun h' => ?_⟩
      · omega
      · cases h'.1
    | some i =>
      rw [h] at hst
      simp only [List.length_cons, List.mem_cons, forall_eq_or_imp, ← hst, ← hiff]
      simp [hle]

/-- What the loop reads of the body of a build. -/
theorem read_build
    (h : readMessages (b.messages.map BuildMessage.toMessage) "" [] 0 = some (id, rm, n)) :
    n = b.stages.length + b.others.countP (fun m => m.hasFrom) ∧
      rm ++ held id = b.stages.filterMap Stage.imageID := by
  obtain ⟨hn, hids⟩ := readMessages_spec h
  rw [List.countP_map] at hn
  rw [List.filterMap_map] at hids
  rw [Nat.zero_add] at hn
  exact ⟨hn.trans (count_from b), hids.trans (build_images b)⟩

end

/-- **No failure is taken for a success.** If `readBuildBody` returns no error for the body of a
build, at least one stage has started, each stage has succeeded, and the images are those of the
stages in order, the last of which is the build's. Nothing is asked of the texts of the messages, or
of where a stage that has failed stands. -/
theorem readBuildBody_success (b : Build) (r : Response)
    (hr : r.decoded = b.messages.map BuildMessage.toMessage) {id : String} {rm : List String}
    (h : readBuildBody r = some (id, rm)) :
    b.Succeeds ∧ rm ++ [id] = b.stages.filterMap Stage.imageID := by
  obtain ⟨-, hid, n, hread, hlen⟩ := readBuildBody_ok h
  rw [hr] at hread
  obtain ⟨hn, hids⟩ := read_build hread
  rw [held, if_neg hid] at hids
  obtain ⟨hle, hiff⟩ := images_length b.stages
  have hlength : (b.stages.filterMap Stage.imageID).length = rm.length + 1 := by
    rw [← hids]
    simp
  refine ⟨⟨?_, hiff.1 (by omega)⟩, hids⟩
  intro hnil
  rw [hnil] at hids
  simp at hids

/-- A message without an image ID. -/
def printed (stream : String) : BuildMessage := ⟨⟨stream, none⟩, none⟩

/-- Two stages that succeed, with messages in front of them, in them and behind each of them. -/
def buildTwo : Build where
  preamble := [printed "Sending build context"]
  stages :=
    [{ opening := printed "Step 1/4 : FROM golang AS build"
       output := [printed " ---> 1a2b", printed "Step 2/4 : RUN go build"]
       closing := some ⟨⟨"", some (.result "a")⟩, none⟩, rest := [printed "Removing intermediate"]
       opens := by decide, opening_plain := rfl, plain := (by simp [printed, Message.imageID])
       closes := (by decide) },
     { opening := printed "Step 3/4 : FROM alpine"
       output := [printed "Step 4/4 : COPY --from=build /go /go"]
       closing := some ⟨⟨"", some (.result "b")⟩, none⟩, rest := [printed "Successfully built b"]
       opens := by decide, opening_plain := rfl, plain := (by simp [printed, Message.imageID])
       closes := (by decide) }]
  plain := by simp [printed, Message.imageID]

theorem readBuildBody_success_two :
    buildTwo.Succeeds ∧ ["a"] ++ ["b"] = buildTwo.stages.filterMap Stage.imageID :=
  readBuildBody_success buildTwo (buildTwo.response true) rfl (by decide)

section

variable {b : Build}

/-- Where every `aux` names an image, the loop ends; and with an image, if a stage has succeeded. -/
theorem read_build_docker (haux : ∀ m ∈ b.messages, m.imageID = none → m.aux = none) :
    ∃ id rm n, readMessages (b.messages.map BuildMessage.toMessage) "" [] 0 = some (id, rm, n) ∧
      (b.Succeeds → id ≠ "") := by
  have himage : ∀ m ∈ b.messages.map BuildMessage.toMessage, m.imageID = none → m.aux = none := by
    intro m hm
    obtain ⟨m', hm', rfl⟩ := List.mem_map.1 hm
    exact haux m' hm'
  have hvalid : ∀ m ∈ b.messages.map BuildMessage.toMessage, m.aux ≠ some .invalid := by
    intro m hm hinvalid
    have hnone := himage m hm (by rw [Message.imageID, hinvalid])
    rw [hnone] at hinvalid
    cases hinvalid
  obtain ⟨⟨id, rm, n⟩, hread⟩ :=
    Option.isSome_iff_exists.1 (readMessages_isSome hvalid "" [] 0)
  refine ⟨id, rm, n, hread, fun hsucceeds => ?_⟩
  obtain ⟨st, hst⟩ := List.exists_mem_of_ne_nil _ hsucceeds.1
  obtain ⟨m, hm⟩ := Option.isSome_iff_exists.1 (hsucceeds.2 st hst)
  have hmem : m.toMessage ∈ b.messages.map BuildMessage.toMessage := by
    refine List.mem_map_of_mem (List.mem_append_right _ (List.mem_flatMap.2 ⟨st, hst, ?_⟩))
    simp [Stage.messages, Stage.others, hm]
  have hcloses : m.imageID ≠ none := st.closes m (by rw [hm]; rfl)
  obtain ⟨i, hi⟩ : ∃ i, m.aux = some (.result i) := by
    unfold Message.imageID at hcloses
    split at hcloses
    · exact ⟨_, ‹_›⟩
    · exact absurd rfl hcloses
  obtain ⟨j, hj⟩ := Option.isSome_iff_exists.1 (lastImage_isSome hmem hi)
  obtain ⟨m', hm', haux'⟩ := lastImage_mem hj
  have hid : id = j := by rw [readMessages_image hread, hj, Option.getD_some]
  rintro rfl
  have hnone := himage m' hm' (by rw [Message.imageID, haux', ← hid]; rfl)
  rw [hnone] at haux'
  cases haux'

/-- **When `readBuildBody` returns no error**: the stages have succeeded, and only the messages that
open them contain `FROM `. -/
theorem readBuildBody_isSome_iff (haux : ∀ m ∈ b.messages, m.imageID = none → m.aux = none)
    (tagged : Bool) : (readBuildBody (b.response tagged)).isSome = true ↔
      b.Succeeds ∧ ¬ ∃ m ∈ b.others, m.hasFrom = true := by
  have hcount : (¬ ∃ m ∈ b.others, m.hasFrom = true) ↔
      b.others.countP (fun m => m.hasFrom) = 0 := by
    rw [List.countP_eq_zero]
    simp
  rw [hcount]
  obtain ⟨id, rm, n, hread, hid⟩ := read_build_docker haux
  obtain ⟨hn, hids⟩ := read_build hread
  obtain ⟨hle, hiff⟩ := images_length b.stages
  constructor
  · intro h
    obtain ⟨⟨id', rm'⟩, hbody⟩ := Option.isSome_iff_exists.1 h
    have hsucceeds := (readBuildBody_success b _ rfl hbody).1
    refine ⟨hsucceeds, ?_⟩
    have hlength : (b.stages.filterMap Stage.imageID).length = rm.length + 1 := by
      rw [← hids, held, if_neg (hid hsucceeds)]
      simp
    have hall := hiff.2 hsucceeds.2
    refine Nat.eq_zero_of_not_pos fun hfrom => ?_
    have hlen : rm.length + 1 ≠ n := by omega
    rw [readBuildBody, Build.response, hread] at hbody
    simp [hlen] at hbody
  · rintro ⟨hsucceeds, hfrom⟩
    have hlength : (b.stages.filterMap Stage.imageID).length = rm.length + 1 := by
      rw [← hids, held, if_neg (hid hsucceeds)]
      simp
    have hall := hiff.2 hsucceeds.2
    have hlen : rm.length + 1 = n := by omega
    rw [readBuildBody, Build.response, hread]
    simp [hid hsucceeds, hlen]

end

/-- **When the outcome depends on the stages and errors only**: for a build whose stages have
succeeded, there is a message with `FROM ` that opens no stage exactly if there is an error. -/
theorem readBuildBody_outcome_iff (b : Build)
    (haux : ∀ m ∈ b.messages, m.imageID = none → m.aux = none) (tagged : Bool) :
    ((readBuildBody (b.response tagged)).isSome = true ↔
      b.Succeeds ∧ ∀ m ∈ b.messages, m.error = none) ↔
    (b.Succeeds → ((∃ m ∈ b.others, m.hasFrom = true) ↔ ¬ ∀ m ∈ b.messages, m.error = none)) := by
  rw [readBuildBody_isSome_iff haux]
  by_cases hsucceeds : b.Succeeds
  · simp only [hsucceeds, true_and, forall_true_left]
    rw [not_iff_comm]
    exact iff_comm
  · simp [hsucceeds]

/-- One stage that succeeds, with a message before its image ID and one behind it. -/
def buildWith (output rest : BuildMessage) (h : ∀ m ∈ [output] ++ [rest], m.imageID = none) :
    Build where
  preamble := []
  stages :=
    [{ opening := ⟨⟨"Step 1/2 : FROM alpine", none⟩, none⟩, output := [output]
       closing := some ⟨⟨"", some (.result "a")⟩, none⟩, rest := [rest]
       opens := by decide, opening_plain := rfl, plain := h, closes := (by decide) }]
  plain := by simp

/-- A `RUN` step prints `FROM `. -/
def buildNoisy : Build :=
  buildWith ⟨⟨"SELECT * FROM t", none⟩, none⟩ ⟨⟨"", none⟩, none⟩ (by decide)

/-- An error behind the last stage. -/
def buildErring : Build :=
  buildWith ⟨⟨"", none⟩, none⟩ ⟨⟨"", none⟩, some "no space left"⟩ (by decide)

theorem readBuildBody_outcome_noisy :
    ((readBuildBody (buildNoisy.response true)).isSome = true ↔
      buildNoisy.Succeeds ∧ ∀ m ∈ buildNoisy.messages, m.error = none) ↔
    (buildNoisy.Succeeds → ((∃ m ∈ buildNoisy.others, m.hasFrom = true) ↔
      ¬ ∀ m ∈ buildNoisy.messages, m.error = none)) :=
  readBuildBody_outcome_iff buildNoisy (by decide) true

/-- The first is reported as a failure, the second as a success. -/
theorem readBuildBody_misled :
    ¬ ((readBuildBody (buildNoisy.response true)).isSome = true ↔
      buildNoisy.Succeeds ∧ ∀ m ∈ buildNoisy.messages, m.error = none) ∧
    ¬ ((readBuildBody (buildErring.response true)).isSome = true ↔
      buildErring.Succeeds ∧ ∀ m ∈ buildErring.messages, m.error = none) := by
  have hsucceeds : buildNoisy.Succeeds := ⟨List.cons_ne_nil _ _, by simp [buildNoisy, buildWith]⟩
  constructor
  · intro h
    have hsome := h.2 ⟨hsucceeds, by decide⟩
    revert hsome
    decide
  · intro h
    have herror := (h.1 (by decide)).2
    revert herror
    decide

/-! ## The images to remove -/

/-- The images to remove and the result, in the order in which they are announced. -/
theorem readBuildBody_images {r : Response} {id : String} {rm : List String}
    (h : readBuildBody r = some (id, rm)) :
    rm ++ [id] = r.decoded.filterMap Message.imageID := by
  obtain ⟨-, hid, n, hread, -⟩ := readBuildBody_ok h
  have hids := (readMessages_spec hread).2
  rw [held, if_neg hid] at hids
  simpa [held] using hids

section

variable {G : Type}

/-- The removal loop removes images to remove, in their order. -/
theorem removed_sublist (env : Env G) (rm : List (String × Nat)) :
    (env.removed rm).Sublist (rm.map Prod.fst) := by
  induction rm with
  | nil => exact .slnil
  | cons x rest ih =>
    unfold Env.removed
    split
    · split
      · exact .cons_cons _ (List.nil_sublist _)
      · exact List.nil_sublist _
    · exact .cons_cons _ ih

/-- **When the removals leave the result alone**: the images to remove are distinct and none is the
result, in `toRemove` as in every run of the loop, exactly if no image is announced twice. -/
theorem toRemove_iff {r : Response} {id : String} {rm : List String}
    (h : readBuildBody r = some (id, rm)) :
    (id ∉ rm ∧ rm.Nodup ∧ ∀ env : Env G, env.response = r →
      id ∉ env.removedStages ∧ env.removedStages.Nodup) ↔
    (r.decoded.filterMap Message.imageID).Nodup := by
  have hnodup : (rm ++ [id]).Nodup ↔ id ∉ rm ∧ rm.Nodup := by
    rw [← List.concat_eq_append, List.nodup_concat]
  rw [← readBuildBody_images h, hnodup]
  constructor
  · rintro ⟨hid, hrm, -⟩
    exact ⟨hid, hrm⟩
  · rintro ⟨hid, hrm⟩
    refine ⟨hid, hrm, fun env henv => ?_⟩
    have hremoved : env.removedStages = env.removed rm.zipIdx := by
      rw [Env.removedStages, henv, h]
    have hsub := removed_sublist env rm.zipIdx
    rw [List.zipIdx_map_fst] at hsub
    rw [hremoved]
    exact ⟨fun hmem => hid (hsub.subset hmem), hrm.sublist hsub⟩

/-- A build with a stage for each of the images. -/
def announcing (ids : List String) : Response where
  decoded := ids.flatMap fun i => [⟨"Step : FROM alpine", none⟩, ⟨"", some (.result i)⟩]
  broken := none
  tagged := true

theorem toRemove_two :
    ("b" ∉ ["a"] ∧ ["a"].Nodup ∧ ∀ env : Env Unit, env.response = announcing ["a", "b"] →
      "b" ∉ env.removedStages ∧ env.removedStages.Nodup) ↔
    ((announcing ["a", "b"]).decoded.filterMap Message.imageID).Nodup :=
  toRemove_iff (by decide)

/-- With two stages of one content, the only image is removed. -/
theorem toRemove_same :
    ¬ ∀ (r : Response) (id : String) (rm : List String), readBuildBody r = some (id, rm) →
      id ∉ rm ∧ rm.Nodup ∧ ∀ env : Env Unit, env.response = r →
        id ∉ env.removedStages ∧ env.removedStages.Nodup := by
  intro h
  have hsame := (h (announcing ["a", "a"]) "a" ["a"] (by decide)).1
  simp at hsame

end

end UAssign.Docker

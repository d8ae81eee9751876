import UAssign.Lib.Transition

/-!
# Images that cannot be removed

A row's `ImageID` is the instance's own tag where an image has been tagged, but the ID where one
has been built; and builds with the same outcome have the same ID, with one more tag each.
`cleanInstance` asks Docker to remove the image by what the row says, and Docker refuses an ID that
has tags in several repositories. `pass_cleans_iff` says which passes of `cleanInactiveInstances`
clean all rows.
-/

namespace UAssign.App.Images

/-! ## The image store -/

/-- A repository, which has one tag: that of an instance (`ua-` and its ID), or another one. -/
inductive Repo where
  | ua (id : Nat)
  | other (n : Nat)
  deriving DecidableEq

/-- What a row's `ImageID` is: the instance's tag, or an image's ID. -/
inductive Ref where
  | tag
  | id (image : Nat)
  deriving DecidableEq

/-- `models.Instance`, as far as clean-ups read it. -/
structure Row where
  id : Nat
  image : Ref
  active : Bool
  cleaned : Bool
  deriving DecidableEq

/-- The container of an instance, which has its name. -/
structure Container where
  name : Nat
  image : Nat
  running : Bool
  deriving DecidableEq

/-- The database and Docker: the instance IDs that have been given, the rows, the containers, the
images, and what the tags of the repositories refer to. -/
structure State where
  used : List Nat
  rows : List Row
  containers : List Container
  images : List Nat
  tags : List (Repo × Nat)

/-- What Docker answers to a removal. `stopped` is "image is being used by stopped container". -/
inductive Answer where
  | ok
  | notFound
  | stopped
  | refused
  deriving DecidableEq

namespace State

/-- The tags of an image are in one repository. -/
def single (s : State) (image : Nat) : Bool :=
  s.tags.all fun t => s.tags.all fun u => t.2 = image → u.2 = image → t.1 = u.1

/-- `ImageRemove` of an ID. -/
def removeID (s : State) (image : Nat) : Answer × State :=
  if image ∉ s.images then (.notFound, s)
  else if !s.single image then (.refused, s)
  else if s.containers.any fun c => c.image = image && c.running then (.refused, s)
  else if s.containers.any fun c => c.image = image then (.stopped, s)
  else
    (.ok, { s with
      images := s.images.filter (· ≠ image)
      tags := s.tags.filter (·.2 ≠ image) })

/-- `ImageRemove` of a tag: the image goes with its last one. -/
def removeTag (s : State) (repo : Repo) : Answer × State :=
  match s.tags.find? (·.1 = repo) with
  | none => (.notFound, s)
  | some (_, image) =>
    if s.tags.any fun t => t.2 = image && t.1 ≠ repo then
      (.ok, { s with tags := s.tags.filter (·.1 ≠ repo) })
    -- a container is using its referenced image
    else if s.containers.any fun c => c.image = image then (.refused, s)
    else
      (.ok, { s with
        images := s.images.filter (· ≠ image)
        tags := s.tags.filter (·.1 ≠ repo) })

/-- `ImageRemove` of a row's `ImageID`. -/
def imageRemove (s : State) (id : Nat) : Ref → Answer × State
  | .tag => s.removeTag (.ua id)
  | .id image => s.removeID image

/-- `ContainerKill`, `ContainerStart` and `ContainerStop`. -/
def setRunning (s : State) (name : Nat) (running : Bool) : State :=
  { s with containers := s.containers.map fun c => if c.name = name then { c with running } else c }

/-- `ContainerRemove`. -/
def containerRemove (s : State) (name : Nat) : Answer × State :=
  if s.containers.any fun c => c.name = name && c.running then (.refused, s)
  else if s.containers.any fun c => c.name = name then
    (.ok, { s with containers := s.containers.filter (·.name ≠ name) })
  else (.notFound, s)

/-- `instanceStore.Update` of `Active`, and of `Active` and `Cleaned`. -/
def update (s : State) (id : Nat) (f : Row → Row) : State :=
  { s with rows := s.rows.map fun r => if r.id = id then f r else r }

end State

/-! ## Clean-ups -/

/-- The call of a `cleanInstance` that fails, without being carried out. -/
inductive Fault where
  | container
  | image
  | update
  deriving DecidableEq

/-- `cleanInstance`, and whether it returns no error. -/
def cleanInstance (fault : Option Fault) (s : State) (r : Row) : Bool × State :=
  let s := s.setRunning r.id false
  let (removed, s) := if fault = some .container then (.refused, s) else s.containerRemove r.id
  if removed ≠ .ok ∧ removed ≠ .notFound then (false, s)
  else
    let (removed, s) := if fault = some .image then (.refused, s) else s.imageRemove r.id r.image
    if removed = .refused then (false, s)
    else if fault = some .update then (false, s)
    else (true, s.update r.id fun r => { r with active := false, cleaned := true })

/-- The rows that `cleanInactiveInstances` queries for. -/
def State.toClean (s : State) : List Row := s.rows.filter fun r => !r.active && !r.cleaned

/-- `cleanupInstancesByQuery`, over the rows of the query, while nothing fails. -/
def cleanupInstances (s : State) : List Row → State
  | [] => s
  | r :: rs => cleanupInstances (cleanInstance none s r).2 rs

/-! ## Creations -/

/-- How an image is made: from a Dockerfile, with intermediary stages, or by tagging one that is
pulled if it is not there. -/
inductive Build where
  | dockerfile (stages : List Nat) (image : Nat)
  | tag (name : Nat) (pulled : Nat)
  deriving DecidableEq

/-- The removal of the images of the stages, in `Build`. -/
def removeStages (s : State) : List Nat → Bool × State
  | [] => (true, s)
  | i :: is =>
    match s.removeID i with
    | (.ok, s) => removeStages s is
    | (_, s) => (false, s)

/-- `Build` and `TagImage`: the image, unless this fails, and what the row will say of it. -/
def Build.run (s : State) (id : Nat) : Build → Option (Nat × Ref) × State
  | .dockerfile stages image =>
    let (removed, s) := removeStages
      { s with images := stages ++ image :: s.images, tags := (.ua id, image) :: s.tags } stages
    (if removed then some (image, .id image) else none, s)
  | .tag name pulled =>
    match s.tags.find? (·.1 = .other name) with
    | some (_, image) => (some (image, .tag), { s with tags := (.ua id, image) :: s.tags })
    | none =>
      (some (pulled, .tag), { s with
        images := pulled :: s.images
        tags := (.ua id, pulled) :: (.other name, pulled) :: s.tags })

/-- How a creation goes on behind the image: the container fails, and the image is removed; the
transaction fails, and nothing is; or there is a row. -/
inductive Outcome where
  | noContainer
  | noRow
  | inserted
  deriving DecidableEq

/-- `createInstance`, with a fresh ID. -/
def createInstance (s : State) (id : Nat) (b : Build) (o : Outcome) : State :=
  match b.run { s with used := id :: s.used } id with
  | (none, s) => s
  | (some (image, ref), s) =>
    if image ∉ s.images ∨ o = .noContainer then (s.imageRemove id ref).2
    else
      let s := { s with containers := ⟨id, image, false⟩ :: s.containers }
      if o = .noRow then s else { s with rows := s.rows ++ [⟨id, ref, true, false⟩] }

/-! ## The runs -/

/-- The steps: creations, the sessions' starts and stops, deactivations, and clean-ups. -/
inductive Act where
  | create (id : Nat) (b : Build) (o : Outcome)
  | setRunning (id : Nat) (running : Bool)
  | deactivate (id : Nat)
  | clean (r : Row) (fault : Option Fault)
  deriving DecidableEq

/-- One step. -/
def step (s : State) : Act → Option State
  | .create id b o => if id ∈ s.used then none else some (createInstance s id b o)
  | .setRunning id running => some (s.setRunning id running)
  | .deactivate id => some (s.update id fun r => { r with active := false })
  | .clean r fault => if r ∈ s.rows then some (cleanInstance fault s r).2 else none

/-- The system, with images that are not the server's. -/
def store : System State Act where
  init s := s.used = [] ∧ s.rows = [] ∧ s.containers = [] ∧
    (∀ t ∈ s.tags, (∃ n, t.1 = .other n) ∧ t.2 ∈ s.images) ∧
    ∀ t ∈ s.tags, ∀ u ∈ s.tags, t.1 = u.1 → t = u
  step := step

/-- A pass over these rows finds every image that it removes by its ID with tags in one repository
only, not counting the tags of the rows that it has visited before and that are known by their
tag. -/
def Passes (tags : List (Repo × Nat)) (visited : List Repo) : List Row → Prop
  | [] => True
  | ⟨id, .tag, _, _⟩ :: rs => Passes tags (.ua id :: visited) rs
  | ⟨_, .id image, _, _⟩ :: rs =>
    (∀ t ∈ tags, ∀ u ∈ tags, t.2 = image → u.2 = image → t.1 ∉ visited → u.1 ∉ visited →
      t.1 = u.1) ∧ Passes tags visited rs

/-! ## The invariant -/

/-- What all runs keep: each instance has one row, and its container, as long as it exists, its tag
on the container's image. -/
structure State.Ok (s : State) : Prop where
  rows : (s.rows.map (·.id)).Nodup
  used : ∀ r ∈ s.rows, r.id ∈ s.used
  repos : ∀ t ∈ s.tags, ∀ u ∈ s.tags, t.1 = u.1 → t = u
  fresh : ∀ n i, (Repo.ua n, i) ∈ s.tags → n ∈ s.used
  present : ∀ t ∈ s.tags, t.2 ∈ s.images
  held : ∀ c ∈ s.containers, (Repo.ua c.name, c.image) ∈ s.tags

section

variable {s s' : State} {r : Row} {n i : Nat} {repo : Repo}

/-- What `single` says. -/
theorem single_iff : s.single i = true ↔
    ∀ t ∈ s.tags, ∀ u ∈ s.tags, t.2 = i → u.2 = i → t.1 = u.1 := by
  simp only [State.single, List.all_eq_true, decide_eq_true_eq]

/-- A container that is started or stopped stays what it is otherwise. -/
theorem State.Ok.setRunning (h : s.Ok) (b : Bool) : (s.setRunning n b).Ok := by
  refine ⟨h.rows, h.used, h.repos, h.fresh, h.present, fun c hc => ?_⟩
  obtain ⟨d, hd, rfl⟩ := List.mem_map.1 hc
  have htag := h.held d hd
  split <;> exact htag

/-- The removal of containers. -/
theorem State.Ok.dropContainers (h : s.Ok) (p : Container → Bool) :
    { s with containers := s.containers.filter p : State }.Ok :=
  ⟨h.rows, h.used, h.repos, h.fresh, h.present, fun c hc => h.held c (List.mem_filter.1 hc).1⟩

/-- `ContainerRemove` changes only the containers. -/
theorem State.Ok.containerRemove (h : s.Ok) : (s.containerRemove n).2.Ok := by
  unfold State.containerRemove
  split
  · exact h
  · split
    · exact h.dropContainers _
    · exact h

/-- An update keeps the IDs. -/
theorem map_id_update {f : Row → Row} (hf : ∀ r, (f r).id = r.id) :
    (s.update n f).rows.map (·.id) = s.rows.map (·.id) := by
  rw [State.update, List.map_map]
  refine List.map_congr_left fun r _ => ?_
  simp only [Function.comp_apply]
  split
  · exact hf r
  · rfl

/-- The update of a row. -/
theorem State.Ok.update {f : Row → Row} (h : s.Ok) (hf : ∀ r, (f r).id = r.id) :
    (s.update n f).Ok := by
  refine ⟨by rw [map_id_update hf]; exact h.rows, fun r hr => ?_, h.repos, h.fresh, h.present,
    h.held⟩
  have hid : r.id ∈ (s.update n f).rows.map (·.id) := List.mem_map_of_mem hr
  rw [map_id_update hf] at hid
  obtain ⟨x, hx, hxr⟩ := List.mem_map.1 hid
  exact hxr ▸ h.used x hx

/-- What the removal of an ID does: nothing, or, if no container uses the image, its removal with
all its tags. -/
theorem removeID_cases (s : State) (i : Nat) :
    (s.removeID i).2 = s ∨ (s.removeID i = (.ok, { s with
      images := s.images.filter (· ≠ i), tags := s.tags.filter (·.2 ≠ i) }) ∧
      s.single i = true ∧ ∀ c ∈ s.containers, c.image ≠ i) := by
  unfold State.removeID
  split
  · exact .inl rfl
  · split
    · exact .inl rfl
    · next hsingle =>
      split
      · exact .inl rfl
      · split
        · exact .inl rfl
        · next hnone =>
          refine .inr ⟨rfl, by simpa using hsingle, fun c hc heq => hnone ?_⟩
          exact List.any_eq_true.2 ⟨c, hc, by simp [heq]⟩

/-- It keeps the invariant. -/
theorem State.Ok.removeID (h : s.Ok) : (s.removeID i).2.Ok := by
  rcases removeID_cases s i with heq | ⟨heq, -, hnone⟩
  · rw [heq]; exact h
  · rw [heq]
    have hmem : ∀ t ∈ s.tags.filter (·.2 ≠ i), t ∈ s.tags ∧ t.2 ≠ i := by
      intro t ht
      simpa using ht
    refine ⟨h.rows, h.used, fun t ht u hu => h.repos t (hmem t ht).1 u (hmem u hu).1,
      fun m j hm => h.fresh m j (hmem _ hm).1, fun t ht => ?_, fun c hc => ?_⟩
    · obtain ⟨ht, hne⟩ := hmem t ht
      simpa using ⟨h.present t ht, hne⟩
    · simpa using ⟨h.held c hc, hnone c hc⟩

/-- What the removal of a tag does: nothing, or the removal of the tag, and of an image that has no
other. -/
theorem removeTag_cases (s : State) (repo : Repo) :
    s.removeTag repo = (.notFound, s) ∧ (∀ t ∈ s.tags, t.1 ≠ repo) ∨
    (∃ i, (repo, i) ∈ s.tags ∧ s.removeTag repo = (.refused, s) ∧
      (∀ t ∈ s.tags, t.2 = i → t.1 = repo) ∧ ∃ c ∈ s.containers, c.image = i) ∨
    ∃ images, s.removeTag repo = (.ok, { s with images, tags := s.tags.filter (·.1 ≠ repo) }) ∧
      ∀ t ∈ s.tags, t.1 ≠ repo → t.2 ∈ s.images → t.2 ∈ images := by
  unfold State.removeTag
  split
  · next hnone =>
    refine .inl ⟨rfl, fun t ht => ?_⟩
    simpa using List.find?_eq_none.1 hnone t ht
  · next q i hfind =>
    have hq : q = repo := by simpa using List.find?_some hfind
    subst hq
    have hmem := List.mem_of_find?_eq_some hfind
    split
    · exact .inr (.inr ⟨s.images, rfl, fun _ _ _ => id⟩)
    · next hlast =>
      have hlast : ∀ x, (x, i) ∈ s.tags → x = q := by simpa using hlast
      have hlast : ∀ t ∈ s.tags, t.2 = i → t.1 = q := fun ⟨x, _⟩ ht heq => hlast x (heq ▸ ht)
      split
      · next hused =>
        obtain ⟨c, hc, hci⟩ := List.any_eq_true.1 hused
        exact .inr (.inl ⟨i, hmem, rfl, hlast, c, hc, of_decide_eq_true hci⟩)
      · refine .inr (.inr ⟨_, rfl, fun t ht hne hi => ?_⟩)
        simpa using ⟨hi, fun heq => hne (hlast t ht heq)⟩

/-- It keeps the invariant, if the instance of the repository has no container. -/
theorem State.Ok.removeTag (h : s.Ok) (hfree : ∀ c ∈ s.containers, .ua c.name ≠ repo) :
    (s.removeTag repo).2.Ok := by
  rcases removeTag_cases s repo with ⟨heq, -⟩ | ⟨i, -, heq, -⟩ | ⟨images, heq, hkeep⟩
  · rw [heq]; exact h
  · rw [heq]; exact h
  · rw [heq]
    have hmem : ∀ t ∈ s.tags.filter (·.1 ≠ repo), t ∈ s.tags ∧ t.1 ≠ repo := by
      intro t ht
      simpa using ht
    refine ⟨h.rows, h.used, fun t ht u hu => h.repos t (hmem t ht).1 u (hmem u hu).1,
      fun m j hm => h.fresh m j (hmem _ hm).1, fun t ht => ?_, fun c hc => ?_⟩
    · obtain ⟨ht, hne⟩ := hmem t ht
      exact hkeep t ht hne (h.present t ht)
    · simpa using ⟨h.held c hc, hfree c hc⟩

/-- The removal of a row's image keeps the invariant, if the row's container is gone. -/
theorem State.Ok.imageRemove {a : Ref} (h : s.Ok) (hfree : ∀ c ∈ s.containers, c.name ≠ n) :
    (s.imageRemove n a).2.Ok := by
  cases a with
  | tag => exact h.removeTag fun c hc heq => hfree c hc (by cases heq; rfl)
  | id i => exact h.removeID

/-- The container of an instance is gone behind its removal, unless this is refused. -/
theorem containerRemove_gone
    (h : (s.containerRemove n).1 = .ok ∨ (s.containerRemove n).1 = .notFound) :
    ∀ c ∈ (s.containerRemove n).2.containers, c.name ≠ n := by
  unfold State.containerRemove at h ⊢
  split
  · next hr => rw [if_pos hr] at h; rcases h with h | h <;> cases h
  · split
    · intro c hc
      simpa using (List.mem_filter.1 hc).2
    · next hnone =>
      intro c hc heq
      exact hnone (List.any_eq_true.2 ⟨c, hc, decide_eq_true heq⟩)

/-- **`cleanInstance`**, whatever fails, keeps the invariant. -/
theorem State.Ok.clean (h : s.Ok) (fault : Option Fault) : (cleanInstance fault s r).2.Ok := by
  have hstop := h.setRunning (n := r.id) false
  unfold cleanInstance
  dsimp only
  by_cases hf : fault = some .container
  · rw [if_pos hf]
    exact hstop
  rw [if_neg hf]
  have hremove := hstop.containerRemove (n := r.id)
  split
  · exact hremove
  · next hok =>
    have hgone := containerRemove_gone (s := s.setRunning r.id false) (n := r.id)
      (Decidable.or_iff_not_imp_left.2 (by simpa using hok))
    have himage := hremove.imageRemove (a := r.image) hgone
    by_cases hf : fault = some .image
    · rw [if_pos hf, if_pos rfl]
      exact hremove
    rw [if_neg hf]
    split
    · exact himage
    · split
      · exact himage
      · exact himage.update fun _ => rfl

/-- What the removal of images by their IDs leaves as it is: the rows, the containers, and the tags
of the images that are still there. -/
structure State.Keeps (s s' : State) : Prop where
  used : s'.used = s.used
  rows : s'.rows = s.rows
  containers : s'.containers = s.containers
  images : ∀ i ∈ s'.images, i ∈ s.images
  tags : ∀ t ∈ s.tags, t.2 ∈ s'.images → t ∈ s'.tags

/-- One removal. -/
theorem removeID_keeps (s : State) (i : Nat) : s.Keeps (s.removeID i).2 := by
  rcases removeID_cases s i with heq | ⟨heq, -⟩
  · rw [heq]
    exact ⟨rfl, rfl, rfl, fun _ => id, fun _ ht _ => ht⟩
  · rw [heq]
    refine ⟨rfl, rfl, rfl, fun j hj => (List.mem_filter.1 hj).1, fun t ht hi => ?_⟩
    have hne : t.2 ≠ i := by simpa using (List.mem_filter.1 hi).2
    simpa using ⟨ht, hne⟩

/-- The removal of the stages keeps the invariant. -/
theorem removeStages_spec (is : List Nat) (h : s.Ok) :
    (removeStages s is).2.Ok ∧ s.Keeps (removeStages s is).2 := by
  induction is generalizing s with
  | nil => exact ⟨h, rfl, rfl, rfl, fun _ => id, fun _ ht _ => ht⟩
  | cons i is ih =>
    have hok := h.removeID (i := i)
    have hkeeps := removeID_keeps s i
    simp only [removeStages]
    generalize s.removeID i = x at hok hkeeps
    obtain ⟨a, s₁⟩ := x
    cases a with
    | ok =>
      obtain ⟨hok', hkeeps'⟩ := ih hok
      refine ⟨hok', hkeeps'.used.trans hkeeps.used, hkeeps'.rows.trans hkeeps.rows,
        hkeeps'.containers.trans hkeeps.containers,
        fun j hj => hkeeps.images j (hkeeps'.images j hj), fun t ht hi => ?_⟩
      exact hkeeps'.tags t (hkeeps.tags t ht (hkeeps'.images _ hi)) hi
    | _ => exact ⟨hok, hkeeps⟩

/-- A new tag of an instance that has none yet. -/
theorem State.Ok.addTag {image : Nat} {images : List Nat} {tags : List (Repo × Nat)} (h : s.Ok)
    (hn : n ∉ s.used) (hsub : ∀ i ∈ s.images, i ∈ images) (himage : image ∈ images)
    (htags : ∀ t ∈ tags, t ∈ s.tags ∨ ((∃ m, t.1 = .other m) ∧ t.2 ∈ images))
    (hrepos : ∀ t ∈ tags, ∀ u ∈ tags, t.1 = u.1 → t = u) (hall : ∀ t ∈ s.tags, t ∈ tags) :
    { s with used := n :: s.used, images, tags := (.ua n, image) :: tags : State }.Ok := by
  have hnew : ∀ t ∈ tags, t.1 ≠ .ua n := by
    intro t ht heq
    obtain ⟨_, i⟩ := t
    cases heq
    rcases htags _ ht with ht | ⟨⟨m, hm⟩, -⟩
    · exact hn (h.fresh n i ht)
    · cases hm
  refine ⟨h.rows, fun r hr => List.mem_cons_of_mem _ (h.used r hr), fun t ht u hu heq => ?_,
    fun m i hm => ?_, fun t ht => ?_, fun c hc => List.mem_cons_of_mem _ (hall _ (h.held c hc))⟩
  · rcases List.mem_cons.1 ht with rfl | ht <;> rcases List.mem_cons.1 hu with rfl | hu
    · rfl
    · exact (hnew u hu heq.symm).elim
    · exact (hnew t ht heq).elim
    · exact hrepos t ht u hu heq
  · rcases List.mem_cons.1 hm with heq | hm
    · cases heq
      exact List.mem_cons_self
    · rcases htags _ hm with hm | ⟨⟨k, hk⟩, -⟩
      · exact List.mem_cons_of_mem _ (h.fresh m i hm)
      · cases hk
  · rcases List.mem_cons.1 ht with rfl | ht
    · exact himage
    · rcases htags t ht with ht | ⟨-, ht⟩
      · exact hsub _ (h.present t ht)
      · exact ht

/-- **An image is made**: the invariant is kept, and if it succeeds and the image is still there, it
has the instance's tag. -/
theorem Build.run_spec (b : Build) (h : s.Ok) (hn : n ∉ s.used) :
    (b.run { s with used := n :: s.used } n).2.Ok ∧
    (b.run { s with used := n :: s.used } n).2.used = n :: s.used ∧
    (b.run { s with used := n :: s.used } n).2.rows = s.rows ∧
    (b.run { s with used := n :: s.used } n).2.containers = s.containers ∧
    ∀ image ref, (b.run { s with used := n :: s.used } n).1 = some (image, ref) →
      image ∈ (b.run { s with used := n :: s.used } n).2.images →
      (Repo.ua n, image) ∈ (b.run { s with used := n :: s.used } n).2.tags := by
  cases b with
  | dockerfile stages image =>
    have hadd : { s with
        used := n :: s.used
        images := stages ++ image :: s.images
        tags := (.ua n, image) :: s.tags : State }.Ok := by
      refine h.addTag hn (fun i hi => ?_) ?_ (fun t => .inl) h.repos fun _ => id
      · exact List.mem_append_right _ (List.mem_cons_of_mem _ hi)
      · exact List.mem_append_right _ List.mem_cons_self
    obtain ⟨hok, hkeeps⟩ := removeStages_spec stages hadd
    refine ⟨hok, hkeeps.used, hkeeps.rows, hkeeps.containers, fun image' ref hrun hi => ?_⟩
    simp only [Build.run] at hrun hi ⊢
    split at hrun
    · cases hrun
      exact hkeeps.tags _ List.mem_cons_self hi
    · cases hrun
  | tag name pulled =>
    simp only [Build.run]
    split
    · next q image hfind =>
      have hmem := List.mem_of_find?_eq_some hfind
      refine ⟨h.addTag hn (fun _ => id) (h.present _ hmem) (fun t => .inl) h.repos fun _ => id,
        rfl, rfl, rfl, fun image' ref hrun _ => ?_⟩
      cases hrun
      exact List.mem_cons_self
    · next hnone =>
      have hother : ∀ t ∈ s.tags, t.1 ≠ .other name := by
        intro t ht
        simpa using List.find?_eq_none.1 hnone t ht
      refine ⟨h.addTag hn (fun i hi => List.mem_cons_of_mem _ hi) List.mem_cons_self
        (fun t ht => ?_) (fun t ht u hu heq => ?_) fun t ht => List.mem_cons_of_mem _ ht,
        rfl, rfl, rfl, fun image' ref hrun _ => ?_⟩
      · rcases List.mem_cons.1 ht with rfl | ht
        · exact .inr ⟨⟨name, rfl⟩, List.mem_cons_self⟩
        · exact .inl ht
      · rcases List.mem_cons.1 ht with rfl | ht <;> rcases List.mem_cons.1 hu with rfl | hu
        · rfl
        · exact (hother u hu heq.symm).elim
        · exact (hother t ht heq).elim
        · exact h.repos t ht u hu heq
      · cases hrun
        exact List.mem_cons_self

/-- **A creation**, whatever fails, keeps the invariant. -/
theorem State.Ok.create (h : s.Ok) (hn : n ∉ s.used) (b : Build) (o : Outcome) :
    (createInstance s n b o).Ok := by
  obtain ⟨hok, hused, hrows, hconts, htag⟩ := b.run_spec h hn
  simp only [createInstance]
  generalize b.run { s with used := n :: s.used } n = x at hok hused hrows hconts htag
  obtain ⟨made, s₁⟩ := x
  cases made with
  | none => exact hok
  | some made =>
    obtain ⟨image, ref⟩ := made
    dsimp only at hok hused hrows hconts htag ⊢
    split
    · refine hok.imageRemove fun c hc heq => hn ?_
      rw [hconts] at hc
      exact heq ▸ h.fresh _ _ (h.held c hc)
    · next himage =>
      have himage : image ∈ s₁.images := Decidable.byContradiction fun hni => himage (.inl hni)
      have hheld : { s₁ with containers := ⟨n, image, false⟩ :: s₁.containers : State }.Ok := by
        refine ⟨hok.rows, hok.used, hok.repos, hok.fresh, hok.present, fun c hc => ?_⟩
        rcases List.mem_cons.1 hc with rfl | hc
        · exact htag image ref rfl himage
        · exact hok.held c hc
      split
      · exact hheld
      · refine ⟨?_, fun r hr => ?_, hheld.repos, hheld.fresh, hheld.present, hheld.held⟩
        · have hnew : n ∉ s₁.rows.map (·.id) := by
            rw [hrows]
            intro hmem
            obtain ⟨r, hr, rfl⟩ := List.mem_map.1 hmem
            exact hn (h.used r hr)
          rw [List.map_append, List.nodup_append]
          refine ⟨hok.rows, List.nodup_singleton _, fun a ha b hb heq => hnew ?_⟩
          rw [List.mem_singleton.1 hb] at heq
          obtain rfl : a = n := heq
          exact ha
        · rcases List.mem_append.1 hr with hr | hr
          · exact hok.used r hr
          · rw [List.mem_singleton.1 hr, hused]
            exact List.mem_cons_self

/-- **One step** keeps the invariant. -/
theorem State.Ok.step {a : Act} (h : s.Ok) (hs : Images.step s a = some s') : s'.Ok := by
  cases a with
  | create n b o =>
    obtain ⟨hn, hs⟩ := Option.ite_none_left_eq_some.1 hs
    cases hs
    exact h.create hn b o
  | setRunning n b => cases hs; exact h.setRunning b
  | deactivate n => cases hs; exact h.update fun _ => rfl
  | clean r fault =>
    obtain ⟨-, hs⟩ := Option.ite_none_right_eq_some.1 hs
    cases hs
    exact h.clean fault

/-- It holds in every state that a run reaches. -/
theorem ok_reaches {P : State → Act → Prop} (h : store.Reaches P s) : s.Ok := by
  refine h.invariant ?_ fun t a t' ht _ hs => ht.step hs
  rintro t ⟨hused, hrows, hconts, htags, hrepos⟩
  refine ⟨by rw [hrows]; exact List.nodup_nil, by rw [hrows]; nofun, hrepos, fun n i hmem => ?_,
    fun u hu => (htags u hu).2, by rw [hconts]; nofun⟩
  obtain ⟨⟨m, hm⟩, -⟩ := htags _ hmem
  cases hm

/-! ## A pass -/

/-- Where a pass is: no container is running; of the tags there were, it has removed all those of
the repositories it has visited, and of the images with tags in several others it has removed
none. -/
structure Visited (s₀ s : State) (visited : List Repo) : Prop where
  ok : s.Ok
  still : ∀ c ∈ s.containers, c.running = false
  sub : ∀ t ∈ s.tags, t ∈ s₀.tags ∧ t.1 ∉ visited
  crowded : ∀ t ∈ s₀.tags, ∀ u ∈ s₀.tags, t.2 = u.2 → t.1 ≠ u.1 → t.1 ∉ visited →
    u.1 ∉ visited → t ∈ s.tags

/-- While no container is running, `ContainerKill` does nothing. -/
theorem setRunning_still (h : ∀ c ∈ s.containers, c.running = false) (n : Nat) :
    s.setRunning n false = s := by
  have hmap : s.containers.map (fun c => if c.name = n then { c with running := false } else c) =
      s.containers := by
    refine (List.map_congr_left fun c hc => ?_).trans (List.map_id _)
    split
    · rw [← h c hc]; rfl
    · rfl
  rw [State.setRunning, hmap]

/-- And `ContainerRemove` is not refused. -/
theorem containerRemove_still (h : ∀ c ∈ s.containers, c.running = false) (n : Nat) :
    ∃ a containers, s.containerRemove n = (a, { s with containers }) ∧ (a = .ok ∨ a = .notFound) ∧
      ∀ c ∈ containers, c ∈ s.containers ∧ c.name ≠ n := by
  have hrefused : (s.containers.any fun c => c.name = n && c.running) = false := by
    refine List.any_eq_false.2 fun c hc => ?_
    simp [h c hc]
  unfold State.containerRemove
  rw [hrefused, if_neg Bool.false_ne_true]
  split
  · exact ⟨.ok, _, rfl, .inl rfl, fun c hc => by simpa using hc⟩
  · next hnone =>
    refine ⟨.notFound, s.containers, rfl, .inr rfl, fun c hc => ⟨hc, fun heq => hnone ?_⟩⟩
    exact List.any_eq_true.2 ⟨c, hc, decide_eq_true heq⟩

/-- The mark of a cleaned row. -/
def Row.mark (r : Row) : Row := { r with active := false, cleaned := true }

/-- What `cleanInstance` comes to then: the removal of the image, and the update if that is not
refused. -/
theorem clean_still (hok : s.Ok) (h : ∀ c ∈ s.containers, c.running = false) (r : Row) :
    ∃ containers, { s with containers : State }.Ok ∧
      (∀ c ∈ containers, c.running = false ∧ c.name ≠ r.id) ∧
      ∀ a s₂, { s with containers : State }.imageRemove r.id r.image = (a, s₂) →
        (cleanInstance none s r).2 = if a = .refused then s₂ else s₂.update r.id Row.mark := by
  obtain ⟨a, containers, heq, ha, hsub⟩ := containerRemove_still h r.id
  have hremove := hok.containerRemove (n := r.id)
  rw [heq] at hremove
  refine ⟨containers, hremove, fun c hc => ⟨h c (hsub c hc).1, (hsub c hc).2⟩,
    fun b s₂ himage => ?_⟩
  have hgone : ¬ (a ≠ .ok ∧ a ≠ .notFound) := by
    rcases ha with rfl | rfl <;> simp
  simp only [cleanInstance, setRunning_still h, heq, reduceCtorEq, if_false, if_neg hgone, himage]
  split <;> rfl

/-- The removal of an ID is refused exactly if its tags are in several repositories. -/
theorem removeID_refused_iff (hok : s.Ok) (h : ∀ c ∈ s.containers, c.running = false) :
    (s.removeID i).1 = .refused ↔ s.single i = false := by
  have hrunning : (s.containers.any fun c => c.image = i && c.running) = false := by
    refine List.any_eq_false.2 fun c hc => ?_
    simp [h c hc]
  unfold State.removeID
  rw [hrunning, if_neg Bool.false_ne_true]
  split
  · next hmissing =>
    have hsingle : s.single i = true := by
      refine single_iff.2 fun t ht u _ hti _ => (hmissing ?_).elim
      exact hti ▸ hok.present t ht
    rw [hsingle]
    exact ⟨fun heq => (by cases heq), fun heq => (by cases heq)⟩
  · split
    · next hsingle => exact ⟨fun _ => by simpa using hsingle, fun _ => rfl⟩
    · next hsingle =>
      have hsingle : s.single i = true := by simpa using hsingle
      rw [hsingle]
      refine ⟨fun heq => ?_, fun heq => (by cases heq)⟩
      split at heq <;> cases heq

variable {s₀ : State} {visited : List Repo}

/-- **A row known by its tag** is cleaned. -/
theorem Visited.tag {active cleaned : Bool} (h : Visited s₀ s visited) :
    Visited s₀ (cleanInstance none s ⟨n, .tag, active, cleaned⟩).2 (.ua n :: visited) ∧
    (cleanInstance none s ⟨n, .tag, active, cleaned⟩).2.rows = (s.update n Row.mark).rows := by
  obtain ⟨containers, hok, hstill, heq⟩ := clean_still h.ok h.still ⟨n, .tag, active, cleaned⟩
  have hnext := hok.imageRemove (n := n) (a := .tag) fun c hc => (hstill c hc).2
  rcases removeTag_cases { s with containers } (.ua n) with
    ⟨hremove, hnone⟩ | ⟨i, -, -, hlast, c, hc, hci⟩ | ⟨images, hremove, -⟩
  · rw [heq _ _ hremove, if_neg (by simp)]
    refine ⟨⟨hok.update fun _ => rfl, fun c hc => (hstill c hc).1, fun t ht => ?_,
      fun t ht u hu hi hne ht' hu' => ?_⟩, rfl⟩
    · obtain ⟨ht₀, hv⟩ := h.sub t ht
      exact ⟨ht₀, fun hmem => (List.mem_cons.1 hmem).elim (hnone t ht) hv⟩
    · exact h.crowded t ht u hu hi hne (fun hmem => ht' (List.mem_cons_of_mem _ hmem))
        fun hmem => hu' (List.mem_cons_of_mem _ hmem)
  · -- the container that holds the image would be the instance's own
    have hheld := hlast _ (hok.held c hc) hci
    exact ((hstill c hc).2 (by cases hheld; rfl)).elim
  · simp only [State.imageRemove] at hnext
    rw [hremove] at hnext
    rw [heq _ _ hremove, if_neg (by simp)]
    refine ⟨⟨hnext.update fun _ => rfl, fun c hc => (hstill c hc).1, fun t ht => ?_,
      fun t ht u hu hi hne ht' hu' => ?_⟩, rfl⟩
    · obtain ⟨ht, hne⟩ := List.mem_filter.1 ht
      obtain ⟨ht₀, hv⟩ := h.sub t ht
      exact ⟨ht₀, fun hmem => (List.mem_cons.1 hmem).elim (by simpa using hne) hv⟩
    · refine List.mem_filter.2 ⟨?_, decide_eq_true fun heq => ht' (heq ▸ List.mem_cons_self)⟩
      exact h.crowded t ht u hu hi hne (fun hmem => ht' (List.mem_cons_of_mem _ hmem))
        fun hmem => hu' (List.mem_cons_of_mem _ hmem)

/-- The tags of an image are in one repository at its turn exactly if they were so before the pass,
but for those that the pass has removed. -/
theorem Visited.single_iff (h : Visited s₀ s visited) : s.single i = true ↔
    ∀ t ∈ s₀.tags, ∀ u ∈ s₀.tags, t.2 = i → u.2 = i → t.1 ∉ visited → u.1 ∉ visited →
      t.1 = u.1 := by
  rw [Images.single_iff]
  constructor
  · intro hsingle t ht u hu hti hui hv hv'
    refine Decidable.byContradiction fun hne => hne (hsingle t ?_ u ?_ hti hui)
    · exact h.crowded t ht u hu (hti.trans hui.symm) hne hv hv'
    · exact h.crowded u hu t ht (hui.trans hti.symm) (Ne.symm hne) hv' hv
  · intro hone t ht u hu hti hui
    obtain ⟨ht₀, hv⟩ := h.sub t ht
    obtain ⟨hu₀, hv'⟩ := h.sub u hu
    exact hone t ht₀ u hu₀ hti hui hv hv'

/-- **A row known by an ID** is cleaned exactly if the ID's tags are in one repository. -/
theorem Visited.id {active cleaned : Bool} (h : Visited s₀ s visited) :
    Visited s₀ (cleanInstance none s ⟨n, .id i, active, cleaned⟩).2 visited ∧
    (cleanInstance none s ⟨n, .id i, active, cleaned⟩).2.rows =
      if s.single i = true then (s.update n Row.mark).rows else s.rows := by
  obtain ⟨containers, hok, hstill, heq⟩ := clean_still h.ok h.still ⟨n, .id i, active, cleaned⟩
  have hstill' : ∀ c ∈ containers, c.running = false := fun c hc => (hstill c hc).1
  have hnext := hok.removeID (i := i)
  have hrefused := removeID_refused_iff (i := i) hok hstill'
  have hsame : { s with containers : State }.single i = s.single i := rfl
  rw [hsame] at hrefused
  have hcases := removeID_cases { s with containers } i
  generalize hremove : { s with containers : State }.removeID i = x at hnext hrefused hcases
  obtain ⟨a, s₂⟩ := x
  rw [heq a s₂ hremove]
  have hrows : s₂.rows = s.rows ∧ Visited s₀ s₂ visited := by
    rcases hcases with rfl | ⟨hok', hsingle, -⟩
    · exact ⟨rfl, hok, hstill', h.sub, h.crowded⟩
    · cases hok'
      refine ⟨rfl, hnext, hstill', fun t ht => h.sub t (List.mem_filter.1 ht).1,
        fun t ht u hu hi hne hv hv' => List.mem_filter.2 ⟨h.crowded t ht u hu hi hne hv hv', ?_⟩⟩
      -- a tag of the removed image would have another one beside it
      refine decide_eq_true fun hti => hne ?_
      exact h.single_iff.1 (hsame ▸ hsingle) t ht u hu hti (hi ▸ hti) hv hv'
  obtain ⟨hrows, hv⟩ := hrows
  by_cases hsingle : s.single i = true
  · have hne : a ≠ .refused := by
      intro ha
      rw [hrefused.1 ha] at hsingle
      cases hsingle
    rw [if_neg hne, if_pos hsingle]
    refine ⟨⟨hv.ok.update fun _ => rfl, hv.still, hv.sub, hv.crowded⟩, ?_⟩
    simp only [State.update, hrows]
  · rw [if_pos (hrefused.2 (Bool.eq_false_iff.2 hsingle)), if_neg hsingle]
    exact ⟨hv, hrows⟩

/-- The rows after a clean-up, but for its own. -/
theorem mem_clean_other {x : Row} (h : Visited s₀ s visited) (hne : x.id ≠ r.id) :
    x ∈ (cleanInstance none s r).2.rows ↔ x ∈ s.rows := by
  have hupdate : x ∈ (s.update r.id Row.mark).rows ↔ x ∈ s.rows := by
    constructor
    · intro hx
      obtain ⟨y, hy, rfl⟩ := List.mem_map.1 hx
      split
      · next heq => rw [if_pos heq] at hne; exact (hne heq).elim
      · exact hy
    · intro hx
      exact List.mem_map.2 ⟨x, hx, if_neg hne⟩
  obtain ⟨n, image, active, cleaned⟩ := r
  cases image with
  | tag => rw [h.tag.2]; exact hupdate
  | id i =>
    rw [h.id.2]
    split
    · exact hupdate
    · rfl

/-- What the pass has visited after a row. -/
def Row.visit (r : Row) (visited : List Repo) : List Repo :=
  match r.image with
  | .tag => .ua r.id :: visited
  | .id _ => visited

/-- **One row of a pass.** -/
theorem Visited.clean (h : Visited s₀ s visited) (r : Row) :
    Visited s₀ (cleanInstance none s r).2 (r.visit visited) := by
  obtain ⟨n, image, active, cleaned⟩ := r
  cases image with
  | tag => exact h.tag.1
  | id i => exact h.id.1

/-- The rows that a pass does not visit stay as they are. -/
theorem mem_pass_other {x : Row} (rs : List Row) (h : Visited s₀ s visited)
    (hx : ∀ r ∈ rs, x.id ≠ r.id) : x ∈ (cleanupInstances s rs).rows ↔ x ∈ s.rows := by
  induction rs generalizing s visited with
  | nil => rfl
  | cons r rs ih =>
    rw [cleanupInstances, ih (h.clean r) fun y hy => hx y (List.mem_cons_of_mem _ hy)]
    exact mem_clean_other h (hx r List.mem_cons_self)

/-- **A pass** cleans its rows exactly if it finds their images in one repository each. -/
theorem pass_spec (rs : List Row) (h : Visited s₀ s visited) (hnd : (rs.map (·.id)).Nodup)
    (hmem : ∀ r ∈ rs, r ∈ s.rows ∧ r.cleaned = false) :
    (∀ x ∈ (cleanupInstances s rs).rows, (∃ r ∈ rs, x.id = r.id) → x.cleaned = true) ↔
      Passes s₀.tags visited rs := by
  induction rs generalizing s visited with
  | nil => simp [Passes]
  | cons r rs ih =>
    obtain ⟨hfresh, hnd⟩ := List.nodup_cons.1 hnd
    have hother : ∀ y ∈ rs, r.id ≠ y.id :=
      fun y hy heq => hfresh (List.mem_map.2 ⟨y, hy, heq.symm⟩)
    have hv := h.clean r
    have htail := ih hv hnd fun y hy => by
      obtain ⟨hy', hc⟩ := hmem y (List.mem_cons_of_mem _ hy)
      exact ⟨(mem_clean_other h (hother y hy).symm).2 hy', hc⟩
    -- the first row is what it is behind its own clean-up
    have hhead : ∀ x, x.id = r.id → (x ∈ (cleanupInstances s (r :: rs)).rows ↔
        x ∈ (cleanInstance none s r).2.rows) := by
      intro x hx
      exact mem_pass_other rs hv fun y hy => hx ▸ hother y hy
    have hsplit : (∀ x ∈ (cleanupInstances s (r :: rs)).rows, (∃ y ∈ r :: rs, x.id = y.id) →
        x.cleaned = true) ↔ (∀ x ∈ (cleanInstance none s r).2.rows, x.id = r.id →
        x.cleaned = true) ∧ Passes s₀.tags (r.visit visited) rs := by
      rw [← htail]
      constructor
      · intro hall
        refine ⟨fun x hx hid => hall x ((hhead x hid).2 hx) ⟨r, List.mem_cons_self, hid⟩,
          fun x hx ⟨y, hy, hid⟩ => hall x hx ⟨y, List.mem_cons_of_mem _ hy, hid⟩⟩
      · intro ⟨hfirst, hrest⟩ x hx ⟨y, hy, hid⟩
        rcases List.mem_cons.1 hy with rfl | hy
        · exact hfirst x ((hhead x hid).1 hx) hid
        · exact hrest x hx ⟨y, hy, hid⟩
    have hmarked : ∀ x ∈ (s.update r.id Row.mark).rows, x.id = r.id → x.cleaned = true := by
      intro x hx hid
      obtain ⟨y, hy, rfl⟩ := List.mem_map.1 hx
      split
      · rfl
      · next hne => rw [if_neg hne] at hid; exact (hne hid).elim
    rw [hsplit]
    obtain ⟨hrow, huncleaned⟩ := hmem r List.mem_cons_self
    obtain ⟨n, image, active, cleaned⟩ := r
    cases image with
    | tag =>
      rw [h.tag.2]
      exact ⟨fun hall => hall.2, fun hall => ⟨hmarked, hall⟩⟩
    | id i =>
      rw [h.id.2, Passes, ← h.single_iff]
      refine and_congr_left fun _ => ?_
      constructor
      · intro hall
        refine Decidable.byContradiction fun hsingle => ?_
        rw [if_neg hsingle] at hall
        rw [hall _ hrow rfl] at huncleaned
        cases huncleaned
      · intro hsingle
        rw [if_pos hsingle]
        exact hmarked

/-- A pass over rows whose images are in one repository each. -/
theorem passes_of_single {rs : List Row}
    (h : ∀ r ∈ rs, ∀ i, r.image = .id i → s.single i = true) : Passes s.tags visited rs := by
  induction rs generalizing visited with
  | nil => trivial
  | cons r rs ih =>
    have htail := fun y hy => h y (List.mem_cons_of_mem _ hy)
    obtain ⟨n, image, active, cleaned⟩ := r
    cases image with
    | tag => exact ih htail
    | id i =>
      have hsingle := single_iff.1 (h _ List.mem_cons_self i rfl)
      exact ⟨fun t ht u hu hti hui _ _ => hsingle t ht u hu hti hui, ih htail⟩

end

/-- **A pass of `cleanInactiveInstances`** over the rows of its query, in whatever order they come,
when no instance is active, no container is running and nothing fails, leaves every row cleaned
exactly if it finds each image that it removes by its ID with tags in one repository only. So all of
its orders do exactly if the tags of each such image are in one repository. -/
theorem pass_cleans_iff (s : State) (h : store.Reaches System.Any s)
    (hactive : ∀ r ∈ s.rows, r.active = false) (hstill : ∀ c ∈ s.containers, c.running = false) :
    (∀ rows, rows.Perm s.toClean →
      ((∀ r ∈ (cleanupInstances s rows).rows, r.cleaned = true) ↔ Passes s.tags [] rows)) ∧
    ((∀ rows, rows.Perm s.toClean → ∀ r ∈ (cleanupInstances s rows).rows, r.cleaned = true) ↔
      ∀ r ∈ s.rows, r.cleaned = false → ∀ i, r.image = .id i → s.single i = true) := by
  have hok := ok_reaches h
  have hv : Visited s s [] :=
    ⟨hok, hstill, fun t ht => ⟨ht, List.not_mem_nil⟩, fun t ht _ _ _ _ _ _ => ht⟩
  have hpass : ∀ rows, rows.Perm s.toClean →
      ((∀ r ∈ (cleanupInstances s rows).rows, r.cleaned = true) ↔ Passes s.tags [] rows) := by
    intro rows hperm
    have hmem : ∀ r, r ∈ rows ↔ r ∈ s.rows ∧ r.cleaned = false := by
      intro r
      rw [hperm.mem_iff, State.toClean, List.mem_filter]
      refine and_congr_right fun hr => ?_
      simp [hactive r hr]
    have hnd : (rows.map (·.id)).Nodup := by
      rw [(hperm.map _).nodup_iff]
      exact hok.rows.sublist (List.filter_sublist.map _)
    rw [← pass_spec rows hv hnd fun r hr => (hmem r).1 hr]
    constructor
    · intro hall x hx _
      exact hall x hx
    · intro hall x hx
      by_cases hid : ∃ r ∈ rows, x.id = r.id
      · exact hall x hx hid
      · -- a row that is not visited was clean
        have hx' := (mem_pass_other rows hv fun r hr heq => hid ⟨r, hr, heq⟩).1 hx
        exact eq_true_of_ne_false fun hc => hid ⟨x, (hmem x).2 ⟨hx', hc⟩, rfl⟩
  refine ⟨hpass, ?_⟩
  constructor
  · intro hall r hr hc i hi
    have hclean : r ∈ s.toClean := by
      rw [State.toClean, List.mem_filter]
      simp [hr, hactive r hr, hc]
    -- an order that visits the row first
    have hfirst := (List.perm_cons_erase hclean).symm
    have hpasses := (hpass _ hfirst).1 (hall _ hfirst)
    obtain ⟨n, image, active, cleaned⟩ := r
    obtain rfl : image = .id i := hi
    refine single_iff.2 fun t ht u hu hti hui => ?_
    exact hpasses.1 t ht u hu hti hui List.not_mem_nil List.not_mem_nil
  · intro hall rows hperm
    refine (hpass rows hperm).2 (passes_of_single fun r hr i hi => ?_)
    have hr := hperm.mem_iff.1 hr
    rw [State.toClean, List.mem_filter] at hr
    exact hall r hr.1 (by simpa using (Bool.and_eq_true_iff.1 hr.2).2) i hi

/-! ## Two runs -/

/-- Nothing. -/
def State.empty : State := ⟨[], [], [], [], []⟩

/-- A system starts with it. -/
theorem init_empty : store.init State.empty :=
  ⟨rfl, rfl, rfl, fun t ht => (by cases ht), fun t ht => (by cases ht)⟩

/-- Two instances, with an image each, are deactivated. -/
def twoImages : List Act :=
  [.create 1 (.dockerfile [] 7) .inserted, .create 2 (.dockerfile [] 8) .inserted,
    .deactivate 1, .deactivate 2]

/-- Every pass cleans them. -/
theorem pass_cleans_iff_twoImages :
    ∃ s, store.exec .empty twoImages = some s ∧ s.toClean.length = 2 ∧
      ∀ rows, rows.Perm s.toClean → ∀ r ∈ (cleanupInstances s rows).rows, r.cleaned = true := by
  refine ⟨_, rfl, rfl, ?_⟩
  have hrun : store.Run System.Any .empty twoImages _ := System.run_of_exec rfl
  refine (pass_cleans_iff _ ⟨_, _, init_empty, hrun⟩ (by decide)
    (by decide)).2.2 ?_
  intro r hr _ i hi
  rcases List.mem_cons.1 hr with rfl | hr
  · cases hi; decide
  · obtain rfl := List.mem_singleton.1 hr
    cases hi; decide

/-- Two instances with the same image are deactivated. -/
def oneImage : List Act :=
  [.create 1 (.dockerfile [] 7) .inserted, .create 2 (.dockerfile [] 7) .inserted,
    .deactivate 1, .deactivate 2]

/-- **A pass cleans neither.** -/
theorem pass_cleans_none : ¬ ∀ s, store.Reaches System.Any s →
    (∀ r ∈ s.rows, r.active = false) → (∀ c ∈ s.containers, c.running = false) →
    ∀ rows, rows.Perm s.toClean → ∀ r ∈ (cleanupInstances s rows).rows, r.cleaned = true := by
  intro h
  have hrun : store.Run System.Any .empty oneImage _ := System.run_of_exec rfl
  have hall := h _ ⟨_, _, init_empty, hrun⟩ (by decide) (by decide) _ (.refl _)
  exact absurd hall (by decide)

end UAssign.App.Images

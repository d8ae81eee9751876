import UAssign.App.World
import UAssign.Lib.Compensation

/-!
# A pass of clean-ups

`cleanInactiveInstances`, whose `cleanInstance` makes four calls for each row, any of which may
fail. An error ends the clean-up of its row, unless it is tolerated, and never that of the others
(`pass_cleans`). A process may end in the middle of a pass; what a row is like when a pass fails on
it is what the next pass finds.

What is left of an instance in Docker shows in the answers of the calls only.
-/

namespace UAssign.App

namespace Pass

/-! ## Calls -/

/-- An error, of Docker or of the database: whether `client.IsErrNotFound` holds, and its text. -/
structure Error where
  notFound : Bool
  text : String
  deriving DecidableEq

/-- `strings.Contains(err.Error(), s)`. -/
def Error.contains (e : Error) (s : String) : Bool := s.toList <:+: e.text.toList

/-- The calls of `cleanInstance`. -/
inductive Call where
  | containerKill (containerID : Nat)
  | containerRemove (containerID : Nat)
  | imageRemove (imageID : Nat)
  | update (id : Nat)
  deriving DecidableEq

/-- The errors that the calls return for a row. -/
structure Answers where
  containerKill : Option Error
  containerRemove : Option Error
  imageRemove : Option Error
  update : Option Error
  deriving DecidableEq

/-- The rows, the calls that have been made, and how many more are made before the process ends, if
it does. -/
structure State where
  instances : List Instance
  calls : List Call
  left : Option Nat
  deriving DecidableEq

/-- What ends a clean-up: an error, or the end of the process. -/
inductive Stop where
  | error (e : Error)
  | interrupted
  deriving DecidableEq

/-- The state behind a call. -/
def State.called (s : State) (c : Call) : State :=
  { s with calls := s.calls ++ [c], left := s.left.map (· - 1) }

/-- A call. One that fails has no effect on the rows. -/
def call (c : Call) (answer : Option Error) (effect : List Instance → List Instance) :
    EStateM Stop State Unit := fun s =>
  if s.left = some 0 then .error .interrupted s
  else
    match answer with
    | some e => .error (.error e) (s.called c)
    | none => .ok () { s.called c with instances := effect s.instances }

/-- The program, with some errors tolerated. -/
def tolerating (p : Error → Bool) (m : EStateM Stop State Unit) : EStateM Stop State Unit :=
  fun s =>
  match m s with
  | .ok _ s' => .ok () s'
  | .error (.error e) s' => if p e then .ok () s' else .error (.error e) s'
  | .error .interrupted s' => .error .interrupted s'

/-! ## Clean-ups -/

/-- `instanceStore.Update` of `Active` and `Cleaned`. -/
def updateRow (inst : Instance) (instances : List Instance) : List Instance :=
  instances.map fun r =>
    if r.id = inst.id then r.setColumns inst [.active, .cleaned] else r

/-- The errors of a removal of an image that `cleanInstance` tolerates. -/
def Error.imageGone (e : Error) : Bool :=
  e.notFound || e.contains "image is being used by stopped container"

/-- `cleanInstance`. -/
def cleanInstance (a : Answers) (inst : Instance) : EStateM Stop State Unit := do
  tolerating (fun _ => true) (call (.containerKill inst.containerID) a.containerKill id)
  tolerating Error.notFound (call (.containerRemove inst.containerID) a.containerRemove id)
  tolerating Error.imageGone (call (.imageRemove inst.imageID) a.imageRemove id)
  let inst := { inst with active := false, cleaned := true }
  call (.update inst.id) a.update (updateRow inst)

/-- The loop of `cleanupInstancesByQuery`. -/
def forEach (answers : Nat → Answers) : List Instance → EStateM Stop State Unit
  | [] => pure ()
  | inst :: rest => do
    tolerating (fun _ => true) (cleanInstance (answers inst.id) inst)
    forEach answers rest

end Pass

/-- What a pass meets: whether the two checks in front of it succeed, the error of the query, the
order in which it returns the rows, the answers of the calls, and how many calls are made before the
process ends. -/
structure Pass where
  precheckDocker : Bool
  precheckDatabase : Bool
  find : Option Pass.Error
  order : List Instance → List Instance
  perm : ∀ l, (order l).Perm l
  answers : Nat → Pass.Answers
  left : Option Nat

namespace Pass

variable (p : Pass)

/-- `cleanupInstancesByQuery`. -/
def cleanupInstancesByQuery (query : Instance → Bool) : EStateM Stop State Unit := do
  let s ← get
  if p.find.isSome then pure () else forEach p.answers (p.order (s.instances.filter query))

/-- `cleanInactiveInstances`. -/
def cleanInactiveInstances : EStateM Stop State Unit :=
  if !p.precheckDocker && !p.precheckDatabase then pure ()
  else p.cleanupInstancesByQuery CleanKind.inactive.selects

/-- The state behind a pass. -/
def run (instances : List Instance) : State :=
  match p.cleanInactiveInstances ⟨instances, [], p.left⟩ with
  | .ok _ s | .error _ s => s

/-- The rows behind some passes. -/
def runAll (passes : List Pass) (instances : List Instance) : List Instance :=
  passes.foldl (fun instances p => (p.run instances).instances) instances

/-- A pass that makes its query, which succeeds, and is not interrupted. -/
def Completes : Prop :=
  (p.precheckDocker = true ∨ p.precheckDatabase = true) ∧ p.find = none ∧ p.left = none

/-- Every call to Docker succeeds or reports that there is no such object, and every update
succeeds. -/
def Recovers : Prop :=
  ∀ id, (∀ e ∈ (p.answers id).containerKill, e.notFound = true) ∧
    (∀ e ∈ (p.answers id).containerRemove, e.notFound = true) ∧
    (∀ e ∈ (p.answers id).imageRemove, e.notFound = true) ∧ (p.answers id).update = none

/-! ## What the calls leave -/

/-- The container is gone, as far as `cleanInstance` can tell, -/
def Answers.containerGone (a : Answers) : Bool := a.containerRemove.all Error.notFound

/-- the image is, -/
def Answers.imageGone (a : Answers) : Bool := a.imageRemove.all Error.imageGone

/-- and the row has been updated. -/
def Answers.cleans (a : Answers) : Bool := a.containerGone && a.imageGone && a.update.isNone

/-- The calls that are made for a row. -/
def Answers.calls (a : Answers) (r : Instance) : List Call :=
  [.containerKill r.containerID, .containerRemove r.containerID] ++
    if a.containerGone then
      .imageRemove r.imageID :: if a.imageGone then [.update r.id] else []
    else []

/-- The row, cleaned. -/
def mark (r : Instance) : Instance := { r with active := false, cleaned := true }

/-- The rows with some of these IDs cleaned. -/
def markIds (ids : List Nat) (instances : List Instance) : List Instance :=
  instances.map fun r => if r.id ∈ ids then mark r else r

section

variable {p : Pass} {a : Answers} {r : Instance} {rows : List Instance} {s : State}
  {ids ids' : List Nat}

/-- What a call leaves. -/
theorem call_ends (c : Call) (answer : Option Error) (effect : List Instance → List Instance)
    (s : State) : Ends (call c answer effect) s
      (fun _ s' => answer = none ∧ s' = { s.called c with instances := effect s.instances })
      fun stop s' => (stop = .interrupted ∧ s.left ≠ none ∧ s' = s) ∨
        ∃ e, stop = .error e ∧ answer = some e ∧ s' = s.called c := by
  unfold Ends call
  split_ifs with hleft
  · exact .inl ⟨rfl, by rw [hleft]; simp, rfl⟩
  · cases answer with
    | none => exact ⟨rfl, rfl⟩
    | some e => exact .inr ⟨e, rfl, rfl, rfl⟩

/-- Tolerated errors. -/
theorem tolerating_ends {q : Error → Bool} {m : EStateM Stop State Unit} {P : Unit → State → Prop}
    {Q : Stop → State → Prop} (h : Ends m s P fun stop s' => match stop with
      | .error e => if q e then P () s' else Q (.error e) s'
      | .interrupted => Q .interrupted s') : Ends (tolerating q m) s P Q := by
  unfold Ends tolerating at *
  cases hm : m s with
  | ok _ s' => rw [hm] at h; exact h
  | error stop s' =>
    rw [hm] at h
    cases stop with
    | interrupted => exact h
    | error e =>
      cases hq : q e with
      | true => simpa [hq] using h
      | false => simpa [hq] using h

/-- A call with tolerated errors, and no effect on the rows. -/
theorem tolerated_ends {q : Error → Bool} (c : Call) (answer : Option Error) (s : State) :
    Ends (tolerating q (call c answer id)) s
      (fun _ s' => answer.all q = true ∧ s' = s.called c)
      fun stop s' => (stop = .interrupted ∧ s.left ≠ none ∧ s' = s) ∨
        ∃ e, stop = .error e ∧ answer.all q = false ∧ s' = s.called c := by
  refine tolerating_ends ((call_ends c answer id s).mono ?_ ?_)
  · rintro _ s' ⟨rfl, rfl⟩
    exact ⟨rfl, rfl⟩
  · rintro stop s' (⟨rfl, hleft, rfl⟩ | ⟨e, rfl, rfl, rfl⟩)
    · exact .inl ⟨rfl, hleft, rfl⟩
    · cases hq : q e with
      | true => simp [hq]
      | false => simp [hq]

/-- The update, whatever else the copy says. -/
theorem updateRow_eq : updateRow { r with active := false, cleaned := true } rows =
    markIds [r.id] rows := by
  refine List.map_congr_left fun x _ => ?_
  simp only [List.mem_singleton]
  split <;> rfl

@[simp]
theorem called_left_eq_none {c : Call} : (s.called c).left = none ↔ s.left = none := by
  simp [State.called]

@[simp]
theorem called_calls {c : Call} : (s.called c).calls = s.calls ++ [c] := rfl

@[simp]
theorem called_instances {c : Call} : (s.called c).instances = s.instances := rfl

/-- **What `cleanInstance` leaves**: a cleaned row, or the rows as they were; in the second case it
has been interrupted, or a call has failed, behind which none has been made. -/
theorem cleanInstance_ends (a : Answers) (r : Instance) (s : State) :
    Ends (cleanInstance a r) s
      (fun _ s' => a.cleans = true ∧ s'.calls = s.calls ++ a.calls r ∧
        s'.instances = markIds [r.id] s.instances ∧ (s.left = none → s'.left = none))
      fun stop s' => s'.instances = s.instances ∧ (s.left = none → (∃ e, stop = .error e) ∧
        a.cleans = false ∧ s'.calls = s.calls ++ a.calls r ∧ s'.left = none) := by
  refine Ends.bind (P := fun _ s' => s' = s.called (.containerKill r.containerID))
    ((tolerated_ends _ _ s).mono (fun _ _ h => h.2) ?_) ?_
  · rintro stop s' (⟨rfl, hleft, rfl⟩ | ⟨e, rfl, hall, rfl⟩)
    · exact ⟨rfl, fun hnone => absurd hnone hleft⟩
    · cases a.containerKill <;> simp at hall
  rintro _ _ rfl
  refine Ends.bind (P := fun _ s' => a.containerGone = true ∧
    s' = (s.called (.containerKill r.containerID)).called (.containerRemove r.containerID))
    ((tolerated_ends _ _ _).mono (fun _ _ => id) ?_) ?_
  · rintro stop s' (⟨rfl, hleft, rfl⟩ | ⟨e, rfl, hgone, rfl⟩)
    · exact ⟨rfl, fun hnone => absurd (called_left_eq_none.2 hnone) hleft⟩
    · refine ⟨rfl, fun hnone => ⟨⟨e, rfl⟩, ?_, ?_, by simp [hnone]⟩⟩
      · simp [Answers.cleans, Answers.containerGone, hgone]
      · simp [Answers.calls, Answers.containerGone, hgone]
  rintro _ _ ⟨hcontainer, rfl⟩
  refine Ends.bind (P := fun _ s' => a.imageGone = true ∧
    s' = ((s.called (.containerKill r.containerID)).called
      (.containerRemove r.containerID)).called (.imageRemove r.imageID))
    ((tolerated_ends _ _ _).mono (fun _ _ => id) ?_) ?_
  · rintro stop s' (⟨rfl, hleft, rfl⟩ | ⟨e, rfl, hgone, rfl⟩)
    · exact ⟨rfl, fun hnone => absurd (by simp [hnone]) hleft⟩
    · refine ⟨rfl, fun hnone => ⟨⟨e, rfl⟩, ?_, ?_, by simp [hnone]⟩⟩
      · simp [Answers.cleans, Answers.imageGone, hgone]
      · simp [Answers.calls, hcontainer, Answers.imageGone, hgone]
  rintro _ _ ⟨himage, rfl⟩
  refine (call_ends _ _ _ _).mono ?_ ?_
  · rintro _ s' ⟨hupdate, rfl⟩
    refine ⟨?_, ?_, updateRow_eq, fun hnone => by simp [hnone]⟩
    · simp [Answers.cleans, hcontainer, himage, hupdate]
    · simp [Answers.calls, hcontainer, himage]
  · rintro stop s' (⟨rfl, hleft, rfl⟩ | ⟨e, rfl, hupdate, rfl⟩)
    · exact ⟨rfl, fun hnone => absurd (by simp [hnone]) hleft⟩
    · refine ⟨rfl, fun hnone => ⟨⟨e, rfl⟩, ?_, ?_, by simp [hnone]⟩⟩
      · simp [Answers.cleans, hupdate]
      · simp [Answers.calls, hcontainer, himage]

/-- Marking is done once. -/
theorem markIds_markIds : markIds ids' (markIds ids rows) = markIds (ids ++ ids') rows := by
  unfold markIds
  rw [List.map_map]
  refine List.map_congr_left fun x _ => ?_
  by_cases h : x.id ∈ ids <;> by_cases h' : x.id ∈ ids' <;> simp [h, h', mark]

@[simp]
theorem markIds_nil : markIds [] rows = rows := by
  unfold markIds
  simp

/-- The IDs of the rows that the answers let be cleaned. -/
def cleanedIds (answers : Nat → Answers) (todo : List Instance) : List Nat :=
  (todo.filter fun r => (answers r.id).cleans).map Instance.id

theorem cleanedIds_cons (answers : Nat → Answers) (r : Instance) (todo : List Instance) :
    cleanedIds answers (r :: todo) = cleanedIds answers [r] ++ cleanedIds answers todo := by
  unfold cleanedIds
  rw [← List.singleton_append, List.filter_append, List.map_append]

/-- What the clean-up of one row leaves: its error is only logged. -/
theorem forEach_one_ends (answers : Nat → Answers) (r : Instance) (s : State) :
    Ends (tolerating (fun _ => true) (cleanInstance (answers r.id) r)) s
      (fun _ s' => (∃ ids, ids ⊆ [r.id] ∧ s'.instances = markIds ids s.instances) ∧
        (s.left = none → s'.instances = markIds (cleanedIds answers [r]) s.instances ∧
          s'.calls = s.calls ++ (answers r.id).calls r ∧ s'.left = none))
      fun _ s' => s.left ≠ none ∧ s'.instances = s.instances := by
  refine tolerating_ends ((cleanInstance_ends _ r s).mono ?_ ?_)
  · rintro _ s' ⟨hcleans, hcalls, hrows, hleft⟩
    refine ⟨⟨[r.id], List.Subset.refl _, hrows⟩, fun hnone => ⟨?_, hcalls, hleft hnone⟩⟩
    simpa [cleanedIds, hcleans] using hrows
  · rintro (e | _) s' ⟨hrows, hleft⟩
    · rw [if_pos rfl]
      refine ⟨⟨[], List.nil_subset _, by rw [hrows, markIds_nil]⟩, fun hnone => ?_⟩
      obtain ⟨-, hcleans, hcalls, hleft⟩ := hleft hnone
      exact ⟨by simpa [cleanedIds, hcleans] using hrows, hcalls, hleft⟩
    · refine ⟨fun hnone => ?_, hrows⟩
      obtain ⟨⟨e, he⟩, -⟩ := hleft hnone
      cases he

/-- **What the loop leaves**: some of its rows cleaned; if the process does not end, all that the
answers let be cleaned, with the calls of every row made. -/
theorem forEach_ends (answers : Nat → Answers) (todo : List Instance) (s : State) :
    Ends (forEach answers todo) s
      (fun _ s' => (∃ ids, ids ⊆ todo.map Instance.id ∧
          s'.instances = markIds ids s.instances) ∧
        (s.left = none → s'.instances = markIds (cleanedIds answers todo) s.instances ∧
          s'.calls = s.calls ++ todo.flatMap fun r => (answers r.id).calls r))
      fun _ s' => s.left ≠ none ∧ ∃ ids, ids ⊆ todo.map Instance.id ∧
        s'.instances = markIds ids s.instances := by
  induction todo generalizing s with
  | nil =>
    refine Ends.pure ⟨⟨[], List.Subset.refl _, markIds_nil.symm⟩, fun _ => ⟨?_, ?_⟩⟩
    · exact markIds_nil.symm
    · exact (List.append_nil _).symm
  | cons r todo ih =>
    refine Ends.bind ((forEach_one_ends answers r s).mono (fun _ _ => id) ?_) ?_
    · rintro _ s' ⟨hleft, hrows⟩
      exact ⟨hleft, [], List.nil_subset _, by rw [hrows, markIds_nil]⟩
    rintro _ s₁ ⟨⟨ids, hids, hrows⟩, hfirst⟩
    have hsub : ∀ ids' : List Nat, ids' ⊆ todo.map Instance.id →
        ids ++ ids' ⊆ (r :: todo).map Instance.id := by
      intro ids' hids'
      refine List.append_subset.2 ⟨fun x hx => ?_, fun x hx => ?_⟩
      · rw [List.mem_singleton.1 (hids hx)]
        exact List.mem_cons_self
      · exact List.mem_cons_of_mem _ (hids' hx)
    refine (ih s₁).mono ?_ ?_
    · rintro _ s₂ ⟨⟨ids', hids', hrows'⟩, hrest⟩
      refine ⟨⟨ids ++ ids', hsub ids' hids', ?_⟩, fun hnone => ?_⟩
      · rw [hrows', hrows, markIds_markIds]
      · obtain ⟨hrows₁, hcalls₁, hleft₁⟩ := hfirst hnone
        obtain ⟨hrows₂, hcalls₂⟩ := hrest hleft₁
        refine ⟨?_, ?_⟩
        · rw [hrows₂, hrows₁, markIds_markIds, ← cleanedIds_cons answers r todo]
        · simp [hcalls₂, hcalls₁]
    · rintro _ s₂ ⟨hleft, ids', hids', hrows'⟩
      refine ⟨fun hnone => hleft (hfirst hnone).2.2, ids ++ ids', hsub ids' hids', ?_⟩
      rw [hrows', hrows, markIds_markIds]

/-! ## Passes -/

/-- The query. -/
def selected (rows : List Instance) : List Instance := rows.filter CleanKind.inactive.selects

/-- What holds however a pass ends. -/
theorem run_of_ends {R : State → Prop} (h : Ends p.cleanInactiveInstances ⟨rows, [], p.left⟩
    (fun _ => R) fun _ => R) : R (p.run rows) := by
  unfold Ends at h
  unfold run
  split at h
  · next heq => rw [heq]; exact h
  · next heq => rw [heq]; exact h

/-- **What a pass leaves**: some of the rows of its query cleaned. -/
theorem run_marks (p : Pass) (rows : List Instance) :
    ∃ ids, ids ⊆ (selected rows).map Instance.id ∧ (p.run rows).instances = markIds ids rows := by
  refine run_of_ends (R := fun s => ∃ ids, ids ⊆ (selected rows).map Instance.id ∧
    s.instances = markIds ids rows) ?_
  have hnone : ∃ ids, ids ⊆ (selected rows).map Instance.id ∧ rows = markIds ids rows :=
    ⟨[], List.nil_subset _, markIds_nil.symm⟩
  have horder : ∀ {ids : List Nat}, ids ⊆ (p.order (selected rows)).map Instance.id →
      ids ⊆ (selected rows).map Instance.id :=
    fun hids => List.Subset.trans hids ((p.perm _).map _).subset
  unfold cleanInactiveInstances
  split
  · exact Ends.pure hnone
  · refine Ends.get ?_
    split
    · exact Ends.pure hnone
    · refine (forEach_ends p.answers (p.order (selected rows)) _).mono ?_ ?_
      · rintro _ s ⟨⟨ids, hids, hrows⟩, -⟩
        exact ⟨ids, horder hids, hrows⟩
      · rintro _ s ⟨-, ids, hids, hrows⟩
        exact ⟨ids, horder hids, hrows⟩

/-- **What a pass leaves that is completed.** -/
theorem run_completes (h : p.Completes) :
    (p.run rows).calls = (p.order (selected rows)).flatMap (fun r => (p.answers r.id).calls r) ∧
      (p.run rows).instances = markIds (cleanedIds p.answers (p.order (selected rows))) rows := by
  obtain ⟨hprecheck, hfind, hleft⟩ := h
  refine run_of_ends (R := fun s =>
    s.calls = (p.order (selected rows)).flatMap (fun r => (p.answers r.id).calls r) ∧
      s.instances = markIds (cleanedIds p.answers (p.order (selected rows))) rows) ?_
  have hchecked : ¬ (!p.precheckDocker && !p.precheckDatabase) = true := by
    rcases hprecheck with h | h <;> simp [h]
  unfold cleanInactiveInstances
  rw [if_neg hchecked]
  refine Ends.get ?_
  rw [hfind, Option.isSome_none, if_neg Bool.false_ne_true]
  refine (forEach_ends p.answers (p.order (selected rows)) _).mono ?_ ?_
  · rintro _ s ⟨-, hrest⟩
    obtain ⟨hrows, hcalls⟩ := hrest hleft
    exact ⟨hcalls, hrows⟩
  · rintro _ s ⟨hsome, -⟩
    exact absurd hleft hsome

/-- Rows with IDs of their own. -/
def Keyed (rows : List Instance) : Prop := (rows.map Instance.id).Nodup

instance (rows : List Instance) : Decidable (Keyed rows) :=
  inferInstanceAs (Decidable (List.Nodup _))

/-- The ID of a row is that of a row of a query exactly if the query selects the row. -/
theorem Keyed.mem_ids (h : Keyed rows) {sel : Instance → Bool} {x : Instance} (hx : x ∈ rows) :
    x.id ∈ (rows.filter sel).map Instance.id ↔ sel x = true := by
  constructor
  · intro hid
    obtain ⟨y, hy, hyx⟩ := List.mem_map.1 hid
    obtain ⟨hy, hsel⟩ := List.mem_filter.1 hy
    rwa [List.inj_on_of_nodup_map h hy hx hyx] at hsel
  · intro hsel
    exact List.mem_map_of_mem (List.mem_filter.2 ⟨hx, hsel⟩)

theorem keyed_markIds (h : Keyed rows) : Keyed (markIds ids rows) := by
  have hids : (markIds ids rows).map Instance.id = rows.map Instance.id := by
    unfold markIds
    rw [List.map_map]
    refine List.map_congr_left fun x _ => ?_
    simp only [Function.comp_apply]
    split <;> rfl
  unfold Keyed
  rwa [hids]

/-- **A completed pass**, row by row. -/
theorem completes_rows (h : p.Completes) (hkeyed : Keyed rows) :
    (p.run rows).instances = rows.map fun r =>
      if CleanKind.inactive.selects r && (p.answers r.id).cleans then mark r else r := by
  rw [(run_completes h).2]
  refine List.map_congr_left fun x hx => if_congr ?_ rfl rfl
  have hperm : (cleanedIds p.answers (p.order (selected rows))).Perm
      ((rows.filter fun r => CleanKind.inactive.selects r && (p.answers r.id).cleans).map
        Instance.id) := by
    unfold cleanedIds selected
    refine (((p.perm _).filter _).trans ?_).map _
    rw [List.filter_filter]
    simp only [Bool.and_comm]
    exact .refl _
  rw [hperm.mem_iff, hkeyed.mem_ids hx]

/-- **Any passes**, one after the other. -/
theorem runAll_marks (passes : List Pass) (hkeyed : Keyed rows) : ∃ ids : List Nat,
    (∀ r ∈ rows, r.id ∈ ids → CleanKind.inactive.selects r = true) ∧
      runAll passes rows = markIds ids rows := by
  induction passes generalizing rows with
  | nil => exact ⟨[], fun _ _ h => (by cases h), markIds_nil.symm⟩
  | cons p passes ih =>
    obtain ⟨ids, hids, hrows⟩ := run_marks p rows
    have hfirst : ∀ r ∈ rows, r.id ∈ ids → CleanKind.inactive.selects r = true :=
      fun r hr hid => (hkeyed.mem_ids hr).1 (hids hid)
    have hmarked : Keyed (markIds ids rows) := keyed_markIds hkeyed
    obtain ⟨ids', hids', hrows'⟩ := ih hmarked
    refine ⟨ids ++ ids', fun r hr hid => ?_, ?_⟩
    · by_cases hmem : r.id ∈ ids
      · exact hfirst r hr hmem
      · have hr' : r ∈ markIds ids rows :=
          List.mem_map.2 ⟨r, hr, if_neg hmem⟩
        exact hids' r hr' ((List.mem_append.1 hid).resolve_left hmem)
    · rw [runAll, List.foldl_cons, hrows]
      exact hrows'.trans markIds_markIds

/-- Where Docker and the database recover, every row is cleaned. -/
theorem Recovers.cleans (h : p.Recovers) (id : Nat) : (p.answers id).cleans = true := by
  obtain ⟨-, hcontainer, himage, hupdate⟩ := h id
  have hcontainer : (p.answers id).containerGone = true := by
    unfold Answers.containerGone
    cases hc : (p.answers id).containerRemove with
    | none => rfl
    | some e => exact hcontainer e hc
  have himage : (p.answers id).imageGone = true := by
    unfold Answers.imageGone
    cases hi : (p.answers id).imageRemove with
    | none => rfl
    | some e =>
      have hfound : e.notFound = true := himage e hi
      simp [Error.imageGone, hfound]
  simp [Answers.cleans, hcontainer, himage, hupdate]

/-- **One bad instance does not stop the others, and a retry finishes the job.** A completed pass
makes the calls for every row of its query, and cleans those whose removals and update succeed, or
fail as is tolerated; the other rows stay as they were. Behind any passes, a completed one in which
nothing fails but to find something cleans all rows that are left. -/
theorem pass_cleans (hkeyed : Keyed rows) :
    (∀ p : Pass, p.Completes →
      (p.run rows).calls = (p.order (selected rows)).flatMap (fun r => (p.answers r.id).calls r) ∧
      (p.run rows).instances = rows.map fun r =>
        if CleanKind.inactive.selects r && (p.answers r.id).cleans then mark r else r) ∧
    ∀ (passes : List Pass) (p : Pass), p.Completes → p.Recovers →
      (p.run (runAll passes rows)).instances = rows.map fun r =>
        if CleanKind.inactive.selects r then mark r else r := by
  refine ⟨fun p hp => ⟨(run_completes hp).1, completes_rows hp hkeyed⟩,
    fun passes p hp hrecovers => ?_⟩
  obtain ⟨ids, hids, hrows⟩ := runAll_marks passes hkeyed
  rw [hrows, completes_rows hp (keyed_markIds hkeyed), markIds, List.map_map]
  refine List.map_congr_left fun r hr => ?_
  simp only [Function.comp_apply, hrecovers.cleans, Bool.and_true]
  by_cases hmem : r.id ∈ ids
  · have hmarked : CleanKind.inactive.selects (mark r) = false := rfl
    rw [if_pos hmem, hmarked, hids r hr hmem]
    rfl
  · rw [if_neg hmem]

/-- A pass over the rows in their order, in which the removal of these containers fails. -/
def refusing (ids : List Nat) (removal : Error) : Pass where
  precheckDocker := true
  precheckDatabase := true
  find := none
  order := id
  perm := fun l => .refl l
  answers := fun id => ⟨none, if id ∈ ids then some removal else none, none, none⟩
  left := none

/-- Two rows to clean, and an active one. -/
def threeRows : List Instance :=
  [⟨1, 0, 5, 1, 1, none, false, false⟩, ⟨2, 0, 5, 1, 2, none, false, false⟩,
    ⟨3, 0, 5, 1, 3, none, true, false⟩]

/-- The first removal is refused, and when it is tried again the container is gone. -/
theorem pass_cleans_three :
    ((refusing [1] ⟨false, "conflict"⟩).run threeRows).instances.map Instance.cleaned =
        [false, true, false] ∧
      ((refusing [1] ⟨true, "no such container"⟩).run
        (runAll [refusing [1] ⟨false, "conflict"⟩] threeRows)).instances.map Instance.cleaned =
        [true, true, false] := by
  have hkeyed : Keyed threeRows := by decide
  obtain ⟨hpass, hretry⟩ := pass_cleans hkeyed
  refine ⟨?_, ?_⟩
  · rw [(hpass (refusing [1] ⟨false, "conflict"⟩) ⟨.inl rfl, rfl, rfl⟩).2]
    decide
  · rw [hretry [refusing [1] ⟨false, "conflict"⟩] (refusing [1] ⟨true, "no such container"⟩)
      ⟨.inl rfl, rfl, rfl⟩ ?_]
    · decide
    · refine fun id => ⟨nofun, fun e he => ?_, nofun, rfl⟩
      simp only [refusing] at he
      split at he
      · cases he
        rfl
      · cases he

end

end Pass

end UAssign.App

import UAssign.App.Pass

/-!
# The tasks that go over the rows

`checkExpiredInstances`, the clean-ups of `cleanupInstancesByQuery`, and
`markAllInstancesCleanedAndInactive`, which a server that is configured so runs when it starts. Each
queries for rows and goes on to the next row whatever becomes of one; a query, the iteration and the
process may end early. `runAll_rows` is what any of them leave, one after the other: every row goes
its own way, and none depends on what the calls answer for another. `settles` is what has become of
the rows in the end. A clean-up is the pass of `App/Pass` (`program_ofPass`).
-/

namespace UAssign.App.Tasks

open Pass

/-! ## The programs -/

/-- The tasks: that which expires rows, at a time; a clean-up; and that which forces all rows to be
inactive and cleaned. -/
inductive TaskKind where
  | checkExpired (now : Nat)
  | cleanup (kind : CleanKind)
  | force
  deriving DecidableEq

/-- What a task meets: the two checks in front of it, the error of the query, the order of the rows,
how many of them are read before the iteration fails, if it does, the answers of the calls for each
row, the last of which is that of the task's own update, and how many calls are made before the
process ends. -/
structure Task where
  kind : TaskKind
  precheckDocker : Bool
  precheckDatabase : Bool
  find : Option Pass.Error
  order : List Instance → List Instance
  perm : ∀ l, (order l).Perm l
  cursor : Option Nat
  answers : Nat → Pass.Answers
  update : Nat → Option Pass.Error
  left : Option Nat

/-- The rows that a task queries for. -/
def TaskKind.selects : TaskKind → Instance → Bool
  | .checkExpired now, r => r.expired now
  | .cleanup kind, r => kind.selects r
  | .force, r => r.active || !r.cleaned

/-- What a task makes of a row when it succeeds. -/
def TaskKind.change : TaskKind → Instance → Instance
  | .checkExpired _, r => { r with active := false }
  | .cleanup _, r | .force, r => mark r

/-- The clean-up of a spec is a request, and not checked here. -/
def TaskKind.checked : TaskKind → Bool
  | .cleanup (.spec _) => false
  | _ => true

/-- `instanceStore.Update` of `Active`. -/
def updateActive (inst : Instance) (instances : List Instance) : List Instance :=
  instances.map fun r => if r.id = inst.id then r.setColumns inst [.active] else r

/-- `ResultSet.ForEach`: the body's errors have been logged by then. -/
def forRows (body : Instance → EStateM Stop State Unit) : List Instance → EStateM Stop State Unit
  | [] => pure ()
  | inst :: rest => do
    body inst
    forRows body rest

namespace Task

variable (t : Task)

/-- What a task does with one row. -/
def body (inst : Instance) : EStateM Stop State Unit :=
  match t.kind with
  | .checkExpired _ =>
    let inst := { inst with active := false }
    tolerating (fun _ => true) (call (.update inst.id) (t.update inst.id) (updateActive inst))
  | .cleanup _ => tolerating (fun _ => true) (cleanInstance (t.answers inst.id) inst)
  | .force => do
    let inst := { inst with active := false, cleaned := true }
    tolerating (fun _ => true) (cleanInstance (t.answers inst.id) inst)
    tolerating (fun _ => true) (call (.update inst.id) (t.update inst.id) (updateRow inst))

/-- A task. -/
def program : EStateM Stop State Unit :=
  if t.kind.checked && !t.precheckDocker && !t.precheckDatabase then pure ()
  else do
    let s ← get
    if t.find.isSome then pure ()
    else
      let found := t.order (s.instances.filter t.kind.selects)
      forRows t.body (t.cursor.elim found found.take)

/-- The rows behind a task. -/
def run (instances : List Instance) : List Instance :=
  match t.program ⟨instances, [], t.left⟩ with
  | .ok _ s | .error _ s => s.instances

/-- The rows behind some tasks. -/
def runAll (tasks : List Task) (instances : List Instance) : List Instance :=
  tasks.foldl (fun instances t => t.run instances) instances

/-- A task that comes to the end of its rows. -/
def Completes : Prop :=
  (t.kind.checked && !t.precheckDocker && !t.precheckDatabase) = false ∧ t.find = none ∧
    t.cursor = none ∧ t.left = none

/-- The calls that a task makes for a row let it be changed. -/
def succeeds (id : Nat) : Bool :=
  match t.kind with
  | .checkExpired _ => (t.update id).isNone
  | .cleanup _ => (t.answers id).cleans
  | .force => (t.answers id).cleans || (t.update id).isNone

/-- **What a task makes of a row** that it comes to. -/
def fate (r : Instance) : Instance :=
  if t.kind.selects r && t.succeeds r.id then t.kind.change r else r

end Task

/-- A pass of `cleanInactiveInstances` as one of the tasks. -/
def Task.ofPass (p : Pass) : Task where
  kind := .cleanup .inactive
  precheckDocker := p.precheckDocker
  precheckDatabase := p.precheckDatabase
  find := p.find
  order := p.order
  perm := p.perm
  cursor := none
  answers := p.answers
  update := fun _ => none
  left := p.left

/-- Its loop. -/
theorem forRows_ofPass (p : Pass) (rows : List Instance) :
    forRows (Task.ofPass p).body rows = forEach p.answers rows := by
  induction rows with
  | nil => rfl
  | cons r rows ih =>
    rw [forRows, forEach, ih]
    rfl

/-- It is the program of the pass. -/
theorem program_ofPass (p : Pass) : (Task.ofPass p).program = p.cleanInactiveInstances := by
  unfold Task.program Pass.cleanInactiveInstances Pass.cleanupInstancesByQuery
  simp only [forRows_ofPass]
  rfl

/-! ## One row -/

/-- The rows with some of these IDs changed. -/
def changeIds (f : Instance → Instance) (ids : List Nat) (rows : List Instance) : List Instance :=
  rows.map fun r => if r.id ∈ ids then f r else r

section

variable {t : Task} {r : Instance} {rows : List Instance} {s : State} {ids ids' : List Nat}
  {kind : TaskKind}

@[simp]
theorem change_id : (kind.change r).id = r.id := by
  cases kind <;> rfl

@[simp]
theorem change_change : kind.change (kind.change r) = kind.change r := by
  cases kind <;> rfl

@[simp]
theorem changeIds_nil {f : Instance → Instance} : changeIds f [] rows = rows := by
  simp [changeIds]

/-- Changing is done once. -/
theorem changeIds_changeIds : changeIds kind.change ids' (changeIds kind.change ids rows) =
    changeIds kind.change (ids ++ ids') rows := by
  unfold changeIds
  rw [List.map_map]
  refine List.map_congr_left fun x _ => ?_
  by_cases h : x.id ∈ ids <;> by_cases h' : x.id ∈ ids' <;> simp [h, h']

/-- The update of `Active` changes one row. -/
theorem updateActive_eq : updateActive { r with active := false } rows =
    changeIds (TaskKind.checkExpired 0).change [r.id] rows := by
  refine List.map_congr_left fun x _ => ?_
  simp only [List.mem_singleton]
  split <;> rfl

/-- A program leaves the rows with these IDs changed, or some of them if the process ends. -/
def Leaves (kind : TaskKind) (done : List Nat) (m : EStateM Stop State Unit) (s : State) : Prop :=
  Ends m s
    (fun _ s' => (∃ ids, ids ⊆ done ∧ s'.instances = changeIds kind.change ids s.instances) ∧
      (s.left = none → s'.instances = changeIds kind.change done s.instances ∧ s'.left = none))
    fun _ s' => s.left ≠ none ∧
      ∃ ids, ids ⊆ done ∧ s'.instances = changeIds kind.change ids s.instances

/-- The order of the IDs does not matter. -/
theorem Leaves.congr {m : EStateM Stop State Unit} {done done' : List Nat}
    (h : Leaves kind done m s) (hmem : ∀ id, id ∈ done ↔ id ∈ done') : Leaves kind done' m s := by
  have hsub : ∀ {ids : List Nat}, ids ⊆ done → ids ⊆ done' :=
    fun hids _ hx => (hmem _).1 (hids hx)
  have heq : ∀ rows, changeIds kind.change done rows = changeIds kind.change done' rows :=
    fun rows => List.map_congr_left fun x _ => if_congr (hmem x.id) rfl rfl
  refine h.mono ?_ ?_
  · rintro _ s' ⟨⟨ids, hids, hrows⟩, hall⟩
    exact ⟨⟨ids, hsub hids, hrows⟩, fun hnone => heq _ ▸ hall hnone⟩
  · rintro _ s' ⟨hleft, ids, hids, hrows⟩
    exact ⟨hleft, ids, hsub hids, hrows⟩

/-- A program that changes nothing. -/
theorem leaves_pure : Leaves kind [] (pure ()) s :=
  Ends.pure ⟨⟨[], List.Subset.refl _, changeIds_nil.symm⟩, fun hnone => ⟨changeIds_nil.symm, hnone⟩⟩

/-- One program behind the other. -/
theorem Leaves.bind {m m' : EStateM Stop State Unit} (h : Leaves kind ids m s)
    (h' : ∀ s', Leaves kind ids' m' s') : Leaves kind (ids ++ ids') (m >>= fun _ => m') s := by
  refine Ends.bind (h.mono (fun _ _ => id) ?_) ?_
  · rintro _ s' ⟨hleft, done, hdone, hrows⟩
    exact ⟨hleft, done, List.subset_append_of_subset_left _ hdone, hrows⟩
  rintro _ s₁ ⟨⟨done, hdone, hrows⟩, hall⟩
  refine (h' s₁).mono ?_ ?_
  · rintro _ s₂ ⟨⟨done', hdone', hrows'⟩, hall'⟩
    refine ⟨⟨done ++ done', ?_, ?_⟩, fun hnone => ?_⟩
    · exact List.append_subset.2 ⟨List.subset_append_of_subset_left _ hdone,
        List.subset_append_of_subset_right _ hdone'⟩
    · rw [hrows', hrows, changeIds_changeIds]
    · obtain ⟨hrows₁, hleft₁⟩ := hall hnone
      obtain ⟨hrows₂, hleft₂⟩ := hall' hleft₁
      exact ⟨by rw [hrows₂, hrows₁, changeIds_changeIds], hleft₂⟩
  · rintro _ s₂ ⟨hleft, done', hdone', hrows'⟩
    refine ⟨fun hnone => hleft (hall hnone).2, done ++ done', ?_, ?_⟩
    · exact List.append_subset.2 ⟨List.subset_append_of_subset_left _ hdone,
        List.subset_append_of_subset_right _ hdone'⟩
    · rw [hrows', hrows, changeIds_changeIds]

/-- A task's own update, whose error is only logged. -/
theorem leaves_update {effect : List Instance → List Instance} (answer : Option Pass.Error)
    (heffect : ∀ rows, effect rows = changeIds kind.change [r.id] rows) (s : State) :
    Leaves kind (if answer.isNone then [r.id] else [])
      (tolerating (fun _ => true) (call (.update r.id) answer effect)) s := by
  refine tolerating_ends ((call_ends _ answer effect s).mono ?_ ?_)
  · rintro _ s' ⟨rfl, rfl⟩
    exact ⟨⟨[r.id], List.Subset.refl _, heffect _⟩, fun hnone => ⟨heffect _, by simp [hnone]⟩⟩
  · rintro stop s' (⟨rfl, hleft, rfl⟩ | ⟨e, rfl, rfl, rfl⟩)
    · exact ⟨hleft, [], List.nil_subset _, changeIds_nil.symm⟩
    · rw [if_pos rfl]
      exact ⟨⟨[], List.nil_subset _, changeIds_nil.symm⟩,
        fun hnone => ⟨changeIds_nil.symm, by simp [hnone]⟩⟩

/-- `cleanInstance`, whose error is only logged. -/
theorem leaves_clean (hkind : kind.change = mark) (a : Answers) (r : Instance) (s : State) :
    Leaves kind (if a.cleans then [r.id] else [])
      (tolerating (fun _ => true) (cleanInstance a r)) s := by
  have hmark : ∀ ids, changeIds kind.change ids s.instances = markIds ids s.instances := by
    intro ids
    rw [hkind]
    rfl
  refine tolerating_ends ((cleanInstance_ends a r s).mono ?_ ?_)
  · rintro _ s' ⟨hcleans, -, hrows, hleft⟩
    rw [hcleans, if_pos rfl]
    exact ⟨⟨[r.id], List.Subset.refl _, (hmark _).symm ▸ hrows⟩,
      fun hnone => ⟨(hmark _).symm ▸ hrows, hleft hnone⟩⟩
  · rintro (e | _) s' ⟨hrows, hleft⟩
    · rw [if_pos rfl]
      refine ⟨⟨[], List.nil_subset _, by rw [hrows, changeIds_nil]⟩, fun hnone => ?_⟩
      obtain ⟨-, hcleans, -, hleft⟩ := hleft hnone
      rw [hcleans, if_neg Bool.false_ne_true, changeIds_nil]
      exact ⟨hrows, hleft⟩
    · refine ⟨fun hnone => ?_, [], List.nil_subset _, by rw [hrows, changeIds_nil]⟩
      obtain ⟨⟨e, he⟩, -⟩ := hleft hnone
      cases he

/-- **What a task does with a row** changes this row, if it succeeds. -/
theorem leaves_body (t : Task) (r : Instance) (s : State) :
    Leaves t.kind (if t.succeeds r.id then [r.id] else []) (t.body r) s := by
  unfold Task.body Task.succeeds
  cases hkind : t.kind with
  | checkExpired now => exact leaves_update (t.update r.id) (fun _ => updateActive_eq) s
  | cleanup kind => exact leaves_clean rfl (t.answers r.id) r s
  | force =>
    have hclean : Leaves .force (if (t.answers r.id).cleans then [r.id] else [])
        (tolerating (fun _ => true) (cleanInstance (t.answers r.id) (mark r))) s :=
      leaves_clean rfl (t.answers r.id) (mark r) s
    refine (hclean.bind fun s' =>
      leaves_update (t.update r.id) (fun _ => updateRow_eq) s').congr fun id => ?_
    cases (t.answers r.id).cleans <;> cases (t.update r.id).isNone <;> simp

/-- The IDs of the rows that a task succeeds on. -/
def Task.succeeding (t : Task) (rows : List Instance) : List Nat :=
  (rows.filter fun r => t.succeeds r.id).map Instance.id

/-- **What the loop leaves.** -/
theorem leaves_forRows (t : Task) (todo : List Instance) (s : State) :
    Leaves t.kind (t.succeeding todo) (forRows t.body todo) s := by
  induction todo generalizing s with
  | nil => exact leaves_pure
  | cons r todo ih =>
    refine ((leaves_body t r s).bind ih).congr fun id => ?_
    cases h : t.succeeds r.id <;> simp [Task.succeeding, h]

/-! ## One task -/

/-- What holds however a task ends. -/
theorem run_of_ends {R : List Instance → Prop}
    (h : Ends t.program ⟨rows, [], t.left⟩ (fun _ s => R s.instances) fun _ s => R s.instances) :
    R (t.run rows) := by
  unfold Ends at h
  unfold Task.run
  split at h
  · next heq => rw [heq]; exact h
  · next heq => rw [heq]; exact h

/-- The rows whose IDs have been changed are rows that the task makes something of. -/
theorem changeIds_fate (hkeyed : Keyed rows)
    (hids : ids ⊆ t.succeeding (rows.filter t.kind.selects)) :
    changeIds t.kind.change ids rows = rows.map fun r => if r.id ∈ ids then t.fate r else r := by
  refine List.map_congr_left fun r hr => ?_
  split
  · next hmem =>
    obtain ⟨y, hy, hyr⟩ := List.mem_map.1 (hids hmem)
    obtain ⟨hy, hsucceeds⟩ := List.mem_filter.1 hy
    have hselects : t.kind.selects r = true :=
      (hkeyed.mem_ids hr).1 (hyr ▸ List.mem_map_of_mem hy)
    rw [hyr] at hsucceeds
    rw [Task.fate, hselects, hsucceeds]
    rfl
  · rfl

/-- **What a task leaves**: of some rows what it makes of them, and of all if it completes. -/
theorem run_rows (t : Task) (hkeyed : Keyed rows) :
    (∃ reached : List Nat, t.run rows = rows.map fun r => if r.id ∈ reached then t.fate r else r) ∧
      (t.Completes → t.run rows = rows.map t.fate) := by
  have hnone : ∃ reached : List Nat, rows = rows.map fun r =>
      if r.id ∈ reached then t.fate r else r := ⟨[], by simp⟩
  refine run_of_ends (R := fun after =>
    (∃ reached : List Nat, after = rows.map fun r => if r.id ∈ reached then t.fate r else r) ∧
      (t.Completes → after = rows.map t.fate)) ?_
  unfold Task.program
  split
  · next hgate => exact Ends.pure ⟨hnone, fun h => absurd (h.1.symm.trans hgate) Bool.false_ne_true⟩
  refine Ends.get ?_
  split
  · next hfind =>
    refine Ends.pure ⟨hnone, fun h => ?_⟩
    rw [h.2.1] at hfind
    cases hfind
  have hperm : (t.order (rows.filter t.kind.selects)).Perm (rows.filter t.kind.selects) := t.perm _
  have htodo : t.cursor.elim (t.order (rows.filter t.kind.selects))
      (t.order (rows.filter t.kind.selects)).take ⊆ rows.filter t.kind.selects := by
    cases t.cursor with
    | none => exact hperm.subset
    | some k => exact List.Subset.trans (List.take_subset _ _) hperm.subset
  have hreached : ∀ {ids : List Nat}, ids ⊆ t.succeeding (t.cursor.elim
      (t.order (rows.filter t.kind.selects)) (t.order (rows.filter t.kind.selects)).take) →
      changeIds t.kind.change ids rows = rows.map fun r => if r.id ∈ ids then t.fate r else r := by
    refine fun hids => changeIds_fate hkeyed (List.Subset.trans hids ?_)
    refine List.map_subset _ fun x hx => ?_
    obtain ⟨hx, hsucceeds⟩ := List.mem_filter.1 hx
    exact List.mem_filter.2 ⟨htodo hx, hsucceeds⟩
  refine (leaves_forRows t _ _).mono ?_ ?_
  · rintro _ s ⟨⟨ids, hids, hrows⟩, hall⟩
    refine ⟨⟨ids, hrows.trans (hreached hids)⟩, fun h => ?_⟩
    obtain ⟨-, -, hcursor, hleft⟩ := h
    rw [(hall hleft).1, hcursor]
    show changeIds t.kind.change (t.succeeding (t.order (rows.filter t.kind.selects))) rows = _
    refine List.map_congr_left fun r hr => ?_
    have hmem : r.id ∈ t.succeeding (t.order (rows.filter t.kind.selects)) ↔
        (t.kind.selects r && t.succeeds r.id) = true := by
      have hids : (t.succeeding (t.order (rows.filter t.kind.selects))).Perm
          ((rows.filter fun r => t.kind.selects r && t.succeeds r.id).map Instance.id) := by
        refine ((hperm.filter _).trans ?_).map _
        rw [List.filter_filter]
        simp only [Bool.and_comm]
        exact .refl _
      rw [hids.mem_iff, hkeyed.mem_ids hr]
    unfold Task.fate
    simp only [hmem]
  · rintro _ s ⟨hleft, ids, hids, hrows⟩
    exact ⟨⟨ids, hrows.trans (hreached hids)⟩, fun h => absurd h.2.2.2 hleft⟩

/-! ## All tasks -/

/-- What a task may make of a row: what it makes of the rows that it comes to, and nothing only if
it has ended early. -/
def Task.Step (t : Task) (r r' : Instance) : Prop := r' = t.fate r ∨ (¬ t.Completes ∧ r' = r)

/-- The way of one row through some tasks. -/
def Path : List Task → Instance → Instance → Prop
  | [], r, r' => r' = r
  | t :: tasks, r, r'' => ∃ r', t.Step r r' ∧ Path tasks r' r''

/-- A task leaves the IDs as they are. -/
theorem fate_id : (t.fate r).id = r.id := by
  unfold Task.fate
  split
  · exact change_id
  · rfl

/-- Tasks keep the rows apart. -/
theorem keyed_run (t : Task) (hkeyed : Keyed rows) : Keyed (t.run rows) := by
  obtain ⟨⟨reached, hreached⟩, -⟩ := run_rows t hkeyed
  have hids : (t.run rows).map Instance.id = rows.map Instance.id := by
    rw [hreached, List.map_map]
    refine List.map_congr_left fun r _ => ?_
    simp only [Function.comp_apply]
    split
    · exact fate_id
    · rfl
  unfold Keyed
  rwa [hids]

/-- One task is a step of every row. -/
theorem run_steps (t : Task) (hkeyed : Keyed rows) :
    List.Forall₂ t.Step rows (t.run rows) := by
  obtain ⟨⟨reached, hreached⟩, hall⟩ := run_rows t hkeyed
  by_cases hcompletes : t.Completes
  · rw [hall hcompletes, List.forall₂_map_right_iff, List.forall₂_same]
    exact fun r _ => .inl rfl
  · rw [hreached, List.forall₂_map_right_iff, List.forall₂_same]
    intro r _
    split
    · exact .inl rfl
    · exact .inr ⟨hcompletes, rfl⟩

/-- A step of every row, and the way on. -/
theorem forall₂_path {tasks : List Task} {rows' rows'' : List Instance}
    (h : List.Forall₂ t.Step rows rows') (h' : List.Forall₂ (Path tasks) rows' rows'') :
    List.Forall₂ (Path (t :: tasks)) rows rows'' := by
  induction h generalizing rows'' with
  | nil =>
    cases h'
    exact .nil
  | cons hstep _ ih =>
    cases h' with
    | cons hpath hrest => exact .cons ⟨_, hstep, hpath⟩ (ih hrest)

/-- The ways of the rows. -/
theorem runAll_paths (tasks : List Task) (hkeyed : Keyed rows) :
    List.Forall₂ (Path tasks) rows (Task.runAll tasks rows) := by
  induction tasks generalizing rows with
  | nil => exact List.forall₂_same.2 fun _ _ => rfl
  | cons t tasks ih => exact forall₂_path (run_steps t hkeyed) (ih (keyed_run t hkeyed))

/-! ## The way of a row -/

/-- Rows move forward: a task writes no column but two, an inactive row stays inactive, and a
cleaned one cleaned. -/
structure Forward (r r' : Instance) : Prop where
  others : r' = { r with active := r'.active, cleaned := r'.cleaned }
  active : r'.active = true → r.active = true
  cleaned : r.cleaned = true → r'.cleaned = true

theorem Forward.refl (r : Instance) : Forward r r := ⟨rfl, id, id⟩

theorem Forward.trans {r' r'' : Instance} (h : Forward r r') (h' : Forward r' r'') :
    Forward r r'' := by
  refine ⟨?_, fun ha => h.active (h'.active ha), fun hc => h'.cleaned (h.cleaned hc)⟩
  rw [h'.others, h.others]

/-- A step moves the row forward. -/
theorem Task.Step.forward {r' : Instance} (h : t.Step r r') : Forward r r' := by
  rcases h with rfl | ⟨-, rfl⟩
  · unfold Task.fate
    split
    · cases t.kind with
      | checkExpired now => exact ⟨rfl, nofun, id⟩
      | cleanup | force => exact ⟨rfl, nofun, fun _ => rfl⟩
    · exact .refl r
  · exact .refl r'

/-- So does any way. -/
theorem Path.forward {tasks : List Task} {r' : Instance} (h : Path tasks r r') : Forward r r' := by
  induction tasks generalizing r with
  | nil => exact h ▸ .refl r
  | cons t tasks ih =>
    obtain ⟨_, hstep, hrest⟩ := h
    exact hstep.forward.trans (ih hrest)

/-- A way can be cut where a task is. -/
theorem Path.cut {pre post : List Task} {r' : Instance} (h : Path (pre ++ t :: post) r r') :
    ∃ x y, Path pre r x ∧ t.Step x y ∧ Path post y r' := by
  induction pre generalizing r with
  | nil =>
    obtain ⟨y, hstep, hrest⟩ := h
    exact ⟨r, y, rfl, hstep, hrest⟩
  | cons t' pre ih =>
    obtain ⟨z, hstep, hrest⟩ := h
    obtain ⟨x, y, hpre, hstep', hpost⟩ := ih hrest
    exact ⟨x, y, ⟨z, hstep, hpre⟩, hstep', hpost⟩

/-- The row is out of use. -/
def Settled (r : Instance) : Prop := r.active = false ∧ r.cleaned = true

theorem Settled.forward {r' : Instance} (h : Settled r) (hf : Forward r r') : Settled r' := by
  obtain ⟨hactive, hcleaned⟩ := h
  refine ⟨Bool.eq_false_iff.2 fun ha => ?_, hf.cleaned hcleaned⟩
  rw [hf.active ha] at hactive
  cases hactive

theorem Forward.id {r' : Instance} (h : Forward r r') : r'.id = r.id := by
  rw [h.others]

/-- A step of a task that completes is what it makes of the row. -/
theorem Task.Step.completed {r' : Instance} (h : t.Step r r') (hcompletes : t.Completes) :
    r' = t.fate r :=
  h.resolve_right fun hnot => hnot.1 hcompletes

/-- A row that is expired is inactive behind a task that expires rows and succeeds on it, -/
theorem expires {now : Nat} {r' : Instance} (hkind : t.kind = .checkExpired now)
    (hcompletes : t.Completes) (hupdate : t.update r.id = none) (hstep : t.Step r r')
    (hr : r.active = true → r.expired now = true) : r'.active = false := by
  have hsucceeds : t.succeeds r.id = true := by simp only [Task.succeeds, hkind, hupdate]; rfl
  rw [hstep.completed hcompletes, Task.fate, hkind, hsucceeds]
  cases hactive : r.active with
  | false =>
    split
    · rfl
    · exact hactive
  | true =>
    have hselects : (TaskKind.checkExpired now).selects r = true := hr hactive
    rw [hselects]
    rfl

/-- and one that is inactive is settled behind a clean-up. -/
theorem cleans {r' : Instance} (hkind : t.kind = .cleanup .inactive) (hcompletes : t.Completes)
    (hcleans : (t.answers r.id).cleans = true) (hstep : t.Step r r') (hr : r.active = false) :
    Settled r' := by
  have hforward := hstep.forward
  rw [hstep.completed hcompletes] at hforward ⊢
  cases hcleaned : r.cleaned with
  | true => exact Settled.forward ⟨hr, hcleaned⟩ hforward
  | false =>
    have hselects : (TaskKind.cleanup .inactive).selects r = true := by
      simp [TaskKind.selects, CleanKind.selects, hr, hcleaned]
    have hsucceeds : t.succeeds r.id = true := by simp only [Task.succeeds, hkind, hcleans]
    rw [Task.fate, hkind, hselects, hsucceeds]
    exact ⟨rfl, rfl⟩

/-- Any row is settled behind a task that forces it. -/
theorem forces {r' : Instance} (hkind : t.kind = .force) (hcompletes : t.Completes)
    (hsucceeds : (t.answers r.id).cleans = true ∨ t.update r.id = none) (hstep : t.Step r r') :
    Settled r' := by
  have hsucceeds : t.succeeds r.id = true := by
    simp only [Task.succeeds, hkind]
    rcases hsucceeds with h | h <;> simp [h]
  rw [hstep.completed hcompletes, Task.fate, hkind, hsucceeds]
  cases hselects : TaskKind.force.selects r with
  | true => exact ⟨rfl, rfl⟩
  | false =>
    simp only [TaskKind.selects, Bool.or_eq_false_iff, Bool.not_eq_false'] at hselects
    exact hselects

/-- The way of an expired row. -/
theorem Path.settled {pre mid post : List Task} {expire clean : Task} {now : Nat} {r' : Instance}
    (h : Path (pre ++ expire :: (mid ++ clean :: post)) r r')
    (hexpire : expire.kind = .checkExpired now ∧ expire.Completes ∧ expire.update r.id = none)
    (hclean : clean.kind = .cleanup .inactive ∧ clean.Completes ∧
      (clean.answers r.id).cleans = true)
    (hr : r.expired now = true) : Settled r' := by
  obtain ⟨x, y, hpre, hstep, hrest⟩ := h.cut
  obtain ⟨x', y', hmid, hstep', hpost⟩ := hrest.cut
  obtain ⟨hkind, hcompletes, hupdate⟩ := hexpire
  obtain ⟨hkind', hcompletes', hcleans⟩ := hclean
  have hx := hpre.forward
  have hx' := (hx.trans hstep.forward).trans hmid.forward
  rw [← hx.id] at hupdate
  rw [← hx'.id] at hcleans
  have hexpired : x.active = true → x.expired now = true := by
    intro hactive
    have hr := (Bool.and_eq_true _ _).mp hr
    have hexpiresAt : x.expiresAt = r.expiresAt := by rw [hx.others]
    rw [Instance.expired, hactive, hexpiresAt]
    exact hr.2
  have hy : y.active = false := expires hkind hcompletes hupdate hstep hexpired
  have hinactive : x'.active = false := Bool.eq_false_iff.2 fun ha => by
    rw [hmid.forward.active ha] at hy
    cases hy
  exact (cleans hkind' hcompletes' hcleans hstep' hinactive).forward hpost.forward

/-- The way of a row that is forced. -/
theorem Path.forced {pre post : List Task} {force : Task} {r' : Instance}
    (h : Path (pre ++ force :: post) r r') (hkind : force.kind = .force)
    (hcompletes : force.Completes)
    (hsucceeds : (force.answers r.id).cleans = true ∨ force.update r.id = none) : Settled r' := by
  obtain ⟨x, y, hpre, hstep, hpost⟩ := h.cut
  rw [← hpre.forward.id] at hsucceeds
  exact (forces hkind hcompletes hsucceeds hstep).forward hpost.forward

/-- **Every row goes its own way.** Whatever tasks run, one after the other, and whatever is
answered to their calls, what becomes of a row depends on the row and on what was answered for it,
and on no other row. A task that comes to the end of its rows leaves out none, and makes of each
what it says; rows move forward only. -/
theorem runAll_rows (tasks : List Task) (hkeyed : Keyed rows) :
    List.Forall₂ (fun r r' => Path tasks r r' ∧ Forward r r') rows (Task.runAll tasks rows) :=
  (runAll_paths tasks hkeyed).imp fun _ _ h => ⟨h, h.forward⟩

/-- **Rows are settled in the end.** A row that has expired is inactive and cleaned behind any tasks
among which a completed one has expired it and a later one has cleaned it, and any row is behind
those among which a completed one has forced it, be it that the clean-up failed; and it stays so. -/
theorem settles (hkeyed : Keyed rows) :
    (∀ (pre mid post : List Task) (expire clean : Task) (now : Nat),
      expire.kind = .checkExpired now → expire.Completes → clean.kind = .cleanup .inactive →
      clean.Completes →
      List.Forall₂ (fun r r' => r.expired now = true → expire.update r.id = none →
        (clean.answers r.id).cleans = true → Settled r')
        rows (Task.runAll (pre ++ expire :: (mid ++ clean :: post)) rows)) ∧
    ∀ (pre post : List Task) (force : Task), force.kind = .force → force.Completes →
      List.Forall₂ (fun r r' => (force.answers r.id).cleans = true ∨ force.update r.id = none →
        Settled r') rows (Task.runAll (pre ++ force :: post) rows) := by
  refine ⟨fun pre mid post expire clean now hkind hcompletes hkind' hcompletes' => ?_,
    fun pre post force hkind hcompletes => ?_⟩
  · refine (runAll_paths _ hkeyed).imp fun r r' h hr hupdate hcleans => ?_
    exact h.settled ⟨hkind, hcompletes, hupdate⟩ ⟨hkind', hcompletes', hcleans⟩ hr
  · exact (runAll_paths _ hkeyed).imp fun r r' h => h.forced hkind hcompletes

/-- A task that comes to all rows, in their order. -/
def Task.whole (kind : TaskKind) (answers : Nat → Answers) (update : Nat → Option Pass.Error) :
    Task where
  kind := kind
  precheckDocker := true
  precheckDatabase := true
  find := none
  order := fun l => l
  perm := fun l => .refl l
  cursor := none
  answers := answers
  update := update
  left := none

/-- The error of a removal. -/
def conflict : Pass.Error := ⟨false, "conflict"⟩

/-- Docker refuses to remove the container of one row, and then of all. -/
def refusals : List Task :=
  [.whole (.cleanup .inactive)
      (fun id => ⟨none, if id = 1 then some conflict else none, none, none⟩)
      (fun _ => none),
    .whole .force (fun _ => ⟨none, some conflict, none, none⟩) fun _ => none]

/-- The rows are settled nevertheless, and else as they were. -/
theorem runAll_rows_refusals :
    (Task.runAll refusals threeRows).map Instance.cleaned = [true, true, true] ∧
      List.Forall₂ (fun r r' => Path refusals r r' ∧ Forward r r') threeRows
        (Task.runAll refusals threeRows) :=
  ⟨by decide, runAll_rows refusals (by decide)⟩

/-- An instance that has expired, and one that is connected. -/
def expiredRow : List Instance :=
  [⟨1, 0, 5, 1, 1, some 3, true, false⟩, ⟨2, 0, 6, 1, 2, none, true, false⟩]

/-- The first one is expired and cleaned; the second one is forced. -/
theorem settles_expiredRow :
    (∃ r' ∈ Task.runAll
        [.whole (.checkExpired 4) (fun _ => ⟨none, none, none, none⟩) (fun _ => none),
        .whole (.cleanup .inactive) (fun _ => ⟨none, none, none, none⟩) fun _ => none] expiredRow,
      r'.id = 1 ∧ Settled r') ∧
    ∀ r' ∈ Task.runAll [.whole .force (fun _ => ⟨none, some conflict, none, none⟩) fun _ => none]
      expiredRow, Settled r' := by
  have hwhole : ∀ kind answers update, (Task.whole kind answers update).Completes :=
    fun kind _ _ => ⟨by simp [Task.whole], rfl, rfl, rfl⟩
  obtain ⟨hexpired, hforced⟩ := @settles expiredRow (by decide)
  constructor
  · have hway := hexpired [] [] [] (.whole (.checkExpired 4) (fun _ => ⟨none, none, none, none⟩)
      fun _ => none) (.whole (.cleanup .inactive) (fun _ => ⟨none, none, none, none⟩)
      fun _ => none) 4 rfl (hwhole _ _ _) rfl (hwhole _ _ _)
    cases hway with
    | cons hfirst _ => exact ⟨_, List.mem_cons_self, rfl, hfirst rfl rfl rfl⟩
  · have hway := hforced [] [] (.whole .force (fun _ => ⟨none, some conflict, none, none⟩)
      fun _ => none) rfl (hwhole _ _ _)
    cases hway with
    | cons hfirst hrest =>
      cases hrest with
      | cons hsecond hnil =>
        cases hnil
        exact List.forall_mem_cons.2 ⟨hfirst (.inr rfl),
          List.forall_mem_cons.2 ⟨hsecond (.inr rfl), nofun⟩⟩

end

end UAssign.App.Tasks

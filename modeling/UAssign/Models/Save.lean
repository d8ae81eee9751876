import UAssign.Models.Store

/-!
# What the app saves

`save_reachable` for records that point to each other in any way, and the updates that the app
makes: `createInstance` appends a new instance to a spec that it has loaded, and updates the spec;
`handleInstance` updates some columns of an instance that it has loaded with its spec.
`storeInstance_stores` and `instanceUpdate_updates` are what these make of the tables.
-/

namespace UAssign.Models

open Relation (ReflTransGen)

/-! ## Any records -/

/-- A record has been saved with all that is reached from it, and nothing else has; no record is
marked that was not. -/
structure Saved (s s' : State) (n : Node) : Prop where
  saving : s'.saving = s.saving
  written : ∃ new, s'.log = s.log ++ new ∧ replay s.db new = some s'.db ∧
    (∀ x, ReflTransGen (fun y z => z ∈ s.pointers y) n x ↔ ∃ e ∈ new, e.1 = x) ∧
    ∀ e ∈ new, e.2.content = s.content e.1

section

variable {env : Env} {s s' : State} {n : Node} {G : Finset Node} {depth : Nat}

/-- Where nothing is marked, everything is reached. -/
theorem reach_of_unmarked (hnone : ∀ x, s.saving x = false) (x : Node) :
    Marked.Reach s.saving s.pointers n x ↔ ReflTransGen (fun y z => z ∈ s.pointers y) n x := by
  unfold Marked.Reach
  have hstep : (fun y z => z ∈ s.pointers y ∧ s.saving z = false) =
      fun y z => z ∈ s.pointers y := by
    funext y z
    simp [hnone z]
  rw [hstep]

/-- All statements of a save are there. -/
theorem Done.saved (h : Done s s' (Covers s.content (Marked.Reach s.saving s.pointers n)))
    (hnone : ∀ x, s.saving x = false) : Saved s s' n := by
  obtain ⟨new, ⟨hcovers, hcontent⟩, hlog, hreplay⟩ := h.written
  exact ⟨h.saving, new, hlog, hreplay,
    fun x => (reach_of_unmarked hnone x).symm.trans (hcovers x), hcontent⟩

/-- **A record is saved with all that it points to**, and what this points to, in whatever way they
do and whichever calls fail: the recursion ends, not deeper than there are records; if there is no
error, there is a statement for every record that is reached, with what the record says, and for no
other one; if there is, the tables are as they were, or it is the last call that has failed and all
statements have been carried out; and no record is left marked. -/
theorem save_reachable (env : Env) (hn : n ∈ G) (hclosed : ∀ x ∈ G, ∀ y ∈ s.pointers x, y ∈ G)
    (hnone : ∀ x, s.saving x = false) (htx : s.tx = false) (hdepth : G.card ≤ depth) :
    Ends (save env depth n) s (fun _ s' => Saved s s' n) fun err s' => err ≠ .endless ∧
      s'.saving = s.saving ∧ (s'.db = s.db ∧ s'.log = s.log ∨ Saved s s' n) := by
  have hsaves := save_saves env hn hclosed (hnone n)
    ((Finset.card_filter_le _ _).trans hdepth)
  refine Ends.mono hsaves (fun _ _ hd => hd.saved hnone) fun err s' hf => ?_
  exact ⟨hf.ends, hf.saving, (hf.whole htx).imp (fun hk => ⟨hk.db, hk.log⟩) fun hd =>
    hd.saved hnone⟩

/-- A new spec with a new instance, which points back to it. -/
def circle : State where
  specs := fun _ => ⟨⟨1, 0, 0, "hw1", []⟩, false, false, [0]⟩
  instances := fun _ => ⟨⟨2, 0, 0, none, "", "", some 12345, true, false, []⟩, false, false, some 0⟩
  ticks := 0
  db := ⟨[], []⟩
  log := []
  tx := false
  calls := 0

/-- The call with the commit fails, and has been carried out. -/
theorem save_reachable_circle :
    Ends (save ⟨id, fun k => if k = 3 then some ("bad connection", true) else none⟩ 2 (.spec 0))
      circle (fun _ s' => Saved circle s' (.spec 0)) fun err s' => err ≠ .endless ∧
        s'.saving = circle.saving ∧
        (s'.db = circle.db ∧ s'.log = circle.log ∨ Saved circle s' (.spec 0)) := by
  refine save_reachable _ (G := {.spec 0, .inst 0}) (by decide) ?_ (fun x => ?_) rfl (by decide)
  · intro x hx y hy
    rcases Finset.mem_insert.1 hx with rfl | hx
    · have hy : y = .inst 0 := by simpa [State.pointers, circle] using hy
      simp [hy]
    · obtain rfl := Finset.mem_singleton.1 hx
      have hy : y = .spec 0 := by simpa [State.pointers, circle] using hy
      simp [hy]
  · cases x <;> rfl

end

/-! ## What the app does -/

/-- `FindOne` by an ID, of a spec, whose instances are not loaded. -/
def findSpec (env : Env) (p id : Nat) : M Unit := fun s =>
  match env.answers s.calls, s.db.specs.find? (fun r => r.id = id) with
  | some (msg, _), _ => .error (.db msg) s.called
  | none, none => .error .notFound s.called
  | none, some row => .ok () (s.called.setSpec p fun _ => ⟨row, true, false, []⟩)

/-- `append(spec.Instances, instance)`. -/
def appendInstance (p i : Nat) : M Unit :=
  modify fun s => s.setSpec p fun spec => { spec with instances := spec.instances ++ [i] }

/-- `SpecStore.Update`. -/
def specUpdate (env : Env) (depth p : Nat) : M Unit :=
  specStore env (updateSpec env p) (fun r => save env depth (.inst r)) p

/-- `InstanceStore.Update`. -/
def instanceUpdate (env : Env) (depth p : Nat) (cols : List Column) : M Unit :=
  instanceStore env (updateInstance env p cols) (fun q => save env depth (.spec q)) p

/-- The transaction of `createInstance`, with the spec loaded to `p`. -/
def storeInstance (env : Env) (depth id p i : Nat) : M Unit :=
  transaction env do
    findSpec env p id
    appendInstance p i
    specUpdate env depth p

/-- The tables with a new instance of a spec. -/
def Stored (id : Nat) (inst : InstanceRow) (db db' : DB) : Prop :=
  ∃ spec now now', db.specs.find? (fun r => r.id = id) = some spec ∧
    (∀ r ∈ db.instances, r.id ≠ inst.id) ∧
    db' = ⟨(db.putSpec (spec.prepared now)).specs,
      db.instances ++ [{ inst.prepared now' with specID := some spec.id }]⟩

/-- The tables with some columns of an instance updated, and all columns of its spec. -/
def Updated (spec : SpecRow) (inst : InstanceRow) (cols : List Column) (db db' : DB) : Prop :=
  ∃ now now', db' = (db.putSpec (spec.prepared now)).putInstance
    { inst.prepared now' with specID := some spec.id } cols

section

variable {env : Env} {s t : State} {n : Node} {depth id p q i : Nat} {stmt : Stmt} {m m' : M Unit}
  {A : Unit → State → Prop} {records : List Nat} {cols : List Column}

/-- A transaction, by its tables. -/
theorem transaction_ends {D : DB → Prop} (htx : s.tx = false)
    (h : Ends m { s.called with tx := true } (fun _ t => D t.db) fun _ _ => True) :
    Ends (transaction env m) s (fun _ t => D t.db) fun _ t => t.db = s.db ∨ D t.db := by
  unfold Ends transaction
  rw [htx]
  simp only [Bool.false_eq_true, if_false]
  cases env.answers s.calls with
  | some answer => exact .inl rfl
  | none =>
    unfold Ends at h
    simp only
    cases hm : m { s.called with tx := true } with
    | error err t => exact .inl rfl
    | ok a t =>
      rw [hm] at h
      simp only
      cases env.answers t.calls with
      | none => exact h
      | some answer =>
        obtain ⟨msg, applied⟩ := answer
        cases applied with
        | true => exact .inr h
        | false => exact .inl rfl

/-- One that is open is used. -/
theorem transaction_open (htx : s.tx = true) (h : Ends m s A fun _ _ => True) :
    Ends (transaction env m) s A fun _ _ => True := by
  have heq : transaction env m s = m s := if_pos htx
  unfold Ends at *
  rwa [heq]

/-- A statement, by its tables. -/
theorem exec_ends (h : ∀ db t, s.db.apply stmt = some db → t = { s.called with
    db := db, log := s.log ++ [(n, stmt)] } → A () t) :
    Ends (exec env n stmt) s A fun _ t => t.db = s.db ∨ A () t := by
  unfold Ends exec
  cases happly : s.db.apply stmt with
  | none => cases env.answers s.calls <;> exact .inl rfl
  | some db =>
    cases env.answers s.calls with
    | none => exact h db _ happly rfl
    | some answer =>
      obtain ⟨msg, applied⟩ := answer
      cases applied with
      | true => exact .inr (h db _ happly rfl)
      | false => exact .inl rfl

/-- One record is all. -/
theorem forAll_singleton {f : Nat → M Unit} {r : Nat} {Q : Err → State → Prop}
    (h : Ends (f r) s A Q) : Ends (forAll f [r]) s A Q :=
  Ends.bind h fun _ _ ha => Ends.pure ha

/-- A spec in memory, an instance, the tables, and whether a transaction is open. -/
structure View (p i : Nat) (spec : Spec) (inst : Instance) (db : DB) (tx : Bool) (t : State) :
    Prop where
  spec : t.specs p = spec
  inst : t.instances i = inst
  db : t.db = db
  tx : t.tx = tx

variable {spec : Spec} {inst : Instance} {db : DB} {tx : Bool} {Q : Err → State → Prop}

/-- A transaction begins. -/
theorem View.begin (h : View p i spec inst db tx t) :
    View p i spec inst db true { t.called with tx := true } :=
  ⟨h.spec, h.inst, h.db, rfl⟩

/-- The spec changes. -/
theorem View.setSpec (f : Spec → Spec) (h : View p i spec inst db tx t) :
    View p i (f spec) inst db tx (t.setSpec p f) :=
  ⟨by simp [State.setSpec, h.spec], h.inst, h.db, h.tx⟩

/-- The instance changes. -/
theorem View.setInstance (f : Instance → Instance) (h : View p i spec inst db tx t) :
    View p i spec (f inst) db tx (t.setInstance i f) :=
  ⟨h.spec, by simp [State.setInstance, h.inst], h.db, h.tx⟩

@[inherit_doc View.setSpec]
theorem modifySpec_ends (f : Spec → Spec) (h : View p i spec inst db tx t) :
    Ends (modify fun t => t.setSpec p f : M Unit) t (fun _ => View p i (f spec) inst db tx) Q :=
  Ends.modify (h.setSpec f)

@[inherit_doc View.setInstance]
theorem modifyInstance_ends (f : Instance → Instance) (h : View p i spec inst db tx t) :
    Ends (modify fun t => t.setInstance i f : M Unit) t (fun _ => View p i spec (f inst) db tx) Q :=
  Ends.modify (h.setInstance f)

theorem prepareSpec_view (h : View p i spec inst db tx t) : Ends (prepareSpec env p) t
    (fun _ t' => ∃ now, View p i { spec with row := spec.row.prepared now } inst db tx t') Q := by
  have hview := h.setSpec fun spec => { spec with row := spec.row.prepared (env.now t.ticks) }
  exact Ends.modify ⟨_, hview.spec, hview.inst, hview.db, hview.tx⟩

theorem prepareInstance_view (h : View p i spec inst db tx t) : Ends (prepareInstance env i) t
    (fun _ t' => ∃ now, View p i spec { inst with row := inst.row.prepared now } db tx t') Q := by
  have hview := h.setInstance fun inst =>
    { inst with row := inst.row.prepared (env.now t.ticks) }
  exact Ends.modify ⟨_, hview.spec, hview.inst, hview.db, hview.tx⟩

/-- A statement on what is in view. -/
theorem exec_view (h : View p i spec inst db tx t) : Ends (exec env n stmt) t
    (fun _ t' => ∃ db', db.apply stmt = some db' ∧ View p i spec inst db' tx t')
    fun _ t' => t'.db = db ∨ ∃ db', db.apply stmt = some db' ∧ View p i spec inst db' tx t' := by
  rw [← h.db]
  refine exec_ends fun db' t' happly ht' => ?_
  subst ht'
  exact ⟨db', happly, h.spec, h.inst, rfl, h.tx⟩

/-- A spec that is persisted is updated. -/
theorem updateSpec_view (h : View p i spec inst db tx t) (hpersisted : spec.persisted = true) :
    Ends (updateSpec env p) t (fun _ t' => View p i spec inst (db.putSpec spec.row) tx t')
      fun _ _ => True := by
  refine Ends.get ?_
  rw [h.spec, hpersisted]
  refine (exec_view h).mono ?_ fun _ _ _ => trivial
  rintro _ t' ⟨db', happly, ht'⟩
  obtain rfl := Option.some.inj happly
  exact ht'

/-- An instance without its spec. -/
theorem inverseRecords_none (h : View p i spec inst db tx t) (hspec : inst.spec = none) :
    Ends (inverseRecords i) t (fun records t' => records = [] ∧ t' = t) Q := by
  refine Ends.get ?_
  rw [h.inst]
  simp only [hspec]
  exact Ends.pure ⟨rfl, rfl⟩

/-- **A new instance**, whose spec is being saved, is inserted. -/
theorem save_new (h : View p i spec inst db tx t) (hpersisted : inst.persisted = false)
    (hspec : inst.spec = none) : Ends (save env (depth + 1) (.inst i)) t
      (fun _ t' => (∀ r ∈ db.instances, r.id ≠ inst.row.id) ∧ ∃ now, t'.db =
        { db with instances := db.instances ++ [inst.row.prepared now] }) fun _ _ => True := by
  refine Ends.get ?_
  rw [h.inst, hpersisted]
  refine Ends.bind (modifyInstance_ends _ h) fun _ t₁ h₁ => ?_
  refine Ends.closing (A := fun _ t' => (∀ r ∈ db.instances, r.id ≠ inst.row.id) ∧ ∃ now, t'.db =
    { db with instances := db.instances ++ [inst.row.prepared now] }) (B := fun _ _ => True) ?_
    (fun _ t' ht' => Ends.modify ht') fun _ _ _ => Ends.modify trivial
  refine Ends.bind (prepareInstance_view h₁) fun _ t₂ ⟨now, h₂⟩ => ?_
  refine Ends.bind (inverseRecords_none h₂ hspec) ?_
  rintro _ _ ⟨rfl, rfl⟩
  refine Ends.get ?_
  rw [h₂.inst]
  simp only [hpersisted, Bool.false_eq_true, if_false]
  refine Ends.bind ((exec_view h₂).mono (fun _ _ => id) fun _ _ _ => trivial)
    fun _ t₃ ⟨db', happly, h₃⟩ => Ends.modify ?_
  obtain ⟨hfree, happly⟩ := Option.ite_none_left_eq_some.1 happly
  refine ⟨fun r hr hid => hfree ?_, now, h₃.db.trans (Option.some.inj happly).symm⟩
  rw [Bool.or_eq_true]
  exact .inl (List.any_eq_true.2 ⟨r, hr, decide_eq_true hid⟩)

/-- **A loaded spec** without instances is updated. -/
theorem save_loaded (h : View p i spec inst db tx t) (hpersisted : spec.persisted = true)
    (hinstances : spec.instances = []) : Ends (save env (depth + 1) (.spec p)) t
      (fun _ t' => ∃ now spec', View p i spec' inst (db.putSpec (spec.row.prepared now)) tx t')
      fun _ _ => True := by
  refine Ends.get ?_
  rw [h.spec, hpersisted]
  refine Ends.bind (modifySpec_ends _ h) fun _ t₁ h₁ => ?_
  refine Ends.closing (A := fun _ t' => ∃ now spec',
      View p i spec' inst (db.putSpec (spec.row.prepared now)) tx t') (B := fun _ _ => True) ?_
    (fun _ t' ⟨now, spec', ht'⟩ => Ends.modify ⟨now, _, ht'.setSpec _⟩)
    fun _ _ _ => Ends.modify trivial
  refine Ends.bind (prepareSpec_view h₁) fun _ t₂ ⟨now, h₂⟩ => ?_
  refine Ends.bind (P := fun records t' => records = [] ∧ t' = t₂) (Q := fun _ _ => True) ?_ ?_
  · refine Ends.get ?_
    rw [h₂.spec]
    simp only [hinstances, List.filter_nil]
    exact Ends.pure ⟨rfl, rfl⟩
  rintro _ _ ⟨rfl, rfl⟩
  exact (updateSpec_view h₂ hpersisted).mono (fun _ t₃ h₃ => ⟨now, _, h₃⟩) fun _ _ => id

/-- The instances of a spec that has only this one. -/
theorem relationshipRecords_view (h : View p i spec inst db tx t)
    (hinstances : spec.instances = [i]) (hsaving : inst.saving = false) :
    Ends (relationshipRecords p) t (fun records t' => records = [i] ∧ View p i spec
      { inst with row := { inst.row with specID := some spec.row.id } } db tx t') Q := by
  refine Ends.get ?_
  have hrecords : (t.specs p).instances.filter (fun r => !(t.instances r).saving) = [i] := by
    rw [h.spec, hinstances, List.filter_singleton, h.inst, hsaving]
    rfl
  rw [hrecords, h.spec]
  refine Ends.bind (P := fun _ t' => View p i spec
    { inst with row := { inst.row with specID := some spec.row.id } } db tx t')
    ?_ fun _ t' ht' => Ends.pure ⟨rfl, ht'⟩
  exact Ends.bind (modifyInstance_ends _ h) fun _ t' ht' => Ends.pure ht'

/-- The spec of an instance, which is saved with it. -/
theorem inverseRecords_view (h : View p i spec inst db tx t) (hspec : inst.spec = some p)
    (hsaving : spec.saving = false) :
    Ends (inverseRecords i) t (fun records t' => records = [p] ∧ View p i spec
      { inst with row := { inst.row with specID := some spec.row.id } } db tx t') Q := by
  have heq : (t.instances i).spec = some p := by rw [h.inst, hspec]
  refine Ends.get ?_
  rw [heq]
  simp only [h.spec, hsaving, Bool.false_eq_true, if_false]
  exact Ends.bind (modifyInstance_ends _ h) fun _ t' ht' => Ends.pure ⟨rfl, ht'⟩

/-- **`createInstance` stores its instance**, with the spec that it has been created for, and
writes the row of this spec once more; if any call fails, the tables are as they were, unless it is
the last one and has been carried out. -/
theorem storeInstance_stores (env : Env) {depth id p i : Nat} (htx : s.tx = false)
    (hnew : (s.instances i).persisted = false) (hsaving : (s.instances i).saving = false)
    (hspec : (s.instances i).spec = none) :
    Ends (storeInstance env (depth + 1) id p i) s
      (fun _ t => Stored id (s.instances i).row s.db t.db)
      fun _ t => t.db = s.db ∨ Stored id (s.instances i).row s.db t.db := by
  refine transaction_ends htx ?_
  have hfind : Ends (findSpec env p id) { s.called with tx := true } (fun _ t => ∃ row,
      s.db.specs.find? (fun r => r.id = id) = some row ∧
      View p i ⟨row, true, false, []⟩ (s.instances i) s.db true t) fun _ _ => True := by
    unfold Ends findSpec
    cases env.answers ({ s.called with tx := true } : State).calls with
    | some answer => trivial
    | none =>
      cases hrow : ({ s.called with tx := true } : State).db.specs.find? (fun r => r.id = id) with
      | none => trivial
      | some row => exact ⟨row, hrow, by simp [State.setSpec], rfl, rfl, rfl⟩
  refine Ends.bind hfind ?_
  intro _ t₁ hrow
  obtain ⟨row, hrow, h₁⟩ := hrow
  refine Ends.bind (modifySpec_ends _ h₁) fun _ t₂ h₂ => ?_
  refine Ends.bind (modifySpec_ends _ h₂) fun _ t₃ h₃ => ?_
  refine Ends.closing (A := fun _ t => Stored id (s.instances i).row s.db t.db)
    (B := fun _ _ => True) ?_ (fun _ t ht => Ends.modify ht) fun _ _ _ => Ends.modify trivial
  refine Ends.bind (prepareSpec_view h₃) ?_
  intro _ t₄ hnow
  obtain ⟨now, h₄⟩ := hnow
  refine Ends.bind (relationshipRecords_view h₄ rfl hsaving) ?_
  intro records t₅ hrecords
  obtain ⟨rfl, h₅⟩ := hrecords
  refine transaction_open h₅.tx ?_
  refine Ends.bind (updateSpec_view h₅ rfl) fun _ t₆ h₆ => ?_
  refine (forAll_singleton (save_new h₆ hnew hspec)).mono ?_ fun _ _ _ => trivial
  intro _ t₇ hsaved
  obtain ⟨hfree, now', h₇⟩ := hsaved
  exact ⟨row, now, now', hrow, hfree, h₇⟩

/-- An instance that is persisted is updated. -/
theorem updateInstance_view (h : View p i spec inst db tx t) (hpersisted : inst.persisted = true)
    (hcols : cols ≠ []) : Ends (updateInstance env i cols) t
      (fun _ t' => t'.db = db.putInstance inst.row cols)
      fun _ t' => t'.db = db ∨ t'.db = db.putInstance inst.row cols := by
  refine Ends.get ?_
  rw [h.inst, hpersisted]
  simp only [hcols, if_true, if_false]
  have hput : ∀ t', (∃ db', db.apply (.updateInstance inst.row cols) = some db' ∧
      View p i spec inst db' tx t') → t'.db = db.putInstance inst.row cols := by
    rintro t' ⟨db', happly, ht'⟩
    obtain ⟨-, happly⟩ := Option.ite_none_left_eq_some.1 happly
    exact ht'.db.trans (Option.some.inj happly).symm
  exact (exec_view h).mono (fun _ t' => hput t') fun _ t' => Or.imp id (hput t')

/-- **An instance without its spec** is updated on its own. -/
theorem instanceUpdate_alone (env : Env) (depth : Nat) (hcols : cols ≠ [])
    (hpersisted : (s.instances i).persisted = true) (hspec : (s.instances i).spec = none) :
    Ends (instanceUpdate env depth i cols) s
      (fun _ t => ∃ now, t.db = s.db.putInstance ((s.instances i).row.prepared now) cols)
      fun _ t => t.db = s.db ∨
        ∃ now, t.db = s.db.putInstance ((s.instances i).row.prepared now) cols := by
  have h : View i i (s.specs i) (s.instances i) s.db s.tx s := ⟨rfl, rfl, rfl, rfl⟩
  refine Ends.bind (modifyInstance_ends _ h) fun _ t₁ h₁ => ?_
  refine Ends.closing
    (A := fun _ t => ∃ now, t.db = s.db.putInstance ((s.instances i).row.prepared now) cols)
    (B := fun _ t => t.db = s.db ∨
      ∃ now, t.db = s.db.putInstance ((s.instances i).row.prepared now) cols) ?_
    (fun _ t ht => Ends.modify ht) fun _ _ ht => Ends.modify ht
  refine Ends.bind (prepareInstance_view h₁) fun _ t₂ ⟨now, h₂⟩ => ?_
  refine Ends.bind (inverseRecords_none h₂ hspec) ?_
  rintro _ _ ⟨rfl, rfl⟩
  exact (updateInstance_view h₂ hpersisted hcols).mono (fun _ _ ht => ⟨now, ht⟩)
    fun _ _ => Or.imp id fun ht => ⟨now, ht⟩

/-- **`handleInstance` updates its instance**, which it has loaded with its spec: the columns that
it names, and all columns of the spec; if any call fails, the tables are as they were, unless it is
the last one and has been carried out. -/
theorem instanceUpdate_updates (env : Env) {depth p i : Nat} {cols : List Column}
    (hcols : cols ≠ []) (htx : s.tx = false) (hpersisted : (s.instances i).persisted = true)
    (hspec : (s.instances i).spec = some p) (hloaded : (s.specs p).persisted = true)
    (hinstances : (s.specs p).instances = []) (hsaving : (s.specs p).saving = false) :
    Ends (instanceUpdate env (depth + 1) i cols) s
      (fun _ t => Updated (s.specs p).row (s.instances i).row cols s.db t.db)
      fun _ t => t.db = s.db ∨ Updated (s.specs p).row (s.instances i).row cols s.db t.db := by
  have h : View p i (s.specs p) (s.instances i) s.db false s := ⟨rfl, rfl, rfl, htx⟩
  refine Ends.bind (modifyInstance_ends _ h) fun _ t₁ h₁ => ?_
  refine Ends.closing (A := fun _ t => Updated (s.specs p).row (s.instances i).row cols s.db t.db)
    (B := fun _ t => t.db = s.db ∨ Updated (s.specs p).row (s.instances i).row cols s.db t.db) ?_
    (fun _ t ht => Ends.modify ht) fun _ _ ht => Ends.modify ht
  refine Ends.bind (prepareInstance_view h₁) fun _ t₂ ⟨now, h₂⟩ => ?_
  refine Ends.bind (inverseRecords_view h₂ hspec hsaving) fun records t₃ ⟨hrecords, h₃⟩ => ?_
  subst hrecords
  refine (transaction_ends (D := Updated (s.specs p).row (s.instances i).row cols s.db)
    h₃.tx ?_).mono (fun _ _ ht => ht) fun _ t ht => by rwa [h₃.db] at ht
  refine Ends.bind (forAll_singleton (save_loaded h₃.begin hloaded hinstances))
    fun _ t₅ ⟨now', spec', h₅⟩ => ?_
  refine (updateInstance_view h₅ hpersisted hcols).mono (fun _ t₆ h₆ => ?_) fun _ _ _ => trivial
  exact ⟨now', now, h₆⟩

end

end UAssign.Models

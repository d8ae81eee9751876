import UAssign.Lib.Compensation
import UAssign.Lib.Marked

/-!
# Saving records

`InstanceStore` and `SpecStore` of `models/kallax.go`. A record is saved with the records that it
points to: an instance with its spec, which comes first, and a spec with its instances, which come
behind it; a record that is being saved is not saved again. `save_reachable` is what comes of this
over records that point to each other in any way, with a database that may refuse any call: it ends,
in one transaction, with a row for every record or for none, and no record is left marked.
-/

namespace UAssign.Models

/-! ## The database -/

/-- A row of `specs`. -/
structure SpecRow where
  id : Nat
  createdAt : Nat
  updatedAt : Nat
  assignmentName : String
  data : List UInt8
  deriving DecidableEq

/-- A row of `instances`. -/
structure InstanceRow where
  id : Nat
  createdAt : Nat
  updatedAt : Nat
  specID : Option Nat
  imageID : String
  containerID : String
  expiresAt : Option Nat
  active : Bool
  cleaned : Bool
  command : List UInt8
  deriving DecidableEq

/-- The columns of `instances`. -/
inductive Column where
  | id
  | createdAt
  | updatedAt
  | specID
  | imageID
  | containerID
  | expiresAt
  | active
  | cleaned
  | command
  deriving DecidableEq

/-- `Schema.Instance.Columns`. -/
def Column.all : List Column :=
  [.id, .createdAt, .updatedAt, .specID, .imageID, .containerID, .expiresAt, .active, .cleaned,
    .command]

/-- A row with one column taken from a record. A `spec_id` that the record does not have is left
out. -/
def InstanceRow.setColumn (row record : InstanceRow) : Column → InstanceRow
  | .id => { row with id := record.id }
  | .createdAt => { row with createdAt := record.createdAt }
  | .updatedAt => { row with updatedAt := record.updatedAt }
  | .specID => { row with specID := record.specID.or row.specID }
  | .imageID => { row with imageID := record.imageID }
  | .containerID => { row with containerID := record.containerID }
  | .expiresAt => { row with expiresAt := record.expiresAt }
  | .active => { row with active := record.active }
  | .cleaned => { row with cleaned := record.cleaned }
  | .command => { row with command := record.command }

/-- A row with some columns taken from a record. -/
def InstanceRow.setColumns (row record : InstanceRow) (cols : List Column) : InstanceRow :=
  cols.foldl (fun row col => row.setColumn record col) row

/-- The two tables. -/
structure DB where
  specs : List SpecRow
  instances : List InstanceRow
  deriving DecidableEq

/-- The statements. -/
inductive Stmt where
  | insertSpec (record : SpecRow)
  | updateSpec (record : SpecRow)
  | insertInstance (record : InstanceRow)
  | updateInstance (record : InstanceRow) (cols : List Column)
  deriving DecidableEq

namespace DB

/-- A spec that an instance may refer to. -/
def hasSpec (db : DB) (specID : Option Nat) : Bool :=
  specID.all fun id => db.specs.any fun r => r.id = id

/-- A row of a spec in place of the one with its ID. -/
def putSpec (db : DB) (r : SpecRow) : DB :=
  { db with specs := db.specs.map fun r' => if r'.id = r.id then r else r' }

/-- Some columns of an instance in the row with its ID. -/
def putInstance (db : DB) (r : InstanceRow) (cols : List Column) : DB :=
  { db with
    instances := db.instances.map fun r' => if r'.id = r.id then r'.setColumns r cols else r' }

/-- What a statement makes of the tables, unless a key is in its way. -/
def apply (db : DB) : Stmt → Option DB
  | .insertSpec r =>
    if db.specs.any fun r' => r'.id = r.id then none
    else some { db with specs := db.specs ++ [r] }
  | .updateSpec r => some (db.putSpec r)
  | .insertInstance r =>
    if (db.instances.any fun r' => r'.id = r.id) || !db.hasSpec r.specID then none
    else some { db with instances := db.instances ++ [r] }
  | .updateInstance r cols =>
    if decide (.specID ∈ cols) && !db.hasSpec r.specID then none else some (db.putInstance r cols)

end DB

/-- `Time.Truncate(time.Microsecond)`. -/
def truncate (t : Nat) : Nat := t - t % 1000

/-- A row, less what is set or truncated when it is saved. -/
def SpecRow.content (row : SpecRow) : SpecRow := { row with createdAt := 0, updatedAt := 0 }

@[inherit_doc SpecRow.content]
def InstanceRow.content (row : InstanceRow) : InstanceRow :=
  { row with
    createdAt := 0, updatedAt := 0, specID := none, expiresAt := row.expiresAt.map truncate }

/-! ## Records -/

/-- A `Spec` in memory. -/
structure Spec where
  row : SpecRow
  persisted : Bool
  saving : Bool
  instances : List Nat

/-- An `Instance` in memory. The virtual column `spec_id` is that of the row. -/
structure Instance where
  row : InstanceRow
  persisted : Bool
  saving : Bool
  spec : Option Nat

/-- A record, by its address. -/
inductive Node where
  | spec (p : Nat)
  | inst (p : Nat)
  deriving DecidableEq

/-- The memory and the database: the records, how often `BeforeSave` has asked for the time, the
tables, the statements that have been carried out, with their records, whether a transaction is
open, and the number of calls to the database. -/
structure State where
  specs : Nat → Spec
  instances : Nat → Instance
  ticks : Nat
  db : DB
  log : List (Node × Stmt)
  tx : Bool
  calls : Nat

/-- The errors: those of the database and of its keys, and of `kallax.Store`. The last one stands
for a recursion that does not end. -/
inductive Err where
  | db (msg : String)
  | key
  | notFound
  | newDocument
  | nonNewDocument
  | endless
  deriving DecidableEq

/-- What is outside: the time, and the errors that the calls return, each with whether the call has
been carried out nevertheless. -/
structure Env where
  now : Nat → Nat
  answers : Nat → Option (String × Bool)

/-- What a store does. -/
abbrev M : Type → Type := EStateM Err State

namespace State

variable (s : State)

/-- A spec has changed. -/
def setSpec (p : Nat) (f : Spec → Spec) : State :=
  { s with specs := fun q => if q = p then f (s.specs q) else s.specs q }

/-- An instance has changed. -/
def setInstance (p : Nat) (f : Instance → Instance) : State :=
  { s with instances := fun q => if q = p then f (s.instances q) else s.instances q }

/-- One more call. -/
def called : State := { s with calls := s.calls + 1 }

/-- A record is being saved. -/
def saving : Node → Bool
  | .spec p => (s.specs p).saving
  | .inst p => (s.instances p).saving

/-- What a record points to. -/
def pointers : Node → List Node
  | .spec p => (s.specs p).instances.map .inst
  | .inst p => (s.instances p).spec.toList.map .spec

/-- What a record says, whenever it is saved. -/
def content : Node → SpecRow ⊕ InstanceRow
  | .spec p => .inl (s.specs p).row.content
  | .inst p => .inr (s.instances p).row.content

end State

/-!
## `kallax.Store`

The package is not here, and these definitions are what it documents: a transaction is atomic, and
one that is open is used by the stores inside it; `Insert` refuses a record that is persisted,
`Update` one that is not; a statement that fails outside a transaction, or a commit, has done
nothing or all of it. An update that finds no row is `ErrNoRowUpdate` there; here it may succeed,
too, and leaves the table as it is.
-/

/-- A statement. -/
def exec (env : Env) (n : Node) (stmt : Stmt) : M Unit := fun s =>
  match s.db.apply stmt, env.answers s.calls with
  | none, none => .error .key s.called
  | none, some (msg, _) => .error (.db msg) s.called
  | some db, none => .ok () { s.called with db := db, log := s.log ++ [(n, stmt)] }
  | some db, some (msg, true) =>
    .error (.db msg) { s.called with db := db, log := s.log ++ [(n, stmt)] }
  | some _, some (msg, false) => .error (.db msg) s.called

/-- The state behind a transaction that has been rolled back. -/
def State.rolledBack (before s : State) : State :=
  { s.called with tx := false, db := before.db, log := before.log }

/-- `Store.Transaction`. One that is open is used. -/
def transaction (env : Env) (callback : M Unit) : M Unit := fun s =>
  if s.tx then callback s
  else
    match env.answers s.calls with
    | some (msg, _) => .error (.db msg) s.called
    | none =>
      match callback { s.called with tx := true } with
      | .error err t => .error err (s.rolledBack t)
      | .ok _ t =>
        match env.answers t.calls with
        | none => .ok () { t.called with tx := false }
        | some (msg, true) => .error (.db msg) { t.called with tx := false }
        | some (msg, false) => .error (.db msg) (s.rolledBack t)

/-- `Store.Insert` of a spec. -/
def insertSpec (env : Env) (p : Nat) : M Unit := do
  let s ← get
  if (s.specs p).persisted then throw .nonNewDocument
  else
    exec env (.spec p) (.insertSpec (s.specs p).row)
    modify fun s => s.setSpec p fun spec => { spec with persisted := true }

/-- `Store.Update` of a spec, with all columns. -/
def updateSpec (env : Env) (p : Nat) : M Unit := do
  let s ← get
  if (s.specs p).persisted then exec env (.spec p) (.updateSpec (s.specs p).row)
  else throw .newDocument

/-- `Store.Insert` of an instance. -/
def insertInstance (env : Env) (p : Nat) : M Unit := do
  let s ← get
  if (s.instances p).persisted then throw .nonNewDocument
  else
    exec env (.inst p) (.insertInstance (s.instances p).row)
    modify fun s => s.setInstance p fun inst => { inst with persisted := true }

/-- `Store.Update` of an instance. Without columns, it is all of them. -/
def updateInstance (env : Env) (p : Nat) (cols : List Column) : M Unit := do
  let s ← get
  if (s.instances p).persisted then
    exec env (.inst p)
      (.updateInstance (s.instances p).row (if cols = [] then Column.all else cols))
  else throw .newDocument

/-! ## `kallax.go` -/

/-- The row of a spec before it is saved: its times are truncated, and `BeforeSave` sets the one,
and the other if there is none. -/
def SpecRow.prepared (now : Nat) (row : SpecRow) : SpecRow :=
  { row with
    createdAt := if truncate row.createdAt = 0 then now else truncate row.createdAt
    updatedAt := now }

@[inherit_doc SpecRow.prepared]
def InstanceRow.prepared (now : Nat) (row : InstanceRow) : InstanceRow :=
  { row with
    createdAt := if truncate row.createdAt = 0 then now else truncate row.createdAt
    updatedAt := now
    expiresAt := row.expiresAt.map truncate }

/-- What is done with a record before it is saved. -/
def prepareSpec (env : Env) (p : Nat) : M Unit := modify fun s =>
  { s.setSpec p fun spec => { spec with row := spec.row.prepared (env.now s.ticks) } with
    ticks := s.ticks + 1 }

@[inherit_doc prepareSpec]
def prepareInstance (env : Env) (p : Nat) : M Unit := modify fun s =>
  { s.setInstance p fun inst => { inst with row := inst.row.prepared (env.now s.ticks) } with
    ticks := s.ticks + 1 }

/-- `SetSaving` on a spec. -/
def setSavingSpec (p : Nat) (b : Bool) : M Unit :=
  modify fun s => s.setSpec p fun spec => { spec with saving := b }

/-- `SetSaving` on an instance. -/
def setSavingInstance (p : Nat) (b : Bool) : M Unit :=
  modify fun s => s.setInstance p fun inst => { inst with saving := b }

/-- `AddVirtualColumn("spec_id", …)`. -/
def addSpecID (id : Nat) (p : Nat) : M Unit :=
  modify fun s => s.setInstance p fun inst =>
    { inst with row := { inst.row with specID := some id } }

/-- One after the other, up to the first error. -/
def forAll (f : Nat → M Unit) : List Nat → M Unit
  | [] => pure ()
  | r :: rest => do
    f r
    forAll f rest

/-- `SpecStore.relationshipRecords`: the instances that are to be saved with the spec. -/
def relationshipRecords (p : Nat) : M (List Nat) := do
  let s ← get
  let records := (s.specs p).instances.filter fun r => !(s.instances r).saving
  forAll (addSpecID (s.specs p).row.id) records
  return records

/-- `InstanceStore.inverseRecords`: the spec that is to be saved with the instance. -/
def inverseRecords (p : Nat) : M (List Nat) := do
  let s ← get
  match (s.instances p).spec with
  | none => return []
  | some q =>
    if (s.specs q).saving then return []
    else
      addSpecID (s.specs q).row.id p
      return [q]

/-- A transaction if there are records to be saved with this one. -/
def together (env : Env) (records : List Nat) (all one : M Unit) : M Unit :=
  if 0 < records.length then transaction env all else one

/-- `SpecStore.Insert` and `SpecStore.Update`, by what they call, with the way in which the
instances are saved. -/
def specStore (env : Env) (store : M Unit) (saveInstance : Nat → M Unit) (p : Nat) : M Unit := do
  setSavingSpec p true
  closing
    (do
      prepareSpec env p
      let records ← relationshipRecords p
      together env records (do store; forAll saveInstance records) store)
    (setSavingSpec p false)

/-- `InstanceStore.Insert` and `InstanceStore.Update`, by what they call, with the way in which the
spec is saved. -/
def instanceStore (env : Env) (store : M Unit) (saveSpec : Nat → M Unit) (p : Nat) : M Unit := do
  setSavingInstance p true
  closing
    (do
      prepareInstance env p
      let records ← inverseRecords p
      together env records (do forAll saveSpec records; store) store)
    (setSavingInstance p false)

/-- `SpecStore.Save` and `InstanceStore.Save`, to a depth. -/
def save (env : Env) : Nat → Node → M Unit
  | 0, _ => throw .endless
  | depth + 1, .spec p => do
    let s ← get
    let store := if (s.specs p).persisted then updateSpec env p else insertSpec env p
    specStore env store (fun r => save env depth (.inst r)) p
  | depth + 1, .inst p => do
    let s ← get
    let store := if (s.instances p).persisted then updateInstance env p [] else insertInstance env p
    instanceStore env store (fun q => save env depth (.spec q)) p

/-! ## What a program saves -/

/-- The tables behind some statements. -/
def replay (db : DB) (stmts : List (Node × Stmt)) : Option DB :=
  stmts.foldlM (fun db e => db.apply e.2) db

/-- The records are marked as they were, and point to and say what they did. -/
structure Same (s s' : State) : Prop where
  saving : s'.saving = s.saving
  pointers : s'.pointers = s.pointers
  content : s'.content = s.content

/-- The tables are as they were, too. -/
structure Kept (s s' : State) : Prop extends Same s s' where
  db : s'.db = s.db
  log : s'.log = s.log
  tx : s'.tx = s.tx

/-- What some statements, with their records, are like. -/
abbrev Writes : Type := List (Node × Stmt) → Prop

/-- Some statements like this have been carried out. -/
structure Done (s s' : State) (P : Writes) : Prop extends Same s s' where
  tx : s'.tx = s.tx
  written : ∃ new, P new ∧ s'.log = s.log ++ new ∧ replay s.db new = some s'.db

/-- An error; one that comes out of a transaction leaves all statements or none. -/
structure Failed (s s' : State) (P : Writes) (err : Err) : Prop extends Same s s' where
  ends : err ≠ .endless
  tx : s'.tx = s.tx
  whole : s.tx = false → Kept s s' ∨ Done s s' P

/-- The program carries out statements like this. -/
def Saves (m : M Unit) (s : State) (P : Writes) : Prop :=
  Ends m s (fun _ s' => Done s s' P) fun err s' => Failed s s' P err

/-- The one and the other, one after the other. -/
def Writes.seq (P P' : Writes) : Writes := fun new => ∃ l l', new = l ++ l' ∧ P l ∧ P' l'

/-- What the row of a statement says. -/
def Stmt.content : Stmt → SpecRow ⊕ InstanceRow
  | .insertSpec r | .updateSpec r => .inl r.content
  | .insertInstance r | .updateInstance r _ => .inr r.content

/-- There is a statement for each of these records, and for no other one, and its row says what the
record does. -/
def Covers (content : Node → SpecRow ⊕ InstanceRow) (R : Node → Prop) : Writes := fun new =>
  (∀ n, R n ↔ ∃ e ∈ new, e.1 = n) ∧ ∀ e ∈ new, e.2.content = content e.1

section

variable {env : Env} {s s' t : State} {n : Node} {P P' : Writes} {R R' : Node → Prop}
  {m m' : M Unit} {err : Err} {stmt : Stmt} {p : Nat} {α : Type}
  {content : Node → SpecRow ⊕ InstanceRow}

theorem Same.refl : Same s s := ⟨rfl, rfl, rfl⟩

theorem Same.trans (h : Same s s') (h' : Same s' t) : Same s t :=
  ⟨h'.saving.trans h.saving, h'.pointers.trans h.pointers, h'.content.trans h.content⟩

theorem Kept.refl : Kept s s := ⟨.refl, rfl, rfl, rfl⟩

theorem Kept.trans (h : Kept s s') (h' : Kept s' t) : Kept s t :=
  ⟨h.toSame.trans h'.toSame, h'.db.trans h.db, h'.log.trans h.log, h'.tx.trans h.tx⟩

theorem Done.of_kept (h : Kept s s') (h' : Done s' t P) : Done s t P := by
  refine ⟨h.toSame.trans h'.toSame, h'.tx.trans h.tx, ?_⟩
  rw [← h.log, ← h.db]
  exact h'.written

theorem Done.kept (h : Done s s' P) (h' : Kept s' t) : Done s t P := by
  refine ⟨h.toSame.trans h'.toSame, h'.tx.trans h.tx, ?_⟩
  rw [h'.log, h'.db]
  exact h.written

/-- Nothing has been done. -/
theorem Kept.done (h : Kept s s') : Done s s' fun new => new = [] :=
  ⟨h.toSame, h.tx, [], rfl, by rw [h.log, List.append_nil], congrArg some h.db.symm⟩

/-- One after the other. -/
theorem Done.trans (h : Done s s' P) (h' : Done s' t P') : Done s t (P.seq P') := by
  obtain ⟨new, hP, hlog, hreplay⟩ := h.written
  obtain ⟨new', hP', hlog', hreplay'⟩ := h'.written
  refine ⟨h.toSame.trans h'.toSame, h'.tx.trans h.tx, new ++ new', ⟨new, new', rfl, hP, hP'⟩,
    ?_, ?_⟩
  · rw [hlog', hlog, List.append_assoc]
  · unfold replay at *
    rw [List.foldlM_append, hreplay]
    exact hreplay'

/-- Statements that are like this are like that. -/
theorem Done.mono (h : Done s s' P) (hP : ∀ new, P new → P' new) : Done s s' P' :=
  ⟨h.toSame, h.tx, h.written.imp fun new hnew => ⟨hP new hnew.1, hnew.2⟩⟩

/-- The records of both. -/
theorem Covers.seq {new : List (Node × Stmt)}
    (h : Writes.seq (Covers content R) (Covers content R') new) :
    Covers content (fun n => R n ∨ R' n) new := by
  obtain ⟨l, l', rfl, ⟨hl, hcontent⟩, hl', hcontent'⟩ := h
  refine ⟨fun n => (or_congr (hl n) (hl' n)).trans ?_, fun e he => ?_⟩
  · simp only [List.mem_append, or_and_right, exists_or]
  · exact (List.mem_append.1 he).elim (hcontent e) (hcontent' e)

/-- One record. -/
theorem Covers.one (h : stmt.content = content n) : Covers content (fun x => x = n) [(n, stmt)] :=
  ⟨fun x => by simp [eq_comm], by simpa using h⟩

theorem Failed.of_kept (h : Kept s s') (h' : Failed s' t P err) : Failed s t P err :=
  ⟨h.toSame.trans h'.toSame, h'.ends, h'.tx.trans h.tx, fun htx =>
    (h'.whole (h.tx.trans htx)).imp h.trans (Done.of_kept h)⟩

@[inherit_doc Done.mono]
theorem Saves.weaken (h : Saves m s P) (hP : ∀ new, P new → P' new) : Saves m s P' :=
  Ends.mono h (fun _ _ hd => hd.mono hP) fun _ _ hf =>
    ⟨hf.toSame, hf.ends, hf.tx, fun htx => (hf.whole htx).imp id fun hd => hd.mono hP⟩

/-- The same records, said otherwise. -/
theorem Saves.congr (h : Saves m s (Covers content R)) (hR : ∀ n, R n ↔ R' n) :
    Saves m s (Covers content R') :=
  h.weaken fun _ hnew => ⟨fun n => (hR n).symm.trans (hnew.1 n), hnew.2⟩

/-- Something else first. -/
theorem Saves.bind_kept {q : M α} {f : α → M Unit} {R : α → Prop}
    (h : Ends q s (fun a t => R a ∧ Kept s t) fun _ _ => False)
    (h' : ∀ a t, R a → Kept s t → Saves (f a) t P) : Saves (q >>= f) s P :=
  Ends.bind (h.mono (fun _ _ => id) fun _ _ => False.elim) fun a t ⟨hR, hk⟩ =>
    Ends.mono (h' a t hR hk) (fun _ _ => Done.of_kept hk) fun _ _ => Failed.of_kept hk

/-- **Inside a transaction**, one program and another one. -/
theorem Saves.bind (h : Saves m s P) (htx : s.tx = true)
    (h' : ∀ t, Same s t → t.tx = true → Saves m' t P') :
    Saves (m >>= fun _ => m') s (P.seq P') := by
  refine Ends.bind (Ends.mono h (fun _ _ => id) fun err t hf => ?_) fun _ t hd => ?_
  · exact ⟨hf.toSame, hf.ends, hf.tx, fun hout => by rw [htx] at hout; cases hout⟩
  · refine Ends.mono (h' t hd.toSame (hd.tx.trans htx)) (fun _ u hd' => hd.trans hd')
      fun err u hf => ?_
    exact ⟨hd.toSame.trans hf.toSame, hf.ends, hf.tx.trans hd.tx,
      fun hout => by rw [htx] at hout; cases hout⟩

/-- One call more. -/
theorem kept_called : Kept s s.called := ⟨⟨rfl, rfl, rfl⟩, rfl, rfl, rfl⟩

/-- A rolled back transaction. -/
theorem kept_rolledBack (h : Same s t) (htx : s.tx = false) : Kept s (s.rolledBack t) :=
  ⟨⟨h.saving, h.pointers, h.content⟩, rfl, rfl, htx.symm⟩

/-- **A transaction** makes all of its callback, or nothing. -/
theorem Saves.transaction (h : ∀ t, Same s t → t.db = s.db → t.log = s.log → t.tx = true →
    Saves m t P) : Saves (transaction env m) s P := by
  unfold Saves Ends Models.transaction
  cases htx : s.tx with
  | true => exact h s .refl rfl rfl htx
  | false =>
    simp only [Bool.false_eq_true, if_false]
    cases hbegin : env.answers s.calls with
    | some answer =>
      exact ⟨kept_called.toSame, nofun, rfl, fun _ => .inl kept_called⟩
    | none =>
      have hm := h { s.called with tx := true } ⟨rfl, rfl, rfl⟩ rfl rfl rfl
      unfold Saves Ends at hm
      simp only
      cases hcallback : m { s.called with tx := true } with
      | error err t =>
        rw [hcallback] at hm
        have hkept : Kept s (s.rolledBack t) :=
          kept_rolledBack ⟨hm.saving, hm.pointers, hm.content⟩ htx
        exact ⟨hkept.toSame, hm.ends, hkept.tx, fun _ => .inl hkept⟩
      | ok a t =>
        rw [hcallback] at hm
        have hdone : Done s { t.called with tx := false } P :=
          ⟨⟨hm.saving, hm.pointers, hm.content⟩, htx.symm, hm.written⟩
        simp only
        cases hcommit : env.answers t.calls with
        | none => exact hdone
        | some answer =>
          obtain ⟨msg, applied⟩ := answer
          cases applied with
          | true => exact ⟨hdone.toSame, nofun, hdone.tx, fun _ => .inr hdone⟩
          | false =>
            have hkept : Kept s (s.rolledBack t) :=
              kept_rolledBack ⟨hm.saving, hm.pointers, hm.content⟩ htx
            exact ⟨hkept.toSame, nofun, hkept.tx, fun _ => .inl hkept⟩

/-- A transaction only if there is more than one record. -/
theorem Saves.together {records : List Nat} (hone : records = [] → Saves m' s P)
    (hall : ∀ t, Same s t → t.db = s.db → t.log = s.log → t.tx = true → Saves m t P) :
    Saves (together env records m m') s P := by
  unfold Models.together
  split
  · exact Saves.transaction hall
  · next hlen => exact hone (List.length_eq_zero_iff.1 (by omega))

/-- A statement. -/
theorem exec_saves : Saves (exec env n stmt) s fun new => new = [(n, stmt)] := by
  have hdone : ∀ db, s.db.apply stmt = some db →
      Done s { s.called with db := db, log := s.log ++ [(n, stmt)] }
        fun new => new = [(n, stmt)] := by
    intro db happly
    refine ⟨⟨rfl, rfl, rfl⟩, rfl, [(n, stmt)], rfl, rfl, ?_⟩
    simp [replay, happly]
  have hkept : ∀ err, err ≠ .endless → Failed s s.called (fun new => new = [(n, stmt)]) err :=
    fun err herr => ⟨kept_called.toSame, herr, rfl, fun _ => .inl kept_called⟩
  unfold Saves Ends exec
  cases happly : s.db.apply stmt with
  | none =>
    cases env.answers s.calls with
    | none => exact hkept .key nofun
    | some answer => exact hkept (.db answer.1) nofun
  | some db =>
    cases env.answers s.calls with
    | none => exact hdone db happly
    | some answer =>
      obtain ⟨msg, applied⟩ := answer
      cases applied with
      | true => exact ⟨⟨rfl, rfl, rfl⟩, nofun, rfl, fun _ => .inr (hdone db happly)⟩
      | false => exact hkept (.db msg) nofun

/-- A change of memory that saving does not look at. -/
theorem modify_kept {f : State → State} (h : ∀ t, Kept t (f t)) (hm : Saves m s P) :
    Saves (do m; modify f) s P :=
  Ends.bind (Ends.mono hm (fun _ _ => id) fun _ _ => id) fun _ t hd => Ends.modify (hd.kept (h t))

/-- A change of the times of a spec, or of whether it is persisted. -/
theorem kept_setSpec {f : Spec → Spec} (hsaving : ∀ spec, (f spec).saving = spec.saving)
    (hinstances : ∀ spec, (f spec).instances = spec.instances)
    (hrow : ∀ spec, (f spec).row.content = spec.row.content) : Kept s (s.setSpec p f) := by
  refine ⟨⟨funext fun n => ?_, funext fun n => ?_, funext fun n => ?_⟩, rfl, rfl, rfl⟩
  · cases n with
    | spec q =>
      simp only [State.saving, State.setSpec]
      split
      · exact hsaving _
      · rfl
    | inst q => rfl
  · cases n with
    | spec q =>
      simp only [State.pointers, State.setSpec]
      split
      · rw [hinstances]
      · rfl
    | inst q => rfl
  · cases n with
    | spec q =>
      simp only [State.content, State.setSpec]
      split
      · rw [hrow]
      · rfl
    | inst q => rfl

/-- The same of an instance. -/
theorem kept_setInstance {f : Instance → Instance}
    (hsaving : ∀ inst, (f inst).saving = inst.saving)
    (hspec : ∀ inst, (f inst).spec = inst.spec)
    (hrow : ∀ inst, (f inst).row.content = inst.row.content) : Kept s (s.setInstance p f) := by
  refine ⟨⟨funext fun n => ?_, funext fun n => ?_, funext fun n => ?_⟩, rfl, rfl, rfl⟩
  · cases n with
    | spec q => rfl
    | inst q =>
      simp only [State.saving, State.setInstance]
      split
      · exact hsaving _
      · rfl
  · cases n with
    | spec q => rfl
    | inst q =>
      simp only [State.pointers, State.setInstance]
      split
      · rw [hspec]
      · rfl
  · cases n with
    | spec q => rfl
    | inst q =>
      simp only [State.content, State.setInstance]
      split
      · rw [hrow]
      · rfl

/-- An error of `kallax.Store` itself. -/
theorem throw_saves (herr : err ≠ .endless) : Saves (throw err) s P :=
  Ends.throw ⟨.refl, herr, rfl, fun _ => .inl .refl⟩

/-- **Each of the four calls is one statement**, with the row of its record. -/
theorem insertSpec_saves : Saves (insertSpec env p) s fun new =>
    new = [(.spec p, .insertSpec (s.specs p).row)] := by
  refine Ends.get ?_
  split
  · exact throw_saves nofun
  · exact modify_kept (fun _ => kept_setSpec (fun _ => rfl) (fun _ => rfl) fun _ => rfl) exec_saves

@[inherit_doc insertSpec_saves]
theorem updateSpec_saves : Saves (updateSpec env p) s fun new =>
    new = [(.spec p, .updateSpec (s.specs p).row)] := by
  refine Ends.get ?_
  split
  · exact exec_saves
  · exact throw_saves nofun

@[inherit_doc insertSpec_saves]
theorem insertInstance_saves : Saves (insertInstance env p) s fun new =>
    new = [(.inst p, .insertInstance (s.instances p).row)] := by
  refine Ends.get ?_
  split
  · exact throw_saves nofun
  · exact modify_kept (fun _ => kept_setInstance (fun _ => rfl) (fun _ => rfl) fun _ => rfl)
      exec_saves

@[inherit_doc insertSpec_saves]
theorem updateInstance_saves {cols : List Column} : Saves (updateInstance env p cols) s fun new =>
    new = [(.inst p, .updateInstance (s.instances p).row
      (if cols = [] then Column.all else cols))] := by
  refine Ends.get ?_
  split
  · exact exec_saves
  · exact throw_saves nofun

/-! ## Marks -/

/-- A record is marked, or is no longer. -/
def State.mark (s : State) : Node → Bool → State
  | .spec p, b => s.setSpec p fun spec => { spec with saving := b }
  | .inst p, b => s.setInstance p fun inst => { inst with saving := b }

@[simp]
theorem saving_mark {b : Bool} : (s.mark n b).saving = Function.update s.saving n b := by
  refine funext fun x => ?_
  by_cases hx : x = n
  · subst hx
    rw [Function.update_self]
    cases x <;> simp [State.mark, State.saving, State.setSpec, State.setInstance]
  · rw [Function.update_of_ne hx]
    cases n with
    | spec p =>
      cases x with
      | spec q =>
        have hq : q ≠ p := fun h => hx (congrArg _ h)
        simp [State.mark, State.saving, State.setSpec, hq]
      | inst q => rfl
    | inst p =>
      cases x with
      | spec q => rfl
      | inst q =>
        have hq : q ≠ p := fun h => hx (congrArg _ h)
        simp [State.mark, State.saving, State.setInstance, hq]

@[simp]
theorem pointers_mark {b : Bool} : (s.mark n b).pointers = s.pointers := by
  refine funext fun x => ?_
  cases n with
  | spec p =>
    cases x with
    | spec q =>
      simp only [State.mark, State.pointers, State.setSpec]
      split <;> rfl
    | inst q => rfl
  | inst p =>
    cases x with
    | spec q => rfl
    | inst q =>
      simp only [State.mark, State.pointers, State.setInstance]
      split <;> rfl

@[simp]
theorem content_mark {b : Bool} : (s.mark n b).content = s.content := by
  refine funext fun x => ?_
  cases n with
  | spec p =>
    cases x with
    | spec q =>
      simp only [State.mark, State.content, State.setSpec]
      split <;> rfl
    | inst q => rfl
  | inst p =>
    cases x with
    | spec q => rfl
    | inst q =>
      simp only [State.mark, State.content, State.setInstance]
      split <;> rfl

theorem mark_db {b : Bool} : (s.mark n b).db = s.db ∧ (s.mark n b).log = s.log ∧
    (s.mark n b).tx = s.tx := by
  cases n <;> exact ⟨rfl, rfl, rfl⟩

/-- Marks that are taken away again. -/
theorem Same.marked (hfree : s.saving n = false) (h : Same (s.mark n true) t) :
    Same s (t.mark n false) := by
  refine ⟨?_, ?_, ?_⟩
  · rw [saving_mark, h.saving, saving_mark, Function.update_idem, ← hfree, Function.update_eq_self]
  · rw [pointers_mark, h.pointers, pointers_mark]
  · rw [content_mark, h.content, content_mark]

theorem Done.marked (hfree : s.saving n = false) (h : Done (s.mark n true) t P) :
    Done s (t.mark n false) P := by
  obtain ⟨hdb, hlog, htx⟩ := @mark_db s n true
  obtain ⟨hdb', hlog', htx'⟩ := @mark_db t n false
  refine ⟨h.toSame.marked hfree, by rw [htx', h.tx, htx], ?_⟩
  rw [hdb', hlog', ← hdb, ← hlog]
  exact h.written

/-- **A record is marked while it is saved**, and not behind it, be there an error or not. -/
theorem Saves.marked (hfree : s.saving n = false) (h : Saves m (s.mark n true) P) :
    Saves (do modify (State.mark · n true); closing m (modify (State.mark · n false))) s P := by
  refine Ends.bind (P := fun _ t => t = s.mark n true) (Ends.modify rfl) ?_
  rintro _ _ rfl
  refine Ends.closing h (fun _ t hd => Ends.modify (hd.marked hfree)) fun err t hf => ?_
  refine Ends.modify ⟨hf.toSame.marked hfree, hf.ends, ?_, fun htx => ?_⟩
  · rw [(@mark_db t n false).2.2, hf.tx, (@mark_db s n true).2.2]
  · refine (hf.whole ((@mark_db s n true).2.2.trans htx)).imp (fun hk => ?_) (Done.marked hfree)
    obtain ⟨hdb, hlog, htx⟩ := @mark_db s n true
    obtain ⟨hdb', hlog', htx'⟩ := @mark_db t n false
    exact ⟨hk.toSame.marked hfree, by rw [hdb', hk.db, hdb], by rw [hlog', hk.log, hlog],
      by rw [htx', hk.tx, htx]⟩

/-! ## The records that belong together -/

/-- Inside a transaction, one record after the other. -/
theorem forAll_saves {f : Nat → M Unit} {Q : Nat → Node → Prop} (records : List Nat)
    (htx : s.tx = true)
    (h : ∀ r ∈ records, ∀ t, Same s t → t.tx = true → Saves (f r) t (Covers content (Q r))) :
    Saves (forAll f records) s (Covers content fun n => ∃ r ∈ records, Q r n) := by
  induction records generalizing s with
  | nil =>
    refine Ends.pure (Kept.refl.done.mono fun new hnew => ?_)
    subst hnew
    exact ⟨by simp, nofun⟩
  | cons r records ih =>
    obtain ⟨hr, hrecords⟩ := List.forall_mem_cons.1 h
    have hboth := (hr s .refl htx).bind htx fun t hs ht =>
      ih ht fun r' hr' u hu => hrecords r' hr' u (hs.trans hu)
    refine (hboth.weaken fun _ => Covers.seq).congr fun n => ?_
    simp

/-- The virtual columns are none of the marks and pointers. -/
theorem forAll_addSpecID {id : Nat} (records : List Nat) :
    Ends (forAll (addSpecID id) records) s (fun _ t => Kept s t) fun _ _ => False := by
  induction records generalizing s with
  | nil => exact Ends.pure .refl
  | cons r records ih =>
    have hk : Kept s (s.setInstance r fun inst =>
        { inst with row := { inst.row with specID := some id } }) :=
      kept_setInstance (fun _ => rfl) (fun _ => rfl) fun _ => rfl
    refine Ends.bind (P := fun _ t => Kept s t) (Ends.modify hk) fun _ t ht => ?_
    exact ih.mono (fun _ u hu => ht.trans hu) fun _ _ => False.elim

/-- The instances that a spec is saved with. -/
theorem relationshipRecords_ends : Ends (relationshipRecords p) s
    (fun records t => (∀ r, r ∈ records ↔ .inst r ∈ s.pointers (.spec p) ∧
      s.saving (.inst r) = false) ∧ Kept s t) fun _ _ => False := by
  refine Ends.get (Ends.bind (forAll_addSpecID _) fun _ t ht => Ends.pure ⟨fun r => ?_, ht⟩)
  simp [State.pointers, State.saving]

/-- The spec that an instance is saved with. -/
theorem inverseRecords_ends : Ends (inverseRecords p) s
    (fun records t => (∀ q, q ∈ records ↔ .spec q ∈ s.pointers (.inst p) ∧
      s.saving (.spec q) = false) ∧ Kept s t) fun _ _ => False := by
  refine Ends.get ?_
  cases hspec : (s.instances p).spec with
  | none => exact Ends.pure ⟨by simp [State.pointers, hspec], .refl⟩
  | some q =>
    simp only
    split
    · next hsaving =>
      refine Ends.pure ⟨fun q' => ?_, .refl⟩
      simp only [State.pointers, State.saving, hspec, List.not_mem_nil, false_iff, not_and]
      intro hq'
      obtain rfl : q' = q := by simpa using hq'
      rw [hsaving]
      exact Bool.noConfusion
    · next hsaving =>
      refine Ends.bind (Ends.modify (R := fun _ t => Kept s t)
        (kept_setInstance (fun _ => rfl) (fun _ => rfl) fun _ => rfl))
        fun _ t ht => Ends.pure ⟨fun q' => ?_, ht⟩
      simp only [State.pointers, State.saving, hspec]
      constructor
      · intro hq'
        obtain rfl := List.mem_singleton.1 hq'
        exact ⟨by simp, by simpa using hsaving⟩
      · rintro ⟨hq', -⟩
        simpa using hq'

@[simp]
theorem truncate_truncate (time : Nat) : truncate (truncate time) = truncate time := by
  unfold truncate
  omega

/-- What is truncated before a record is saved is truncated whenever it is saved. -/
theorem content_prepared {now : Nat} {row : InstanceRow} :
    (row.prepared now).content = row.content := by
  unfold InstanceRow.content InstanceRow.prepared
  cases row.expiresAt <;> simp

/-- The times of a record are no mark, no pointer and no content. -/
theorem prepareSpec_ends :
    Ends (prepareSpec env p) s (fun _ t => True ∧ Kept s t) fun _ _ => False := by
  have hk : Kept s (s.setSpec p fun spec =>
      { spec with row := spec.row.prepared (env.now s.ticks) }) :=
    kept_setSpec (fun _ => rfl) (fun _ => rfl) fun _ => rfl
  exact Ends.modify ⟨trivial, ⟨hk.saving, hk.pointers, hk.content⟩, hk.db, hk.log, hk.tx⟩

@[inherit_doc prepareSpec_ends]
theorem prepareInstance_ends :
    Ends (prepareInstance env p) s (fun _ t => True ∧ Kept s t) fun _ _ => False := by
  have hk : Kept s (s.setInstance p fun inst =>
      { inst with row := inst.row.prepared (env.now s.ticks) }) :=
    kept_setInstance (fun _ => rfl) (fun _ => rfl) fun inst => content_prepared
  exact Ends.modify ⟨trivial, ⟨hk.saving, hk.pointers, hk.content⟩, hk.db, hk.log, hk.tx⟩

open Marked

/-- **A spec is saved with its instances**, if the way of saving these is right. -/
theorem specStore_saves {store : M Unit} {saveInstance : Nat → M Unit}
    (hfree : s.saving (.spec p) = false) (hstore : ∀ t, t.content = s.content →
      Saves store t (Covers s.content fun n => n = .spec p))
    (hsave : ∀ r t, .inst r ∈ s.pointers (.spec p) → s.saving (.inst r) = false →
      Same (s.mark (.spec p) true) t →
      Saves (saveInstance r) t (Covers t.content (Reach t.saving t.pointers (.inst r)))) :
    Saves (specStore env store saveInstance p) s
      (Covers s.content (Reach s.saving s.pointers (.spec p))) := by
  refine Saves.marked hfree ?_
  refine Saves.bind_kept prepareSpec_ends fun _ t _ ht => ?_
  refine Saves.bind_kept relationshipRecords_ends fun records u hrecords hu => ?_
  have hsame : Same (s.mark (.spec p) true) u := ht.toSame.trans hu.toSame
  have hrecord : ∀ r, r ∈ records ↔ .inst r ∈ s.pointers (.spec p) ∧
      Function.update s.saving (.spec p) true (.inst r) = false := by
    intro r
    rw [hrecords r, ht.pointers, ht.saving, pointers_mark, saving_mark]
  have hreach : ∀ n, Reach s.saving s.pointers (.spec p) n ↔ n = .spec p ∨ ∃ r ∈ records,
      Reach (Function.update s.saving (.spec p) true) s.pointers (.inst r) n := by
    intro n
    rw [reach_iff]
    refine or_congr Iff.rfl ⟨?_, ?_⟩
    · rintro ⟨x, hx, hxfree, hn⟩
      obtain ⟨r, -, rfl⟩ := List.mem_map.1 hx
      exact ⟨r, (hrecord r).2 ⟨hx, hxfree⟩, hn⟩
    · rintro ⟨r, hr, hn⟩
      obtain ⟨hx, hxfree⟩ := (hrecord r).1 hr
      exact ⟨.inst r, hx, hxfree, hn⟩
  refine Saves.congr ?_ fun n => (hreach n).symm
  refine Saves.together (fun hnil => ?_) fun v hv _ _ htx => ?_
  · subst hnil
    exact (hstore u (hsame.content.trans content_mark)).congr fun n => by simp
  · have hv : Same (s.mark (.spec p) true) v := hsame.trans hv
    refine ((hstore v (hv.content.trans content_mark)).bind htx fun w hw htx =>
      forAll_saves records htx fun r hr x hx _ => ?_).weaken fun _ => Covers.seq
    have hsame : Same (s.mark (.spec p) true) x := (hv.trans hw).trans hx
    obtain ⟨hpointer, hrfree⟩ := (hrecord r).1 hr
    have hsaves := hsave r x hpointer (Marked.update_eq_false.1 hrfree).2 hsame
    rwa [hsame.saving, hsame.pointers, hsame.content, saving_mark, pointers_mark, content_mark]
      at hsaves

/-- **An instance is saved with its spec**, if the way of saving this is right. -/
theorem instanceStore_saves {store : M Unit} {saveSpec : Nat → M Unit}
    (hfree : s.saving (.inst p) = false) (hstore : ∀ t, t.content = s.content →
      Saves store t (Covers s.content fun n => n = .inst p))
    (hsave : ∀ q t, .spec q ∈ s.pointers (.inst p) → s.saving (.spec q) = false →
      Same (s.mark (.inst p) true) t →
      Saves (saveSpec q) t (Covers t.content (Reach t.saving t.pointers (.spec q)))) :
    Saves (instanceStore env store saveSpec p) s
      (Covers s.content (Reach s.saving s.pointers (.inst p))) := by
  refine Saves.marked hfree ?_
  refine Saves.bind_kept prepareInstance_ends fun _ t _ ht => ?_
  refine Saves.bind_kept inverseRecords_ends fun records u hrecords hu => ?_
  have hsame : Same (s.mark (.inst p) true) u := ht.toSame.trans hu.toSame
  have hrecord : ∀ q, q ∈ records ↔ .spec q ∈ s.pointers (.inst p) ∧
      Function.update s.saving (.inst p) true (.spec q) = false := by
    intro q
    rw [hrecords q, ht.pointers, ht.saving, pointers_mark, saving_mark]
  have hreach : ∀ n, Reach s.saving s.pointers (.inst p) n ↔ (∃ q ∈ records,
      Reach (Function.update s.saving (.inst p) true) s.pointers (.spec q) n) ∨ n = .inst p := by
    intro n
    rw [reach_iff, or_comm]
    refine or_congr ⟨?_, ?_⟩ Iff.rfl
    · rintro ⟨x, hx, hxfree, hn⟩
      obtain ⟨q, -, rfl⟩ := List.mem_map.1 hx
      exact ⟨q, (hrecord q).2 ⟨hx, hxfree⟩, hn⟩
    · rintro ⟨q, hq, hn⟩
      obtain ⟨hx, hxfree⟩ := (hrecord q).1 hq
      exact ⟨.spec q, hx, hxfree, hn⟩
  refine Saves.congr ?_ fun n => (hreach n).symm
  refine Saves.together (fun hnil => ?_) fun v hv _ _ htx => ?_
  · subst hnil
    exact (hstore u (hsame.content.trans content_mark)).congr fun n => by simp
  · have hv : Same (s.mark (.inst p) true) v := hsame.trans hv
    refine ((forAll_saves records htx fun q hq x hx _ => ?_).bind htx fun w hw _ =>
      hstore w ((hv.trans hw).content.trans content_mark)).weaken fun _ => Covers.seq
    have hsame : Same (s.mark (.inst p) true) x := hv.trans hx
    obtain ⟨hpointer, hqfree⟩ := (hrecord q).1 hq
    have hsaves := hsave q x hpointer (Marked.update_eq_false.1 hqfree).2 hsame
    rwa [hsame.saving, hsame.pointers, hsame.content, saving_mark, pointers_mark, content_mark]
      at hsaves

/-- **Whatever the records point to**, a record is saved with all that is reached from it. -/
theorem save_saves (env : Env) {depth : Nat} {G : Finset Node} (hn : n ∈ G)
    (hclosed : ∀ x ∈ G, ∀ y ∈ s.pointers x, y ∈ G) (hfree : s.saving n = false)
    (hdepth : (G.filter fun x => s.saving x = false).card ≤ depth) :
    Saves (save env depth n) s (Covers s.content (Reach s.saving s.pointers n)) := by
  induction depth generalizing n s with
  | zero =>
    have hmem : n ∈ G.filter fun x => s.saving x = false := Finset.mem_filter.2 ⟨hn, hfree⟩
    rw [Finset.card_eq_zero.1 (Nat.le_zero.1 hdepth)] at hmem
    cases hmem
  | succ depth ih =>
    have hnext : ∀ x t, x ∈ s.pointers n → x ≠ n → s.saving x = false → Same (s.mark n true) t →
        Saves (save env depth x) t (Covers t.content (Reach t.saving t.pointers x)) := by
      intro x t hx hxn hxfree ht
      have hsaving : t.saving = Function.update s.saving n true := ht.saving.trans saving_mark
      have hpointers : t.pointers = s.pointers := ht.pointers.trans pointers_mark
      refine ih (hclosed n hn x hx) (hpointers ▸ hclosed) ?_ ?_
      · rw [hsaving]
        exact Marked.update_eq_false.2 ⟨hxn, hxfree⟩
      · rw [hsaving]
        have hcard := card_mark hn hfree
        omega
    cases n with
    | spec p =>
      refine Ends.get (specStore_saves hfree (fun t ht => ?_) fun r t hr hrfree ht =>
        hnext (.inst r) t hr nofun hrfree ht)
      have hrow : .inl (t.specs p).row.content = s.content (.spec p) := congrFun ht (.spec p)
      split
      · exact updateSpec_saves.weaken fun _ h => h ▸ .one hrow
      · exact insertSpec_saves.weaken fun _ h => h ▸ .one hrow
    | inst p =>
      refine Ends.get (instanceStore_saves hfree (fun t ht => ?_) fun q t hq hqfree ht =>
        hnext (.spec q) t hq nofun hqfree ht)
      have hrow : .inr (t.instances p).row.content = s.content (.inst p) := congrFun ht (.inst p)
      split
      · exact updateInstance_saves.weaken fun _ h => h ▸ .one hrow
      · exact insertInstance_saves.weaken fun _ h => h ▸ .one hrow

end

end UAssign.Models

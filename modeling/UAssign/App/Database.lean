import UAssign.App.World
import UAssign.Models.Save

/-!
# The rows of the world

In the world, an update and the insertion at the end of a request are one step on its rows. In the
server, they are what `kallax.go` does, with the records in memory and several statements. `Shows`
says that the tables are the rows of the world; `instanceUpdate_refines` and `storeInstance_refines`
say that they still are when the stores are through, whichever calls have failed.
-/

namespace UAssign.App

/-- The column of the table. -/
def Column.field : Column → Models.Column
  | .expiresAt => .expiresAt
  | .active => .active
  | .cleaned => .cleaned

/-- A record is a goroutine's copy, as far as updates go. The time of the world is in
microseconds. -/
structure IsCopy (record : Models.InstanceRow) (copy : Instance) : Prop where
  id : copy.id = record.id
  expiresAt : copy.expiresAt = record.expiresAt.map (· / 1000)
  active : copy.active = record.active
  cleaned : copy.cleaned = record.cleaned

/-- A row of the table is this row of the world, in which the hashes have numbers. -/
structure IsRow (hash : String → Nat) (row : Models.InstanceRow) (r : Instance) : Prop
    extends IsCopy row r where
  createdAt : r.createdAt = row.createdAt / 1000
  spec : row.specID = some r.spec
  imageID : r.imageID = hash row.imageID
  containerID : r.containerID = hash row.containerID

/-- The tables are the rows of the world. -/
structure Shows (hash : String → Nat) (db : Models.DB) (w : World) : Prop where
  specs : ∀ id, id ∈ w.specs ↔ ∃ r ∈ db.specs, r.id = id
  instances : List.Forall₂ (IsRow hash) db.instances w.instances

section

variable {hash : String → Nat} {db : Models.DB} {w : World} {tid : Nat}
  {row record : Models.InstanceRow} {r copy : Instance} {cols : List Column}

@[simp]
theorem truncate_div (t : Nat) : Models.truncate t / 1000 = t / 1000 := by
  unfold Models.truncate
  omega

/-- What is done with a record before it is saved does not show in its copy. -/
theorem IsCopy.prepared (h : IsCopy record copy) (now : Nat) :
    IsCopy (record.prepared now) copy := by
  refine ⟨h.id, ?_, h.active, h.cleaned⟩
  simp [h.expiresAt, Models.InstanceRow.prepared, Function.comp_def]

/-- One column. -/
theorem IsRow.setColumn (h : IsRow hash row r) (hc : IsCopy record copy) (col : Column) :
    IsRow hash (row.setColumn record col.field) (r.setColumn copy col) := by
  cases col with
  | expiresAt => exact ⟨⟨h.id, hc.expiresAt, h.active, h.cleaned⟩, h.createdAt, h.spec, h.imageID,
      h.containerID⟩
  | active => exact ⟨⟨h.id, h.expiresAt, hc.active, h.cleaned⟩, h.createdAt, h.spec, h.imageID,
      h.containerID⟩
  | cleaned => exact ⟨⟨h.id, h.expiresAt, h.active, hc.cleaned⟩, h.createdAt, h.spec, h.imageID,
      h.containerID⟩

/-- Some columns. -/
theorem IsRow.setColumns (h : IsRow hash row r) (hc : IsCopy record copy) (cols : List Column) :
    IsRow hash (row.setColumns record (cols.map Column.field)) (r.setColumns copy cols) := by
  induction cols generalizing row r with
  | nil => exact h
  | cons col cols ih => exact ih (h.setColumn hc col)

/-- **An update**, of the table and of the world. -/
theorem Shows.update (h : Shows hash db w) (hc : IsCopy record copy) (cols : List Column) :
    Shows hash (db.putInstance record (cols.map Column.field))
      (w.apply tid (.update copy cols)) := by
  refine ⟨h.specs, ?_⟩
  rw [Models.DB.putInstance, World.apply, List.forall₂_map_left_iff, List.forall₂_map_right_iff]
  refine h.instances.imp fun row r hrow => ?_
  rw [← hrow.id, ← hc.id]
  split
  · exact hrow.setColumns hc cols
  · exact hrow

/-- A spec keeps its ID. -/
theorem Shows.putSpec (h : Shows hash db w) (r : Models.SpecRow) : Shows hash (db.putSpec r) w := by
  refine ⟨fun id => (h.specs id).trans ?_, h.instances⟩
  simp only [Models.DB.putSpec, List.mem_map, exists_exists_and_eq_and]
  refine exists_congr fun r' => and_congr_right fun _ => ?_
  split <;> simp [*]

/-- An ID that no row of the table has. -/
theorem Shows.hasInstance {id : Nat} (h : Shows hash db w) (hfree : ∀ r ∈ db.instances, r.id ≠ id) :
    w.hasInstance id = false := by
  have hids : db.instances.map (·.id) = w.instances.map (·.id) := by
    rw [← List.forall₂_eq_eq_eq, List.forall₂_map_left_iff, List.forall₂_map_right_iff]
    exact h.instances.imp fun _ _ hrow => hrow.id.symm
  rw [World.hasInstance, List.any_eq_false]
  intro r hr hid
  have hmem : id ∈ db.instances.map (·.id) :=
    hids ▸ List.mem_map.2 ⟨r, hr, of_decide_eq_true hid⟩
  obtain ⟨row, hrow, hrowid⟩ := List.mem_map.1 hmem
  exact hfree row hrow hrowid

end

/-- A row, and two records: the loaded one of this row, with another time, and a new one. -/
def twoRecords : Models.State where
  specs := fun _ => ⟨⟨7, 1000, 1000, "hw1", []⟩, true, false, []⟩
  instances := fun i =>
    if i = 0 then
      ⟨⟨9, 2000, 2000, some 7, "image", "container", some 120456, true, false, []⟩, true, false,
        some 0⟩
    else ⟨⟨11, 0, 0, none, "image", "other", some 90123, true, false, []⟩, false, false, none⟩
  ticks := 0
  db := ⟨[⟨7, 1000, 1000, "hw1", []⟩],
    [⟨9, 2000, 2000, some 7, "image", "container", some 60000, true, false, []⟩]⟩
  log := []
  tx := false
  calls := 0

/-- The world with this row. -/
def oneRow : World :=
  { World.initial ⟨60, 60⟩ [] with
    specs := [7]
    instances := [⟨9, 2, 7, 5, 9, some 60, true, false⟩] }

theorem shows_oneRow : Shows String.length twoRecords.db oneRow := by
  refine ⟨fun id => ?_, .cons ⟨⟨rfl, rfl, rfl, rfl⟩, rfl, rfl, rfl, rfl⟩ .nil⟩
  simp [oneRow, twoRecords, eq_comm]

section

variable {hash : String → Nat} {w : World} {copy : Instance} {cols : List Column}

/-- **An update of the world is what the store makes of the rows**, of an instance that has been
loaded with its spec or without it: if it returns an error, the update has been carried out or has
not, and the spec, which it saves too, is none the worse. -/
theorem instanceUpdate_refines (env : Models.Env) (tid : Nat) {s : Models.State} {depth i : Nat}
    (hcols : cols ≠ []) (h : Shows hash s.db w) (hc : IsCopy (s.instances i).row copy)
    (htx : s.tx = false) (hpersisted : (s.instances i).persisted = true)
    (hspec : ∀ p, (s.instances i).spec = some p → (s.specs p).persisted = true ∧
      (s.specs p).instances = [] ∧ (s.specs p).saving = false) :
    Ends (Models.instanceUpdate env (depth + 1) i (cols.map Column.field)) s
      (fun _ t => ∃ eff, App.update copy cols .ok = some eff ∧ Shows hash t.db (w.apply tid eff))
      fun _ t => ∃ applied eff, App.update copy cols (.failed applied) = some eff ∧
        Shows hash t.db (w.apply tid eff) := by
  have hfields : cols.map Column.field ≠ [] := by simpa using hcols
  cases hs : (s.instances i).spec with
  | none =>
    refine (Models.instanceUpdate_alone env (depth + 1) hfields hpersisted hs).mono
      (fun _ t ⟨now, ht⟩ => ?_) fun _ t ht => ?_
    · exact ⟨_, rfl, ht ▸ h.update (hc.prepared now) cols⟩
    · rcases ht with ht | ⟨now, ht⟩
      · exact ⟨false, _, rfl, ht ▸ h⟩
      · exact ⟨true, _, rfl, ht ▸ h.update (hc.prepared now) cols⟩
  | some p =>
    obtain ⟨hloaded, hinstances, hsaving⟩ := hspec p hs
    have hupdated : ∀ db', Models.Updated (s.specs p).row (s.instances i).row
        (cols.map Column.field) s.db db' → Shows hash db' (w.apply tid (.update copy cols)) := by
      rintro _ ⟨now, now', rfl⟩
      obtain ⟨hid, hexpires, hactive, hcleaned⟩ := hc.prepared now'
      have hcopy : IsCopy { (s.instances i).row.prepared now' with
          specID := some (s.specs p).row.id } copy := ⟨hid, hexpires, hactive, hcleaned⟩
      exact (h.putSpec _).update hcopy cols
    refine (Models.instanceUpdate_updates env hfields htx hpersisted hs hloaded hinstances
      hsaving).mono (fun _ t ht => ⟨_, rfl, hupdated t.db ht⟩) fun _ t ht => ?_
    rcases ht with ht | ht
    · exact ⟨false, _, rfl, ht ▸ h⟩
    · exact ⟨true, _, rfl, hupdated t.db ht⟩

/-- The commit fails. -/
theorem instanceUpdate_refines_commit :
    Ends (Models.instanceUpdate
        ⟨id, fun k => if k = 3 then some ("bad connection", false) else none⟩ 1 0
        ([.expiresAt].map Column.field)) twoRecords
      (fun _ t => ∃ eff, App.update ⟨9, 2, 7, 5, 9, some 120, true, false⟩ [.expiresAt] .ok =
        some eff ∧ Shows String.length t.db (oneRow.apply 0 eff))
      fun _ t => ∃ applied eff, App.update ⟨9, 2, 7, 5, 9, some 120, true, false⟩ [.expiresAt]
        (.failed applied) = some eff ∧ Shows String.length t.db (oneRow.apply 0 eff) :=
  instanceUpdate_refines _ 0 (by decide) shows_oneRow ⟨rfl, rfl, rfl, rfl⟩ rfl rfl
    fun _ _ => ⟨rfl, rfl, rfl⟩

/-- The tables are what some step of a goroutine, from the one place to the other, leaves, taken at
some time. -/
def Leaves (cfg : Config) (hash : String → Nat) (w : World) (tid : Nat) (p p' : Proc)
    (db : Models.DB) : Prop :=
  ∃ now e eff, next cfg { w with now := now } tid e p = some (eff, p') ∧
    Shows hash db (World.apply { w with now := now } tid eff)

/-- **The insertion that ends a request is what the store makes of the rows**: if its transaction
returns no error, the request is answered with the instance that has been inserted; if it does, the
request has failed, with the instance inserted or not. -/
theorem storeInstance_refines (env : Models.Env) (cfg : Config) (tid : Nat) (q : Request)
    {s : Models.State} (depth id p i expiresAt : Nat) (h : Shows hash s.db w)
    (htx : s.tx = false) (hnew : (s.instances i).persisted = false)
    (hsaving : (s.instances i).saving = false) (hspec : (s.instances i).spec = none)
    (hcreated : (s.instances i).row.createdAt = 0)
    (hexpires : (s.instances i).row.expiresAt = some expiresAt)
    (hactive : (s.instances i).row.active = true)
    (hcleaned : (s.instances i).row.cleaned = false) :
    Ends (Models.storeInstance env (depth + 1) id p i) s
      (fun _ t => Leaves cfg hash w tid
        (.request q id (.transact (hash (s.instances i).row.imageID)
          (hash (s.instances i).row.containerID) (expiresAt / 1000)))
        (.request q id (.responded (s.instances i).row.id)) t.db)
      fun _ t => Leaves cfg hash w tid
        (.request q id (.transact (hash (s.instances i).row.imageID)
          (hash (s.instances i).row.containerID) (expiresAt / 1000)))
        (.request q id .failed) t.db := by
  have hstored : ∀ (reported : Bool) db', Models.Stored id (s.instances i).row s.db db' →
      Leaves cfg hash w tid (.request q id (.transact (hash (s.instances i).row.imageID)
          (hash (s.instances i).row.containerID) (expiresAt / 1000)))
        (.request q id (if reported then .responded (s.instances i).row.id else .failed)) db' := by
    rintro reported _ ⟨spec, now, now', hfind, hfree, rfl⟩
    have hid := List.find?_some hfind
    obtain rfl := of_decide_eq_true hid
    have hmem : spec.id ∈ w.specs := (h.specs _).2 ⟨spec, List.mem_of_find?_eq_some hfind, rfl⟩
    have hfree : w.hasInstance (s.instances i).row.id = false := h.hasInstance hfree
    refine ⟨now' / 1000, .inserted (s.instances i).row.id reported, _, if_pos ⟨hmem, hfree⟩, ?_⟩
    refine ⟨(h.putSpec _).specs, List.rel_append h.instances (.cons ?_ .nil)⟩
    have hcopy : IsCopy (s.instances i).row ⟨(s.instances i).row.id, now' / 1000, spec.id,
        hash (s.instances i).row.imageID, hash (s.instances i).row.containerID,
        some (expiresAt / 1000), true, false⟩ :=
      ⟨rfl, by rw [hexpires]; rfl, hactive.symm, hcleaned.symm⟩
    obtain ⟨hid, hexpires', hactive', hcleaned'⟩ := hcopy.prepared now'
    refine ⟨⟨hid, hexpires', hactive', hcleaned'⟩, ?_, rfl, rfl, rfl⟩
    simp [Models.InstanceRow.prepared, hcreated, Models.truncate]
  refine (Models.storeInstance_stores env htx hnew hsaving hspec).mono
    (fun _ t ht => hstored true t.db ht) fun _ t ht => ?_
  rcases ht with ht | ht
  · exact ⟨w.now, .failed false, .none, rfl, ht ▸ h⟩
  · exact hstored false t.db ht

/-- The insertion of the row fails. -/
theorem storeInstance_refines_insert :
    Ends (Models.storeInstance
        ⟨id, fun k => if k = 3 then some ("bad connection", true) else none⟩ 1 7 0 1) twoRecords
      (fun _ t => Leaves ⟨60, 60⟩ String.length oneRow 0 (.request .specPost 7 (.transact 5 5 90))
        (.request .specPost 7 (.responded 11)) t.db)
      fun _ t => Leaves ⟨60, 60⟩ String.length oneRow 0 (.request .specPost 7 (.transact 5 5 90))
        (.request .specPost 7 .failed) t.db :=
  storeInstance_refines _ ⟨60, 60⟩ 0 .specPost 0 7 0 1 90123 shows_oneRow rfl rfl rfl rfl rfl
    rfl rfl rfl

end

end UAssign.App

import UAssign.App.SpecRequest
import UAssign.Lib.Transition

/-!
# The table of specs

`POST /spec` and `POST /spec/clean` over the table of specs: any number of requests, whose steps are
calls to the database or to Docker, any number of websockets, and a process that may end at any
moment. The rows are inserted by `specProcessRequest`, and updated, with all their columns, in the
transaction of `createInstance` and by `handleInstance`, which has loaded its instance with the spec
long before. Only requests with an authentic body get past `specProcessRequest`; the others write an
error, and nothing else (`requests_gated`).
-/

namespace UAssign.Specs

open Json SpecRequest
open SimpleCrypto (marshal sealedMessage)

/-! ## The system -/

/-- The routes. -/
inductive Route where
  | specPost
  | specClean
  deriving DecidableEq

/-- `models.Spec`, a row or a goroutine's copy of one. `creator` is no column: it says which request
has inserted the row. -/
structure Spec (J : Type) where
  id : ULID
  assignmentName : List UInt8
  data : Option J
  creator : Nat

/-- The calls that change the database, or are calls to Docker. -/
inductive Effect where
  | insertSpec (id : ULID)
  | updateSpec (id : ULID)
  | insertInstance
  | updateInstance
  | docker
  deriving DecidableEq

/-- Where a request is: before `specProcessRequest`, before its query, before its insertion, in what
comes behind it, with a response or without, or in the transaction of `createInstance` with the row
it has read; or it has returned, or ended with the process. -/
inductive Pc (J : Type) where
  | idle
  | received (route : Route) (body : List UInt8)
  | finding (route : Route) (acc : Accepted J)
  | inserting (route : Route) (acc : Accepted J)
  | working (route : Route) (acc : Accepted J) (responded : Bool)
  | updating (acc : Accepted J) (row : Spec J)
  | returned
  | gone

/-- The table, the effects with the requests they are of, the requests with their bodies, what they
have written, and the websockets, with the spec that their instance has been loaded with. -/
structure State (J : Type) where
  specs : List (Spec J)
  effects : List (Nat × Effect)
  requests : Nat → Pc J
  bodies : Nat → Option (List UInt8)
  responses : Nat → List Response
  websockets : Nat → Option (Spec J)

/-- The steps: a request comes in, and goes through `specProcessRequest`, whose query and insertion
may fail (the latter also if it has been carried out); what comes behind it calls Docker, marks
instances, goes through the transaction, and responds; `instanceWS` loads an instance with its spec,
`handleInstance` updates it, any number of times, and returns; and the process ends and is started
again, maybe with `MigrateReset`. -/
inductive Act where
  | receive (i : Nat) (route : Route) (body : List UInt8)
  | accept (i : Nat)
  | findOne (i : Nat) (fails : Bool)
  | insert (i : Nat) (fails applied : Bool)
  | docker (i : Nat)
  | updateInstance (i : Nat)
  | begin (i : Nat)
  | commit (i : Nat) (applied : Bool)
  | respond (i : Nat) (ok : Bool)
  | finish (i : Nat)
  | instanceWS (t : Nat) (specID : ULID)
  | handleInstance (t : Nat) (applied : Bool)
  | done (t : Nat)
  | restart (reset : Bool)
  deriving DecidableEq

/-- The request whose step it is. -/
def Act.request : Act → Option Nat
  | .receive i _ _ | .accept i | .findOne i _ | .insert i _ _ | .docker i | .updateInstance i
  | .begin i | .commit i _ | .respond i _ | .finish i => some i
  | .instanceWS _ _ | .handleInstance _ _ | .done _ | .restart _ => none

section

variable {J : Type}

/-- A request has moved. -/
def State.put (s : State J) (i : Nat) (pc : Pc J) : State J :=
  { s with requests := fun j => if j = i then pc else s.requests j }

/-- A request writes a response. -/
def State.write (s : State J) (i : Nat) (r : Response) : State J :=
  { s with responses := fun j => if j = i then s.responses i ++ [r] else s.responses j }

/-- A request makes a call. -/
def State.log (s : State J) (i : Nat) (e : Effect) : State J :=
  { s with effects := s.effects ++ [(i, e)] }

/-- A websocket has loaded its instance, or is done with it. -/
def State.hold (s : State J) (t : Nat) (copy : Option (Spec J)) : State J :=
  { s with websockets := fun u => if u = t then copy else s.websockets u }

/-- There is a row with this primary key. -/
def State.has (s : State J) (id : ULID) : Bool := s.specs.any fun row => row.id = id

/-- The specs that are stored: their IDs are a primary key, and their data is what a `jsonb` column
gives back. -/
structure Stored (server : Server J) (specs : List (Spec J)) : Prop where
  nodup : (specs.map (·.id)).Nodup
  jsonb : ∀ row ∈ specs, server.jsonb row.data = row.data

variable (server : Server J)

/-- The row that is inserted for a request. -/
def rowOf (acc : Accepted J) (i : Nat) : Spec J :=
  { id := acc.specID, assignmentName := acc.assignmentName, data := server.jsonb acc.data,
    creator := i }

/-- `specProcessRequest`, up to its query. -/
def State.accept (s : State J) (i : Nat) (route : Route) (body : List UInt8) : State J :=
  match server.accept body with
  | .error r => (s.write i (server.refuse r)).put i .returned
  | .ok acc => s.put i (.finding route acc)

/-- The query of `specProcessRequest`. -/
def State.findOne (s : State J) (i : Nat) (route : Route) (acc : Accepted J) (fails : Bool) :
    State J :=
  if fails then (s.write i (server.refuse .findOne)).put i .returned
  else if s.has acc.specID then s.put i (.working route acc false)
  else s.put i (.inserting route acc)

/-- What the insertion does to the table; the primary key may be taken. -/
def State.inserted (s : State J) (i : Nat) (acc : Accepted J) (fails applied : Bool) : State J :=
  if s.has acc.specID = false ∧ (fails = false ∨ applied = true) then
    { s.log i (.insertSpec acc.specID) with specs := s.specs ++ [rowOf server acc i] }
  else s

/-- The insertion, which is an error then. -/
def State.insert (s : State J) (i : Nat) (route : Route) (acc : Accepted J)
    (fails applied : Bool) : State J :=
  if fails ∨ s.has acc.specID = true then
    ((s.inserted server i acc fails applied).write i (server.refuse .insert)).put i .returned
  else (s.inserted server i acc fails applied).put i (.working route acc false)

/-- The update of a row with all columns of a copy. -/
def State.save (s : State J) (copy : Spec J) : State J :=
  { s with
    specs := s.specs.map fun row =>
      if row.id = copy.id then
        { row with assignmentName := copy.assignmentName, data := server.jsonb copy.data }
      else row }

/-- `specStore.Update` of the copy in the transaction, which saves the instance too. -/
def State.update (s : State J) (i : Nat) (copy : Spec J) : State J :=
  ((s.log i (.updateSpec copy.id)).log i .insertInstance).save server copy

/-- `specPost` and `specClean` respond; the clean-up may go on behind the response. -/
def State.respond (s : State J) (i : Nat) (route : Route) (acc : Accepted J) (ok : Bool) :
    State J :=
  match route with
  | .specPost =>
    (s.write i (if ok then .instanceID else server.refuse .getActiveInstance)).put i .returned
  | .specClean => (s.write i .ok).put i (.working .specClean acc true)

/-- The process has ended, and is started again. -/
def State.restart (s : State J) (reset : Bool) : State J :=
  { s with
    specs := if reset then [] else s.specs
    requests := fun i =>
      match s.requests i with
      | .idle => .idle
      | .returned => .returned
      | _ => .gone
    websockets := fun _ => none }

/-- One step. -/
def step (s : State J) : Act → Option (State J)
  | .receive i route body =>
    match s.requests i with
    | .idle =>
      some { s.put i (.received route body) with
        bodies := fun j => if j = i then some body else s.bodies j }
    | _ => none
  | .accept i =>
    match s.requests i with
    | .received route body => some (s.accept server i route body)
    | _ => none
  | .findOne i fails =>
    match s.requests i with
    | .finding route acc => some (s.findOne server i route acc fails)
    | _ => none
  | .insert i fails applied =>
    match s.requests i with
    | .inserting route acc => some (s.insert server i route acc fails applied)
    | _ => none
  | .docker i =>
    match s.requests i with
    | .working _ _ _ => some (s.log i .docker)
    | _ => none
  | .updateInstance i =>
    match s.requests i with
    | .working .specClean _ _ => some (s.log i .updateInstance)
    | _ => none
  | .begin i =>
    match s.requests i with
    | .working .specPost acc false =>
      (s.specs.find? fun row => row.id = acc.specID).map fun row => s.put i (.updating acc row)
    | _ => none
  | .commit i applied =>
    match s.requests i with
    | .updating acc row =>
      some ((if applied then s.update server i row else s).put i (.working .specPost acc false))
    | _ => none
  | .respond i ok =>
    match s.requests i with
    | .working route acc false => some (s.respond server i route acc ok)
    | _ => none
  | .finish i =>
    match s.requests i with
    | .working .specClean _ true => some (s.put i .returned)
    | _ => none
  | .instanceWS t specID =>
    match s.websockets t with
    | none => (s.specs.find? fun row => row.id = specID).map fun row => s.hold t (some row)
    | some _ => none
  | .handleInstance t applied =>
    match s.websockets t with
    | some copy => some (if applied then s.save server copy else s)
    | none => none
  | .done t =>
    match s.websockets t with
    | some _ => some (s.hold t none)
    | none => none
  | .restart reset => some (s.restart reset)

/-- No request has come in. -/
def State.initial (specs : List (Spec J)) : State J :=
  { specs := specs, effects := [], requests := fun _ => .idle, bodies := fun _ => none,
    responses := fun _ => [], websockets := fun _ => none }

/-- The requests over a table of specs. -/
def specs : System (State J) Act where
  init s := ∃ rows, Stored server rows ∧ s = .initial rows
  step := step server

/-- What the steps do, where they are taken. -/
inductive Next (s : State J) : Act → State J → Prop
  | receive {i : Nat} {route : Route} {body : List UInt8} (hi : s.requests i = .idle) :
    Next s (.receive i route body) { s.put i (.received route body) with
      bodies := fun j => if j = i then some body else s.bodies j }
  | accept {i : Nat} {route : Route} {body : List UInt8}
    (hi : s.requests i = .received route body) :
    Next s (.accept i) (s.accept server i route body)
  | findOne {i : Nat} {route : Route} {acc : Accepted J} {fails : Bool}
    (hi : s.requests i = .finding route acc) :
    Next s (.findOne i fails) (s.findOne server i route acc fails)
  | insert {i : Nat} {route : Route} {acc : Accepted J} {fails applied : Bool}
    (hi : s.requests i = .inserting route acc) :
    Next s (.insert i fails applied) (s.insert server i route acc fails applied)
  | docker {i : Nat} {route : Route} {acc : Accepted J} {responded : Bool}
    (hi : s.requests i = .working route acc responded) : Next s (.docker i) (s.log i .docker)
  | updateInstance {i : Nat} {acc : Accepted J} {responded : Bool}
    (hi : s.requests i = .working .specClean acc responded) :
    Next s (.updateInstance i) (s.log i .updateInstance)
  | begin {i : Nat} {acc : Accepted J} {row : Spec J}
    (hi : s.requests i = .working .specPost acc false) (hrow : row ∈ s.specs) :
    Next s (.begin i) (s.put i (.updating acc row))
  | commit {i : Nat} {acc : Accepted J} {row : Spec J} {applied : Bool}
    (hi : s.requests i = .updating acc row) :
    Next s (.commit i applied)
      ((if applied then s.update server i row else s).put i (.working .specPost acc false))
  | respond {i : Nat} {route : Route} {acc : Accepted J} {ok : Bool}
    (hi : s.requests i = .working route acc false) :
    Next s (.respond i ok) (s.respond server i route acc ok)
  | finish {i : Nat} {acc : Accepted J} (hi : s.requests i = .working .specClean acc true) :
    Next s (.finish i) (s.put i .returned)
  | instanceWS {t : Nat} {specID : ULID} {row : Spec J} (hrow : row ∈ s.specs) :
    Next s (.instanceWS t specID) (s.hold t (some row))
  | handleInstance {t : Nat} {copy : Spec J} {applied : Bool} (ht : s.websockets t = some copy) :
    Next s (.handleInstance t applied) (if applied then s.save server copy else s)
  | done {t : Nat} {copy : Spec J} (ht : s.websockets t = some copy) :
    Next s (.done t) (s.hold t none)
  | restart {reset : Bool} : Next s (.restart reset) (s.restart reset)

/-! ## The invariant -/

/-- The body of a request has been accepted. -/
def AcceptedBy (s : State J) (i : Nat) (acc : Accepted J) : Prop :=
  ∃ body, s.bodies i = some body ∧ server.accept body = .ok acc

/-- What is known of a request where it is. -/
def PcOk (s : State J) (i : Nat) : Pc J → Prop
  | .idle => s.bodies i = none ∧ s.responses i = []
  | .received _ body => s.bodies i = some body ∧ s.responses i = []
  | .finding _ acc | .inserting _ acc => AcceptedBy server s i acc ∧ s.responses i = []
  | .working _ acc responded =>
    AcceptedBy server s i acc ∧ s.responses i = if responded then [.ok] else []
  | .updating acc row => AcceptedBy server s i acc ∧ s.responses i = [] ∧ row ∈ s.specs
  | .returned =>
    ∃ body r, s.bodies i = some body ∧ s.responses i = [r] ∧
      ∀ refusal, server.accept body = .error refusal → r = server.refuse refusal
  | .gone =>
    ∃ body, s.bodies i = some body ∧ (s.responses i).length ≤ 1 ∧
      ∀ refusal, server.accept body = .error refusal → s.responses i = []

/-- A row has been inserted for a request that has been accepted. -/
def Created (s : State J) (row : Spec J) : Prop :=
  (row.creator, .insertSpec row.id) ∈ s.effects ∧
    ∃ acc, AcceptedBy server s row.creator acc ∧ row = rowOf server acc row.creator

/-- What all runs from a table `rows` keep. -/
structure Inv (rows : List (Spec J)) (s : State J) : Prop where
  stored : Stored server s.specs
  created : ∀ row ∈ s.specs, row ∈ rows ∨ Created server s row
  effects : ∀ x ∈ s.effects, ∃ acc, AcceptedBy server s x.1 acc
  requests : ∀ i, PcOk server s i (s.requests i)
  websockets : ∀ t copy, s.websockets t = some copy → copy ∈ s.specs

variable {server} {rows : List (Spec J)} {s s' : State J} {i j : Nat} {acc : Accepted J} {pc : Pc J}
  {row : Spec J} {e : Effect}

theorem inv_initial (h : Stored server rows) : Inv server rows (.initial rows) where
  stored := h
  created _ hrow := .inl hrow
  effects x hx := by cases hx
  requests _ := ⟨rfl, rfl⟩
  websockets t copy ht := by cases ht

/-- What is known of a request does not depend on the others. -/
theorem PcOk.frame (h : PcOk server s j pc) (hbody : s'.bodies j = s.bodies j)
    (hresponses : s'.responses j = s.responses j) (hspecs : ∀ row ∈ s.specs, row ∈ s'.specs) :
    PcOk server s' j pc := by
  have haccepted : ∀ acc, AcceptedBy server s j acc → AcceptedBy server s' j acc :=
    fun acc ⟨body, hb, ha⟩ => ⟨body, hbody.trans hb, ha⟩
  cases pc with
  | idle | received | returned | gone =>
    simp only [PcOk, hbody, hresponses] at h ⊢
    exact h
  | finding route acc | inserting route acc | working route acc responded =>
    simp only [PcOk, hresponses] at h ⊢
    exact ⟨haccepted acc h.1, h.2⟩
  | updating acc row =>
    simp only [PcOk, hresponses] at h ⊢
    exact ⟨haccepted acc h.1, h.2.1, hspecs row h.2.2⟩

theorem Created.frame (h : Created server s row)
    (hbodies : ∀ j body, s.bodies j = some body → s'.bodies j = some body)
    (heffects : ∀ x ∈ s.effects, x ∈ s'.effects) : Created server s' row := by
  obtain ⟨heffect, acc, ⟨body, hbody, haccept⟩, hrow⟩ := h
  exact ⟨heffects _ heffect, acc, ⟨body, hbodies _ _ hbody, haccept⟩, hrow⟩

/-- **A request moves**, and may make calls that have been accepted. -/
theorem Inv.move (h : Inv server rows s) (i : Nat) (hbodies : s'.bodies = s.bodies)
    (hothers : ∀ j, j ≠ i → s'.requests j = s.requests j ∧ s'.responses j = s.responses j)
    (hspecs : s'.specs = s.specs) (hwebsockets : s'.websockets = s.websockets)
    {es : List (Nat × Effect)}
    (heffects : s'.effects = s.effects ++ es)
    (hes : ∀ x ∈ es, x.1 = i ∧ ∃ acc, AcceptedBy server s i acc)
    (hi : PcOk server s' i (s'.requests i)) : Inv server rows s' where
  stored := by rw [hspecs]; exact h.stored
  created row hrow := by
    rw [hspecs] at hrow
    refine (h.created row hrow).imp_right fun hc => hc.frame (fun j body hb => ?_) fun x hx => ?_
    · rw [hbodies]
      exact hb
    · rw [heffects]
      exact List.mem_append_left _ hx
  effects x hx := by
    unfold AcceptedBy
    rw [hbodies]
    rw [heffects] at hx
    rcases List.mem_append.1 hx with hold | hnew
    · exact h.effects x hold
    · obtain ⟨rfl, hacc⟩ := hes x hnew
      exact hacc
  requests j := by
    by_cases hj : j = i
    · rw [hj]
      exact hi
    · rw [(hothers j hj).1]
      exact (h.requests j).frame (congrFun hbodies j) (hothers j hj).2
        fun row hrow => by rw [hspecs]; exact hrow
  websockets t copy ht := by
    rw [hwebsockets] at ht
    rw [hspecs]
    exact h.websockets t copy ht

/-- **A row is inserted** that was not there. -/
theorem Inv.insert (h : Inv server rows s)
    (hjsonb : ∀ v, server.jsonb (server.jsonb v) = server.jsonb v)
    (hacc : AcceptedBy server s i acc) (hfree : s.has acc.specID = false) :
    Inv server rows
      { s.log i (.insertSpec acc.specID) with specs := s.specs ++ [rowOf server acc i] } := by
  have hfree : ∀ row ∈ s.specs, row.id ≠ acc.specID := by simpa [State.has] using hfree
  refine ⟨⟨?_, fun row hrow => ?_⟩, fun row hrow => ?_, fun x hx => ?_, fun j => ?_,
    fun t copy ht => List.mem_append_left _ (h.websockets t copy ht)⟩
  · rw [List.map_append, List.nodup_append]
    refine ⟨h.stored.nodup, List.nodup_singleton _, fun id hid id' hid' => ?_⟩
    obtain ⟨row, hrow, rfl⟩ := List.mem_map.1 hid
    rw [List.map_singleton, List.mem_singleton] at hid'
    rw [hid']
    exact hfree row hrow
  · rcases List.mem_append.1 hrow with hold | hnew
    · exact h.stored.jsonb row hold
    · rw [List.mem_singleton.1 hnew]
      exact hjsonb _
  · rcases List.mem_append.1 hrow with hold | hnew
    · exact (h.created row hold).imp_right fun hc => hc.frame (fun _ _ hb => hb)
        fun x hx => List.mem_append_left _ hx
    · rw [List.mem_singleton.1 hnew]
      exact .inr ⟨List.mem_append_right _ (List.mem_singleton_self _), acc, hacc, rfl⟩
  · rcases List.mem_append.1 hx with hold | hnew
    · exact h.effects x hold
    · rw [List.mem_singleton.1 hnew]
      exact ⟨acc, hacc⟩
  · exact (h.requests j).frame rfl rfl fun row hrow => List.mem_append_left _ hrow

/-- **The update of a row with a copy changes nothing**, if the copy is a row that is there. -/
theorem Stored.save_eq (h : Stored server s.specs) (hrow : row ∈ s.specs) :
    (s.save server row).specs = s.specs := by
  unfold State.save
  refine (List.map_congr_left fun row' hrow' => ?_).trans (List.map_id s.specs)
  split
  · next hid =>
    obtain rfl := List.inj_on_of_nodup_map h.nodup hrow' hrow hid
    rw [h.jsonb row' hrow']
    rfl
  · rfl

/-! ## What each step keeps -/

theorem step_next {act : Act} (h : step server s act = some s') : Next server s act s' := by
  cases act with
  | begin i =>
    simp only [step] at h
    split at h
    · next hi =>
      obtain ⟨row, hrow, rfl⟩ := Option.map_eq_some_iff.1 h
      exact .begin hi (List.mem_of_find?_eq_some hrow)
    · cases h
  | instanceWS t specID =>
    simp only [step] at h
    split at h
    · obtain ⟨row, hrow, rfl⟩ := Option.map_eq_some_iff.1 h
      exact .instanceWS (List.mem_of_find?_eq_some hrow)
    · cases h
  | restart reset => exact Option.some.inj h ▸ .restart
  | handleInstance t applied =>
    simp only [step] at h
    split at h
    · next copy ht => exact Option.some.inj h ▸ .handleInstance ht
    · cases h
  | done t =>
    simp only [step] at h
    split at h
    · next copy ht => exact Option.some.inj h ▸ .done ht
    · cases h
  | receive | accept | findOne | insert | docker | updateInstance | commit | respond | finish =>
    simp only [step] at h
    split at h
    · next hi =>
      obtain rfl := Option.some.inj h
      constructor
      exact hi
    · cases h

theorem put_self : (s.put i pc).requests i = pc := if_pos rfl

theorem write_self (r : Response) : (s.write i r).responses i = s.responses i ++ [r] := if_pos rfl

/-- The steps of a request leave the others where they are. -/
theorem put_other (hj : j ≠ i) : (s.put i pc).requests j = s.requests j := if_neg hj

theorem write_other (r : Response) (hj : j ≠ i) : (s.write i r).responses j = s.responses j :=
  if_neg hj

/-- A request moves without a response. -/
theorem Inv.put (h : Inv server rows s) (hi : PcOk server s i pc) :
    Inv server rows (s.put i pc) := by
  refine h.move i rfl (fun j hj => ⟨put_other hj, rfl⟩) rfl rfl (List.append_nil _).symm
    (List.forall_mem_nil _) ?_
  rw [put_self]
  exact hi.frame rfl rfl fun row hrow => hrow

/-- A request moves with a response. -/
theorem Inv.write (h : Inv server rows s) {r : Response}
    (hi : PcOk server (s.write i r) i pc) : Inv server rows ((s.write i r).put i pc) := by
  refine h.move i rfl (fun j hj => ⟨put_other hj, write_other r hj⟩) rfl rfl (List.append_nil _).symm
    (List.forall_mem_nil _) ?_
  rw [put_self]
  exact hi.frame rfl rfl fun row hrow => hrow

/-- A request returns with its only response; if it has been accepted, this is any. -/
theorem Inv.returned (h : Inv server rows s) (hacc : AcceptedBy server s i acc)
    (hnone : s.responses i = []) (r : Response) :
    Inv server rows ((s.write i r).put i .returned) := by
  obtain ⟨body, hbody, haccept⟩ := hacc
  refine h.write ⟨body, r, hbody, by rw [write_self, hnone]; rfl, fun refusal herror => ?_⟩
  cases haccept.symm.trans herror

/-- A call of a request that has been accepted. -/
theorem Inv.log (h : Inv server rows s) (hacc : AcceptedBy server s i acc) (e : Effect) :
    Inv server rows (s.log i e) :=
  h.move i rfl (fun _ _ => ⟨rfl, rfl⟩) rfl rfl rfl
    (List.forall_mem_singleton.2 ⟨rfl, acc, hacc⟩)
    ((h.requests i).frame rfl rfl fun _ hrow => hrow)

/-- **A request comes in.** -/
theorem Inv.receive (h : Inv server rows s) {route : Route} {body : List UInt8}
    (hidle : s.requests i = .idle) :
    Inv server rows { s.put i (.received route body) with
      bodies := fun j => if j = i then some body else s.bodies j } := by
  have hpc := h.requests i
  rw [hidle] at hpc
  obtain ⟨hnone, hresponses⟩ := hpc
  have hbodies : ∀ j b, s.bodies j = some b →
      (if j = i then some body else s.bodies j) = some b := by
    intro j b hb
    rw [if_neg fun hj => by rw [hj, hnone] at hb; cases hb]
    exact hb
  refine ⟨h.stored, fun row hrow => ?_, fun x hx => ?_, fun j => ?_, h.websockets⟩
  · exact (h.created row hrow).imp_right fun hc => hc.frame hbodies fun x hx => hx
  · obtain ⟨acc, b, hb, haccept⟩ := h.effects x hx
    exact ⟨acc, b, hbodies _ _ hb, haccept⟩
  · by_cases hj : j = i
    · subst hj
      have hself : (s.put j (.received route body)).requests j = .received route body := put_self
      show PcOk server _ j ((s.put j (.received route body)).requests j)
      rw [hself]
      exact ⟨if_pos rfl, hresponses⟩
    · show PcOk server _ j ((s.put i (.received route body)).requests j)
      rw [put_other hj]
      exact (h.requests j).frame (if_neg hj) rfl fun row hrow => hrow

/-- **The process ends**, and with it the requests that have not returned. -/
theorem Inv.restart (h : Inv server rows s) (reset : Bool) : Inv server rows (s.restart reset) := by
  have hsub : ∀ row ∈ (s.restart reset).specs, row ∈ s.specs := by
    intro row hrow
    cases reset with
    | false => exact hrow
    | true => cases hrow
  have hgone : ∀ i acc, AcceptedBy server s i acc → (s.responses i).length ≤ 1 →
      PcOk server (s.restart reset) i .gone := by
    rintro i acc ⟨body, hbody, haccept⟩ hlength
    exact ⟨body, hbody, hlength, fun refusal herror => by cases haccept.symm.trans herror⟩
  refine ⟨⟨?_, fun row hrow => h.stored.jsonb row (hsub row hrow)⟩, fun row hrow => ?_, h.effects,
    fun i => ?_, fun t copy ht => by cases ht⟩
  · cases reset with
    | false => exact h.stored.nodup
    | true => exact List.nodup_nil
  · exact (h.created row (hsub row hrow)).imp_right
      fun hc => hc.frame (fun _ _ hb => hb) fun x hx => hx
  · have hpc := h.requests i
    show PcOk server _ i (match s.requests i with
      | .idle => .idle
      | .returned => .returned
      | _ => .gone)
    cases hi : s.requests i with
    | idle | returned =>
      rw [hi] at hpc
      exact hpc
    | received route body =>
      rw [hi] at hpc
      exact ⟨body, hpc.1, by rw [show (s.restart reset).responses i = [] from hpc.2]; simp,
        fun _ _ => hpc.2⟩
    | finding route acc | inserting route acc =>
      rw [hi] at hpc
      exact hgone i acc hpc.1 (by rw [hpc.2]; simp)
    | working route acc responded =>
      rw [hi] at hpc
      refine hgone i acc hpc.1 ?_
      rw [hpc.2]
      split <;> simp
    | updating acc row =>
      rw [hi] at hpc
      exact hgone i acc hpc.1 (by rw [hpc.2.1]; simp)
    | gone =>
      rw [hi] at hpc
      exact hpc

/-- **`specProcessRequest` up to its query**: what it refuses gets an error, and no call is made. -/
theorem Inv.accept (h : Inv server rows s) {route : Route} {body : List UInt8}
    (hi : s.requests i = .received route body) :
    Inv server rows (s.accept server i route body) := by
  have hpc := h.requests i
  rw [hi] at hpc
  obtain ⟨hbody, hnone⟩ := hpc
  unfold State.accept
  split
  · next r herror =>
    refine h.write ⟨body, _, hbody, by rw [write_self, hnone]; rfl, fun refusal herror' => ?_⟩
    cases herror.symm.trans herror'
    rfl
  · next acc haccept => exact h.put ⟨⟨body, hbody, haccept⟩, hnone⟩

/-- **The query.** -/
theorem Inv.findOne (h : Inv server rows s) {route : Route} {fails : Bool}
    (hi : s.requests i = .finding route acc) :
    Inv server rows (s.findOne server i route acc fails) := by
  have hpc := h.requests i
  rw [hi] at hpc
  obtain ⟨hacc, hnone⟩ := hpc
  unfold State.findOne
  split
  · exact h.returned hacc hnone _
  · split
    · exact h.put ⟨hacc, hnone⟩
    · exact h.put ⟨hacc, hnone⟩

/-- **The insertion.** -/
theorem Inv.insertion (h : Inv server rows s)
    (hjsonb : ∀ v, server.jsonb (server.jsonb v) = server.jsonb v) {route : Route}
    {fails applied : Bool} (hi : s.requests i = .inserting route acc) :
    Inv server rows (s.insert server i route acc fails applied) := by
  have hpc := h.requests i
  rw [hi] at hpc
  obtain ⟨hacc, hnone⟩ := hpc
  have hinserted : Inv server rows (s.inserted server i acc fails applied) ∧
      AcceptedBy server (s.inserted server i acc fails applied) i acc ∧
      (s.inserted server i acc fails applied).responses i = [] := by
    unfold State.inserted
    split
    · next hinserts => exact ⟨h.insert hjsonb hacc hinserts.1, hacc, hnone⟩
    · exact ⟨h, hacc, hnone⟩
  obtain ⟨hinv, hacc, hnone⟩ := hinserted
  unfold State.insert
  split
  · exact hinv.returned hacc hnone _
  · exact hinv.put ⟨hacc, hnone⟩

/-- **A row is updated** with a copy of it. -/
theorem Inv.save (h : Inv server rows s) (hrow : row ∈ s.specs) :
    Inv server rows (s.save server row) := by
  have hspecs := h.stored.save_eq hrow
  have hmem : ∀ row' ∈ s.specs, row' ∈ (s.save server row).specs := fun row' hrow' => by
    rw [hspecs]
    exact hrow'
  refine ⟨hspecs ▸ h.stored, fun row' hrow' => ?_, h.effects,
    fun i => (h.requests i).frame rfl rfl hmem,
    fun t copy ht => hmem copy (h.websockets t copy ht)⟩
  rw [hspecs] at hrow'
  exact (h.created row' hrow').imp_right fun hc => hc.frame (fun _ _ hb => hb) fun x hx => hx

/-- **The transaction.** -/
theorem Inv.update (h : Inv server rows s) (hacc : AcceptedBy server s i acc)
    (hrow : row ∈ s.specs) : Inv server rows (s.update server i row) :=
  ((h.log hacc (.updateSpec row.id)).log hacc .insertInstance).save hrow

/-- **A websocket** loads its instance with a row that is there, or is done. -/
theorem Inv.hold (h : Inv server rows s) {copy : Option (Spec J)}
    (hcopy : ∀ row, copy = some row → row ∈ s.specs) (t : Nat) :
    Inv server rows (s.hold t copy) := by
  refine ⟨h.stored, h.created, h.effects, h.requests, fun u row hu => ?_⟩
  by_cases ht : u = t
  · exact hcopy row ((if_pos ht).symm.trans hu)
  · exact h.websockets u row ((if_neg ht).symm.trans hu)

/-- **Each step** keeps it. -/
theorem Inv.step {act : Act} (h : Inv server rows s)
    (hjsonb : ∀ v, server.jsonb (server.jsonb v) = server.jsonb v)
    (hs : step server s act = some s') : Inv server rows s' := by
  have hpc {i pc} (hi : s.requests i = pc) : PcOk server s i pc := hi ▸ h.requests i
  cases step_next hs with
  | receive hi => exact h.receive hi
  | accept hi => exact h.accept hi
  | findOne hi => exact h.findOne hi
  | insert hi => exact h.insertion hjsonb hi
  | docker hi | updateInstance hi => exact h.log (hpc hi).1 _
  | begin hi hrow =>
    obtain ⟨hacc, hnone⟩ := hpc hi
    exact h.put ⟨hacc, hnone, hrow⟩
  | commit hi =>
    obtain ⟨hacc, hnone, hrow⟩ := hpc hi
    split
    · exact (h.update hacc hrow).put ⟨hacc, hnone⟩
    · exact h.put ⟨hacc, hnone⟩
  | @respond i route acc ok hi =>
    obtain ⟨hacc, hnone⟩ := hpc hi
    cases route with
    | specPost => exact h.returned hacc hnone _
    | specClean => exact h.write ⟨hacc, by rw [write_self, hnone]; rfl⟩
  | finish hi =>
    obtain ⟨⟨body, hbody, haccept⟩, hone⟩ := hpc hi
    exact h.put ⟨body, .ok, hbody, hone, fun refusal herror => by cases haccept.symm.trans herror⟩
  | @instanceWS t specID row hrow => exact h.hold (fun row' heq => Option.some.inj heq ▸ hrow) t
  | @handleInstance t copy applied ht =>
    split
    · exact h.save (h.websockets t copy ht)
    · exact h
  | @done t copy ht => exact h.hold (fun row heq => by cases heq) t
  | restart => exact h.restart _

/-- **Rows stay as they are**, unless the database is reset. -/
theorem Inv.keeps {act : Act} (h : Inv server rows s) (hne : act ≠ .restart true)
    (hs : Specs.step server s act = some s') : ∀ row ∈ s.specs, row ∈ s'.specs := by
  intro row hrow
  cases step_next hs with
  | receive | docker | updateInstance | begin | finish | instanceWS | done => exact hrow
  | @handleInstance t copy applied ht =>
    split
    · rw [h.stored.save_eq (h.websockets t copy ht)]
      exact hrow
    · exact hrow
  | accept =>
    unfold State.accept
    split <;> exact hrow
  | findOne =>
    unfold State.findOne
    split
    · exact hrow
    · split <;> exact hrow
  | @insert i route acc fails applied =>
    have hinserted : row ∈ (s.inserted server i acc fails applied).specs := by
      unfold State.inserted
      split
      · exact List.mem_append_left _ hrow
      · exact hrow
    unfold State.insert
    split <;> exact hinserted
  | @commit i acc copy applied hi =>
    have hpc := h.requests i
    rw [hi] at hpc
    split
    · -- the copy has been read in this transaction
      have hspecs : (s.update server i copy).specs = s.specs := h.stored.save_eq hpc.2.2
      show row ∈ (s.update server i copy).specs
      rw [hspecs]
      exact hrow
    · exact hrow
  | @respond i route acc ok => cases route <;> exact hrow
  | @restart reset =>
    cases reset with
    | false => exact hrow
    | true => exact absurd rfl hne

/-! ## Requests that are not authentic -/

/-- A body that is not authentic is refused. -/
theorem accept_error {body : List UInt8}
    (hnot : ¬ ∃ specID assignmentName data, server.Authentic body specID assignmentName data) :
    ∃ r, server.accept body = .error r := by
  cases haccept : server.accept body with
  | error r => exact ⟨r, rfl⟩
  | ok acc => exact absurd ⟨_, _, _, Server.accept_authentic haccept⟩ hnot

/-- **A request that is refused** is where it came in, or has returned with an error, or has ended
with the process. -/
theorem Inv.refused (h : Inv server rows s) {body : List UInt8} (hbody : s.bodies i = some body)
    {r : Refusal} (herror : server.accept body = .error r) :
    ((∃ route, s.requests i = .received route body) ∧ s.responses i = []) ∨
      (s.requests i = .returned ∧ s.responses i = [server.refuse r]) ∨
      s.requests i = .gone ∧ s.responses i = [] := by
  have hpc := h.requests i
  have hnot : ∀ acc, ¬ AcceptedBy server s i acc := by
    rintro acc ⟨body', hbody', haccept⟩
    cases hbody.symm.trans hbody'
    cases herror.symm.trans haccept
  cases hi : s.requests i with
  | idle =>
    rw [hi] at hpc
    cases hbody.symm.trans hpc.1
  | received route body' =>
    rw [hi] at hpc
    cases hbody.symm.trans hpc.1
    exact .inl ⟨⟨route, rfl⟩, hpc.2⟩
  | finding route acc | inserting route acc | working route acc responded | updating acc row =>
    rw [hi] at hpc
    exact absurd hpc.1 (hnot acc)
  | returned =>
    rw [hi] at hpc
    obtain ⟨body', r', hbody', hone, hrefuse⟩ := hpc
    cases hbody.symm.trans hbody'
    exact .inr (.inl ⟨rfl, by rw [hone, hrefuse r herror]⟩)
  | gone =>
    rw [hi] at hpc
    obtain ⟨body', hbody', -, hnone⟩ := hpc
    cases hbody.symm.trans hbody'
    exact .inr (.inr ⟨rfl, hnone r herror⟩)

/-- **Its only step** writes the error. -/
theorem Inv.refused_step (h : Inv server rows s) {body : List UInt8}
    (hbody : s.bodies i = some body) {r : Refusal} (herror : server.accept body = .error r)
    {act : Act} (hact : act.request = some i) (hs : Specs.step server s act = some s') :
    s' = (s.write i (server.refuse r)).put i .returned := by
  have hwhere := h.refused hbody herror
  cases step_next hs with
  | @accept i route body' hi =>
    cases hact
    rcases hwhere with ⟨⟨route', hi'⟩, -⟩ | ⟨hi', -⟩ | ⟨hi', -⟩
    · cases hi.symm.trans hi'
      rw [State.accept, herror]
    all_goals cases hi.symm.trans hi'
  | instanceWS | handleInstance | done | restart => cases hact
  | receive hi | findOne hi | insert hi | docker hi | updateInstance hi | begin hi | commit hi
  | respond hi | finish hi =>
    -- the request is somewhere else
    cases hact
    rcases hwhere with ⟨⟨route, hi'⟩, -⟩ | ⟨hi', -⟩ | ⟨hi', -⟩ <;> cases hi.symm.trans hi'

theorem inv_of_run {acts : List Act} (hjsonb : ∀ v, server.jsonb (server.jsonb v) = server.jsonb v)
    (hrows : Stored server rows) (h : (specs server).Run System.Any (.initial rows) acts s) :
    Inv server rows s :=
  h.invariant (inv_initial hrows) fun _ _ _ hi _ hs => hi.step hjsonb hs

/-- Rows stay as they are in a run without a reset. -/
theorem Inv.keeps_run {acts : List Act} (h : Inv server rows s)
    (hjsonb : ∀ v, server.jsonb (server.jsonb v) = server.jsonb v)
    (hrun : (specs server).Run (fun _ act => act ≠ .restart true) s acts s')
    (hrow : row ∈ s.specs) : row ∈ s'.specs := by
  have hboth : Inv server rows s' ∧ row ∈ s'.specs :=
    hrun.invariant (I := fun t => Inv server rows t ∧ row ∈ t.specs) ⟨h, hrow⟩
      fun t act t' ht hne hs => ⟨ht.1.step hjsonb hs, ht.1.keeps hne hs row ht.2⟩
  exact hboth.2

end

/-- **Unauthenticated or malformed requests change nothing.** From every table of specs, in every
run of requests and websockets:
a request that has changed the database or called Docker has an authentic body;
of a request whose body is not, the only step writes one error response and changes nothing else;
and every row that has been inserted has a spec ID and an assignment name, those of the authentic
body of the request whose insertion it was, and its data; as long as the database is not reset, the
row stays as it is. -/
theorem requests_gated {J : Type} (server : Server J)
    (hjsonb : ∀ v, server.jsonb (server.jsonb v) = server.jsonb v) (rows : List (Spec J))
    (hrows : Stored server rows) (acts : List Act) (s : State J)
    (h : (specs server).Run System.Any (.initial rows) acts s) :
    (∀ i e, (i, e) ∈ s.effects → ∃ body specID assignmentName data,
      s.bodies i = some body ∧ server.Authentic body specID assignmentName data) ∧
    (∀ i body, s.bodies i = some body →
      (¬ ∃ specID assignmentName data, server.Authentic body specID assignmentName data) →
      ∃ code text,
        (∀ act s', act.request = some i → step server s act = some s' →
          s' = (s.write i (.error code text)).put i .returned) ∧
        ((∃ route s', s.requests i = .received route body ∧ s.responses i = [] ∧
            step server s (.accept i) = some s') ∨
          (s.requests i = .returned ∧ s.responses i = [.error code text]) ∨
          s.requests i = .gone ∧ s.responses i = [])) ∧
    (∀ row ∈ s.specs, row ∈ rows ∨
      row.id ≠ nilULID ∧ row.assignmentName ≠ [] ∧
        (row.creator, .insertSpec row.id) ∈ s.effects ∧ ∃ body data,
          s.bodies row.creator = some body ∧
          server.Authentic body row.id row.assignmentName data ∧ row.data = server.jsonb data) ∧
    ∀ acts' s', (specs server).Run (fun _ act => act ≠ .restart true) s acts' s' →
      ∀ row ∈ s.specs, row ∈ s'.specs := by
  have hinv := inv_of_run hjsonb hrows h
  refine ⟨fun i e he => ?_, fun i body hbody hnot => ?_, fun row hrow => ?_,
    fun acts' s' hrun row hrow => hinv.keeps_run hjsonb hrun hrow⟩
  · obtain ⟨acc, body, hbody, haccept⟩ := hinv.effects _ he
    exact ⟨body, _, _, _, hbody, Server.accept_authentic haccept⟩
  · obtain ⟨r, herror⟩ := accept_error hnot
    obtain ⟨code, text, hrefuse⟩ := refuse_error server r
    refine ⟨code, text, fun act s' hact hs => ?_, ?_⟩
    · rw [← hrefuse]
      exact hinv.refused_step hbody herror hact hs
    · rcases hinv.refused hbody herror with ⟨⟨route, hi⟩, hnone⟩ | ⟨hi, hone⟩ | hgone
      · exact .inl ⟨route, s.accept server i route body, hi, hnone, by simp only [step, hi]⟩
      · exact .inr (.inl ⟨hi, by rw [hone, hrefuse]⟩)
      · exact .inr (.inr hgone)
  · refine (hinv.created row hrow).imp_right fun ⟨heffect, acc, ⟨body, hbody, haccept⟩, hof⟩ => ?_
    have hid : row.id = acc.specID := by rw [hof]; rfl
    have hname : row.assignmentName = acc.assignmentName := by rw [hof]; rfl
    have hdata : row.data = server.jsonb acc.data := by rw [hof]; rfl
    refine ⟨?_, ?_, heffect, body, acc.data, hbody, ?_, hdata⟩
    · rw [hid]
      simpa [isEmpty] using acc.specID_ne
    · rw [hname]
      exact acc.assignmentName_ne
    · rw [hid, hname]
      exact Server.accept_authentic haccept

/-- A server with the constant block of zeros for a cipher, where every spec ID is parsed to 1. -/
def constantServer : Server Unit where
  prim := .constant (List.replicate 16 0) rfl
  aesKey := List.replicate 16 0
  debug := false
  valueInterface _ := some ()
  newULIDFromText _ := some 1
  jsonb := id

/-- A sealed request for the spec `x` of the assignment `a`. -/
def sealedRequest : List UInt8 :=
  marshal (sealedMessage constantServer.prim constantServer.aesKey (List.replicate 16 7)
    (writeObject [] [(Field.specID.key, [0x78]), (Field.assignmentName.key, [0x61])]))

/-- What is sealed in it. -/
theorem unmarshal_sealedRequest :
    constantServer.unmarshal
      (writeObject [] [(Field.specID.key, [0x78]), (Field.assignmentName.key, [0x61])]) =
      some ⟨[0x78], [0x61], none⟩ := by
  have hplain : ∀ kv ∈ [(Field.specID.key, [0x78]), (Field.assignmentName.key, [0x61])],
      (∀ c ∈ kv.1, Base64.Plain c) ∧ ∀ c ∈ kv.2, Base64.Plain c := by
    have hall : [Field.specID.key, [0x78], Field.assignmentName.key, [0x61]].all
        (fun s => s.all fun c => decide (Base64.Plain c)) = true := rfl
    simpa [and_assoc] using hall
  have hparse := parse_writeObject (List.forall_mem_nil _) (List.cons_ne_nil _ _) hplain
    (List.forall_mem_nil _)
  rw [List.append_nil] at hparse
  rw [Server.unmarshal, hparse]
  have hspecID : fieldOf Field.specID.key = some .specID := by decide
  have hname : fieldOf Field.assignmentName.key = some .assignmentName := by decide
  simp [Server.decodeRequest, Server.decodeMember, hspecID, hname, decodeString]

/-- It holds of a run in which a spec is inserted for this request, with an instance, which is
opened. -/
theorem requests_gated_sealed : ∃ s row,
    (specs constantServer).Run System.Any (.initial [])
      [.receive 0 .specPost sealedRequest, .accept 0, .findOne 0 false, .insert 0 false false,
        .docker 0, .begin 0, .commit 0 true, .respond 0 true, .instanceWS 0 1,
        .handleInstance 0 true] s ∧
    s.specs = [row] ∧ s.responses 0 = [.instanceID] ∧ row.id ≠ nilULID := by
  have haccept : constantServer.accept sealedRequest = .ok ⟨1, [0x61], none, rfl, by simp⟩ :=
    Server.accept_sealed (.inl rfl) ⟨List.replicate 16 7, rfl⟩ unmarshal_sealedRequest (by simp)
      (by simp) rfl rfl
  have hreceive : (specs constantServer).Run System.Any (.initial [])
      [.receive 0 .specPost sealedRequest] _ := .single trivial rfl
  have hstep : ∀ s, s.requests 0 = .received .specPost sealedRequest →
      (specs constantServer).step s (.accept 0) =
        some (s.put 0 (.finding .specPost ⟨1, [0x61], none, rfl, by simp⟩)) := by
    intro s hs
    simp only [specs, step, hs, State.accept, haccept]
  have haccepted := hreceive.snoc trivial (hstep _ rfl)
  have hrun := haccepted.trans (show (specs constantServer).Run System.Any _
    [.findOne 0 false, .insert 0 false false, .docker 0, .begin 0, .commit 0 true, .respond 0 true,
      .instanceWS 0 1, .handleInstance 0 true] _ from System.run_of_exec rfl)
  obtain ⟨-, -, hrows, -⟩ := requests_gated constantServer (fun _ => rfl) [] ⟨List.nodup_nil,
    List.forall_mem_nil _⟩ _ _ hrun
  exact ⟨_, _, hrun, rfl, rfl, ((hrows _ (List.mem_singleton_self _)).resolve_left
    List.not_mem_nil).1⟩

end UAssign.Specs

import UAssign.SimpleCrypto.Message

/-!
# Requests for a spec

The first half of `specProcessRequest` of `app/spec.go`: what it makes of a body before it asks the
database. The body is opened with the server's key, the payload is decoded into a `specPostRequest`,
and this has to name a spec and an assignment. Each of the first six exits is a `Refusal`; a body
that is not refused is `Authentic` (`Server.accept_authentic`).
-/

namespace UAssign.SpecRequest

open Json SimpleCrypto

/-! ## `encoding/json` on a request -/

/-- `equalFoldRight`: equal up to the case of letters, where a `k` may also be the kelvin sign and
an `s` the long s. -/
def equalFoldRight : List UInt8 → List UInt8 → Bool
  | [], t => t.isEmpty
  | _ :: _, [] => false
  | sb :: s, tb :: t =>
    if tb < 0x80 then
      (sb = tb || (0x41 ≤ sb &&& 0xDF && sb &&& 0xDF ≤ 0x5A && sb &&& 0xDF = tb &&& 0xDF)) &&
        equalFoldRight s t
    else if sb = 0x73 ∨ sb = 0x53 then
      match tb, t with
      | 0xC5, 0xBF :: t => equalFoldRight s t
      | _, _ => false
    else if sb = 0x6B ∨ sb = 0x4B then
      match tb, t with
      | 0xE2, 0x84 :: 0xAA :: t => equalFoldRight s t
      | _, _ => false
    else false

/-- The fields of a `specPostRequest`. -/
inductive Field where
  | specID
  | assignmentName
  | data
  deriving DecidableEq

/-- The name of a field in the JSON object. -/
def Field.key : Field → List UInt8
  | .specID => ascii "specID"
  | .assignmentName => ascii "assignmentName"
  | .data => ascii "data"

/-- The field an object's key stands for. The names with an `s` are compared by `equalFoldRight`. -/
def fieldOf (key : List UInt8) : Option Field :=
  if key = Field.specID.key then some .specID
  else if key = Field.assignmentName.key then some .assignmentName
  else if key = Field.data.key then some .data
  else if equalFoldRight Field.specID.key key then some .specID
  else if equalFoldRight Field.assignmentName.key key then some .assignmentName
  else if equalFold Field.data.key key then some .data
  else none

/-- `specPostRequest`. An `interface{}` that has been decoded is of type `J`, and may be nil. -/
structure SpecPostRequest (J : Type) where
  specID : List UInt8
  assignmentName : List UInt8
  data : Option J

/-- `kallax.ULID`. -/
abbrev ULID : Type := BitVec 128

/-- `nilULID`. -/
def nilULID : ULID := 0

/-- `ULID.IsEmpty`. -/
def isEmpty (id : ULID) : Bool := id = nilULID

/-- What the server is run with: the primitives, `aesKey` and `config.Debug`; how a JSON value
becomes an `interface{}`, if its numbers are in range; `kallax.NewULIDFromText`; and what comes back
of such a value from a column of type `jsonb`. -/
structure Server (J : Type) where
  prim : Primitives
  aesKey : List UInt8
  debug : Bool
  valueInterface : Value → Option J
  newULIDFromText : List UInt8 → Option ULID
  jsonb : Option J → Option J

section

variable {J : Type}

/-- A JSON value into a `string`; `null` leaves what is there. -/
def decodeString (old : List UInt8) : Value → Option (List UInt8)
  | .null => some old
  | .str s => some s
  | _ => none

/-- A JSON value into an `interface{}`; `null` is nil. -/
def Server.decodeInterface (server : Server J) : Value → Option (Option J)
  | .null => some none
  | v => (server.valueInterface v).map some

/-- A member of a JSON object into a request. -/
def Server.decodeMember (server : Server J) (req : SpecPostRequest J)
    (member : List UInt8 × Value) : Option (SpecPostRequest J) :=
  match fieldOf member.1 with
  | none => some req
  | some .specID =>
    (decodeString req.specID member.2).map fun s => { req with specID := s }
  | some .assignmentName =>
    (decodeString req.assignmentName member.2).map fun s => { req with assignmentName := s }
  | some .data => (server.decodeInterface member.2).map fun v => { req with data := v }

/-- A JSON value into a new request. -/
def Server.decodeRequest (server : Server J) : Value → Option (SpecPostRequest J)
  | .null => some ⟨[], [], none⟩
  | .obj members => members.foldlM server.decodeMember ⟨[], [], none⟩
  | _ => none

/-- `json.Unmarshal` into a new request. -/
def Server.unmarshal (server : Server J) (payload : List UInt8) : Option (SpecPostRequest J) :=
  (parse payload).bind server.decodeRequest

/-! ## Refusals -/

/-- The exits of `specProcessRequest` with an error, and the one of `specPost` behind it. -/
inductive Refusal where
  | decodeJSON (e : Err)
  | unmarshal
  | blankSpecID
  | blankAssignmentName
  | newULID
  | zeroSpecID
  | findOne
  | insert
  | getActiveInstance
  deriving DecidableEq

/-- The body of an error response: a text, or the text of the error itself. -/
inductive Body where
  | text (s : String)
  | error (r : Refusal)
  deriving DecidableEq

/-- A response. The others than errors are the ID of an instance, and `ok`. -/
inductive Response where
  | error (code : Nat) (body : Body)
  | instanceID
  | ok
  deriving DecidableEq

/-- `http.StatusText`, of the two codes in use. -/
def statusText (code : Nat) : String :=
  if code = 400 then "Bad Request" else "Internal Server Error"

/-- `httpError`, with the text of an error. -/
def Server.httpError (server : Server J) (r : Refusal) (code : Nat) : Response :=
  if server.debug then .error code (.error r) else .error code (.text (statusText code))

/-- What each exit writes. -/
def Server.refuse (server : Server J) : Refusal → Response
  | .decodeJSON e => server.httpError (.decodeJSON e) 400
  | .unmarshal => server.httpError .unmarshal 400
  | .blankSpecID => .error 400 (.text "spec ID cannot be blank")
  | .blankAssignmentName => .error 400 (.text "assignment name cannot be blank")
  | .newULID => server.httpError .newULID 400
  | .zeroSpecID => .error 400 (.text "spec ID cannot be all zero")
  | .findOne => server.httpError .findOne 500
  | .insert => server.httpError .insert 500
  | .getActiveInstance => server.httpError .getActiveInstance 500

/-- Each exit writes an error. -/
theorem refuse_error (server : Server J) (r : Refusal) :
    ∃ code body, server.refuse r = .error code body := by
  have hhttp : ∀ r code, ∃ code' body, server.httpError r code = .error code' body := by
    intro r code
    unfold Server.httpError
    split <;> exact ⟨_, _, rfl⟩
  cases r <;> first | exact ⟨_, _, rfl⟩ | exact hhttp _ _

/-! ## Acceptance -/

/-- A request that names a spec and an assignment. -/
structure Accepted (J : Type) where
  specID : ULID
  assignmentName : List UInt8
  data : Option J
  specID_ne : isEmpty specID = false
  assignmentName_ne : assignmentName ≠ []

/-- `specProcessRequest` on a body, up to its query. -/
def Server.accept (server : Server J) (body : List UInt8) : Except Refusal (Accepted J) :=
  match decodeJSONReader server.prim server.aesKey body with
  | .error e => .error (.decodeJSON e)
  | .ok payload =>
    match server.unmarshal payload with
    | none => .error .unmarshal
    | some req =>
      if req.specID = [] then .error .blankSpecID
      else if hname : req.assignmentName = [] then .error .blankAssignmentName
      else
        match server.newULIDFromText req.specID with
        | none => .error .newULID
        | some specID =>
          if hempty : isEmpty specID = true then .error .zeroSpecID
          else .ok ⟨specID, req.assignmentName, req.data, Bool.eq_false_iff.2 hempty, hname⟩

/-- The body is that of an authenticated request for a spec: it decodes to a message whose MAC
verifies under the key, and the payload has a spec ID that can be parsed and is not zero, and an
assignment name. -/
def Server.Authentic (server : Server J) (body : List UInt8) (specID : ULID)
    (assignmentName : List UInt8) (data : Option J) : Prop :=
  ∃ m payload req, decodeStream body = some m ∧
    checkMAC server.prim server.aesKey m.ciphertext m.hmac = true ∧
    decrypt server.prim server.aesKey m.ciphertext = .ok payload ∧
    server.unmarshal payload = some req ∧ server.newULIDFromText req.specID = some specID ∧
    specID ≠ nilULID ∧ req.assignmentName = assignmentName ∧ assignmentName ≠ [] ∧ req.data = data

/-- What `DecodeJSONReader` opens. -/
theorem decodeJSONReader_ok {prim : Primitives} {key body payload : List UInt8}
    (h : decodeJSONReader prim key body = .ok payload) :
    ∃ m, decodeStream body = some m ∧ checkMAC prim key m.ciphertext m.hmac = true ∧
      decrypt prim key m.ciphertext = .ok payload := by
  unfold decodeJSONReader at h
  split at h
  · cases h
  · next m hm =>
    unfold checkAndDecrypt at h
    split at h
    · next hmac => exact ⟨m, hm, hmac, h⟩
    · cases h

/-- **What is accepted is authentic.** -/
theorem Server.accept_authentic {server : Server J} {body : List UInt8} {acc : Accepted J}
    (h : server.accept body = .ok acc) :
    server.Authentic body acc.specID acc.assignmentName acc.data := by
  unfold Server.accept at h
  split at h
  · cases h
  · next payload hpayload =>
    split at h
    · cases h
    · next req hreq =>
      split_ifs at h with hblank hname
      split at h
      · cases h
      · next specID hparse =>
        split_ifs at h with hempty
        cases h
        obtain ⟨m, hm, hmac, hdecrypt⟩ := decodeJSONReader_ok hpayload
        exact ⟨m, payload, req, hm, hmac, hdecrypt, hreq, hparse, by simpa [isEmpty] using hempty,
          rfl, hname, rfl⟩

/-- A request that has been sealed with the key is accepted, if it names a spec and an
assignment. -/
theorem Server.accept_sealed {server : Server J} (hkey : ValidKey server.aesKey) (iv : Iv)
    {payload : List UInt8} {req : SpecPostRequest J} {specID : ULID}
    (hreq : server.unmarshal payload = some req) (hspec : req.specID ≠ [])
    (hname : req.assignmentName ≠ []) (hparse : server.newULIDFromText req.specID = some specID)
    (hne : isEmpty specID = false) :
    server.accept (marshal (sealedMessage server.prim server.aesKey iv.bytes payload)) =
      .ok ⟨specID, req.assignmentName, req.data, hne, hname⟩ := by
  have hopen : decodeJSONReader server.prim server.aesKey
      (marshal (sealedMessage server.prim server.aesKey iv.bytes payload)) = .ok payload :=
    (decodeJSONReader_of (decode_marshal _).2.1).trans (checkAndDecrypt_sealedMessage hkey iv)
  unfold Server.accept
  simp only [hopen, hreq, if_neg hspec, dif_neg hname, hparse]
  rw [dif_neg (Bool.eq_false_iff.1 hne)]

end

end UAssign.SpecRequest

import UAssign.Go.Json
import UAssign.SimpleCrypto.Crypt

/-!
# The sealed message

`pkg/simplecrypto/json.go`: a sealed payload travels as a JSON object with the ciphertext and its
HMAC in base64. Two encoders and two decoders share the format; either decoder opens what either
encoder has sealed, and refuses a message whose HMAC is not that of its ciphertext
(`sealed_message`). They do not agree on a message with something behind it (`decoders_agree_iff`).
-/

namespace UAssign.SimpleCrypto

open Cipher Json

/-! ## `encoding/json` on a message -/

/-- `JSONMessage`. A `nil` slice is the empty one. -/
structure JSONMessage where
  ciphertext : List UInt8
  hmac : List UInt8
  deriving DecidableEq

/-- The fields of the message. -/
inductive Field where
  | ciphertext
  | hmac
  deriving DecidableEq

/-- The name of a field in the JSON object. -/
def Field.key : Field → List UInt8
  | .ciphertext => ascii "ciphertext"
  | .hmac => ascii "hmac"

/-- The message with a field replaced. -/
def JSONMessage.set (m : JSONMessage) (bs : List UInt8) : Field → JSONMessage
  | .ciphertext => { m with ciphertext := bs }
  | .hmac => { m with hmac := bs }

/-- `simpleLetterEqualFold`: equal up to the bit that tells the cases apart. -/
def equalFold (s t : List UInt8) : Bool := s.map (· &&& 0xDF) = t.map (· &&& 0xDF)

/-- The field an object's key stands for: the one of that name, or else of that name in other
cases. -/
def fieldOf (key : List UInt8) : Option Field :=
  if key = Field.ciphertext.key then some .ciphertext
  else if key = Field.hmac.key then some .hmac
  else if equalFold Field.ciphertext.key key then some .ciphertext
  else if equalFold Field.hmac.key key then some .hmac
  else none

/-- A JSON value into a `uint8`; `null` leaves the zero that is there. Where the field has come
before, `encoding/json` fills the slice of the earlier member, whose bytes `null` then leaves; this
reuse is left out. -/
def decodeUint8 : Value → Option UInt8
  | .null => some 0
  | .num lit =>
    let n := lit.foldl (fun n c => n * 10 + (c.toNat - 0x30)) 0
    if lit.all isDigit ∧ n < 256 then some (UInt8.ofNat n) else none
  | _ => none

/-- A JSON value into a `[]byte`: base64 in a string, or an array of numbers. -/
def decodeBytes : Value → Option (List UInt8)
  | .null => some []
  | .str s => Base64.decode s
  | .arr elems => elems.mapM decodeUint8
  | _ => none

/-- A member of a JSON object into a message. Keys that stand for no field are skipped. -/
def decodeMember (m : JSONMessage) (member : List UInt8 × Value) : Option JSONMessage :=
  match fieldOf member.1 with
  | none => some m
  | some f => (decodeBytes member.2).map fun bs => m.set bs f

/-- A JSON value into a new message. -/
def decodeMessage : Value → Option JSONMessage
  | .null => some ⟨[], []⟩
  | .obj members => members.foldlM decodeMember ⟨[], []⟩
  | _ => none

/-- `json.Unmarshal` into a new message. -/
def unmarshal (data : List UInt8) : Option JSONMessage := (parse data).bind decodeMessage

/-- `Decoder.Decode` into a new message, from all that a reader brings. -/
def decodeStream (data : List UInt8) : Option JSONMessage :=
  (readValue data).bind fun v => decodeMessage v.1

/-- The members of a message's JSON object. -/
def JSONMessage.members (m : JSONMessage) : List (List UInt8 × List UInt8) :=
  [(Field.ciphertext.key, Base64.encode m.ciphertext), (Field.hmac.key, Base64.encode m.hmac)]

/-- `json.Marshal` of a message. -/
def marshal (m : JSONMessage) : List UInt8 := writeObject [] m.members

/-- `Encoder.Encode` of a message: a line. -/
def encodeStream (m : JSONMessage) : List UInt8 := marshal m ++ [0x0A]

/-! ## The package's functions -/

section

variable (prim : Primitives)

/-- `DecodeJSON`. -/
def decodeJSON (key data : List UInt8) : Except Err (List UInt8) :=
  match unmarshal data with
  | none => .error .json
  | some m => checkAndDecrypt prim key m.ciphertext m.hmac

/-- `DecodeJSONReader`, of a reader that brings `data`. -/
def decodeJSONReader (key data : List UInt8) : Except Err (List UInt8) :=
  match decodeStream data with
  | none => .error .json
  | some m => checkAndDecrypt prim key m.ciphertext m.hmac

/-- `EncodeJSON`. -/
def encodeJSON (rand : Option Iv) (key payload : List UInt8) : Except Err (List UInt8) := do
  let (ciphertext, hmac) ← encryptAndHMAC prim rand key payload
  return marshal ⟨ciphertext, hmac⟩

/-- `EncodeJSONWriter`: what it writes. -/
def encodeJSONWriter (rand : Option Iv) (key payload : List UInt8) :
    Except Err (List UInt8) := do
  let (ciphertext, hmac) ← encryptAndHMAC prim rand key payload
  return encodeStream ⟨ciphertext, hmac⟩

end

/-! ## The format -/

theorem JSONMessage.members_ne_nil (m : JSONMessage) : m.members ≠ [] := List.cons_ne_nil _ _

/-- The field names and base64 need no escapes. -/
theorem JSONMessage.plain_members (m : JSONMessage) : ∀ kv ∈ m.members,
    (∀ c ∈ kv.1, Base64.Plain c) ∧ ∀ c ∈ kv.2, Base64.Plain c := by
  have hkey : ∀ f : Field, ∀ c ∈ f.key, Base64.Plain c := by
    intro f
    have hall : f.key.all (fun c => decide (Base64.Plain c)) = true := by cases f <;> rfl
    exact fun c hc => of_decide_eq_true (List.all_eq_true.1 hall c hc)
  simp only [members, List.forall_mem_cons]
  exact ⟨⟨hkey _, Base64.plain_encode _⟩, ⟨hkey _, Base64.plain_encode _⟩, nofun⟩

/-- The members of a message, read back. -/
theorem decodeMessage_members (m : JSONMessage) :
    decodeMessage (.obj (m.members.map fun kv => (kv.1, .str kv.2))) = some m := by
  have hc : fieldOf Field.ciphertext.key = some .ciphertext := by decide
  have hh : fieldOf Field.hmac.key = some .hmac := by decide
  simp [decodeMessage, JSONMessage.members, decodeMember, hc, hh, decodeBytes,
    Base64.decode_encode, JSONMessage.set]

section

variable {sp rest : List UInt8} (hsp : ∀ c ∈ sp, isSpace c = true)

include hsp

/-- Whatever space is between its tokens, the next message of a stream is read back. -/
theorem decodeStream_writeObject (m : JSONMessage) :
    decodeStream (writeObject sp m.members ++ rest) = some m := by
  rw [decodeStream, readValue_writeObject hsp m.members_ne_nil m.plain_members]
  exact decodeMessage_members m

/-- The same of a message with nothing but space behind it. -/
theorem unmarshal_writeObject (hrest : ∀ c ∈ rest, isSpace c = true) (m : JSONMessage) :
    unmarshal (writeObject sp m.members ++ rest) = some m := by
  rw [unmarshal, parse_writeObject hsp m.members_ne_nil m.plain_members hrest]
  exact decodeMessage_members m

end

/-- Both decoders read back what both encoders write. -/
theorem decode_marshal (m : JSONMessage) :
    unmarshal (marshal m) = some m ∧ decodeStream (marshal m) = some m ∧
    unmarshal (encodeStream m) = some m ∧ decodeStream (encodeStream m) = some m := by
  have hnil : ∀ c ∈ ([] : List UInt8), isSpace c = true := nofun
  have h₁ := unmarshal_writeObject hnil hnil m
  have h₂ : decodeStream (writeObject [] m.members ++ []) = some m :=
    decodeStream_writeObject hnil m
  rw [List.append_nil] at h₁ h₂
  have hnewline : ∀ c ∈ [(0x0A : UInt8)], isSpace c = true := List.all_eq_true.1 rfl
  exact ⟨h₁, h₂, unmarshal_writeObject hnil hnewline m, decodeStream_writeObject hnil m⟩

section

variable {prim : Primitives} {key payload data : List UInt8} {m : JSONMessage}

/-- The message of a sealed payload. -/
def sealedMessage (prim : Primitives) (key iv payload : List UInt8) : JSONMessage :=
  ⟨sealed prim key iv payload, HMAC prim key (sealed prim key iv payload)⟩

/-- What the encoders put into a message. -/
theorem encryptAndHMAC_eq (hkey : ValidKey key) (iv : Iv) :
    encryptAndHMAC prim (some iv) key payload =
      .ok (sealed prim key iv.bytes payload,
        HMAC prim key (sealed prim key iv.bytes payload)) := by
  simp only [encryptAndHMAC, encrypt_eq hkey, bind, Except.bind]
  rfl

/-- `EncodeJSON` succeeds under a valid key. -/
theorem encodeJSON_eq (hkey : ValidKey key) (iv : Iv) :
    encodeJSON prim (some iv) key payload =
      .ok (marshal (sealedMessage prim key iv.bytes payload)) := by
  simp only [encodeJSON, encryptAndHMAC_eq hkey, bind, Except.bind]
  rfl

/-- So does `EncodeJSONWriter`. -/
theorem encodeJSONWriter_eq (hkey : ValidKey key) (iv : Iv) :
    encodeJSONWriter prim (some iv) key payload =
      .ok (encodeStream (sealedMessage prim key iv.bytes payload)) := by
  simp only [encodeJSONWriter, encryptAndHMAC_eq hkey, bind, Except.bind]
  rfl

/-- A sealed message opens again. -/
theorem checkAndDecrypt_sealedMessage (hkey : ValidKey key) (iv : Iv) :
    checkAndDecrypt prim key (sealedMessage prim key iv.bytes payload).ciphertext
      (sealedMessage prim key iv.bytes payload).hmac = .ok payload := by
  rw [checkAndDecrypt, checkMAC, if_pos (by simp [sealedMessage])]
  exact decrypt_sealed hkey iv.length

/-- `DecodeJSON` on data that holds a message. -/
theorem decodeJSON_of (h : unmarshal data = some m) :
    decodeJSON prim key data = checkAndDecrypt prim key m.ciphertext m.hmac := by
  rw [decodeJSON, h]

/-- `DecodeJSONReader` on a stream that brings a message. -/
theorem decodeJSONReader_of (h : decodeStream data = some m) :
    decodeJSONReader prim key data = checkAndDecrypt prim key m.ciphertext m.hmac := by
  rw [decodeJSONReader, h]

/-- A message with another HMAC than its ciphertext's is refused. -/
theorem checkAndDecrypt_tampered (h : m.hmac ≠ HMAC prim key m.ciphertext) :
    checkAndDecrypt prim key m.ciphertext m.hmac = .error .hmacDoesNotMatch := by
  rw [checkAndDecrypt, checkMAC, if_neg (by simpa using h)]

end

/-- **Sealing and opening.** Under a valid key, whatever the IV and the payload, both encoders
succeed, and both decoders open what they have written to exactly the payload. A message whose HMAC
is not that of its ciphertext is refused by both decoders, under every key and in every form in
which it can be written, its own among them. -/
theorem sealed_message (prim : Primitives) (key payload : List UInt8) (iv : Iv)
    (hkey : ValidKey key) :
    (∃ data, encodeJSON prim (some iv) key payload = .ok data ∧
      decodeJSON prim key data = .ok payload ∧ decodeJSONReader prim key data = .ok payload) ∧
    (∃ data, encodeJSONWriter prim (some iv) key payload = .ok data ∧
      decodeJSON prim key data = .ok payload ∧ decodeJSONReader prim key data = .ok payload) ∧
    ∀ (key : List UInt8) (m : JSONMessage), m.hmac ≠ HMAC prim key m.ciphertext →
      (unmarshal (marshal m) = some m ∧ decodeStream (marshal m) = some m) ∧
      ∀ data,
        (unmarshal data = some m → decodeJSON prim key data = .error .hmacDoesNotMatch) ∧
        (decodeStream data = some m →
          decodeJSONReader prim key data = .error .hmacDoesNotMatch) := by
  obtain ⟨h₁, h₂, h₃, h₄⟩ := decode_marshal (sealedMessage prim key iv.bytes payload)
  have hopen : checkAndDecrypt prim key (sealedMessage prim key iv.bytes payload).ciphertext
      (sealedMessage prim key iv.bytes payload).hmac = .ok payload :=
    checkAndDecrypt_sealedMessage hkey iv
  refine ⟨⟨_, encodeJSON_eq hkey iv, (decodeJSON_of h₁).trans hopen,
    (decodeJSONReader_of h₂).trans hopen⟩, ⟨_, encodeJSONWriter_eq hkey iv,
    (decodeJSON_of h₃).trans hopen, (decodeJSONReader_of h₄).trans hopen⟩, fun key m hm => ?_⟩
  refine ⟨⟨(decode_marshal m).1, (decode_marshal m).2.1⟩, fun data => ⟨fun h => ?_, fun h => ?_⟩⟩
  · exact (decodeJSON_of h).trans (checkAndDecrypt_tampered hm)
  · exact (decodeJSONReader_of h).trans (checkAndDecrypt_tampered hm)

/-- Three bytes under a key of zeros, with the constant block of zeros for a cipher. -/
theorem sealed_message_three :
    ∃ data, encodeJSON (.constant (List.replicate 16 0) rfl) (some ⟨List.replicate 16 7, rfl⟩)
        (List.replicate 16 0) [1, 2, 3] = .ok data ∧
      decodeJSON (.constant (List.replicate 16 0) rfl) (List.replicate 16 0) data =
        .ok [1, 2, 3] := by
  obtain ⟨⟨data, h₁, h₂, -⟩, -⟩ := sealed_message (.constant (List.replicate 16 0) rfl)
    (List.replicate 16 0) [1, 2, 3] ⟨List.replicate 16 7, rfl⟩ (.inl rfl)
  exact ⟨data, h₁, h₂⟩

/-! ## The two decoders -/

/-- Both results are the same payload, or both are errors. -/
def Agree (a b : Except Err (List UInt8)) : Prop :=
  (∃ payload, a = .ok payload ∧ b = .ok payload) ∨ (∃ e, a = .error e) ∧ ∃ e, b = .error e

section

variable {prim : Primitives} {key data rest : List UInt8} {v : Value} {m : JSONMessage}

theorem agree_refl (a : Except Err (List UInt8)) : Agree a a := by
  cases a with
  | ok payload => exact .inl ⟨payload, rfl, rfl⟩
  | error e => exact .inr ⟨⟨e, rfl⟩, e, rfl⟩

theorem agree_error_iff {e : Err} {b : Except Err (List UInt8)} :
    Agree (.error e) b ↔ ¬ ∃ payload, b = .ok payload := by
  cases b <;> simp [Agree]

/-- What `DecodeJSON` makes of the first value and the rest. -/
theorem unmarshal_of_readValue (h : readValue data = some (v, rest)) :
    unmarshal data = if rest.all isSpace then decodeMessage v else none := by
  rw [unmarshal, parse, h]
  dsimp only
  split <;> rfl

/-- `DecodeJSONReader` leaves the rest. -/
theorem decodeStream_of_readValue (h : readValue data = some (v, rest)) :
    decodeStream data = decodeMessage v := by
  rw [decodeStream, h]
  rfl

/-- **When the two decoders agree**: unless something other than space follows a first value that is
a message, authentic under a valid key, and long enough to decrypt. -/
theorem decoders_agree_iff (prim : Primitives) (key data : List UInt8) :
    Agree (decodeJSON prim key data) (decodeJSONReader prim key data) ↔
      ∀ v rest m, readValue data = some (v, rest) → decodeMessage v = some m →
        checkMAC prim key m.ciphertext m.hmac = true → ValidKey key →
        blockSize ≤ m.ciphertext.length → rest.all isSpace = true := by
  cases h : readValue data with
  | none =>
    have hparse : unmarshal data = none := by rw [unmarshal, parse, h]; rfl
    have hstream : decodeStream data = none := by rw [decodeStream, h]; rfl
    rw [decodeJSON, decodeJSONReader, hparse, hstream]
    refine iff_of_true (agree_refl _) ?_
    intro v rest m hread
    cases hread
  | some x =>
    obtain ⟨v, rest⟩ := x
    have hunmarshal := unmarshal_of_readValue h
    have hstream := decodeStream_of_readValue h
    cases hrest : rest.all isSpace with
    | true =>
      rw [hrest, if_pos rfl] at hunmarshal
      rw [decodeJSON, decodeJSONReader, hunmarshal, hstream]
      refine iff_of_true (agree_refl _) ?_
      rintro v' rest' m ⟨⟩ - - - -
      exact hrest
    | false =>
      rw [hrest, if_neg Bool.false_ne_true] at hunmarshal
      rw [decodeJSON, decodeJSONReader, hunmarshal, hstream, agree_error_iff]
      cases hm : decodeMessage v with
      | none =>
        refine iff_of_true (by simp) ?_
        rintro v' rest' m ⟨⟩ hm' - - -
        rw [hm] at hm'
        cases hm'
      | some m =>
        dsimp only
        rw [checkAndDecrypt_isOk_iff]
        constructor
        · rintro hclosed v' rest' m' ⟨⟩ hm' hmac hkey hlen
          cases hm.symm.trans hm'
          exact absurd ⟨hmac, hkey, hlen⟩ hclosed
        · rintro hopen ⟨hmac, hkey, hlen⟩
          have htrue := hopen v rest m rfl hm hmac hkey hlen
          rw [hrest] at htrue
          cases htrue

/-- A sealed message with a byte behind it. -/
theorem decoders_disagree :
    ¬ ∃ prim : Primitives, ∀ key data,
      Agree (decodeJSON prim key data) (decodeJSONReader prim key data) := by
  rintro ⟨prim, h⟩
  let iv : Iv := ⟨List.replicate 16 0, rfl⟩
  let key : List UInt8 := List.replicate 16 0
  let m := sealedMessage prim key iv.bytes [1, 2, 3]
  have hread : readValue (marshal m ++ [0x78]) =
      some (.obj (m.members.map fun kv => (kv.1, .str kv.2)), [0x78]) :=
    readValue_writeObject (List.forall_mem_nil _) m.members_ne_nil m.plain_members
  have hjson : decodeJSON prim key (marshal m ++ [0x78]) = .error .json := by
    rw [decodeJSON, unmarshal_of_readValue hread, if_neg (by decide)]
  have hreader : decodeJSONReader prim key (marshal m ++ [0x78]) = .ok [1, 2, 3] := by
    rw [decodeJSONReader_of ((decodeStream_of_readValue hread).trans (decodeMessage_members m))]
    exact checkAndDecrypt_sealedMessage (.inl rfl) iv
  rcases h key (marshal m ++ [0x78]) with ⟨payload, hok, -⟩ | ⟨-, e, herror⟩
  · rw [hjson] at hok
    cases hok
  · rw [hreader] at herror
    cases herror

end

end UAssign.SimpleCrypto

import UAssign.SimpleCrypto.Message

/-!
# The Python client

`pkg/simplecrypto/simplecrypto.py` writes and reads the same messages, but `AES.new` without a
`segment_size` works on segments of 8 bits where the Go stream works on whole blocks. The two agree
on the first byte only (`python_go_iff`).
-/

namespace UAssign.SimpleCrypto.Python

open Cipher Json

/-- The exceptions of the client's functions. -/
inductive Exn where
  | valueError
  | typeError
  | keyError
  deriving DecidableEq

/-! ## `base64` -/

/-- `binascii.a2b_base64`, with the place in the group of four, the bits left over and the padding
read so far. It skips what is not in the alphabet, and stops at a padding that completes a group. -/
def a2bBase64 (quadPos left pads : Nat) : List UInt8 → Except Exn (List UInt8)
  | [] => if quadPos = 0 then .ok [] else .error .valueError
  | c :: rest =>
    if c = Base64.pad then
      if 2 ≤ quadPos ∧ 4 ≤ quadPos + (pads + 1) then .ok []
      else a2bBase64 quadPos left (if 2 ≤ quadPos then pads + 1 else pads) rest
    else
      match Base64.decodeChar c, quadPos with
      | none, _ => a2bBase64 quadPos left pads rest
      | some d, 0 => a2bBase64 1 d 0 rest
      | some d, 1 =>
        (a2bBase64 2 (d % 16) 0 rest).map fun bs => UInt8.ofNat (left * 4 + d / 16) :: bs
      | some d, 2 =>
        (a2bBase64 3 (d % 4) 0 rest).map fun bs => UInt8.ofNat (left * 16 + d / 4) :: bs
      | some d, _ => (a2bBase64 0 0 0 rest).map fun bs => UInt8.ofNat (left * 64 + d) :: bs

/-- `base64.standard_b64decode` of a value that `json.loads` has given. -/
def standardB64decode : Value → Except Exn (List UInt8)
  | .str s => if s.all (· < 0x80) then a2bBase64 0 0 0 s else .error .valueError
  | _ => .error .typeError

/-! ## The client's functions -/

section

variable (prim : Primitives)

/-- `AES.new(key, AES.MODE_CFB, iv=iv)`. -/
def aesNew (key iv : List UInt8) : Except Exn Block :=
  if ValidKey key ∧ iv.length = blockSize then .ok (prim.aes key) else .error .valueError

/-- The segment size `AES.new` takes by default, in bytes. -/
def segmentSize : Nat := 1

/-- `encrypt`. -/
def encrypt (rand : Iv) (key payload : List UInt8) : Except Exn (List UInt8) := do
  let iv := rand.bytes
  let cipher ← aesNew prim key iv
  return iv ++ CipherFeedback.encrypt (· ^^^ ·) cipher.encrypt segmentSize iv payload

/-- `decrypt`. -/
def decrypt (key ciphertext : List UInt8) : Except Exn (List UInt8) := do
  let iv := ciphertext.take blockSize
  let ciphertext := ciphertext.drop blockSize
  let cipher ← aesNew prim key iv
  return CipherFeedback.decrypt (· ^^^ ·) cipher.encrypt segmentSize iv ciphertext

/-- `hmac`. -/
def hmac (key message : List UInt8) : List UInt8 := prim.hmacSha256 key message

/-- `check_hmac`. -/
def checkHmac (key message h : List UInt8) : Bool := h = hmac prim key message

/-- `encrypt_and_hmac`. -/
def encryptAndHmac (rand : Iv) (key payload : List UInt8) :
    Except Exn (List UInt8 × List UInt8) := do
  let ciphertext ← encrypt prim rand key payload
  return (ciphertext, hmac prim key ciphertext)

/-- `check_and_decrypt`; it returns `None` where the HMAC does not match. -/
def checkAndDecrypt (key ciphertext h : List UInt8) : Except Exn (Option (List UInt8)) :=
  if checkHmac prim key ciphertext h then (decrypt prim key ciphertext).map some else .ok none

/-- `encode_json`. `json.dumps` puts a space behind each separator. -/
def encodeJson (rand : Iv) (key payload : List UInt8) : Except Exn (List UInt8) := do
  let (ciphertext, h) ← encryptAndHmac prim rand key payload
  return writeObject [0x20] (JSONMessage.members ⟨ciphertext, h⟩)

/-- `d[key]`: of two members with the same key, `json.loads` keeps the second. -/
def getItem (d : Value) (key : List UInt8) : Except Exn Value :=
  match d with
  | .obj members =>
    match members.reverse.find? fun m => m.1 = key with
    | some m => .ok m.2
    | none => .error .keyError
  | _ => .error .typeError

/-- `decode_json`. -/
def decodeJson (key data : List UInt8) : Except Exn (Option (List UInt8)) := do
  match parse data with
  | none => throw .valueError
  | some d =>
    let c ← getItem d Field.ciphertext.key
    let ciphertext ← standardB64decode c
    let m ← getItem d Field.hmac.key
    let h ← standardB64decode m
    checkAndDecrypt prim key ciphertext h

end

/-! ## The shared format -/

section

variable {val i left pads : Nat} {rest : List UInt8}

/-- The first digit of a group. -/
theorem a2bBase64_first : a2bBase64 0 left pads (Base64.digit val i :: rest) =
    a2bBase64 1 (val / 64 ^ (3 - i) % 64) 0 rest := by
  simp only [a2bBase64, Base64.decodeChar_digit, Base64.digit_ne_pad, if_false]

/-- The second digit. -/
theorem a2bBase64_second : a2bBase64 1 left pads (Base64.digit val i :: rest) =
    (a2bBase64 2 (val / 64 ^ (3 - i) % 64 % 16) 0 rest).map
      fun bs => UInt8.ofNat (left * 4 + val / 64 ^ (3 - i) % 64 / 16) :: bs := by
  simp only [a2bBase64, Base64.decodeChar_digit, Base64.digit_ne_pad, if_false]

/-- The third digit. -/
theorem a2bBase64_third : a2bBase64 2 left pads (Base64.digit val i :: rest) =
    (a2bBase64 3 (val / 64 ^ (3 - i) % 64 % 4) 0 rest).map
      fun bs => UInt8.ofNat (left * 16 + val / 64 ^ (3 - i) % 64 / 4) :: bs := by
  simp only [a2bBase64, Base64.decodeChar_digit, Base64.digit_ne_pad, if_false]

/-- The fourth digit. -/
theorem a2bBase64_fourth : a2bBase64 3 left pads (Base64.digit val i :: rest) =
    (a2bBase64 0 0 0 rest).map
      fun bs => UInt8.ofNat (left * 64 + val / 64 ^ (3 - i) % 64) :: bs := by
  simp only [a2bBase64, Base64.decodeChar_digit, Base64.digit_ne_pad, if_false]

/-- Padding that completes a group. -/
theorem a2bBase64_pad : a2bBase64 2 left 0 [Base64.pad, Base64.pad] = .ok [] ∧
    a2bBase64 3 left 0 [Base64.pad] = .ok [] := ⟨rfl, rfl⟩

end

/-- The lenient decoder gives back what the encoder was given, too. -/
theorem a2bBase64_encode (bs : List UInt8) : a2bBase64 0 0 0 (Base64.encode bs) = .ok bs := by
  have hlt : ∀ b : UInt8, b.toNat < 256 := fun b => b.toNat_lt
  have hbyte : ∀ (b : UInt8) (n : Nat), n % 256 = b.toNat → UInt8.ofNat n = b := by
    intro b n h
    refine UInt8.toNat_inj.1 ?_
    rw [UInt8.toNat_ofNat', ← h]
  induction bs using Base64.encode.induct with
  | case1 a b c rest ih =>
    have ha := hlt a
    have hb := hlt b
    have hc := hlt c
    rw [Base64.encode, a2bBase64_first, a2bBase64_second, a2bBase64_third, a2bBase64_fourth, ih]
    simp only [Except.map, Nat.sub_zero, Nat.reduceSub, Nat.reducePow, Nat.div_one]
    rw [hbyte a _ (by omega), hbyte b _ (by omega), hbyte c _ (by omega)]
  | case2 a b =>
    have ha := hlt a
    have hb := hlt b
    rw [Base64.encode, a2bBase64_first, a2bBase64_second, a2bBase64_third, a2bBase64_pad.2]
    simp only [Except.map, Nat.sub_zero, Nat.reduceSub, Nat.reducePow]
    rw [hbyte a _ (by omega), hbyte b _ (by omega)]
  | case3 a =>
    have ha := hlt a
    rw [Base64.encode, a2bBase64_first, a2bBase64_second, a2bBase64_pad.1]
    simp only [Except.map, Nat.sub_zero, Nat.reduceSub, Nat.reducePow]
    rw [hbyte a _ (by omega)]
  | case4 => rfl

/-- What the client decodes is what the encoder was given. -/
theorem standardB64decode_encode (bs : List UInt8) :
    standardB64decode (.str (Base64.encode bs)) = .ok bs := by
  have hascii : (Base64.encode bs).all (· < 0x80) = true :=
    List.all_eq_true.2 fun c hc => decide_eq_true (Base64.plain_encode bs c hc).2.1
  rw [standardB64decode, if_pos hascii, a2bBase64_encode]

section

variable {prim : Primitives} {key payload : List UInt8} {iv : Iv}

/-- What the client sends: the IV, and the payload in feedback of single bytes. -/
def sealed (prim : Primitives) (key iv payload : List UInt8) : List UInt8 :=
  iv ++ CipherFeedback.encrypt (· ^^^ ·) (prim.aes key).encrypt segmentSize iv payload

/-- The client's message. -/
def sealedMessage (prim : Primitives) (key iv payload : List UInt8) : JSONMessage :=
  ⟨sealed prim key iv payload, hmac prim key (sealed prim key iv payload)⟩

/-- `encode_json` succeeds under a valid key. -/
theorem encodeJson_eq (hkey : ValidKey key) :
    encodeJson prim iv key payload =
      .ok (writeObject [0x20] (sealedMessage prim key iv.bytes payload).members) := by
  simp only [encodeJson, encryptAndHmac, encrypt, aesNew, if_pos (And.intro hkey iv.length), bind,
    Except.bind]
  rfl

/-- The server reads the client's messages. -/
theorem unmarshal_encodeJson (m : JSONMessage) :
    unmarshal (writeObject [0x20] m.members) = some m := by
  have hnil : ∀ c ∈ ([] : List UInt8), isSpace c = true := nofun
  have hblank : ∀ c ∈ [(0x20 : UInt8)], isSpace c = true := List.all_eq_true.1 rfl
  have h : unmarshal (writeObject [0x20] m.members ++ []) = some m :=
    unmarshal_writeObject hblank hnil m
  rwa [List.append_nil] at h

/-- The client reads the server's messages. -/
theorem decodeJson_marshal (m : JSONMessage) :
    decodeJson prim key (marshal m) = checkAndDecrypt prim key m.ciphertext m.hmac := by
  have hparse : parse (marshal m) = some (.obj (m.members.map fun kv => (kv.1, .str kv.2))) := by
    have hnil : ∀ c ∈ ([] : List UInt8), isSpace c = true := nofun
    have h := parse_writeObject hnil m.members_ne_nil m.plain_members hnil
    rwa [List.append_nil] at h
  have hne : Field.hmac.key ≠ Field.ciphertext.key := by decide
  simp [decodeJson, hparse, getItem, JSONMessage.members, hne, standardB64decode_encode, bind,
    Except.bind]

/-- What the server makes of the client's message. -/
theorem decodeJSON_encodeJson (hkey : ValidKey key) :
    decodeJSON prim key (writeObject [0x20] (sealedMessage prim key iv.bytes payload).members) =
      .ok (CipherFeedback.decrypt (· ^^^ ·) (prim.aes key).encrypt blockSize iv.bytes
        (CipherFeedback.encrypt (· ^^^ ·) (prim.aes key).encrypt segmentSize iv.bytes payload)) := by
  have hmac : checkMAC prim key (sealedMessage prim key iv.bytes payload).ciphertext
      (sealedMessage prim key iv.bytes payload).hmac = true := decide_eq_true rfl
  have hlen : blockSize ≤ (sealed prim key iv.bytes payload).length := by
    rw [sealed, List.length_append, iv.length]; omega
  rw [decodeJSON_of (unmarshal_encodeJson _), SimpleCrypto.checkAndDecrypt, if_pos hmac]
  show SimpleCrypto.decrypt prim key (sealed prim key iv.bytes payload) = _
  rw [decrypt_eq hkey hlen, sealed, List.take_left' iv.length, List.drop_left' iv.length]

/-- What the client makes of the server's message. -/
theorem decodeJson_encodeJSON (hkey : ValidKey key) :
    decodeJson prim key (marshal (SimpleCrypto.sealedMessage prim key iv.bytes payload)) =
      .ok (some (CipherFeedback.decrypt (· ^^^ ·) (prim.aes key).encrypt segmentSize iv.bytes
        (CipherFeedback.encrypt (· ^^^ ·) (prim.aes key).encrypt blockSize iv.bytes payload))) := by
  have hmac : checkHmac prim key (SimpleCrypto.sealedMessage prim key iv.bytes payload).ciphertext
      (SimpleCrypto.sealedMessage prim key iv.bytes payload).hmac = true := decide_eq_true rfl
  rw [decodeJson_marshal, checkAndDecrypt, if_pos hmac]
  show (decrypt prim key (SimpleCrypto.sealed prim key iv.bytes payload)).map some = _
  simp only [decrypt, SimpleCrypto.sealed, List.take_left' iv.length, List.drop_left' iv.length,
    aesNew, if_pos (And.intro hkey iv.length), bind, Except.bind]
  rfl

end

/-! ## Where the modes differ -/

section

variable {E : List UInt8 → List UInt8} {reg text : List UInt8}

/-- Over at most one byte the two modes are the same. -/
theorem encrypt_same (h : text.length ≤ 1) :
    CipherFeedback.encrypt (· ^^^ ·) E segmentSize reg text =
      CipherFeedback.encrypt (· ^^^ ·) E blockSize reg text := by
  have hbyte : text.length ≤ segmentSize := h
  have hblock : text.length ≤ blockSize := Nat.le_trans h (by decide)
  rw [CipherFeedback.encrypt_short (by decide) hbyte,
    CipherFeedback.encrypt_short (by decide) hblock]

/-- A block whose first two bytes differ. -/
def twoBytes : List UInt8 := 0 :: 1 :: List.replicate 14 0

/-- Under a constant block, feedback of single bytes combines each byte with the first one of the
block, -/
theorem bytewise_twoBytes (reg : List UInt8) (p q : UInt8) (rest : List UInt8) :
    (∃ t, CipherFeedback.encrypt (· ^^^ ·) (fun _ => twoBytes) segmentSize reg (p :: q :: rest) =
      (p ^^^ 0) :: (q ^^^ 0) :: t) ∧
    ∃ t, CipherFeedback.decrypt (· ^^^ ·) (fun _ => twoBytes) segmentSize reg (p :: q :: rest) =
      (p ^^^ 0) :: (q ^^^ 0) :: t := by
  have hseg : segmentSize ≠ 0 := by decide
  refine ⟨?_, ?_⟩
  · rw [CipherFeedback.encrypt_step hseg (List.cons_ne_nil _ _)]
    show ∃ t, _ :: CipherFeedback.encrypt _ _ _ _ (q :: rest) = _
    rw [CipherFeedback.encrypt_step hseg (List.cons_ne_nil _ _)]
    exact ⟨_, rfl⟩
  · rw [CipherFeedback.decrypt_step hseg (List.cons_ne_nil _ _)]
    show ∃ t, _ :: CipherFeedback.decrypt _ _ _ _ (q :: rest) = _
    rw [CipherFeedback.decrypt_step hseg (List.cons_ne_nil _ _)]
    exact ⟨_, rfl⟩

/-- and feedback of whole blocks the second byte with the second one. -/
theorem blockwise_twoBytes (reg : List UInt8) (p q : UInt8) (rest : List UInt8) :
    (∃ t, CipherFeedback.encrypt (· ^^^ ·) (fun _ => twoBytes) blockSize reg (p :: q :: rest) =
      (p ^^^ 0) :: (q ^^^ 1) :: t) ∧
    ∃ t, CipherFeedback.decrypt (· ^^^ ·) (fun _ => twoBytes) blockSize reg (p :: q :: rest) =
      (p ^^^ 0) :: (q ^^^ 1) :: t := by
  have hseg : blockSize ≠ 0 := by decide
  refine ⟨?_, ?_⟩
  · rw [CipherFeedback.encrypt_step hseg (List.cons_ne_nil _ _)]
    exact ⟨_, rfl⟩
  · rw [CipherFeedback.decrypt_step hseg (List.cons_ne_nil _ _)]
    exact ⟨_, rfl⟩

/-- Flipping the last bit changes a byte. -/
theorem xor_one_ne (q : UInt8) : q ^^^ 1 ≠ q := by
  intro h
  have h : q ^^^ (q ^^^ 1) = q ^^^ q := congrArg (q ^^^ ·) h
  rw [← UInt8.xor_assoc, UInt8.xor_self, UInt8.zero_xor] at h
  exact absurd h (by decide)

/-- From two bytes on the modes do not undo each other. -/
theorem twoBytes_ne (h : 2 ≤ text.length) :
    CipherFeedback.decrypt (· ^^^ ·) (fun _ => twoBytes) blockSize reg
      (CipherFeedback.encrypt (· ^^^ ·) (fun _ => twoBytes) segmentSize reg text) ≠ text ∧
    CipherFeedback.decrypt (· ^^^ ·) (fun _ => twoBytes) segmentSize reg
      (CipherFeedback.encrypt (· ^^^ ·) (fun _ => twoBytes) blockSize reg text) ≠ text := by
  obtain _ | ⟨p, _ | ⟨q, rest⟩⟩ := text
  · simp at h
  · simp at h
  · refine ⟨fun heq => ?_, fun heq => ?_⟩
    · obtain ⟨t, ht⟩ := (bytewise_twoBytes reg p q rest).1
      obtain ⟨u, hu⟩ := (blockwise_twoBytes reg (p ^^^ 0) (q ^^^ 0) t).2
      rw [ht, hu] at heq
      simp only [List.cons.injEq, UInt8.xor_zero] at heq
      exact xor_one_ne q heq.2.1
    · obtain ⟨t, ht⟩ := (blockwise_twoBytes reg p q rest).1
      obtain ⟨u, hu⟩ := (bytewise_twoBytes reg (p ^^^ 0) (q ^^^ 1) t).2
      rw [ht, hu] at heq
      simp only [List.cons.injEq, UInt8.xor_zero] at heq
      exact xor_one_ne q heq.2.1

end

/-- The server opens what the client has sealed to the payload. -/
def ServerOpens (prim : Primitives) (iv : Iv) (key payload : List UInt8) : Prop :=
  ∃ data, encodeJson prim iv key payload = .ok data ∧ decodeJSON prim key data = .ok payload

/-- The client opens what the server has sealed to the payload. -/
def ClientOpens (prim : Primitives) (iv : Iv) (key payload : List UInt8) : Prop :=
  ∃ data, encodeJSON prim (some iv) key payload = .ok data ∧
    decodeJson prim key data = .ok (some payload)

section

variable {prim : Primitives} {key payload : List UInt8} {iv : Iv}

/-- The server opens the client's message if whole blocks undo single bytes. -/
theorem serverOpens_iff (hkey : ValidKey key) : ServerOpens prim iv key payload ↔
    CipherFeedback.decrypt (· ^^^ ·) (prim.aes key).encrypt blockSize iv.bytes
      (CipherFeedback.encrypt (· ^^^ ·) (prim.aes key).encrypt segmentSize iv.bytes payload) =
        payload := by
  refine ⟨?_, fun h => ⟨_, encodeJson_eq hkey, ?_⟩⟩
  · rintro ⟨data, henc, hdec⟩
    rw [encodeJson_eq hkey] at henc
    cases henc
    rw [decodeJSON_encodeJson hkey] at hdec
    exact Except.ok.inj hdec
  · rw [decodeJSON_encodeJson hkey, h]

/-- The client opens the server's message if single bytes undo whole blocks. -/
theorem clientOpens_iff (hkey : ValidKey key) : ClientOpens prim iv key payload ↔
    CipherFeedback.decrypt (· ^^^ ·) (prim.aes key).encrypt segmentSize iv.bytes
      (CipherFeedback.encrypt (· ^^^ ·) (prim.aes key).encrypt blockSize iv.bytes payload) =
        payload := by
  refine ⟨?_, fun h => ⟨_, encodeJSON_eq hkey iv, ?_⟩⟩
  · rintro ⟨data, henc, hdec⟩
    rw [encodeJSON_eq hkey] at henc
    cases henc
    rw [decodeJson_encodeJSON hkey] at hdec
    exact Option.some.inj (Except.ok.inj hdec)
  · rw [decodeJson_encodeJSON hkey, h]

/-- Payloads of at most one byte get through both ways. -/
theorem opens_short (hkey : ValidKey key) (h : payload.length ≤ 1) :
    ServerOpens prim iv key payload ∧ ClientOpens prim iv key payload := by
  have hblock : ∀ reg, blockSize ≤ ((prim.aes key).encrypt reg).length :=
    fun reg => Nat.le_of_eq ((prim.aes key).length_encrypt reg).symm
  have hbyte : ∀ reg, segmentSize ≤ ((prim.aes key).encrypt reg).length :=
    fun reg => Nat.le_trans (by decide) (hblock reg)
  have hop : ∀ a b : UInt8, (a ^^^ b) ^^^ b = a := fun a b => by
    rw [UInt8.xor_assoc, UInt8.xor_self, UInt8.xor_zero]
  refine ⟨(serverOpens_iff hkey).2 ?_, (clientOpens_iff hkey).2 ?_⟩
  · rw [encrypt_same h]
    exact CipherFeedback.decrypt_encrypt hblock (by decide) hop
  · rw [← encrypt_same h]
    exact CipherFeedback.decrypt_encrypt hbyte (by decide) hop

end

/-- **Only single bytes get through.** Whatever the key and the IV: the server opens what the client
seals under every block function and HMAC just if the payload has at most one byte, and so does the
client what the server seals. -/
theorem python_go_iff (key payload : List UInt8) (iv : Iv) (hkey : ValidKey key) :
    ((∀ prim, ServerOpens prim iv key payload) ↔ payload.length ≤ 1) ∧
    ((∀ prim, ClientOpens prim iv key payload) ↔ payload.length ≤ 1) := by
  refine ⟨⟨fun h => ?_, fun h prim => (opens_short hkey h).1⟩,
    ⟨fun h => ?_, fun h prim => (opens_short hkey h).2⟩⟩
  · refine Nat.le_of_lt_succ (Nat.lt_of_not_le fun hlen => ?_)
    exact (twoBytes_ne hlen).1 ((serverOpens_iff hkey).1 (h (.constant twoBytes rfl)))
  · refine Nat.le_of_lt_succ (Nat.lt_of_not_le fun hlen => ?_)
    exact (twoBytes_ne hlen).2 ((clientOpens_iff hkey).1 (h (.constant twoBytes rfl)))

/-- Two bytes under a key of zeros do not get through either way, one byte does. -/
theorem python_go_two_bytes :
    ¬ (∀ prim, ServerOpens prim ⟨List.replicate 16 7, rfl⟩ (List.replicate 16 0) [1, 2]) ∧
    ¬ (∀ prim, ClientOpens prim ⟨List.replicate 16 7, rfl⟩ (List.replicate 16 0) [1, 2]) ∧
    ∀ prim, ServerOpens prim ⟨List.replicate 16 7, rfl⟩ (List.replicate 16 0) [1] := by
  have h₂ := python_go_iff (List.replicate 16 0) [1, 2] ⟨List.replicate 16 7, rfl⟩ (.inl rfl)
  have h₁ := python_go_iff (List.replicate 16 0) [1] ⟨List.replicate 16 7, rfl⟩ (.inl rfl)
  exact ⟨fun h => absurd (h₂.1.1 h) (by decide), fun h => absurd (h₂.2.1 h) (by decide),
    h₁.1.2 (by decide)⟩

/-- The two sides do not speak the same format: the client's two bytes. -/
theorem python_go_not_all :
    ¬ ∀ (prim : Primitives) (key payload : List UInt8) (iv : Iv), ValidKey key →
      ServerOpens prim iv key payload ∧ ClientOpens prim iv key payload := by
  intro h
  have hkey : ValidKey (List.replicate 16 0) := .inl rfl
  have hopen := (h (.constant twoBytes rfl) (List.replicate 16 0) [1, 2]
    ⟨List.replicate 16 7, rfl⟩ hkey).1
  have hlen : 2 ≤ ([1, 2] : List UInt8).length := by decide
  exact (twoBytes_ne hlen).1 ((serverOpens_iff hkey).1 hopen)

end UAssign.SimpleCrypto.Python

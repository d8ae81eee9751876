import UAssign.Go.Cipher

/-!
# Sealing payloads

`pkg/simplecrypto/simplecrypto.go`: AES in CFB mode, the IV in front of the ciphertext, and an HMAC
over both. The block function and the HMAC are arbitrary functions (`Primitives`); the IV is what
`rand.Reader` gives.
-/

namespace UAssign.SimpleCrypto

open Cipher

/-- The AES block function under a key, and HMAC-SHA256. -/
structure Primitives where
  aes : List UInt8 → Block
  hmacSha256 : List UInt8 → List UInt8 → List UInt8

/-- The block function that ignores its input, with the message for its HMAC. -/
def Primitives.constant (block : List UInt8) (h : block.length = blockSize) : Primitives where
  aes _ := ⟨fun _ => block, fun _ => h⟩
  hmacSha256 _ message := message

/-- An initialisation vector. -/
structure Iv where
  bytes : List UInt8
  length : bytes.length = blockSize

/-- The errors of this package and of what it calls. -/
inductive Err where
  | keySize (n : Nat)
  | rand
  | ciphertextTooShort
  | hmacDoesNotMatch
  | json
  | panic
  deriving DecidableEq

/-- The key lengths of AES-128, AES-192 and AES-256. -/
def ValidKey (key : List UInt8) : Prop := key.length = 16 ∨ key.length = 24 ∨ key.length = 32

instance (key : List UInt8) : Decidable (ValidKey key) := inferInstanceAs (Decidable (_ ∨ _))

section

variable (prim : Primitives)

/-- `aes.NewCipher`. -/
def newCipher (key : List UInt8) : Except Err Block :=
  if ValidKey key then .ok (prim.aes key) else .error (.keySize key.length)

/-- `NewCFBEncrypter` and `NewCFBDecrypter`, of an IV cut to a block. -/
def newStream (b : Block) (iv : List UInt8) (decrypt : Bool) : Except Err Cfb :=
  match newCFB b iv decrypt with
  | some stream => .ok stream
  | none => .error .panic

/-- `Encrypt`. The stream's windows are the ciphertext's and the payload's, side by side. -/
def encrypt (rand : Option Iv) (key payload : List UInt8) : Except Err (List UInt8) := do
  let block ← newCipher prim key
  let ciphertext := List.replicate (blockSize + payload.length) 0
  match rand with
  | none => throw .rand
  | some iv =>
    let ciphertext := write ciphertext 0 iv.bytes
    let stream ← newStream block (window ciphertext 0 blockSize) false
    let mem := (stream.xorKeyStream (ciphertext ++ payload) blockSize
      (blockSize + payload.length) payload.length).2
    return mem.take (blockSize + payload.length)

/-- `Decrypt`, in place: the payload is what stands behind the IV afterwards. -/
def decrypt (key ciphertext : List UInt8) : Except Err (List UInt8) := do
  let block ← newCipher prim key
  if ciphertext.length < blockSize then throw .ciphertextTooShort
  let stream ← newStream block (window ciphertext 0 blockSize) true
  let mem := (stream.xorKeyStream ciphertext blockSize blockSize
    (ciphertext.length - blockSize)).2
  return mem.drop blockSize

/-- `HMAC`. -/
def HMAC (key message : List UInt8) : List UInt8 := prim.hmacSha256 key message

/-- `CheckMAC`. `hmac.Equal` holds of equal byte slices. -/
def checkMAC (key message messageMAC : List UInt8) : Bool := messageMAC = HMAC prim key message

/-- `EncryptAndHMAC`. -/
def encryptAndHMAC (rand : Option Iv) (key payload : List UInt8) :
    Except Err (List UInt8 × List UInt8) := do
  let ciphertext ← encrypt prim rand key payload
  return (ciphertext, HMAC prim key ciphertext)

/-- `CheckAndDecrypt`. -/
def checkAndDecrypt (key ciphertext hmac : List UInt8) : Except Err (List UInt8) :=
  if checkMAC prim key ciphertext hmac then decrypt prim key ciphertext
  else .error .hmacDoesNotMatch

end

section

variable {prim : Primitives} {key payload iv ciphertext : List UInt8}

/-- The ciphertext of a payload: the IV, and the payload in whole-block cipher feedback. -/
def sealed (prim : Primitives) (key iv payload : List UInt8) : List UInt8 :=
  iv ++ CipherFeedback.encrypt (· ^^^ ·) (prim.aes key).encrypt blockSize iv payload

theorem length_sealed (hiv : iv.length = blockSize) :
    (sealed prim key iv payload).length = blockSize + payload.length := by
  have hlen : (CipherFeedback.encrypt (· ^^^ ·) (prim.aes key).encrypt blockSize iv
      payload).length = payload.length :=
    CipherFeedback.length_encrypt
      (fun reg => Nat.le_of_eq ((prim.aes key).length_encrypt reg).symm) (by decide)
  rw [sealed, List.length_append, hiv, hlen]

/-- **`Encrypt`** returns the IV and the ciphertext behind it. -/
theorem encrypt_eq (hkey : ValidKey key) (iv : Iv) :
    encrypt prim (some iv) key payload = .ok (sealed prim key iv.bytes payload) := by
  have hlen := iv.length
  -- the ciphertext before the stream runs: the IV, and zeros
  have hbuf : write (List.replicate (blockSize + payload.length) 0) 0 iv.bytes =
      iv.bytes ++ List.replicate payload.length 0 := by
    simp [write, hlen]
  have hiv : window (iv.bytes ++ List.replicate payload.length 0) 0 blockSize = iv.bytes := by
    rw [window, List.drop_zero, List.take_left' hlen]
  obtain ⟨x, hx, halign, hb, hnext, hdec⟩ :=
    newCFB_aligned (prim.aes key) false hlen
  have hbuflen : (iv.bytes ++ List.replicate payload.length 0).length =
      blockSize + payload.length := by
    rw [List.length_append, hlen, List.length_replicate]
  have hsrc : window (iv.bytes ++ List.replicate payload.length 0 ++ payload)
      (blockSize + payload.length) payload.length = payload := by
    rw [window, List.drop_left' hbuflen, List.take_length]
  have hstream : (x.xorKeyStream (iv.bytes ++ List.replicate payload.length 0 ++ payload) blockSize
      (blockSize + payload.length) payload.length).2 = _ :=
    halign.xorKeyStream_encrypt hdec (Nat.le_refl _)
      (Nat.le_of_eq (by rw [List.length_append, hbuflen]))
  rw [hsrc, hb, hnext] at hstream
  have hclen : (sealed prim key iv.bytes payload).length = blockSize + payload.length :=
    length_sealed hlen
  simp only [encrypt, newCipher, if_pos hkey, hbuf, hiv, newStream, hx, bind, Except.bind, pure,
    Except.pure, hstream]
  congr 1
  rw [write, List.append_assoc iv.bytes, List.take_left' hlen]
  exact List.take_left' hclen

/-- **`Decrypt`** returns the text of the ciphertext behind the IV. -/
theorem decrypt_eq (hkey : ValidKey key) (hlen : blockSize ≤ ciphertext.length) :
    decrypt prim key ciphertext =
      .ok (CipherFeedback.decrypt (· ^^^ ·) (prim.aes key).encrypt blockSize
        (ciphertext.take blockSize) (ciphertext.drop blockSize)) := by
  have hivlen : (window ciphertext 0 blockSize).length = blockSize :=
    length_window (by omega)
  obtain ⟨x, hx, halign, hb, hnext, hdec⟩ :=
    newCFB_aligned (prim.aes key) true hivlen
  have hstream : (x.xorKeyStream ciphertext blockSize blockSize
      (ciphertext.length - blockSize)).2 = _ :=
    halign.xorKeyStream_decrypt hdec (by omega)
  have hsrc : window ciphertext blockSize (ciphertext.length - blockSize) =
      ciphertext.drop blockSize := by
    rw [window, List.take_of_length_le (Nat.le_of_eq List.length_drop)]
  have hiv : window ciphertext 0 blockSize = ciphertext.take blockSize := by
    rw [window, List.drop_zero]
  rw [hsrc, hb, hnext, hiv] at hstream
  have hclen : (CipherFeedback.decrypt (· ^^^ ·) (prim.aes key).encrypt blockSize
      (ciphertext.take blockSize) (ciphertext.drop blockSize)).length =
      (ciphertext.drop blockSize).length :=
    CipherFeedback.length_decrypt
      (fun reg => Nat.le_of_eq ((prim.aes key).length_encrypt reg).symm) (by decide)
  rw [List.length_drop] at hclen
  simp only [decrypt, newCipher, if_pos hkey, newStream, hx, bind, Except.bind, pure,
    Except.pure, hstream, if_neg (show ¬ ciphertext.length < blockSize by omega)]
  congr 1
  have hdrop : ciphertext.drop (blockSize + (ciphertext.length - blockSize)) = [] :=
    List.drop_eq_nil_of_le (by omega)
  rw [write, hclen, hdrop, List.append_nil]
  exact List.drop_left' (by rw [List.length_take]; omega)

/-- **The sealed payload** opens again. -/
theorem decrypt_sealed (hkey : ValidKey key) (hiv : iv.length = blockSize) :
    decrypt prim key (sealed prim key iv payload) = .ok payload := by
  have hlen : (sealed prim key iv payload).length = blockSize + payload.length :=
    length_sealed hiv
  rw [decrypt_eq hkey (by omega), sealed, List.take_left' hiv, List.drop_left' hiv,
    CipherFeedback.decrypt_encrypt
      (fun reg => Nat.le_of_eq ((prim.aes key).length_encrypt reg).symm) (by decide)
      (fun a b => by rw [UInt8.xor_assoc, UInt8.xor_self, UInt8.xor_zero])]

/-- **When `CheckAndDecrypt` succeeds.** -/
theorem checkAndDecrypt_isOk_iff {hmac : List UInt8} :
    (∃ payload, checkAndDecrypt prim key ciphertext hmac = .ok payload) ↔
      checkMAC prim key ciphertext hmac = true ∧ ValidKey key ∧ blockSize ≤ ciphertext.length := by
  unfold checkAndDecrypt
  cases hcheck : checkMAC prim key ciphertext hmac with
  | false => simp
  | true =>
    simp only [if_true, true_and]
    constructor
    · rintro ⟨payload, h⟩
      by_cases hkey : ValidKey key
      · refine ⟨hkey, ?_⟩
        by_contra hlen
        simp [decrypt, newCipher, hkey, not_le.1 hlen, bind, Except.bind, throw, throwThe,
          MonadExceptOf.throw] at h
      · simp [decrypt, newCipher, hkey, bind, Except.bind] at h
    · rintro ⟨hkey, hlen⟩
      exact ⟨_, decrypt_eq hkey hlen⟩

end

end UAssign.SimpleCrypto

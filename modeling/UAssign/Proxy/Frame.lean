import Mathlib

/-!
# Websocket frames

What a server writes: unfragmented and unmasked frames, with the shortest form of the length. A
frame in front of any other bytes can be read back (`parse_encode`), so that a concatenation of
frames is the concatenation of no others (`encodeAll_inj`).
-/

namespace UAssign.Proxy

/-! ## The format -/

/-- The operation codes of the frames that a server writes here. -/
inductive OpCode where
  | text
  | close
  | pong
  deriving DecidableEq

/-- The first byte of a frame, with the bit for the last fragment. -/
def OpCode.byte : OpCode → UInt8
  | .text => 0x81
  | .close => 0x88
  | .pong => 0x8a

/-- The operation code of a first byte. -/
def OpCode.ofByte (b : UInt8) : Option OpCode :=
  if b = 0x81 then some .text
  else if b = 0x88 then some .close
  else if b = 0x8a then some .pong
  else none

/-- A frame. Its length is that of a slice. -/
structure Frame where
  opCode : OpCode
  payload : List UInt8
  bound : payload.length < 2 ^ 63
  deriving DecidableEq

/-- The `k` low bytes of a number, the high one first. -/
def bigEndian : Nat → Nat → List UInt8
  | 0, _ => []
  | k + 1, n => UInt8.ofNat (n / 256 ^ k) :: bigEndian k n

/-- The number that some bytes stand for, the high one first. -/
def ofBigEndian (l : List UInt8) : Nat := l.foldl (fun a b => a * 256 + b.toNat) 0

/-- The length of a payload, in one of its three forms. -/
def lengthBytes (n : Nat) : List UInt8 :=
  if n ≤ 125 then [UInt8.ofNat n]
  else if n < 2 ^ 16 then 126 :: bigEndian 2 n
  else 127 :: bigEndian 8 n

namespace Frame

/-- `WriteHeader`. -/
def header (f : Frame) : List UInt8 := f.opCode.byte :: lengthBytes f.payload.length

/-- The bytes of a frame. -/
def encode (f : Frame) : List UInt8 := f.header ++ f.payload

/-- The bytes of some frames. -/
def encodeAll (fs : List Frame) : List UInt8 := (fs.map encode).flatten

/-- A payload, and what follows it. -/
def parsePayload (op : OpCode) (n : Nat) (l : List UInt8) : Option (Frame × List UInt8) :=
  if h : n ≤ l.length ∧ n < 2 ^ 63 then
    some (⟨op, l.take n, (List.length_take_le n l).trans_lt h.2⟩, l.drop n)
  else none

/-- A payload behind a length of `k` bytes, and what follows it. -/
def parseLong (op : OpCode) (k : Nat) (l : List UInt8) : Option (Frame × List UInt8) :=
  if k ≤ l.length then parsePayload op (ofBigEndian (l.take k)) (l.drop k) else none

/-- The frame that some bytes begin with, and what follows it. -/
def parse : List UInt8 → Option (Frame × List UInt8)
  | first :: length :: l =>
    (OpCode.ofByte first).bind fun op =>
      if length.toNat ≤ 125 then parsePayload op length.toNat l
      else if length = 126 then parseLong op 2 l
      else if length = 127 then parseLong op 8 l
      else none
  | _ => none

end Frame

/-! ## The round trip -/

section

variable {k n : Nat} {l : List UInt8} {f : Frame} {fs gs : List Frame}

@[simp] theorem length_bigEndian : (bigEndian k n).length = k := by
  induction k with
  | zero => rfl
  | succ k ih => rw [bigEndian, List.length_cons, ih]

/-- The digits of a number behind others. -/
theorem foldl_bigEndian (a : Nat) :
    (bigEndian k n).foldl (fun a b => a * 256 + b.toNat) a = a * 256 ^ k + n % 256 ^ k := by
  induction k generalizing a with
  | zero => simp [bigEndian, Nat.mod_one]
  | succ k ih =>
    have hdigit : (UInt8.ofNat (n / 256 ^ k)).toNat = n / 256 ^ k % 256 := UInt8.toNat_ofNat' ..
    rw [bigEndian, List.foldl_cons, ih, hdigit, Nat.mod_pow_succ, Nat.pow_succ]
    ring

/-- A number is read back if it fits. -/
theorem ofBigEndian_bigEndian (h : n < 256 ^ k) : ofBigEndian (bigEndian k n) = n := by
  rw [ofBigEndian, foldl_bigEndian, Nat.zero_mul, Nat.zero_add, Nat.mod_eq_of_lt h]

theorem ofByte_byte (op : OpCode) : OpCode.ofByte op.byte = some op := by
  cases op <;> rfl

/-- A payload is read back. -/
theorem parsePayload_append {op : OpCode} {payload : List UInt8}
    (bound : payload.length < 2 ^ 63) :
    Frame.parsePayload op payload.length (payload ++ l) = some (⟨op, payload, bound⟩, l) := by
  have hlen : payload.length ≤ (payload ++ l).length := by simp
  rw [Frame.parsePayload, dif_pos ⟨hlen, bound⟩]
  simp

/-- So is a payload behind its length. -/
theorem parseLong_append {op : OpCode} {payload : List UInt8} (bound : payload.length < 2 ^ 63)
    (hfit : payload.length < 256 ^ k) :
    Frame.parseLong op k (bigEndian k payload.length ++ (payload ++ l)) =
      some (⟨op, payload, bound⟩, l) := by
  have htake : (bigEndian k payload.length ++ (payload ++ l)).take k =
      bigEndian k payload.length := List.take_left' length_bigEndian
  have hdrop : (bigEndian k payload.length ++ (payload ++ l)).drop k = payload ++ l :=
    List.drop_left' length_bigEndian
  rw [Frame.parseLong, if_pos (by simp), htake, hdrop, ofBigEndian_bigEndian hfit]
  exact parsePayload_append bound

/-- **A frame is read back**, whatever follows it. -/
theorem parse_encode (f : Frame) (l : List UInt8) :
    Frame.parse (f.encode ++ l) = some (f, l) := by
  obtain ⟨op, payload, bound⟩ := f
  have hpayload : Frame.parsePayload op payload.length (payload ++ l) =
      some (⟨op, payload, bound⟩, l) := parsePayload_append bound
  simp only [Frame.encode, Frame.header, lengthBytes, List.cons_append, List.append_assoc]
  split
  · next hshort =>
    have hbyte : (UInt8.ofNat payload.length).toNat = payload.length := by
      rw [UInt8.toNat_ofNat', Nat.mod_eq_of_lt (by omega)]
    simp only [List.cons_append, List.nil_append, Frame.parse, ofByte_byte, Option.bind_some]
    rw [hbyte, if_pos hshort]
    exact hpayload
  · split
    · next hlong =>
      have hfit : payload.length < 256 ^ 2 := hlong.trans_eq (by norm_num)
      simp only [List.cons_append, Frame.parse, ofByte_byte, Option.bind_some]
      rw [if_neg (by decide), if_pos trivial]
      exact parseLong_append bound hfit
    · have hfit : payload.length < 256 ^ 8 := bound.trans (by norm_num)
      simp only [List.cons_append, Frame.parse, ofByte_byte, Option.bind_some]
      rw [if_neg (by decide), if_neg (by decide), if_pos trivial]
      exact parseLong_append bound hfit

@[simp] theorem encodeAll_nil : Frame.encodeAll [] = [] := rfl

@[simp] theorem encodeAll_cons : Frame.encodeAll (f :: fs) = f.encode ++ Frame.encodeAll fs := by
  simp [Frame.encodeAll]

theorem encodeAll_append :
    Frame.encodeAll (fs ++ gs) = Frame.encodeAll fs ++ Frame.encodeAll gs := by
  simp [Frame.encodeAll]

/-- What frames begin with. -/
theorem parse_encodeAll (h : l = Frame.encodeAll fs) (hne : l ≠ []) :
    ∃ f fs', fs = f :: fs' ∧ Frame.parse l = some (f, Frame.encodeAll fs') := by
  cases fs with
  | nil => exact (hne h).elim
  | cons f fs' => exact ⟨f, fs', rfl, by rw [h, encodeAll_cons, parse_encode]⟩

/-- A frame is not empty. -/
theorem encode_ne_nil : f.encode ≠ [] := fun h => by cases h

/-- **The bytes of some frames are those of no others.** -/
theorem encodeAll_inj (h : Frame.encodeAll fs = Frame.encodeAll gs) : fs = gs := by
  induction fs generalizing gs with
  | nil =>
    cases gs with
    | nil => rfl
    | cons g gs =>
      rw [encodeAll_nil, encodeAll_cons] at h
      exact (encode_ne_nil (List.append_eq_nil_iff.1 h.symm).1).elim
  | cons f fs ih =>
    have hne : Frame.encodeAll (f :: fs) ≠ [] := by
      rw [encodeAll_cons]
      exact fun hnil => encode_ne_nil (List.append_eq_nil_iff.1 hnil).1
    obtain ⟨g, gs', rfl, hg⟩ := parse_encodeAll h hne
    rw [encodeAll_cons, parse_encode] at hg
    obtain ⟨rfl, hrest⟩ := Prod.mk.inj (Option.some.inj hg)
    rw [ih hrest]

end

end UAssign.Proxy

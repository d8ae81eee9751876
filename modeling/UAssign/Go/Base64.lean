import Mathlib

/-!
# `encoding/base64`

`StdEncoding`: the alphabet with `+` and `/`, padding with `=`. The decoder skips line breaks, and
does not check the bits a last quantum leaves over. It gives back what the encoder was given
(`decode_encode`).
-/

namespace UAssign.Base64

/-- `=`. -/
def pad : UInt8 := 0x3D

/-- The character of a six-bit number. -/
def encodeChar (n : Nat) : UInt8 :=
  if n < 26 then UInt8.ofNat (0x41 + n)
  else if n < 52 then UInt8.ofNat (0x61 + (n - 26))
  else if n < 62 then UInt8.ofNat (0x30 + (n - 52))
  else if n = 62 then 0x2B
  else 0x2F

/-- The six-bit number of a character, if it has one. -/
def decodeChar (c : UInt8) : Option Nat :=
  if 0x41 ≤ c ∧ c ≤ 0x5A then some (c.toNat - 0x41)
  else if 0x61 ≤ c ∧ c ≤ 0x7A then some (c.toNat - 0x61 + 26)
  else if 0x30 ≤ c ∧ c ≤ 0x39 then some (c.toNat - 0x30 + 52)
  else if c = 0x2B then some 62
  else if c = 0x2F then some 63
  else none

/-- The `i`-th character of the four that encode the 24 bits of `val`. -/
def digit (val i : Nat) : UInt8 := encodeChar (val / 64 ^ (3 - i) % 64)

/-- `Encoding.Encode`. -/
def encode : List UInt8 → List UInt8
  | a :: b :: c :: rest =>
    let val := a.toNat * 65536 + b.toNat * 256 + c.toNat
    digit val 0 :: digit val 1 :: digit val 2 :: digit val 3 :: encode rest
  | [a, b] =>
    let val := a.toNat * 65536 + b.toNat * 256
    [digit val 0, digit val 1, digit val 2, pad]
  | [a] =>
    let val := a.toNat * 65536
    [digit val 0, digit val 1, pad, pad]
  | [] => []

/-- The 24 bits of four six-bit numbers. -/
def quantum (a b c d : Nat) : Nat := a * 262144 + b * 4096 + c * 64 + d

/-- `Encoding.decodeQuantum` over the whole input, line breaks left out. -/
def decodeQuanta : List UInt8 → Option (List UInt8)
  | [] => some []
  | a :: b :: c :: d :: rest =>
    match decodeChar a, decodeChar b with
    | some x, some y =>
      if d = pad then
        if rest ≠ [] then none
        else if c = pad then some [UInt8.ofNat (quantum x y 0 0 / 65536)]
        else (decodeChar c).map fun z =>
          [UInt8.ofNat (quantum x y z 0 / 65536), UInt8.ofNat (quantum x y z 0 / 256)]
      else
        match decodeChar c, decodeChar d with
        | some z, some w => (decodeQuanta rest).map fun bs =>
          UInt8.ofNat (quantum x y z w / 65536) :: UInt8.ofNat (quantum x y z w / 256) ::
            UInt8.ofNat (quantum x y z w) :: bs
        | _, _ => none
    | _, _ => none
  | _ => none

/-- `Encoding.Decode`. -/
def decode (src : List UInt8) : Option (List UInt8) :=
  decodeQuanta (src.filter fun c => c ≠ 0x0A ∧ c ≠ 0x0D)

/-! ## The alphabet -/

/-- A character that stands for itself in a JSON string, and is no line break. -/
def Plain (c : UInt8) : Prop := 0x20 ≤ c ∧ c < 0x80 ∧ c ≠ 0x22 ∧ c ≠ 0x5C

instance (c : UInt8) : Decidable (Plain c) := inferInstanceAs (Decidable (_ ∧ _))

/-- Every six-bit number has a plain character, which is no padding and stands for the number. -/
theorem encodeChar_spec : ∀ n < 64, decodeChar (encodeChar n) = some n ∧
    encodeChar n ≠ pad ∧ Plain (encodeChar n) := by decide

section

variable {val i : Nat}

/-- A digit stands for its six bits. -/
@[simp] theorem decodeChar_digit : decodeChar (digit val i) = some (val / 64 ^ (3 - i) % 64) :=
  (encodeChar_spec _ (Nat.mod_lt _ (by decide))).1

@[simp] theorem digit_ne_pad : digit val i ≠ pad :=
  (encodeChar_spec _ (Nat.mod_lt _ (by decide))).2.1

theorem plain_digit : Plain (digit val i) :=
  (encodeChar_spec _ (Nat.mod_lt _ (by decide))).2.2

theorem plain_pad : Plain pad := by decide

end

/-- What the encoder writes is plain. -/
theorem plain_encode (bs : List UInt8) : ∀ c ∈ encode bs, Plain c := by
  induction bs using encode.induct with
  | case1 a b c rest ih =>
    simp only [encode, List.forall_mem_cons]
    exact ⟨plain_digit, plain_digit, plain_digit, plain_digit, ih⟩
  | case2 a b =>
    simp only [encode, List.forall_mem_cons]
    exact ⟨plain_digit, plain_digit, plain_digit, plain_pad, nofun⟩
  | case3 a =>
    simp only [encode, List.forall_mem_cons]
    exact ⟨plain_digit, plain_digit, plain_pad, plain_pad, nofun⟩
  | case4 => nofun

/-- A plain character is no line break. -/
theorem Plain.not_break {c : UInt8} (h : Plain c) : c ≠ 0x0A ∧ c ≠ 0x0D := by
  refine ⟨?_, ?_⟩ <;> (rintro rfl; exact absurd h (by decide))

/-- Four digits hold all 24 bits. -/
theorem quantum_digits (n : Nat) (h : n < 16777216) :
    quantum (n / 262144 % 64) (n / 4096 % 64) (n / 64 % 64) (n % 64) = n := by
  unfold quantum
  omega

/-- The decoder gives back the bytes of a quantum. -/
theorem decodeQuanta_encode (bs : List UInt8) : decodeQuanta (encode bs) = some bs := by
  have hlt : ∀ b : UInt8, b.toNat < 256 := fun b => b.toNat_lt
  have hbyte : ∀ (b : UInt8) (n : Nat), n % 256 = b.toNat → UInt8.ofNat n = b := by
    intro b n h
    refine UInt8.toNat_inj.1 ?_
    rw [UInt8.toNat_ofNat', ← h]
  induction bs using encode.induct with
  | case1 a b c rest ih =>
    have ha := hlt a
    have hb := hlt b
    have hc := hlt c
    have hq := quantum_digits (a.toNat * 65536 + b.toNat * 256 + c.toNat) (by omega)
    simp only [encode, decodeQuanta, decodeChar_digit, digit_ne_pad, if_false, ih, Option.map_some,
      Nat.sub_zero, Nat.reduceSub, Nat.reducePow, Nat.div_one, Nat.pow_zero, hq]
    rw [hbyte a _ (by omega), hbyte b _ (by omega), hbyte c _ (by omega)]
  | case2 a b =>
    have ha := hlt a
    have hb := hlt b
    simp only [encode, decodeQuanta, decodeChar_digit, digit_ne_pad, if_false, if_true,
      Option.map_some, Nat.sub_zero, Nat.reduceSub, Nat.reducePow, ne_eq, not_true_eq_false,
      quantum]
    rw [hbyte a _ (by omega), hbyte b _ (by omega)]
  | case3 a =>
    have ha := hlt a
    simp only [encode, decodeQuanta, decodeChar_digit, if_false, if_true, Nat.sub_zero,
      Nat.reduceSub, Nat.reducePow, ne_eq, not_true_eq_false, quantum]
    rw [hbyte a _ (by omega)]
  | case4 => rfl

/-- **Decoding undoes encoding.** -/
theorem decode_encode (bs : List UInt8) : decode (encode bs) = some bs := by
  have hfilter : (encode bs).filter (fun c => c ≠ 0x0A ∧ c ≠ 0x0D) = encode bs := by
    refine List.filter_eq_self.2 fun c hc => ?_
    simpa using (plain_encode bs c hc).not_break
  rw [decode, hfilter, decodeQuanta_encode]

end UAssign.Base64

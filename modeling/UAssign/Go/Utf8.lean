import Mathlib

/-!
# UTF-8 at the level of bytes

`decodeRune` and `fullRune` are the functions of that name in Go's `unicode/utf8`, over a list of
bytes. Two facts make them usable on a stream that arrives in pieces: a full rune decodes the same
whatever bytes follow it (`decodeRune_append`), and a list without a full rune is shorter than four
bytes (`length_of_not_fullRune`). `decodeRune_valid` ties the decoder to Lean's own encoder: a rune
of more than one byte is the encoding of a scalar value.
-/

namespace UAssign.Utf8

/-- A byte sequence is valid UTF-8 when it is the encoding of a list of scalar values. -/
def Valid (bs : List UInt8) : Prop :=
  ∃ cs : List Char, bs = cs.flatMap String.utf8EncodeChar

/-- The empty sequence is valid. -/
theorem Valid.nil : Valid [] := ⟨[], rfl⟩

/-- Valid sequences concatenate. -/
theorem Valid.append {bs cs : List UInt8} (hb : Valid bs) (hc : Valid cs) : Valid (bs ++ cs) := by
  obtain ⟨us, rfl⟩ := hb
  obtain ⟨vs, rfl⟩ := hc
  exact ⟨us ++ vs, by simp⟩

/-- The encoding of one scalar value is valid. -/
theorem valid_encodeChar (c : Char) : Valid (String.utf8EncodeChar c) := ⟨[c], by simp⟩

/-- `utf8.RuneError`, the replacement character. -/
def runeError : Nat := 0xFFFD

/-- The encoding of `utf8.RuneError`, `errorRune` in `bufio`. -/
def errorRune : List UInt8 := [0xEF, 0xBF, 0xBD]

/-- The replacement character is a scalar value. -/
theorem valid_errorRune : Valid errorRune := by
  have h : errorRune = String.utf8EncodeChar '\uFFFD' := by decide
  rw [h]
  exact valid_encodeChar _

/-! ## Decoding one rune -/

/-- What the first byte of a sequence announces: the table `first` with its index into
`acceptRanges` resolved. A leading byte gives the length of the sequence and the range of its
second byte. -/
inductive First where
  | ascii
  | invalid
  | lead (size : Nat) (lo hi : UInt8)
  deriving DecidableEq

/-- The table `first`. -/
def first (b : UInt8) : First :=
  if b < 0x80 then .ascii
  else if b < 0xC2 then .invalid
  else if b < 0xE0 then .lead 2 0x80 0xBF
  else if b = 0xE0 then .lead 3 0xA0 0xBF
  else if b < 0xED then .lead 3 0x80 0xBF
  else if b = 0xED then .lead 3 0x80 0x9F
  else if b < 0xF0 then .lead 3 0x80 0xBF
  else if b = 0xF0 then .lead 4 0x90 0xBF
  else if b < 0xF4 then .lead 4 0x80 0xBF
  else if b = 0xF4 then .lead 4 0x80 0x8F
  else .invalid

/-- The byte lies in an accept range. -/
def within (lo hi b : UInt8) : Bool := lo ≤ b && b ≤ hi

/-- A continuation byte, `locb ≤ b ≤ hicb`. -/
def isCont (b : UInt8) : Bool := within 0x80 0xBF b

/-- `utf8.DecodeRune`: the first rune and its width in bytes; width `1` with `runeError` is an
encoding error, width `0` an empty input. -/
def decodeRune : List UInt8 → Nat × Nat
  | [] => (runeError, 0)
  | p0 :: p =>
    match first p0 with
    | .ascii => (p0.toNat, 1)
    | .invalid => (runeError, 1)
    | .lead size lo hi =>
      match size, p with
      | 2, b1 :: _ =>
        if within lo hi b1 then (p0.toNat % 32 * 64 + b1.toNat % 64, 2) else (runeError, 1)
      | 3, b1 :: b2 :: _ =>
        if within lo hi b1 && isCont b2 then
          (p0.toNat % 16 * 4096 + b1.toNat % 64 * 64 + b2.toNat % 64, 3)
        else (runeError, 1)
      | 4, b1 :: b2 :: b3 :: _ =>
        if within lo hi b1 && isCont b2 && isCont b3 then
          (p0.toNat % 8 * 262144 + b1.toNat % 64 * 4096 + b2.toNat % 64 * 64 + b3.toNat % 64, 4)
        else (runeError, 1)
      | _, _ => (runeError, 1)

/-- `utf8.FullRune`: whether the bytes begin with a full encoding of a rune. An invalid encoding
is full, since it decodes to an error rune of width 1. -/
def fullRune : List UInt8 → Bool
  | [] => false
  | p0 :: p =>
    match first p0 with
    | .ascii => true
    | .invalid => true
    | .lead size lo hi =>
      if size ≤ p.length + 1 then true
      else match p with
        | [] => false
        | [b1] => !within lo hi b1
        | b1 :: b2 :: _ => !within lo hi b1 || !isCont b2

/-- What an entry of the table says of the length. -/
def First.Sized : First → Prop
  | .lead size _ _ => size = 2 ∨ size = 3 ∨ size = 4
  | _ => True

/-- Either of two entries. -/
theorem sized_ite {c : Prop} [Decidable c] {x y : First} (hx : x.Sized) (hy : y.Sized) :
    (if c then x else y).Sized := by
  split
  · exact hx
  · exact hy

/-- All entries say the same. -/
theorem sized_first (b : UInt8) : (first b).Sized := by
  have two : ∀ {lo hi}, (First.lead 2 lo hi).Sized := .inl rfl
  have three : ∀ {lo hi}, (First.lead 3 lo hi).Sized := .inr (.inl rfl)
  have four : ∀ {lo hi}, (First.lead 4 lo hi).Sized := .inr (.inr rfl)
  unfold first
  exact sized_ite trivial <| sized_ite trivial <| sized_ite two <| sized_ite three <|
    sized_ite three <| sized_ite three <| sized_ite three <| sized_ite four <| sized_ite four <|
    sized_ite four trivial

/-- A leading byte announces two, three or four bytes. -/
theorem first_lead {b : UInt8} {size : Nat} {lo hi : UInt8} (h : first b = .lead size lo hi) :
    size = 2 ∨ size = 3 ∨ size = 4 := by
  have hsized := sized_first b
  rw [h] at hsized
  exact hsized

/-- The width stays inside the input. -/
theorem width_le_length (p : List UInt8) : (decodeRune p).2 ≤ p.length := by
  unfold decodeRune
  repeat' split
  all_goals simp

/-- A list without a full rune is a proper prefix of an encoding: at most three bytes. -/
theorem length_of_not_fullRune {p : List UInt8} (h : fullRune p = false) : p.length ≤ 3 := by
  cases p with
  | nil => simp
  | cons p0 p =>
    unfold fullRune at h
    cases hf : first p0 with
    | ascii | invalid => simp [hf] at h
    | lead size lo hi =>
      simp only [hf] at h
      split at h
      · cases h
      · rcases first_lead hf with rfl | rfl | rfl <;> simp only [List.length_cons] <;> omega

/-- **Prefix stability.** A full rune decodes the same whatever follows it. -/
theorem decodeRune_append {p : List UInt8} (h : fullRune p = true) (q : List UInt8) :
    decodeRune (p ++ q) = decodeRune p := by
  cases p with
  | nil => cases h
  | cons p0 p =>
    unfold fullRune at h
    cases hf : first p0 with
    | ascii | invalid => simp [decodeRune, hf]
    | lead size lo hi =>
      rcases first_lead hf with rfl | rfl | rfl
      · rcases p with _ | ⟨b1, p⟩
        · simp [hf] at h
        · simp [decodeRune, hf]
      · rcases p with _ | ⟨b1, _ | ⟨b2, p⟩⟩
        · simp [hf] at h
        · simp only [hf] at h
          rcases q with _ | ⟨b2, q⟩ <;> simp_all [decodeRune]
        · simp [decodeRune, hf]
      · rcases p with _ | ⟨b1, _ | ⟨b2, _ | ⟨b3, p⟩⟩⟩
        · simp [hf] at h
        · rcases q with _ | ⟨b2, _ | ⟨b3, q⟩⟩ <;> simp_all [decodeRune]
        · rcases q with _ | ⟨b3, q⟩
          · simp
          · simp only [hf, List.length_cons, List.length_nil] at h
            simp only [Nat.reduceAdd, Nat.reduceLeDiff, if_false, Bool.or_eq_true,
              Bool.not_eq_true'] at h
            rcases h with h | h <;> simp [decodeRune, hf, h]
        · simp [decodeRune, hf]

/-- A rune wider than one byte is a full one. -/
theorem fullRune_of_width {p : List UInt8} (h : 1 < (decodeRune p).2) : fullRune p = true := by
  cases p with
  | nil => simp [decodeRune] at h
  | cons p0 p =>
    cases hf : first p0 with
    | ascii | invalid => simp [fullRune, hf]
    | lead size lo hi =>
      rcases first_lead hf with rfl | rfl | rfl
      · rcases p with _ | ⟨b1, p⟩
        · simp [decodeRune, hf] at h
        · simp [fullRune, hf]
      · rcases p with _ | ⟨b1, _ | ⟨b2, p⟩⟩
        · simp [decodeRune, hf] at h
        · simp [decodeRune, hf] at h
        · simp [fullRune, hf]
      · rcases p with _ | ⟨b1, _ | ⟨b2, _ | ⟨b3, p⟩⟩⟩
        · simp [decodeRune, hf] at h
        · simp [decodeRune, hf] at h
        · simp [decodeRune, hf] at h
        · simp [fullRune, hf]

/-- A rune wider than one byte decodes the same from any prefix that holds it. -/
theorem decodeRune_take {p0 : UInt8} {p : List UInt8} {k : Nat}
    (h : 1 < (decodeRune (p0 :: p)).2) (hk : (decodeRune (p0 :: p)).2 ≤ k + 1) :
    decodeRune (p0 :: p.take k) = decodeRune (p0 :: p) := by
  cases hf : first p0 with
  | ascii | invalid => simp [decodeRune, hf] at h
  | lead size lo hi =>
    rcases first_lead hf with rfl | rfl | rfl
    · rcases p with _ | ⟨b1, p⟩
      · simp
      · obtain ⟨k, rfl⟩ : ∃ m, k = m + 1 := ⟨k - 1, by omega⟩
        simp [decodeRune, hf]
    · rcases p with _ | ⟨b1, _ | ⟨b2, p⟩⟩
      · simp
      · simp [decodeRune, hf] at h
      · simp only [decodeRune, hf] at h hk
        split at h
        · next hw =>
          rw [if_pos hw] at hk
          obtain ⟨k, rfl⟩ : ∃ m, k = m + 2 := ⟨k - 2, by simp only at hk; omega⟩
          simp [decodeRune, hf]
        · simp at h
    · rcases p with _ | ⟨b1, _ | ⟨b2, _ | ⟨b3, p⟩⟩⟩
      · simp
      · simp [decodeRune, hf] at h
      · simp [decodeRune, hf] at h
      · simp only [decodeRune, hf] at h hk
        split at h
        · next hw =>
          rw [if_pos hw] at hk
          obtain ⟨k, rfl⟩ : ∃ m, k = m + 3 := ⟨k - 3, by simp only at hk; omega⟩
          simp [decodeRune, hf]
        · simp at h

/-! ## Decoded runes are scalar values -/

/-- The bytes that lead no sequence. -/
theorem first_not_lead {b : UInt8} (h : b.toNat < 0xC2 ∨ 0xF4 < b.toNat) :
    first b = .ascii ∨ first b = .invalid := by
  unfold first
  simp only [UInt8.lt_iff_toNat_lt, ← UInt8.toNat_inj, UInt8.reduceToNat]
  by_cases h₁ : b.toNat < 0x80
  · exact .inl (if_pos h₁)
  · rw [if_neg h₁]
    by_cases h₂ : b.toNat < 0xC2
    · exact .inr (if_pos h₂)
    · rw [if_neg h₂, if_neg (by omega), if_neg (by omega), if_neg (by omega), if_neg (by omega),
        if_neg (by omega), if_neg (by omega), if_neg (by omega), if_neg (by omega)]
      exact .inr rfl

/-- The leading bytes of two-byte sequences. -/
theorem first_two {b : UInt8} (h : 0xC2 ≤ b.toNat) (h' : b.toNat < 0xE0) :
    first b = .lead 2 0x80 0xBF := by
  unfold first
  simp only [UInt8.lt_iff_toNat_lt, ← UInt8.toNat_inj, UInt8.reduceToNat]
  rw [if_neg (by omega), if_neg (by omega), if_pos h']

/-- The leading bytes of three-byte sequences, with the range of the second byte. -/
theorem first_three {b : UInt8} (h : 0xE0 ≤ b.toNat) (h' : b.toNat < 0xF0) :
    first b = .lead 3 (if b.toNat = 0xE0 then 0xA0 else 0x80)
      (if b.toNat = 0xED then 0x9F else 0xBF) := by
  unfold first
  simp only [UInt8.lt_iff_toNat_lt, ← UInt8.toNat_inj, UInt8.reduceToNat]
  rw [if_neg (by omega), if_neg (by omega), if_neg (by omega)]
  by_cases h₁ : b.toNat = 0xE0
  · rw [if_pos h₁, if_pos h₁, if_neg (by omega)]
  · rw [if_neg h₁, if_neg h₁]
    by_cases h₂ : b.toNat < 0xED
    · rw [if_pos h₂, if_neg (by omega)]
    · rw [if_neg h₂]
      by_cases h₃ : b.toNat = 0xED
      · rw [if_pos h₃, if_pos h₃]
      · rw [if_neg h₃, if_neg h₃, if_pos h']

/-- The leading bytes of four-byte sequences, with the range of the second byte. -/
theorem first_four {b : UInt8} (h : 0xF0 ≤ b.toNat) (h' : b.toNat ≤ 0xF4) :
    first b = .lead 4 (if b.toNat = 0xF0 then 0x90 else 0x80)
      (if b.toNat = 0xF4 then 0x8F else 0xBF) := by
  unfold first
  simp only [UInt8.lt_iff_toNat_lt, ← UInt8.toNat_inj, UInt8.reduceToNat]
  rw [if_neg (by omega), if_neg (by omega), if_neg (by omega), if_neg (by omega),
    if_neg (by omega), if_neg (by omega), if_neg (by omega)]
  by_cases h₁ : b.toNat = 0xF0
  · rw [if_pos h₁, if_pos h₁, if_neg (by omega)]
  · rw [if_neg h₁, if_neg h₁]
    by_cases h₂ : b.toNat < 0xF4
    · rw [if_pos h₂, if_neg (by omega)]
    · rw [if_neg h₂, if_pos (by omega), if_pos (by omega)]

/-- What the ranges of a leading byte say of its value. -/
theorem first_lead_range {b : UInt8} {size : Nat} {lo hi : UInt8} (h : first b = .lead size lo hi) :
    (size = 2 ∧ 0xC2 ≤ b.toNat ∧ b.toNat < 0xE0 ∧ lo = 0x80 ∧ hi = 0xBF) ∨
    (size = 3 ∧ 0xE0 ≤ b.toNat ∧ b.toNat < 0xF0 ∧ 0x80 ≤ lo.toNat ∧ hi.toNat ≤ 0xBF ∧
      (b.toNat = 0xE0 → lo = 0xA0) ∧ (b.toNat = 0xED → hi = 0x9F)) ∨
    (size = 4 ∧ 0xF0 ≤ b.toNat ∧ b.toNat ≤ 0xF4 ∧ 0x80 ≤ lo.toNat ∧ hi.toNat ≤ 0xBF ∧
      (b.toNat = 0xF0 → lo = 0x90) ∧ (b.toNat = 0xF4 → hi = 0x8F)) := by
  have hcases : (b.toNat < 0xC2 ∨ 0xF4 < b.toNat) ∨ (0xC2 ≤ b.toNat ∧ b.toNat < 0xE0) ∨
      (0xE0 ≤ b.toNat ∧ b.toNat < 0xF0) ∨ 0xF0 ≤ b.toNat ∧ b.toNat ≤ 0xF4 := by omega
  rcases hcases with hb | ⟨hb, hb'⟩ | ⟨hb, hb'⟩ | ⟨hb, hb'⟩
  · rcases first_not_lead hb with h0 | h0 <;> rw [h0] at h <;> cases h
  · rw [first_two hb hb'] at h
    cases h
    exact .inl ⟨rfl, hb, hb', rfl, rfl⟩
  · rw [first_three hb hb'] at h
    cases h
    refine .inr (.inl ⟨rfl, hb, hb', ?_, ?_, fun heq => if_pos heq, fun heq => if_pos heq⟩) <;>
      split <;> decide
  · rw [first_four hb hb'] at h
    cases h
    refine .inr (.inr ⟨rfl, hb, hb', ?_, ?_, fun heq => if_pos heq, fun heq => if_pos heq⟩) <;>
      split <;> decide

/-- A byte in an accept range, in numbers. -/
theorem within_iff {lo hi b : UInt8} :
    within lo hi b = true ↔ lo.toNat ≤ b.toNat ∧ b.toNat ≤ hi.toNat := by
  simp [within, UInt8.le_iff_toNat_le]

/-- A number below the surrogates, or above them and below the end of Unicode, is the value of a
character. -/
theorem exists_char {n : Nat} (h : n < 0xD800 ∨ (0xDFFF < n ∧ n < 0x110000)) :
    ∃ c : Char, c.val.toNat = n := by
  refine ⟨Char.ofNat n, ?_⟩
  have hv : n.isValidChar := h
  rw [Char.ofNat, dif_pos hv]
  rfl

/-- The two-byte encoding. -/
theorem encodeChar_two {b0 b1 : UInt8} (h0 : 0xC2 ≤ b0.toNat) (h0' : b0.toNat < 0xE0)
    (h1 : 0x80 ≤ b1.toNat) (h1' : b1.toNat ≤ 0xBF) :
    ∃ c : Char, [b0, b1] = String.utf8EncodeChar c := by
  obtain ⟨c, hc⟩ := exists_char (n := b0.toNat % 32 * 64 + b1.toNat % 64) (by omega)
  refine ⟨c, ?_⟩
  simp only [String.utf8EncodeChar, hc]
  rw [if_neg (by omega), if_pos (by omega)]
  simp only [List.cons.injEq, and_true, ← UInt8.toNat_inj, UInt8.toNat_ofNat']
  omega

/-- The three-byte encoding; the range of the second byte excludes overlong forms and
surrogates. -/
theorem encodeChar_three {b0 b1 b2 : UInt8} (h0 : 0xE0 ≤ b0.toNat) (h0' : b0.toNat < 0xF0)
    (h1 : 0x80 ≤ b1.toNat) (h1' : b1.toNat ≤ 0xBF) (hlo : b0.toNat = 0xE0 → 0xA0 ≤ b1.toNat)
    (hhi : b0.toNat = 0xED → b1.toNat ≤ 0x9F) (h2 : 0x80 ≤ b2.toNat) (h2' : b2.toNat ≤ 0xBF) :
    ∃ c : Char, [b0, b1, b2] = String.utf8EncodeChar c := by
  obtain ⟨c, hc⟩ := exists_char
    (n := b0.toNat % 16 * 4096 + b1.toNat % 64 * 64 + b2.toNat % 64) (by omega)
  refine ⟨c, ?_⟩
  simp only [String.utf8EncodeChar, hc]
  rw [if_neg (by omega), if_neg (by omega), if_pos (by omega)]
  simp only [List.cons.injEq, and_true, ← UInt8.toNat_inj, UInt8.toNat_ofNat']
  omega

/-- The four-byte encoding; the range of the second byte excludes overlong forms and values past
the end of Unicode. -/
theorem encodeChar_four {b0 b1 b2 b3 : UInt8} (h0 : 0xF0 ≤ b0.toNat) (h0' : b0.toNat ≤ 0xF4)
    (h1 : 0x80 ≤ b1.toNat) (h1' : b1.toNat ≤ 0xBF) (hlo : b0.toNat = 0xF0 → 0x90 ≤ b1.toNat)
    (hhi : b0.toNat = 0xF4 → b1.toNat ≤ 0x8F) (h2 : 0x80 ≤ b2.toNat) (h2' : b2.toNat ≤ 0xBF)
    (h3 : 0x80 ≤ b3.toNat) (h3' : b3.toNat ≤ 0xBF) :
    ∃ c : Char, [b0, b1, b2, b3] = String.utf8EncodeChar c := by
  obtain ⟨c, hc⟩ := exists_char (n := b0.toNat % 8 * 262144 + b1.toNat % 64 * 4096 +
    b2.toNat % 64 * 64 + b3.toNat % 64) (by omega)
  refine ⟨c, ?_⟩
  simp only [String.utf8EncodeChar, hc]
  rw [if_neg (by omega), if_neg (by omega), if_neg (by omega)]
  simp only [List.cons.injEq, and_true, ← UInt8.toNat_inj, UInt8.toNat_ofNat']
  omega

/-- **A decoded rune is well formed.** The bytes of a rune wider than one byte are the encoding of
a scalar value. -/
theorem decodeRune_valid {p : List UInt8} (h : 1 < (decodeRune p).2) :
    ∃ c : Char, p.take (decodeRune p).2 = String.utf8EncodeChar c := by
  cases p with
  | nil => simp [decodeRune] at h
  | cons p0 p =>
    cases hf : first p0 with
    | ascii | invalid => simp [decodeRune, hf] at h
    | lead size lo hi =>
      rcases first_lead_range hf with ⟨rfl, h0, h0', rfl, rfl⟩ |
        ⟨rfl, h0, h0', hlo, hhi, he, hd⟩ | ⟨rfl, h0, h0', hlo, hhi, he, hd⟩
      · rcases p with _ | ⟨b1, p⟩
        · simp [decodeRune, hf] at h
        · simp only [decodeRune, hf] at h ⊢
          split at h
          · next hw =>
            obtain ⟨h1, h1'⟩ := within_iff.1 hw
            rw [if_pos hw]
            exact encodeChar_two h0 h0' h1 h1'
          · simp at h
      · rcases p with _ | ⟨b1, _ | ⟨b2, p⟩⟩
        · simp [decodeRune, hf] at h
        · simp [decodeRune, hf] at h
        · simp only [decodeRune, hf] at h ⊢
          split at h
          · next hw =>
            rw [if_pos hw]
            simp only [Bool.and_eq_true, isCont, within_iff] at hw
            obtain ⟨⟨h1, h1'⟩, h2, h2'⟩ := hw
            refine encodeChar_three h0 h0' (by omega) (by omega) (fun hb => ?_) (fun hb => ?_)
              h2 h2'
            · rw [he hb] at h1; exact h1
            · rw [hd hb] at h1'; exact h1'
          · simp at h
      · rcases p with _ | ⟨b1, _ | ⟨b2, _ | ⟨b3, p⟩⟩⟩
        · simp [decodeRune, hf] at h
        · simp [decodeRune, hf] at h
        · simp [decodeRune, hf] at h
        · simp only [decodeRune, hf] at h ⊢
          split at h
          · next hw =>
            rw [if_pos hw]
            simp only [Bool.and_eq_true, isCont, within_iff] at hw
            obtain ⟨⟨⟨h1, h1'⟩, h2, h2'⟩, h3, h3'⟩ := hw
            refine encodeChar_four h0 h0' (by omega) (by omega) (fun hb => ?_) (fun hb => ?_)
              h2 h2' h3 h3'
            · rw [he hb] at h1; exact h1
            · rw [hd hb] at h1'; exact h1'
          · simp at h

/-- An ASCII byte encodes itself. -/
theorem encodeChar_one {b : UInt8} (h : b < 0x80) : ∃ c : Char, [b] = String.utf8EncodeChar c := by
  rw [UInt8.lt_iff_toNat_lt] at h
  have h : b.toNat < 128 := h
  obtain ⟨c, hc⟩ := exists_char (n := b.toNat) (by omega)
  refine ⟨c, ?_⟩
  simp only [String.utf8EncodeChar, hc]
  rw [if_pos (by omega)]
  simp

/-- A continuation byte, in numbers. -/
theorem isCont_iff {b : UInt8} : isCont b = true ↔ 0x80 ≤ b.toNat ∧ b.toNat ≤ 0xBF := within_iff

/-- **Decoding an encoding.** The first rune of an encoded character, whatever follows it, is as
wide as the encoding, and a character of one byte is an ASCII byte. -/
theorem decodeRune_encodeChar (c : Char) (rest : List UInt8) :
    (∃ b, String.utf8EncodeChar c = [b] ∧ b < 0x80) ∨
    (1 < (String.utf8EncodeChar c).length ∧
      (decodeRune (String.utf8EncodeChar c ++ rest)).2 = (String.utf8EncodeChar c).length) := by
  have hv : c.val.toNat < 0xD800 ∨ (0xDFFF < c.val.toNat ∧ c.val.toNat < 0x110000) := c.valid
  simp only [String.utf8EncodeChar]
  generalize c.val.toNat = n at hv ⊢
  by_cases h₁ : n ≤ 0x7F
  · rw [if_pos h₁]
    refine .inl ⟨_, rfl, ?_⟩
    rw [UInt8.lt_iff_toNat_lt, UInt8.toNat_ofNat']
    show _ < 0x80
    omega
  · rw [if_neg h₁]
    refine .inr ?_
    by_cases h₂ : n ≤ 0x7FF
    · rw [if_pos h₂]
      refine ⟨by simp, ?_⟩
      have hf := first_two (b := UInt8.ofNat (n / 64 % 32 + 0xC0))
        (by rw [UInt8.toNat_ofNat']; omega) (by rw [UInt8.toNat_ofNat']; omega)
      have hw : within 0x80 0xBF (UInt8.ofNat (n % 64 + 0x80)) = true :=
        within_iff.2 (by rw [UInt8.toNat_ofNat']; show 0x80 ≤ _ ∧ _ ≤ 0xBF; omega)
      simp only [decodeRune, List.cons_append, hf, hw, if_true, List.length_cons, List.length_nil]
    · rw [if_neg h₂]
      by_cases h₃ : n ≤ 0xFFFF
      · rw [if_pos h₃]
        refine ⟨by simp, ?_⟩
        have h₀ : (UInt8.ofNat (n / 4096 % 16 + 0xE0)).toNat = n / 4096 % 16 + 0xE0 := by
          rw [UInt8.toNat_ofNat']; omega
        have hf := first_three (b := UInt8.ofNat (n / 4096 % 16 + 0xE0)) (by omega) (by omega)
        have hw : within (if n / 4096 % 16 + 0xE0 = 0xE0 then 0xA0 else 0x80)
            (if n / 4096 % 16 + 0xE0 = 0xED then 0x9F else 0xBF)
            (UInt8.ofNat (n / 64 % 64 + 0x80)) = true := by
          rw [within_iff, UInt8.toNat_ofNat']
          constructor <;> split <;> simp only [UInt8.reduceToNat] <;> omega
        have hc : isCont (UInt8.ofNat (n % 64 + 0x80)) = true :=
          isCont_iff.2 (by rw [UInt8.toNat_ofNat']; omega)
        rw [h₀] at hf
        simp only [decodeRune, List.cons_append, hf, hw, hc, Bool.and_true, if_true,
          List.length_cons, List.length_nil]
      · rw [if_neg h₃]
        refine ⟨by simp, ?_⟩
        have h₀ : (UInt8.ofNat (n / 262144 % 8 + 0xF0)).toNat = n / 262144 % 8 + 0xF0 := by
          rw [UInt8.toNat_ofNat']; omega
        have hf := first_four (b := UInt8.ofNat (n / 262144 % 8 + 0xF0)) (by omega) (by omega)
        have hw : within (if n / 262144 % 8 + 0xF0 = 0xF0 then 0x90 else 0x80)
            (if n / 262144 % 8 + 0xF0 = 0xF4 then 0x8F else 0xBF)
            (UInt8.ofNat (n / 4096 % 64 + 0x80)) = true := by
          rw [within_iff, UInt8.toNat_ofNat']
          constructor <;> split <;> simp only [UInt8.reduceToNat] <;> omega
        have hc : isCont (UInt8.ofNat (n / 64 % 64 + 0x80)) = true :=
          isCont_iff.2 (by rw [UInt8.toNat_ofNat']; omega)
        have hd : isCont (UInt8.ofNat (n % 64 + 0x80)) = true :=
          isCont_iff.2 (by rw [UInt8.toNat_ofNat']; omega)
        rw [h₀] at hf
        simp only [decodeRune, List.cons_append, hf, hw, hc, hd, Bool.and_true, if_true,
          List.length_cons, List.length_nil]

end UAssign.Utf8

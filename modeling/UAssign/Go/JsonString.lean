import UAssign.Go.Json

/-!
# `encoding/json`: strings

`Body` is what the scanner takes between two quotation marks (`read_body`). `escapeString` is what
`Marshal` writes there: escapes for what JSON does not allow, for what HTML would take for markup,
and for bytes that are no UTF-8. Reading it gives the text of the string back (`unquote_escape`).
-/

namespace UAssign

namespace Utf8

/-- **The value of an encoding**, whatever follows it. -/
theorem decodeRune_encodeChar_eq (c : Char) (rest : List UInt8) :
    decodeRune (String.utf8EncodeChar c ++ rest) =
      (c.toNat, (String.utf8EncodeChar c).length) := by
  have hv : c.val.toNat < 0xD800 ∨ (0xDFFF < c.val.toNat ∧ c.val.toNat < 0x110000) := c.valid
  rw [show c.toNat = c.val.toNat from rfl]
  simp only [String.utf8EncodeChar]
  generalize c.val.toNat = n at hv ⊢
  by_cases h₁ : n ≤ 0x7F
  · have hb : (UInt8.ofNat n).toNat = n := by rw [UInt8.toNat_ofNat']; omega
    have hf : first (UInt8.ofNat n) = .ascii :=
      if_pos (by rw [UInt8.lt_iff_toNat_lt, hb]; show n < 0x80; omega)
    rw [if_pos h₁]
    simp only [decodeRune, List.cons_append, hf, hb, List.length_singleton]
  rw [if_neg h₁]
  by_cases h₂ : n ≤ 0x7FF
  · have h₀ : (UInt8.ofNat (n / 64 % 32 + 0xC0)).toNat = n / 64 % 32 + 0xC0 := by
      rw [UInt8.toNat_ofNat']; omega
    have hl : (UInt8.ofNat (n % 64 + 0x80)).toNat = n % 64 + 0x80 := by
      rw [UInt8.toNat_ofNat']; omega
    have hf := first_two (b := UInt8.ofNat (n / 64 % 32 + 0xC0)) (by omega) (by omega)
    have hw : within 0x80 0xBF (UInt8.ofNat (n % 64 + 0x80)) = true :=
      within_iff.2 (by rw [hl]; show 0x80 ≤ _ ∧ _ ≤ 0xBF; omega)
    rw [if_pos h₂]
    simp only [decodeRune, List.cons_append, hf, hw, if_true, h₀, hl, List.length_cons,
      List.length_nil, Prod.mk.injEq, and_true]
    omega
  rw [if_neg h₂]
  by_cases h₃ : n ≤ 0xFFFF
  · have h₀ : (UInt8.ofNat (n / 4096 % 16 + 0xE0)).toNat = n / 4096 % 16 + 0xE0 := by
      rw [UInt8.toNat_ofNat']; omega
    have hm : (UInt8.ofNat (n / 64 % 64 + 0x80)).toNat = n / 64 % 64 + 0x80 := by
      rw [UInt8.toNat_ofNat']; omega
    have hl : (UInt8.ofNat (n % 64 + 0x80)).toNat = n % 64 + 0x80 := by
      rw [UInt8.toNat_ofNat']; omega
    have hf := first_three (b := UInt8.ofNat (n / 4096 % 16 + 0xE0)) (by omega) (by omega)
    have hw : within (if n / 4096 % 16 + 0xE0 = 0xE0 then 0xA0 else 0x80)
        (if n / 4096 % 16 + 0xE0 = 0xED then 0x9F else 0xBF)
        (UInt8.ofNat (n / 64 % 64 + 0x80)) = true := by
      rw [within_iff, hm]
      constructor <;> split <;> simp only [UInt8.reduceToNat] <;> omega
    have hc : isCont (UInt8.ofNat (n % 64 + 0x80)) = true :=
      isCont_iff.2 (by rw [hl]; omega)
    rw [if_pos h₃]
    rw [h₀] at hf
    simp only [decodeRune, List.cons_append, hf, hw, hc, Bool.and_true, if_true, h₀, hm, hl,
      List.length_cons, List.length_nil, Prod.mk.injEq, and_true]
    omega
  · have h₀ : (UInt8.ofNat (n / 262144 % 8 + 0xF0)).toNat = n / 262144 % 8 + 0xF0 := by
      rw [UInt8.toNat_ofNat']; omega
    have hm : (UInt8.ofNat (n / 4096 % 64 + 0x80)).toNat = n / 4096 % 64 + 0x80 := by
      rw [UInt8.toNat_ofNat']; omega
    have hk : (UInt8.ofNat (n / 64 % 64 + 0x80)).toNat = n / 64 % 64 + 0x80 := by
      rw [UInt8.toNat_ofNat']; omega
    have hl : (UInt8.ofNat (n % 64 + 0x80)).toNat = n % 64 + 0x80 := by
      rw [UInt8.toNat_ofNat']; omega
    have hf := first_four (b := UInt8.ofNat (n / 262144 % 8 + 0xF0)) (by omega) (by omega)
    have hw : within (if n / 262144 % 8 + 0xF0 = 0xF0 then 0x90 else 0x80)
        (if n / 262144 % 8 + 0xF0 = 0xF4 then 0x8F else 0xBF)
        (UInt8.ofNat (n / 4096 % 64 + 0x80)) = true := by
      rw [within_iff, hm]
      constructor <;> split <;> simp only [UInt8.reduceToNat] <;> omega
    have hc : isCont (UInt8.ofNat (n / 64 % 64 + 0x80)) = true :=
      isCont_iff.2 (by rw [hk]; omega)
    have hd : isCont (UInt8.ofNat (n % 64 + 0x80)) = true :=
      isCont_iff.2 (by rw [hl]; omega)
    rw [if_neg h₃]
    rw [h₀] at hf
    simp only [decodeRune, List.cons_append, hf, hw, hc, hd, Bool.and_true, if_true, h₀, hm, hk,
      hl, List.length_cons, List.length_nil, Prod.mk.injEq, and_true]
    omega

/-- The bytes of a character of more than one byte are no ASCII. -/
theorem encodeChar_high (c : Char) (h : 1 < (String.utf8EncodeChar c).length) :
    ∀ b ∈ String.utf8EncodeChar c, 0x80 ≤ b := by
  have hle : ∀ k : Nat, 0x80 ≤ k → k < 256 → (0x80 : UInt8) ≤ UInt8.ofNat k := by
    intro k hk hlt
    rw [UInt8.le_iff_toNat_le, UInt8.toNat_ofNat', Nat.mod_eq_of_lt hlt]
    exact hk
  have hv : c.val.toNat < 0xD800 ∨ (0xDFFF < c.val.toNat ∧ c.val.toNat < 0x110000) := c.valid
  unfold String.utf8EncodeChar at h ⊢
  simp only at h ⊢
  generalize c.val.toNat = n at hv h ⊢
  intro b hb
  split at hb
  · next h₁ => rw [if_pos h₁] at h; simp at h
  split at hb
  · simp only [List.mem_cons, List.not_mem_nil, or_false] at hb
    rcases hb with rfl | rfl <;> exact hle _ (by omega) (by omega)
  split at hb
  · simp only [List.mem_cons, List.not_mem_nil, or_false] at hb
    rcases hb with rfl | rfl | rfl <;> exact hle _ (by omega) (by omega)
  · simp only [List.mem_cons, List.not_mem_nil, or_false] at hb
    rcases hb with rfl | rfl | rfl | rfl <;> exact hle _ (by omega) (by omega)

/-- A wide rune is the encoding of its value. -/
theorem decodeRune_wide {p : List UInt8} (h : 1 < (decodeRune p).2) : ∃ c : Char,
    p.take (decodeRune p).2 = String.utf8EncodeChar c ∧ (decodeRune p).1 = c.toNat := by
  obtain ⟨c, hc⟩ := decodeRune_valid h
  refine ⟨c, hc, ?_⟩
  have hp : p = String.utf8EncodeChar c ++ p.drop (decodeRune p).2 := by
    rw [← hc, List.take_append_drop]
  rw [hp, decodeRune_encodeChar_eq]

end Utf8

namespace Json

open Utf8 Bufio

/-! ## What the scanner takes -/

/-- What may stand between the quotation marks of a string literal. -/
inductive Body : List UInt8 → Prop
  | nil : Body []
  | byte {c : UInt8} {s : List UInt8} (hlow : ¬ c < 0x20) (hquote : c ≠ 0x22) (hslash : c ≠ 0x5C) :
      Body s → Body (c :: s)
  | escape {c : UInt8} {s : List UInt8} (hc : c ∈ ascii "bfnrt\\/\"") :
      Body s → Body (0x5C :: c :: s)
  | unicode {a b c d : UInt8} {s : List UInt8} (h : ∀ x ∈ [a, b, c, d], (hexVal x).isSome = true) :
      Body s → Body (0x5C :: 0x75 :: a :: b :: c :: d :: s)

section

variable {s t raw rest : List UInt8} {st : List Frame} {high : Option Nat}

/-- Literals concatenate. -/
theorem Body.append (hs : Body s) (ht : Body t) : Body (s ++ t) := by
  induction hs with
  | nil => exact ht
  | byte h₁ h₂ h₃ _ ih => exact .byte h₁ h₂ h₃ ih
  | escape hc _ ih => exact .escape hc ih
  | unicode h _ ih => exact .unicode h ih

/-- Bytes that are no ASCII stand for themselves. -/
theorem body_high (h : ∀ c ∈ s, 0x80 ≤ c) : Body s := by
  induction s with
  | nil => exact .nil
  | cons c s ih =>
    obtain ⟨hc, hs⟩ := List.forall_mem_cons.1 h
    rw [UInt8.le_iff_toNat_le] at hc
    have hc : 0x80 ≤ c.toNat := hc
    refine .byte (fun hlt => ?_) ?_ ?_ (ih hs)
    · rw [UInt8.lt_iff_toNat_lt] at hlt
      exact absurd (show c.toNat < 0x20 from hlt) (by omega)
    · rintro rfl
      exact absurd hc (by decide)
    · rintro rfl
      exact absurd hc (by decide)

/-- A hexadecimal digit of an escape, -/
theorem step_hex {due : Nat} {c : UInt8} (h : (hexVal c).isSome = true) :
    (Scan.inStringEscU (due + 1) raw).step st c = some (.inStringEscU due (raw ++ [c]), st) := by
  obtain ⟨v, hv⟩ := Option.isSome_iff_exists.1 h
  simp only [Scan.step, hv]

/-- and the last one. -/
theorem step_hex_last {c : UInt8} (h : (hexVal c).isSome = true) :
    (Scan.inStringEscU 0 raw).step st c = some (.inString (raw ++ [c]), st) := by
  obtain ⟨v, hv⟩ := Option.isSome_iff_exists.1 h
  simp only [Scan.step, hv]

/-- The scanner reads a literal to its quotation mark. -/
theorem read_body (h : Body s) : read (.inString raw) st (s ++ 0x22 :: rest) =
    read (.endValue (.str (unquote (raw ++ s)))) st rest := by
  induction h generalizing raw with
  | nil =>
    rw [List.nil_append, List.append_nil]
    exact read_step rfl rfl (by simp)
  | @byte c s h₁ h₂ h₃ _ ih =>
    have hstep : (Scan.inString raw).step st c = some (.inString (raw ++ [c]), st) := by
      simp only [Scan.step, h₁, h₂, h₃, if_false]
    rw [List.cons_append, read_step hstep rfl (by simp), ih, List.append_assoc]
    rfl
  | @escape c s hc _ ih =>
    have hslash : (Scan.inString raw).step st 0x5C = some (.inStringEsc (raw ++ [0x5C]), st) := rfl
    have hne : c ≠ 0x75 := by
      rintro rfl
      exact absurd hc (by decide)
    have hstep : (Scan.inStringEsc (raw ++ [0x5C])).step st c =
        some (.inString (raw ++ [0x5C] ++ [c]), st) := by
      simp only [Scan.step, hne, hc, if_false, if_true]
    rw [List.cons_append, List.cons_append, read_step hslash rfl (by simp),
      read_step hstep rfl (by simp), ih]
    simp only [List.append_assoc, List.cons_append, List.nil_append]
  | @unicode a b c d s h _ ih =>
    have hslash : (Scan.inString raw).step st 0x5C = some (.inStringEsc (raw ++ [0x5C]), st) := rfl
    have hu : (Scan.inStringEsc (raw ++ [0x5C])).step st 0x75 =
        some (.inStringEscU 3 (raw ++ [0x5C] ++ [0x75]), st) := rfl
    obtain ⟨ha, h⟩ := List.forall_mem_cons.1 h
    obtain ⟨hb, h⟩ := List.forall_mem_cons.1 h
    obtain ⟨hc, h⟩ := List.forall_mem_cons.1 h
    obtain ⟨hd, -⟩ := List.forall_mem_cons.1 h
    simp only [List.cons_append]
    rw [read_step hslash rfl (by simp), read_step hu rfl (by simp), read_step (step_hex ha) rfl (by simp),
      read_step (step_hex hb) rfl (by simp), read_step (step_hex hc) rfl (by simp),
      read_step (step_hex_last hd) rfl (by simp), ih]
    simp only [List.append_assoc, List.cons_append, List.nil_append]

/-- The scanner reads a literal as a value. -/
theorem read_literal {e : Bool} (h : Body s) : read (.begin e) st (quote s ++ rest) =
    read (.endValue (.str (unquote s))) st rest := by
  have hq : quote s ++ rest = 0x22 :: (s ++ 0x22 :: rest) := by simp [quote]
  have hstep : (Scan.begin e).step st 0x22 = some (.inString [], st) := by
    cases e <;> rcases st with _ | ⟨_ | _ | _, st⟩ <;> rfl
  rw [hq, read_step hstep rfl (by simp), read_body h, List.nil_append]

/-! ## What an escape stands for -/

/-- A byte that is no backslash stands for itself, -/
theorem unescape_byte {c : UInt8} (h : c ≠ 0x5C) :
    unescape high (c :: s) = lone high ++ c :: unescape none s := by
  rw [unescape]
  · exact fun _ _ _ _ _ h' => (h h').elim
  · exact fun _ _ h' => (h h').elim

/-- and so do some. -/
theorem unescape_bytes (h : ∀ c ∈ t, c ≠ 0x5C) (hne : t ≠ []) :
    unescape high (t ++ s) = lone high ++ t ++ unescape none s := by
  induction t generalizing high with
  | nil => exact (hne rfl).elim
  | cons c t ih =>
    obtain ⟨hc, ht⟩ := List.forall_mem_cons.1 h
    rw [List.cons_append, unescape_byte hc]
    cases t with
    | nil => simp
    | cons d t => rw [ih ht (List.cons_ne_nil _ _)]; simp [lone]

/-- An escape of one letter. -/
theorem unescape_escape {c : UInt8} (h : c ≠ 0x75) :
    unescape high (0x5C :: c :: s) = lone high ++ escapeByte c :: unescape none s := by
  rw [unescape]
  exact fun _ _ _ _ _ h' => (h h').elim

/-- An escape of a code unit that is no half of a pair. -/
theorem unescape_unicode {a b c d : UInt8} (hl : isLow (getu4 a b c d) = false)
    (hh : isHigh (getu4 a b c d) = false) :
    unescape high (0x5C :: 0x75 :: a :: b :: c :: d :: s) =
      lone high ++ encodeRune (getu4 a b c d) ++ unescape none s := by
  have hl : ¬ isLow (getu4 a b c d) = true := by rw [hl]; exact Bool.false_ne_true
  have hh : ¬ isHigh (getu4 a b c d) = true := by rw [hh]; exact Bool.false_ne_true
  cases high with
  | none => rw [unescape.eq_2, if_neg hl, if_neg hh]
  | some h => rw [unescape.eq_1, if_neg hl, if_neg hh]

end

/-! ## Writing strings -/

/-- `hex`. -/
def hexDigit (n : Nat) : UInt8 := if n < 10 then UInt8.ofNat (0x30 + n) else UInt8.ofNat (0x57 + n)

/-- `htmlSafeSet`, of a byte below `utf8.RuneSelf`. -/
def htmlSafe (c : UInt8) : Bool := 0x20 ≤ c ∧ c ∉ ascii "\"&<>\\"

/-- What `encodeState.string` writes for a byte below `utf8.RuneSelf`. -/
def escapeAscii (c : UInt8) : List UInt8 :=
  if htmlSafe c then [c]
  else if c = 0x5C ∨ c = 0x22 then [0x5C, c]
  else if c = 0x0A then ascii "\\n"
  else if c = 0x0D then ascii "\\r"
  else if c = 0x09 then ascii "\\t"
  else ascii "\\u00" ++ [hexDigit (c.toNat / 16), hexDigit (c.toNat % 16)]

/-- What it writes for another rune of a width: one that is no UTF-8, a line or paragraph separator,
and any other one. -/
def escapeRune (r width : Nat) (s : List UInt8) : List UInt8 :=
  if r = runeError ∧ width = 1 then ascii "\\ufffd"
  else if r = 0x2028 ∨ r = 0x2029 then ascii "\\u202" ++ [hexDigit (r % 16)]
  else s.take width

/-- A rune takes a byte at least. -/
theorem decodeRune_pos (b : UInt8) (s : List UInt8) : 0 < (decodeRune (b :: s)).2 := by
  simp only [decodeRune]
  split
  · exact Nat.one_pos
  · exact Nat.one_pos
  · split
    · split <;> exact Nat.succ_pos _
    · split <;> exact Nat.succ_pos _
    · split <;> exact Nat.succ_pos _
    · exact Nat.one_pos

/-- `encodeState.string`, between the quotation marks. -/
def escapeString : List UInt8 → List UInt8
  | [] => []
  | b :: s =>
    if b < 0x80 then escapeAscii b ++ escapeString s
    else
      let x := decodeRune (b :: s)
      escapeRune x.1 x.2 (b :: s) ++ escapeString ((b :: s).drop x.2)
termination_by s => s.length
decreasing_by
  · exact Nat.lt_succ_self _
  · have := decodeRune_pos b s
    simp only [List.length_drop, List.length_cons]
    omega

/-- The elements of an array, from their texts. -/
def writeElems : List (List UInt8) → List UInt8
  | [] => []
  | [text] => text
  | text :: texts => text ++ 0x2C :: writeElems texts

/-- An array, from the texts of its elements. -/
def writeArray (texts : List (List UInt8)) : List UInt8 := 0x5B :: writeElems texts ++ [0x5D]

/-- The members of an object, from the texts of their names and values. -/
def writePairs : List (List UInt8 × List UInt8) → List UInt8
  | [] => []
  | [(k, v)] => k ++ 0x3A :: v
  | (k, v) :: pairs => k ++ 0x3A :: v ++ 0x2C :: writePairs pairs

/-- An object, from the texts of its names and values. -/
def writeMap (pairs : List (List UInt8 × List UInt8)) : List UInt8 :=
  0x7B :: writePairs pairs ++ [0x7D]

/-- `Marshal`, of a `[]string`. -/
def marshalStrings (ss : List (List UInt8)) : List UInt8 :=
  writeArray (ss.map fun s => quote (escapeString s))

section

variable {s rest : List UInt8}

/-- An escape of four digits is one of an ASCII text, for no half of a pair. -/
def UnicodeForm (w x y z : UInt8) : Bool :=
  ([w, x, y, z].all fun d => (hexVal d).isSome && d < 0x80) && !isLow (getu4 w x y z) &&
    !isHigh (getu4 w x y z)

/-- The forms of what is written for a byte: the byte, an escape of one letter, and an escape of its
code. -/
def AsciiForm (c : UInt8) (text : List UInt8) : Bool :=
  match text with
  | [x] => x = c && !decide (c < 0x20) && c != 0x22 && c != 0x5C
  | [0x5C, e] => e ∈ ascii "bfnrt\\/\"" && e < 0x80 && e != 0x75 && escapeByte e = c
  | [0x5C, 0x75, w, x, y, z] => UnicodeForm w x y z && encodeRune (getu4 w x y z) = [c]
  | _ => false

/-- What is written for a byte has one of these forms. -/
theorem asciiForm_escapeAscii {c : UInt8} (h : c < 0x80) : AsciiForm c (escapeAscii c) = true := by
  have hall : ∀ n : Fin 128, AsciiForm (UInt8.ofNat n) (escapeAscii (UInt8.ofNat n)) = true := by
    decide +kernel
  have hc := hall ⟨c.toNat, UInt8.lt_iff_toNat_lt.1 h⟩
  rwa [UInt8.ofNat_toNat] at hc

theorem valid_ascii (h : ∀ c ∈ s, c < 0x80) : Valid s := by
  induction s with
  | nil => exact .nil
  | cons c s ih =>
    obtain ⟨hc, hs⟩ := List.forall_mem_cons.1 h
    obtain ⟨d, hd⟩ := encodeChar_one hc
    exact (hd ▸ valid_encodeChar d : Valid [c]).append (ih hs)

/-- ASCII text is kept. -/
theorem sanitize_ascii (h : (s.all fun c => c < 0x80) = true) : sanitize s = s :=
  sanitize_valid (valid_ascii fun c hc => of_decide_eq_true (List.all_eq_true.1 h c hc))

/-- The text that is written for a piece of a string is a literal, and is read as `t`. -/
structure Writes (text t : List UInt8) : Prop where
  body : Body text
  valid : Valid text
  reads : ∀ s, unescape none (text ++ s) = t ++ unescape none s

/-- An escape of a code unit. -/
theorem writes_unicode {w x y z : UInt8} (h : UnicodeForm w x y z = true) :
    Writes [0x5C, 0x75, w, x, y, z] (encodeRune (getu4 w x y z)) := by
  simp only [UnicodeForm, Bool.and_eq_true, List.all_eq_true, Bool.not_eq_true',
    decide_eq_true_eq] at h
  obtain ⟨⟨hdigit, hlow⟩, hhigh⟩ := h
  have hascii : ∀ c ∈ [0x5C, 0x75, w, x, y, z], c < 0x80 :=
    List.forall_mem_cons.2 ⟨by decide, List.forall_mem_cons.2 ⟨by decide, fun c hc =>
      (hdigit c hc).2⟩⟩
  exact ⟨.unicode (fun d hd => (hdigit d hd).1) .nil, valid_ascii hascii,
    fun _ => unescape_unicode hlow hhigh⟩

/-- A byte below `utf8.RuneSelf` is read as itself. -/
theorem writes_escapeAscii {c : UInt8} (h : c < 0x80) : Writes (escapeAscii c) [c] := by
  have hform := asciiForm_escapeAscii h
  unfold AsciiForm at hform
  split at hform
  · next x heq =>
    simp only [Bool.and_eq_true, decide_eq_true_eq, Bool.not_eq_true', decide_eq_false_iff_not,
      bne_iff_ne] at hform
    obtain ⟨⟨⟨rfl, h₁⟩, h₂⟩, h₃⟩ := hform
    rw [heq]
    refine ⟨.byte h₁ h₂ h₃ .nil, valid_ascii fun c hc => ?_, fun s => unescape_byte h₃⟩
    rwa [List.mem_singleton.1 hc]
  · next e heq =>
    simp only [Bool.and_eq_true, decide_eq_true_eq, bne_iff_ne] at hform
    obtain ⟨⟨⟨h₁, h₂⟩, h₃⟩, rfl⟩ := hform
    rw [heq]
    refine ⟨.escape h₁ .nil, valid_ascii fun c hc => ?_, fun s => unescape_escape h₃⟩
    rcases List.mem_cons.1 hc with rfl | hc
    · decide
    · rwa [List.mem_singleton.1 hc]
  · next w x y z heq =>
    simp only [Bool.and_eq_true, decide_eq_true_eq] at hform
    obtain ⟨hunicode, hrune⟩ := hform
    rw [heq, ← hrune]
    exact writes_unicode hunicode
  · cases hform

/-- A narrow rune behind a byte that is no ASCII is an error. -/
theorem decodeRune_narrow {b : UInt8} {s : List UInt8} (hb : ¬ b < 0x80)
    (h : ¬ 1 < (decodeRune (b :: s)).2) : decodeRune (b :: s) = (runeError, 1) := by
  have hfirst : first b ≠ .ascii := by
    unfold first
    rw [if_neg hb]
    split_ifs <;> exact First.noConfusion
  revert h
  simp only [decodeRune]
  split
  · next hf => exact (hfirst hf).elim
  · exact fun _ => rfl
  · split
    · split
      · exact fun h => (h (Nat.le_refl 2)).elim
      · exact fun _ => rfl
    · split
      · exact fun h => (h (Nat.le_succ 2)).elim
      · exact fun _ => rfl
    · split
      · exact fun h => (h (Nat.le_of_ble_eq_true rfl)).elim
      · exact fun _ => rfl
    · exact fun _ => rfl

theorem encodeRune_toNat (c : Char) : encodeRune c.toNat = String.utf8EncodeChar c := by
  rw [encodeRune, Char.ofNat_toNat]

/-- Any other rune is read as `bufio.ScanRunes` takes it. -/
theorem writes_escapeRune {b : UInt8} (hb : ¬ b < 0x80) : ∃ t,
    scanRunes (b :: s) true = ⟨(decodeRune (b :: s)).2, some t, none⟩ ∧
      Writes (escapeRune (decodeRune (b :: s)).1 (decodeRune (b :: s)).2 (b :: s)) t := by
  by_cases hwide : 1 < (decodeRune (b :: s)).2
  · obtain ⟨c, htake, hval⟩ := decodeRune_wide hwide
    have hlen : 1 < (String.utf8EncodeChar c).length := by
      rw [← htake, List.length_take]
      have := width_le_length (b :: s)
      omega
    have hne : ¬ (decodeRune (b :: s)).2 = 1 := by omega
    refine ⟨String.utf8EncodeChar c, ?_, ?_⟩
    · simp only [scanRunes, hb, if_false, hwide, if_true, htake]
    · unfold escapeRune
      rw [if_neg fun h => hne h.2]
      split
      · next hsep =>
        rw [← encodeRune_toNat, ← hval]
        rcases hsep with hsep | hsep
        · have htext : ascii "\\u202" ++ [hexDigit (0x2028 % 16)] =
              [0x5C, 0x75, 0x32, 0x30, 0x32, 0x38] := by decide
          have hunit : getu4 0x32 0x30 0x32 0x38 = 0x2028 := by decide
          rw [hsep, htext, ← hunit]
          exact writes_unicode (by decide)
        · have htext : ascii "\\u202" ++ [hexDigit (0x2029 % 16)] =
              [0x5C, 0x75, 0x32, 0x30, 0x32, 0x39] := by decide
          have hunit : getu4 0x32 0x30 0x32 0x39 = 0x2029 := by decide
          rw [hsep, htext, ← hunit]
          exact writes_unicode (by decide)
      · have hhigh := encodeChar_high c hlen
        rw [htake]
        refine ⟨body_high hhigh, valid_encodeChar c, fun s => ?_⟩
        refine unescape_bytes (fun x hx => ?_) (List.ne_nil_of_length_pos (by omega))
        rintro rfl
        exact absurd (hhigh _ hx) (by decide)
  · have hrune := decodeRune_narrow hb hwide
    refine ⟨errorRune, ?_, ?_⟩
    · simp [scanRunes, hb, hrune]
    · have htext : escapeRune runeError 1 (b :: s) = [0x5C, 0x75, 0x66, 0x66, 0x66, 0x64] :=
        (if_pos ⟨rfl, rfl⟩).trans (by decide)
      have hunit : encodeRune (getu4 0x66 0x66 0x66 0x64) = errorRune := by decide
      rw [hrune, htext, ← hunit]
      exact writes_unicode (by decide)

/-- **Reading undoes writing**, up to bytes that are no UTF-8. -/
theorem writes_escapeString (s : List UInt8) : Writes (escapeString s) (sanitize s) := by
  induction hn : s.length using Nat.strongRecOn generalizing s with
  | ind n ih =>
    cases s with
    | nil =>
      rw [escapeString, sanitize_nil]
      exact ⟨.nil, .nil, fun _ => rfl⟩
    | cons b s =>
      have hstep : ∀ {text t : List UInt8} {k : Nat}, 0 < k →
          scanRunes (b :: s) true = ⟨k, some t, none⟩ → Writes text t →
          Writes (text ++ escapeString ((b :: s).drop k)) (sanitize (b :: s)) := by
        intro text t k hk hscan hw
        have hlt : ((b :: s).drop k).length < n := by
          rw [← hn, List.length_drop, List.length_cons]
          omega
        obtain ⟨hbody, hvalid, hreads⟩ := ih _ hlt _ rfl
        rw [sanitize_step (List.cons_ne_nil _ _) hscan]
        refine ⟨hw.body.append hbody, hw.valid.append hvalid, fun r => ?_⟩
        rw [List.append_assoc, hw.reads, hreads, List.append_assoc]
      rw [escapeString]
      split
      · next hb =>
        exact hstep Nat.one_pos (by simp only [scanRunes, hb, if_true]) (writes_escapeAscii hb)
      · next hb =>
        obtain ⟨t, hscan, hw⟩ := @writes_escapeRune s b hb
        exact hstep (decodeRune_pos b s) hscan hw

/-- Text that needs no escapes. -/
theorem escapeString_safe (h : (s.all fun c => c < 0x80 && htmlSafe c) = true) :
    escapeString s = s := by
  induction s with
  | nil => rw [escapeString]
  | cons c s ih =>
    simp only [List.all_cons, Bool.and_eq_true, decide_eq_true_eq] at h
    obtain ⟨⟨hc, hsafe⟩, hs⟩ := h
    rw [escapeString, if_pos hc, ih hs, escapeAscii, if_pos hsafe]
    rfl

/-- **What is written for a string** is read as its text. -/
theorem unquote_escapeString (s : List UInt8) : unquote (escapeString s) = sanitize s := by
  have hw := writes_escapeString s
  have hreads := hw.reads []
  rw [List.append_nil] at hreads
  rw [unquote, sanitize_valid hw.valid, hreads]
  exact List.append_nil _

/-! ## Reading values -/

/-- What may come behind a value: nothing, or what ends an element or a member. -/
def Stops (rest : List UInt8) : Prop := ∀ d ∈ rest.head?, d = 0x2C ∨ d = 0x5D ∨ d = 0x7D

theorem stops_nil : Stops [] := nofun

theorem stops_cons {d : UInt8} (h : d = 0x2C ∨ d = 0x5D ∨ d = 0x7D) : Stops (d :: rest) := by
  rintro _ ⟨⟩
  exact h

/-- The scanner reads a text as a value. -/
def Reads (text : List UInt8) (v : Value) : Prop :=
  ∀ e st rest, Stops rest → read (.begin e) st (text ++ rest) = read (.endValue v) st rest

/-- A string literal is read as a string. -/
theorem reads_quote (h : Body s) : Reads (quote s) (.str (unquote s)) :=
  fun _ _ _ _ => read_literal h

/-- The elements of an array. -/
theorem read_elems {texts : List (List UInt8)} {vs done : List Value} {e : Bool}
    {st : List Frame} (h : List.Forall₂ Reads texts vs) (hne : texts ≠ []) :
    read (.begin e) (.elem done :: st) (writeElems texts ++ 0x5D :: rest) =
      read (.endValue (.arr (done ++ vs))) st rest := by
  induction h generalizing done e with
  | nil => exact (hne rfl).elim
  | @cons text v texts vs hv hvs ih =>
    cases hvs with
    | nil =>
      rw [writeElems, hv e _ _ (stops_cons (.inr (.inl rfl)))]
      exact read_step rfl rfl (by simp)
    | @cons text' v' texts vs hv' hvs =>
      have hcomma : read (.endValue v) (.elem done :: st)
            (0x2C :: (writeElems (text' :: texts) ++ 0x5D :: rest)) =
          read (.begin false) (.elem (done ++ [v]) :: st)
            (writeElems (text' :: texts) ++ 0x5D :: rest) :=
        read_step rfl rfl (by simp)
      rw [writeElems, List.append_assoc, List.cons_append, hv e _ _ (stops_cons (.inl rfl)), hcomma,
        ih nofun, List.append_assoc]
      · rfl
      · nofun

/-- **An array is read from the texts of its elements.** -/
theorem reads_array {texts : List (List UInt8)} {vs : List Value}
    (h : List.Forall₂ Reads texts vs) : Reads (writeArray texts) (.arr vs) := by
  intro e st rest _
  have htext : writeArray texts ++ rest = 0x5B :: (writeElems texts ++ 0x5D :: rest) := by
    simp [writeArray]
  have hopen : read (.begin e) st (0x5B :: (writeElems texts ++ 0x5D :: rest)) =
      read (.begin true) (.elem [] :: st) (writeElems texts ++ 0x5D :: rest) := by
    refine read_step ?_ rfl (by simp)
    cases e <;> rcases st with _ | ⟨_ | _ | _, st⟩ <;> rfl
  rw [htext, hopen]
  cases h with
  | nil => exact read_step rfl rfl (by simp)
  | cons hv hvs => rw [read_elems (.cons hv hvs) (List.cons_ne_nil _ _), List.nil_append]

/-- The text of a value is read by `Unmarshal`. -/
theorem Reads.parse {text : List UInt8} {v : Value} (h : Reads text v) : parse text = some v := by
  have hread := h false [] [] stops_nil
  rw [List.append_nil] at hread
  rw [Json.parse, readValue, hread]
  rfl

@[inherit_doc reads_array]
theorem parse_writeArray {texts : List (List UInt8)} {vs : List Value}
    (h : List.Forall₂ Reads texts vs) : parse (writeArray texts) = some (.arr vs) :=
  (reads_array h).parse

/-- The texts of a member. -/
structure ReadsMember (pair : List UInt8 × List UInt8) (m : List UInt8 × Value) : Prop where
  name : ∃ s, Body s ∧ pair.1 = quote s ∧ m.1 = unquote s
  value : Reads pair.2 m.2

/-- A member up to the end of its value. -/
theorem read_pair {pair : List UInt8 × List UInt8} {m : List UInt8 × Value} {e : Bool}
    {ms : List (List UInt8 × Value)} {st : List Frame} (h : ReadsMember pair m)
    (hrest : Stops rest) :
    read (.beginString e) (.key ms :: st) (pair.1 ++ 0x3A :: (pair.2 ++ rest)) =
      read (.endValue m.2) (.value ms m.1 :: st) rest := by
  obtain ⟨k, v⟩ := pair
  obtain ⟨name, value⟩ := m
  obtain ⟨⟨s, hs, rfl, rfl⟩, hv⟩ := h
  have hq : quote s ++ 0x3A :: (v ++ rest) = 0x22 :: (s ++ 0x22 :: 0x3A :: (v ++ rest)) := by
    simp [quote]
  have hopen : (Scan.beginString e).step (.key ms :: st) 0x22 =
      some (.inString [], .key ms :: st) := by
    cases e <;> rfl
  have hcolon : read (.endValue (.str (unquote s))) (.key ms :: st) (0x3A :: (v ++ rest)) =
      read (.begin false) (.value ms (unquote s) :: st) (v ++ rest) := read_step rfl rfl (by simp)
  rw [hq, read_step hopen rfl (by simp), read_body hs, List.nil_append, hcolon, hv _ _ _ hrest]

/-- The members of an object. -/
theorem read_pairs {pairs : List (List UInt8 × List UInt8)} {ms done : List (List UInt8 × Value)}
    {e : Bool} {st : List Frame} (h : List.Forall₂ ReadsMember pairs ms) (hne : pairs ≠ []) :
    read (.beginString e) (.key done :: st) (writePairs pairs ++ 0x7D :: rest) =
      read (.endValue (.obj (done ++ ms))) st rest := by
  induction h generalizing done e with
  | nil => exact (hne rfl).elim
  | @cons pair m pairs ms hm hms ih =>
    cases hms with
    | nil =>
      have htext : writePairs [pair] ++ 0x7D :: rest =
          pair.1 ++ 0x3A :: (pair.2 ++ 0x7D :: rest) := by simp [writePairs]
      rw [htext, read_pair hm (stops_cons (.inr (.inr rfl)))]
      exact read_step rfl rfl (by simp)
    | @cons pair' m' pairs ms hm' hms =>
      have htext : writePairs (pair :: pair' :: pairs) ++ 0x7D :: rest = pair.1 ++ 0x3A ::
          (pair.2 ++ 0x2C :: (writePairs (pair' :: pairs) ++ 0x7D :: rest)) := by
        simp [writePairs]
      have hcomma : read (.endValue m.2) (.value done m.1 :: st)
            (0x2C :: (writePairs (pair' :: pairs) ++ 0x7D :: rest)) =
          read (.beginString false) (.key (done ++ [m]) :: st)
            (writePairs (pair' :: pairs) ++ 0x7D :: rest) := read_step rfl rfl (by simp)
      rw [htext, read_pair hm (stops_cons (.inl rfl)), hcomma, ih nofun, List.append_assoc]
      rfl

/-- **An object is read from the texts of its members.** -/
theorem reads_map {pairs : List (List UInt8 × List UInt8)} {ms : List (List UInt8 × Value)}
    (h : List.Forall₂ ReadsMember pairs ms) : Reads (writeMap pairs) (.obj ms) := by
  intro e st rest _
  have htext : writeMap pairs ++ rest = 0x7B :: (writePairs pairs ++ 0x7D :: rest) := by
    simp [writeMap]
  have hopen : read (.begin e) st (0x7B :: (writePairs pairs ++ 0x7D :: rest)) =
      read (.beginString true) (.key [] :: st) (writePairs pairs ++ 0x7D :: rest) := by
    refine read_step ?_ rfl (by simp)
    cases e <;> rcases st with _ | ⟨_ | _ | _, st⟩ <;> rfl
  rw [htext, hopen]
  cases h with
  | nil => exact read_step rfl rfl (by simp)
  | cons hm hms => rw [read_pairs (.cons hm hms) (List.cons_ne_nil _ _), List.nil_append]

/-- What is left of a literal. -/
theorem read_lit {lit : List UInt8} {v : Value} {st : List Frame} (hne : lit ≠ []) :
    read (.lit lit v) st (lit ++ rest) = read (.endValue v) st rest := by
  induction lit with
  | nil => exact (hne rfl).elim
  | cons b lit ih =>
    cases lit with
    | nil => exact read_step (if_pos rfl) rfl (by simp)
    | cons b' lit =>
      have hstep : (Scan.lit (b :: b' :: lit) v).step st b = some (.lit (b' :: lit) v, st) :=
        if_pos rfl
      rw [List.cons_append, read_step hstep rfl (by simp)]
      exact ih (List.cons_ne_nil _ _)

/-- The literals `null`, -/
theorem reads_null : Reads (ascii "null") .null := by
  intro e st rest _
  have hn : (Scan.begin e).step st 0x6E = some (.lit (ascii "ull") .null, st) := by
    cases e <;> rcases st with _ | ⟨_ | _ | _, st⟩ <;> rfl
  exact (read_step hn rfl (by simp)).trans (read_lit (by decide))

/-- `true` -/
theorem reads_true : Reads (ascii "true") (.bool true) := by
  intro e st rest _
  have ht : (Scan.begin e).step st 0x74 = some (.lit (ascii "rue") (.bool true), st) := by
    cases e <;> rcases st with _ | ⟨_ | _ | _, st⟩ <;> rfl
  exact (read_step ht rfl (by simp)).trans (read_lit (by decide))

/-- and `false`. -/
theorem reads_false : Reads (ascii "false") (.bool false) := by
  intro e st rest _
  have hf : (Scan.begin e).step st 0x66 = some (.lit (ascii "alse") (.bool false), st) := by
    cases e <;> rcases st with _ | ⟨_ | _ | _, st⟩ <;> rfl
  exact (read_step hf rfl (by simp)).trans (read_lit (by decide))

/-- A string is read as itself, up to bytes that are no UTF-8. -/
theorem reads_escapeString (s : List UInt8) :
    Reads (quote (escapeString s)) (.str (sanitize s)) := by
  rw [← unquote_escapeString]
  exact reads_quote (writes_escapeString s).body

/-- A name that needs no escapes stands for itself, -/
theorem body_safe (h : (s.all fun c => c < 0x80 && htmlSafe c) = true) :
    Body s ∧ unquote s = s := by
  have hsafe := escapeString_safe h
  have hbody := (writes_escapeString s).body
  have hunquote := unquote_escapeString s
  have hascii : sanitize s = s := sanitize_ascii (List.all_eq_true.2 fun c hc =>
    ((Bool.and_eq_true _ _).mp (List.all_eq_true.1 h c hc)).1)
  rw [hsafe] at hbody hunquote
  exact ⟨hbody, hunquote.trans hascii⟩

/-- as a value -/
theorem reads_safe (h : (s.all fun c => c < 0x80 && htmlSafe c) = true) :
    Reads (quote s) (.str s) := by
  obtain ⟨hbody, hunquote⟩ := body_safe h
  have hreads := reads_quote hbody
  rwa [hunquote] at hreads

/-- and as the name of a member. -/
theorem readsMember_safe {text : List UInt8} {v : Value}
    (h : (s.all fun c => c < 0x80 && htmlSafe c) = true) (hv : Reads text v) :
    ReadsMember (quote s, text) (s, v) :=
  ⟨⟨s, (body_safe h).1, rfl, (body_safe h).2.symm⟩, hv⟩

/-- **`Unmarshal` undoes `Marshal`** on strings, up to bytes that are no UTF-8. -/
theorem reads_marshalStrings (ss : List (List UInt8)) :
    Reads (marshalStrings ss) (.arr (ss.map fun s => .str (sanitize s))) := by
  refine reads_array ?_
  induction ss with
  | nil => exact .nil
  | cons s ss ih => exact .cons (reads_escapeString s) ih

@[inherit_doc reads_marshalStrings]
theorem parse_marshalStrings (ss : List (List UInt8)) :
    parse (marshalStrings ss) = some (.arr (ss.map fun s => .str (sanitize s))) :=
  (reads_marshalStrings ss).parse

end

end Json

end UAssign

import UAssign.Go.JsonString

/-!
# `JSON.stringify`: strings and numbers

A string of JavaScript is a list of UTF-16 code units, in which halves of surrogate pairs may stand
alone. `QuoteJSONString` writes it as a JSON string, and what a Go program reads is its text in
UTF-8 (`reads_quoteJSONString`). Numbers are written in decimal.
-/

namespace UAssign.Json

open Utf8 Bufio

/-! ## Strings of code units -/

/-- A code unit that is not one of a pair. -/
def loneUnit (c : UInt16) : List UInt8 :=
  if isHigh c.toNat || isLow c.toNat then errorRune else encodeRune c.toNat

/-- The character of a pair. -/
def pairRune (h l : UInt16) : Nat := (h.toNat - 0xD800) * 1024 + (l.toNat - 0xDC00) + 0x10000

/-- The text of a string in UTF-8, without the halves of pairs that stand alone. -/
def toUtf8 : List UInt16 → List UInt8
  | [] => []
  | [c] => loneUnit c
  | h :: l :: rest =>
    if isHigh h.toNat && isLow l.toNat then encodeRune (pairRune h l) ++ toUtf8 rest
    else loneUnit h ++ toUtf8 (l :: rest)

/-- `UnicodeEscape`. -/
def unicodeEscape (n : Nat) : List UInt8 :=
  [0x5C, 0x75, hexDigit (n / 4096 % 16), hexDigit (n / 256 % 16), hexDigit (n / 16 % 16),
    hexDigit (n % 16)]

/-- The code units that are escaped by a letter, with the letters. -/
def letters : List (UInt16 × UInt8) :=
  [(0x08, 0x62), (0x09, 0x74), (0x0A, 0x6E), (0x0C, 0x66), (0x0D, 0x72), (0x22, 0x22), (0x5C, 0x5C)]

/-- `QuoteJSONString`, of a code unit that is not one of a pair. A half of a pair is written as an
escape if the engine's `JSON.stringify` is well-formed; if not, `WebSocket.send` replaces it. -/
def quoteUnit (wellFormed : Bool) (c : UInt16) : List UInt8 :=
  match letters.lookup c with
  | some letter => [0x5C, letter]
  | none =>
    if c < 0x20 then unicodeEscape c.toNat
    else if isHigh c.toNat || isLow c.toNat then
      if wellFormed then unicodeEscape c.toNat else errorRune
    else encodeRune c.toNat

/-- `QuoteJSONString`, between the quotation marks, as it is sent. -/
def quoteJSONString (wellFormed : Bool) : List UInt16 → List UInt8
  | [] => []
  | [c] => quoteUnit wellFormed c
  | h :: l :: rest =>
    if isHigh h.toNat && isLow l.toNat then
      encodeRune (pairRune h l) ++ quoteJSONString wellFormed rest
    else quoteUnit wellFormed h ++ quoteJSONString wellFormed (l :: rest)

/-- A number, in decimal. -/
def decimal (n : Nat) : List UInt8 :=
  if n < 10 then [UInt8.ofNat (0x30 + n)] else decimal (n / 10) ++ [UInt8.ofNat (0x30 + n % 10)]

section

variable {s : List UInt8} {us : List UInt16} {high : Option Nat} {n : Nat} {wellFormed : Bool}

/-! ## Reading code units -/

theorem hexVal_hexDigit (h : n < 16) : hexVal (hexDigit n) = some n ∧ hexDigit n < 0x80 := by
  have hall : ∀ n : Fin 16, hexVal (hexDigit n) = some n.val ∧ hexDigit n < 0x80 := by decide
  exact hall ⟨n, h⟩

/-- The digits of an escape stand for its code unit. -/
theorem getu4_unicodeEscape (h : n < 65536) :
    getu4 (hexDigit (n / 4096 % 16)) (hexDigit (n / 256 % 16)) (hexDigit (n / 16 % 16))
      (hexDigit (n % 16)) = n := by
  have hd : ∀ k, hexVal (hexDigit (k % 16)) = some (k % 16) :=
    fun k => (hexVal_hexDigit (Nat.mod_lt _ (by decide))).1
  simp only [getu4, hd, Option.getD_some]
  omega

/-- An escape of a code unit is a literal, in ASCII. -/
theorem body_unicodeEscape (n : Nat) : Body (unicodeEscape n) ∧ Valid (unicodeEscape n) := by
  have hd : ∀ k, (hexVal (hexDigit (k % 16))).isSome = true ∧ hexDigit (k % 16) < 0x80 := by
    intro k
    obtain ⟨hval, hlow⟩ := @hexVal_hexDigit (k % 16) (Nat.mod_lt _ (by decide))
    exact ⟨by rw [hval]; rfl, hlow⟩
  constructor
  · refine .unicode (fun x hx => ?_) .nil
    simp only [List.mem_cons, List.not_mem_nil, or_false] at hx
    rcases hx with rfl | rfl | rfl | rfl <;> exact (hd _).1
  · refine valid_ascii fun x hx => ?_
    simp only [unicodeEscape, List.mem_cons, List.not_mem_nil, or_false] at hx
    rcases hx with rfl | rfl | rfl | rfl | rfl | rfl
    · decide
    · decide
    all_goals exact (hd _).2

/-- The escape of a first half is kept until it is known what follows, -/
theorem unescape_high (hn : n < 65536) (h : isHigh n = true) :
    unescape high (unicodeEscape n ++ s) = lone high ++ unescape (some n) s := by
  have hunit := getu4_unicodeEscape hn
  have hl : ¬ isLow n = true := by
    simp only [isHigh, isLow, decide_eq_true_eq] at h ⊢
    omega
  unfold unicodeEscape
  simp only [List.cons_append, List.nil_append]
  cases high with
  | none => rw [unescape.eq_2, hunit, if_neg hl, if_pos h]
  | some r => rw [unescape.eq_1, hunit, if_neg hl, if_pos h]

/-- that of a second half that follows none is replaced. -/
theorem unescape_low (hn : n < 65536) (h : isLow n = true) :
    unescape none (unicodeEscape n ++ s) = errorRune ++ unescape none s := by
  have hunit := getu4_unicodeEscape hn
  unfold unicodeEscape
  simp only [List.cons_append, List.nil_append]
  rw [unescape.eq_2, hunit, if_pos h]

/-- Any other stands for its character. -/
theorem unescape_unit (hn : n < 65536) (hh : isHigh n = false) (hl : isLow n = false) :
    unescape high (unicodeEscape n ++ s) = lone high ++ encodeRune n ++ unescape none s := by
  have hunit := getu4_unicodeEscape hn
  have := @unescape_unicode s high (hexDigit (n / 4096 % 16)) (hexDigit (n / 256 % 16))
    (hexDigit (n / 16 % 16)) (hexDigit (n % 16)) (by rw [hunit]; exact hl) (by rw [hunit]; exact hh)
  rw [hunit] at this
  exact this

/-- A character that is written as it is. -/
theorem raw_rune (hv : n < 0xD800 ∨ (0xDFFF < n ∧ n < 0x110000)) (hlow : 0x20 ≤ n)
    (hquote : n ≠ 0x22) (hslash : n ≠ 0x5C) : Body (encodeRune n) ∧ Valid (encodeRune n) ∧
      ∀ high s,
        unescape high (encodeRune n ++ s) = lone high ++ encodeRune n ++ unescape none s := by
  obtain ⟨c, rfl⟩ := exists_char hv
  rw [show encodeRune c.val.toNat = String.utf8EncodeChar c from encodeRune_toNat c]
  rcases decodeRune_encodeChar c [] with ⟨b, hb, hlt⟩ | ⟨hlen, -⟩
  · have hval : b.toNat = c.val.toNat := by
      have hrune := decodeRune_encodeChar_eq c []
      have hfirst : first b = .ascii := if_pos hlt
      rw [hb, List.append_nil] at hrune
      simp only [decodeRune, hfirst] at hrune
      exact (Prod.mk.inj hrune).1
    rw [← hval] at hlow hquote hslash
    have hslash : b ≠ 0x5C := fun h => hslash (by rw [h]; rfl)
    rw [hb]
    refine ⟨.byte (fun h => ?_) (fun h => hquote (by rw [h]; rfl)) hslash .nil, ?_,
      fun high s => ?_⟩
    · rw [UInt8.lt_iff_toNat_lt] at h
      exact absurd (show b.toNat < 0x20 from h) (by omega)
    · exact hb ▸ valid_encodeChar c
    · exact unescape_bytes (List.forall_mem_singleton.2 hslash) (List.cons_ne_nil _ _)
  · have hhigh := encodeChar_high c hlen
    refine ⟨body_high hhigh, valid_encodeChar c, fun high s => ?_⟩
    refine unescape_bytes (fun x hx => ?_) (List.ne_nil_of_length_pos (by omega))
    rintro rfl
    exact absurd (hhigh _ hx) (by decide)

/-- A half of a pair is no character, and no byte. -/
theorem half_range {c : UInt16} (h : isHigh c.toNat = true ∨ isLow c.toNat = true) :
    0xD800 ≤ c.toNat ∧ c.toNat < 0xE000 := by
  simp only [isHigh, isLow, decide_eq_true_eq] at h
  omega

/-- The character of a pair is beyond the code units. -/
theorem pairRune_range {h l : UInt16} (hh : isHigh h.toNat = true) (hl : isLow l.toNat = true) :
    0x10000 ≤ pairRune h l ∧ pairRune h l < 0x110000 := by
  simp only [isHigh, isLow, decide_eq_true_eq] at hh hl
  simp only [pairRune]
  omega

/-- What an escape by a letter stands for. -/
theorem letters_spec {c : UInt16} {letter : UInt8} (h : letters.lookup c = some letter) :
    letter ∈ ascii "bfnrt\\/\"" ∧ letter < 0x80 ∧ letter ≠ 0x75 ∧
      encodeRune c.toNat = [escapeByte letter] ∧ isHigh c.toNat = false ∧
        isLow c.toNat = false := by
  have hall : (letters.all fun x => x.2 ∈ ascii "bfnrt\\/\"" && x.2 < 0x80 && x.2 != 0x75 &&
      encodeRune x.1.toNat = [escapeByte x.2] && !isHigh x.1.toNat && !isLow x.1.toNat) = true := by
    decide +kernel
  obtain ⟨l₁, l₂, heq, -⟩ := List.lookup_eq_some_iff.1 h
  have hx := List.all_eq_true.1 hall (c, letter) (by rw [heq]; simp)
  simp only [Bool.and_eq_true, decide_eq_true_eq, bne_iff_ne, Bool.not_eq_true'] at hx
  obtain ⟨⟨⟨⟨⟨hmem, hascii⟩, hne⟩, hrune⟩, hhigh⟩, hlow⟩ := hx
  exact ⟨hmem, hascii, hne, hrune, hhigh, hlow⟩

/-- What is written for a unit that is no half of a pair. -/
theorem quoteUnit_spec {c : UInt16} (hh : isHigh c.toNat = false) (hl : isLow c.toNat = false) :
    Body (quoteUnit wellFormed c) ∧ Valid (quoteUnit wellFormed c) ∧
      ∀ high s, unescape high (quoteUnit wellFormed c ++ s) =
        lone high ++ loneUnit c ++ unescape none s := by
  have hloneUnit : loneUnit c = encodeRune c.toNat := by simp [loneUnit, hh, hl]
  rw [hloneUnit]
  unfold quoteUnit
  cases hletter : letters.lookup c with
  | some letter =>
    obtain ⟨hmem, hascii, hne, hrune, -⟩ := letters_spec hletter
    refine ⟨.escape hmem .nil, valid_ascii ?_, fun high s => ?_⟩
    · exact List.forall_mem_cons.2 ⟨by decide, List.forall_mem_singleton.2 hascii⟩
    · rw [hrune, List.append_assoc]
      exact unescape_escape hne
  | none =>
    have hquote : c.toNat ≠ 0x22 := fun h => by
      rw [show c = 0x22 from UInt16.toNat_inj.1 h] at hletter
      cases hletter
    have hslash : c.toNat ≠ 0x5C := fun h => by
      rw [show c = 0x5C from UInt16.toNat_inj.1 h] at hletter
      cases hletter
    have hhalf : ¬ (isHigh c.toNat || isLow c.toNat) = true := by
      rw [hh, hl]
      exact Bool.false_ne_true
    by_cases hlow : c < 0x20
    · obtain ⟨hbody, hvalid⟩ := body_unicodeEscape c.toNat
      simp only [if_pos hlow]
      exact ⟨hbody, hvalid, fun high s => unescape_unit c.toNat_lt hh hl⟩
    · have hv : c.toNat < 0xD800 ∨ (0xDFFF < c.toNat ∧ c.toNat < 0x110000) := by
        have := c.toNat_lt
        simp only [isHigh, isLow, decide_eq_false_iff_not] at hh hl
        omega
      simp only [if_neg hlow, if_neg hhalf]
      rw [UInt16.lt_iff_toNat_lt, not_lt] at hlow
      exact raw_rune hv hlow hquote hslash

/-- What is written for a half of a pair that stands alone. -/
theorem quoteUnit_half {c : UInt16} (h : isHigh c.toNat = true ∨ isLow c.toNat = true) :
    quoteUnit wellFormed c = if wellFormed then unicodeEscape c.toNat else errorRune := by
  have hletter : letters.lookup c = none := by
    refine Option.eq_none_iff_forall_ne_some.2 fun letter hl => ?_
    obtain ⟨-, -, -, -, hh, hl⟩ := letters_spec hl
    rw [hh, hl] at h
    rcases h with h | h <;> cases h
  have hlow : ¬ c < 0x20 := by
    rw [UInt16.lt_iff_toNat_lt, not_lt]
    exact le_trans (by decide) (half_range h).1
  have hor : (isHigh c.toNat || isLow c.toNat) = true := by
    rw [Bool.or_eq_true]
    exact h
  unfold quoteUnit
  rw [hletter]
  exact (if_neg hlow).trans (if_pos hor)

/-- The replacement character is no ASCII. -/
theorem errorRune_high : ∀ c ∈ errorRune, 0x80 ≤ c := by
  unfold errorRune
  simp only [List.forall_mem_cons]
  exact ⟨by decide, by decide, by decide, fun c hc => by cases hc⟩

/-- What is written for a unit is a literal. -/
theorem body_quoteUnit (wellFormed : Bool) (c : UInt16) :
    Body (quoteUnit wellFormed c) ∧ Valid (quoteUnit wellFormed c) := by
  by_cases h : isHigh c.toNat = true ∨ isLow c.toNat = true
  · rw [quoteUnit_half h]
    split
    · exact body_unicodeEscape _
    · exact ⟨body_high errorRune_high, valid_errorRune⟩
  · obtain ⟨hh, hl⟩ := not_or.1 h
    obtain ⟨hbody, hvalid, -⟩ :=
      @quoteUnit_spec wellFormed c (Bool.eq_false_iff.2 hh) (Bool.eq_false_iff.2 hl)
    exact ⟨hbody, hvalid⟩

/-- The character of a pair is written as it is. -/
theorem raw_pair {h l : UInt16} (hpair : (isHigh h.toNat && isLow l.toNat) = true) :
    Body (encodeRune (pairRune h l)) ∧ Valid (encodeRune (pairRune h l)) ∧
      ∀ high s, unescape high (encodeRune (pairRune h l) ++ s) =
        lone high ++ encodeRune (pairRune h l) ++ unescape none s := by
  obtain ⟨hh, hl⟩ := (Bool.and_eq_true _ _).mp hpair
  obtain ⟨hge, hlt⟩ := pairRune_range hh hl
  exact raw_rune (.inr ⟨by omega, hlt⟩) (by omega) (by omega) (by omega)

/-- What is written for a string is a literal. -/
theorem body_quoteJSONString (wellFormed : Bool) (us : List UInt16) :
    Body (quoteJSONString wellFormed us) ∧ Valid (quoteJSONString wellFormed us) := by
  fun_induction quoteJSONString wellFormed us with
  | case1 => exact ⟨.nil, .nil⟩
  | case2 c => exact body_quoteUnit wellFormed c
  | case3 h l rest hpair ih =>
    obtain ⟨hbody, hvalid, -⟩ := raw_pair hpair
    exact ⟨hbody.append ih.1, hvalid.append ih.2⟩
  | case4 h l rest hpair ih =>
    obtain ⟨hbody, hvalid⟩ := body_quoteUnit wellFormed h
    exact ⟨hbody.append ih.1, hvalid.append ih.2⟩

/-- What the decoder makes of a unit that is not one of a pair, in front of a text that it reads as
`t` whatever first half it has in hand. -/
theorem unescape_quoteUnit {c : UInt16} {t : List UInt8}
    (hc : high.isSome = true → isLow c.toNat = false)
    (hs : unescape none s = t) (hhigh : isHigh c.toNat = true →
      unescape (some c.toNat) s = errorRune ++ t) :
    unescape high (quoteUnit wellFormed c ++ s) = lone high ++ loneUnit c ++ t := by
  by_cases h : isHigh c.toNat = true ∨ isLow c.toNat = true
  · have hlone : loneUnit c = errorRune := by
      have hor : (isHigh c.toNat || isLow c.toNat) = true := by
        rw [Bool.or_eq_true]
        exact h
      exact if_pos hor
    rw [quoteUnit_half h, hlone]
    cases wellFormed with
    | false =>
      have hbytes : ∀ x ∈ errorRune, x ≠ 0x5C := by
        rintro x hx rfl
        exact absurd (errorRune_high _ hx) (by decide)
      rw [if_neg Bool.false_ne_true, unescape_bytes hbytes (List.cons_ne_nil _ _), hs]
    | true =>
      rw [if_pos rfl]
      by_cases hh : isHigh c.toNat = true
      · rw [unescape_high c.toNat_lt hh, hhigh hh, List.append_assoc]
      · have hl := h.resolve_left hh
        obtain rfl : high = none := by
          cases high with
          | none => rfl
          | some r =>
            rw [hc rfl] at hl
            cases hl
        rw [unescape_low c.toNat_lt hl, hs]
        rfl
  · obtain ⟨hh, hl⟩ := not_or.1 h
    obtain ⟨-, -, hreads⟩ :=
      @quoteUnit_spec wellFormed c (Bool.eq_false_iff.2 hh) (Bool.eq_false_iff.2 hl)
    rw [hreads, hs]

/-- **What is written for a string is read as its text.** -/
theorem unescape_quoteJSONString
    (hhigh : high.isSome = true → ∀ c ∈ us.head?, isLow c.toNat = false) :
    unescape high (quoteJSONString wellFormed us) = lone high ++ toUtf8 us := by
  fun_induction quoteJSONString wellFormed us generalizing high with
  | case1 => exact (List.append_nil _).symm
  | case2 c =>
    have hunit := @unescape_quoteUnit [] high wellFormed c [] (fun hs => hhigh hs c rfl) rfl
      fun _ => (List.append_nil _).symm
    rw [List.append_nil, List.append_nil] at hunit
    exact hunit
  | case3 h l rest hpair ih =>
    obtain ⟨-, -, hreads⟩ := raw_pair hpair
    have hrest := @ih none (fun hs => by cases hs)
    rw [hreads, hrest, toUtf8, if_pos hpair, List.append_assoc]
    rfl
  | case4 h l rest hpair ih =>
    have hrest := @ih none (fun hs => by cases hs)
    rw [toUtf8, if_neg hpair, ← List.append_assoc]
    refine unescape_quoteUnit (fun hs => hhigh hs h rfl) hrest fun hh => ih fun _ c hc => ?_
    cases hc
    rw [hh, Bool.true_and] at hpair
    exact Bool.eq_false_iff.2 hpair

/-- What `JSON.stringify` writes for a string stands for its text. -/
theorem unquote_quoteJSONString (wellFormed : Bool) (us : List UInt16) :
    unquote (quoteJSONString wellFormed us) = toUtf8 us := by
  rw [unquote, sanitize_valid (body_quoteJSONString wellFormed us).2,
    unescape_quoteJSONString fun hs => by cases hs]
  rfl

/-- The scanner reads what `JSON.stringify` writes for a string. -/
theorem reads_quoteJSONString (wellFormed : Bool) (us : List UInt16) :
    Reads (quote (quoteJSONString wellFormed us)) (.str (toUtf8 us)) := by
  rw [← unquote_quoteJSONString wellFormed us]
  exact reads_quote (body_quoteJSONString wellFormed us).1

/-! ## Reading numbers -/

/-- A number that is complete ends in front of what ends it. -/
theorem read_number_end {m : NumState} {raw rest : List UInt8} {st : List Frame}
    (hm : m = .zero ∨ m = .int) (hrest : Stops rest) :
    read (.number m raw) st rest = read (.endValue (.num raw)) st rest := by
  cases rest with
  | nil => rcases hm with rfl | rfl <;> rfl
  | cons d rest =>
    have hsettle : (Scan.number m raw).settle (some d) = some (.endValue (.num raw)) := by
      rcases hm with rfl | rfl <;> rcases hrest d rfl with rfl | rfl | rfl <;> rfl
    have hend : (Scan.endValue (.num raw)).settle (some d) = some (.endValue (.num raw)) := rfl
    unfold read
    rw [hsettle, hend]

/-- The digits of a number. -/
theorem read_digits {raw ds rest : List UInt8} {st : List Frame}
    (hds : ∀ c ∈ ds, isDigit c = true) (hrest : Stops rest) :
    read (.number .int raw) st (ds ++ rest) = read (.endValue (.num (raw ++ ds))) st rest := by
  induction ds generalizing raw with
  | nil =>
    rw [List.append_nil]
    exact read_number_end (.inr rfl) hrest
  | cons c ds ih =>
    obtain ⟨hc, hds⟩ := List.forall_mem_cons.1 hds
    have hnext : NumState.next .int c = some .int := if_pos hc
    have hstep : (Scan.number .int raw).step st c = some (.number .int (raw ++ [c]), st) := by
      simp only [Scan.step, hnext, Option.map_some]
    have hsettle : (Scan.number .int raw).settle (some c) = some (.number .int raw) := by
      simp only [Scan.settle, Option.bind_some, hnext, Option.isSome_some, if_true]
    rw [List.cons_append, read_step hstep hsettle (by simp), ih hds, List.append_assoc]
    rfl

/-- A digit. -/
theorem isDigit_ofNat (h : n < 10) : isDigit (UInt8.ofNat (0x30 + n)) = true ∧
    (n ≠ 0 → UInt8.ofNat (0x30 + n) ≠ 0x30) := by
  have hall : ∀ n : Fin 10, isDigit (UInt8.ofNat (0x30 + n)) = true ∧
      (n.val ≠ 0 → UInt8.ofNat (0x30 + n) ≠ 0x30) := by decide
  exact hall ⟨n, h⟩

/-- A number is written in digits, of which the first one is no `0` unless the number is. -/
theorem decimal_digits (n : Nat) : ∃ d ds, decimal n = d :: ds ∧ isDigit d = true ∧
    (n ≠ 0 → d ≠ 0x30) ∧ (n = 0 → ds = []) ∧ ∀ c ∈ ds, isDigit c = true := by
  fun_induction decimal n with
  | case1 n h =>
    obtain ⟨hdigit, hne⟩ := isDigit_ofNat h
    exact ⟨_, [], rfl, hdigit, hne, fun _ => rfl, fun c hc => by cases hc⟩
  | case2 n h ih =>
    obtain ⟨d, ds, heq, hd, hne, -, hds⟩ := ih
    refine ⟨d, ds ++ [UInt8.ofNat (0x30 + n % 10)], by rw [heq]; rfl, hd,
      fun _ => hne (by omega), fun h0 => absurd h0 (by omega), fun c hc => ?_⟩
    rcases List.mem_append.1 hc with hc | hc
    · exact hds c hc
    · rw [List.mem_singleton.1 hc]
      exact (isDigit_ofNat (Nat.mod_lt _ (by decide))).1

/-- The first digit of a number. -/
theorem step_digit {e : Bool} {st : List Frame} {d : UInt8} (hd : isDigit d = true) :
    (Scan.begin e).step st d =
      some (.number (if d = 0x30 then .zero else .int) [d], st) := by
  have hne : ∀ x : UInt8, isDigit x = false → d ≠ x := by
    rintro x hx rfl
    rw [hd] at hx
    cases hx
  have hspace : isSpace d = false := by
    simp [isSpace, hne 0x20 rfl, hne 0x09 rfl, hne 0x0D rfl, hne 0x0A rfl]
  have hbegin : stateBeginValue st d =
      some (.number (if d = 0x30 then .zero else .int) [d], st) := by
    unfold stateBeginValue
    rw [if_neg (hne 0x7B rfl), if_neg (hne 0x5B rfl), if_neg (hne 0x22 rfl), if_neg (hne 0x2D rfl),
      if_neg (hne 0x74 rfl), if_neg (hne 0x66 rfl), if_neg (hne 0x6E rfl), if_pos hd]
    split <;> rfl
  have hclose : d ≠ 0x5D := hne _ rfl
  cases e <;> rcases st with _ | ⟨_ | _ | _, st⟩ <;>
    simp only [Scan.step, hspace, hbegin, hclose, Bool.false_eq_true, if_false]

/-- The scanner reads a number. -/
theorem reads_decimal (n : Nat) : Reads (decimal n) (.num (decimal n)) := by
  obtain ⟨d, ds, heq, hd, hne, hnil, hds⟩ := decimal_digits n
  intro e st rest hrest
  rw [heq, List.cons_append]
  rw [read_step (step_digit hd) rfl (by simp)]
  by_cases hn : n = 0
  · obtain rfl := hnil hn
    have hzero : d = 0x30 := by
      rw [hn, decimal] at heq
      exact (List.cons.inj heq).1.symm
    rw [if_pos hzero]
    exact read_number_end (.inl rfl) hrest
  · rw [if_neg (hne hn)]
    exact read_digits hds hrest

end

end UAssign.Json

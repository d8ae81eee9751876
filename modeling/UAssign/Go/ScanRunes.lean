import UAssign.Go.Bufio

/-!
# Rune by rune

`sanitize` is the text that scanning a whole byte sequence with `bufio.ScanRunes` at EOF yields:
every valid character kept, every byte of an invalid encoding replaced by U+FFFD. The lemmas say how
one rune of a longer sequence is scanned from a part of it, before its end is known
(`scanRunes_append`) and after it (`scanRunes_take`).
-/

namespace UAssign.Bufio

open Utf8

/-- On data at EOF a rune is consumed, and its token is valid UTF-8. -/
theorem scanRunes_eof {data : List UInt8} (h : data ≠ []) :
    ∃ a t, scanRunes data true = ⟨a, some t, none⟩ ∧ 0 < a ∧ a ≤ data.length ∧ t ≠ [] ∧
      Valid t := by
  cases data with
  | nil => exact absurd rfl h
  | cons b bs =>
    unfold scanRunes
    by_cases hb : b < 0x80
    · obtain ⟨c, hc⟩ := encodeChar_one hb
      exact ⟨1, [b], by simp [hb], by simp, by simp, by simp, hc ▸ valid_encodeChar c⟩
    · by_cases hw : 1 < (decodeRune (b :: bs)).2
      · obtain ⟨c, hc⟩ := decodeRune_valid hw
        refine ⟨(decodeRune (b :: bs)).2, _, by simp [hb, hw], by omega, width_le_length _, ?_,
          hc ▸ valid_encodeChar c⟩
        simp only [ne_eq, List.take_eq_nil_iff, reduceCtorEq, or_false]
        omega
      · exact ⟨1, errorRune, by simp [hb, hw], by simp, by simp, by decide, valid_errorRune⟩

/-- **A rune scanned early.** Data that may go on either is an incomplete rune, and nothing is
consumed, or its first rune is scanned as it would be with any bytes behind it. -/
theorem scanRunes_append {data : List UInt8} (h : data ≠ []) :
    (scanRunes data false = ⟨0, none, none⟩ ∧ fullRune data = false) ∨
    ∀ rest, scanRunes (data ++ rest) true = scanRunes data false := by
  cases data with
  | nil => exact absurd rfl h
  | cons b bs =>
    by_cases hb : b < 0x80
    · exact .inr fun rest => by simp [scanRunes, hb]
    · by_cases hf : fullRune (b :: bs) = true
      · refine .inr fun rest => ?_
        have hd := decodeRune_append hf rest
        rw [List.cons_append] at hd
        by_cases hw : 1 < (decodeRune (b :: bs)).2
        · have hle := width_le_length (b :: bs)
          simp only [scanRunes, List.cons_append, hb, hd, hw, if_true, if_false]
          rw [← List.cons_append, List.take_append_of_le_length hle]
        · simp [scanRunes, hb, hd, hw, hf]
      · have hf : fullRune (b :: bs) = false := by simpa using hf
        have hw : ¬ 1 < (decodeRune (b :: bs)).2 := by
          intro hw
          have := fullRune_of_width hw
          rw [hf] at this
          cases this
        exact .inl ⟨by simp [scanRunes, hb, hw, hf], hf⟩

/-- **A rune scanned from its own bytes.** The first rune is scanned the same from any prefix that
holds it. -/
theorem scanRunes_take {data : List UInt8} {k : Nat} (hk : 0 < k)
    (h : (scanRunes data true).advance ≤ k) :
    scanRunes (data.take k) true = scanRunes data true := by
  cases data with
  | nil => simp
  | cons b bs =>
    obtain ⟨k, rfl⟩ : ∃ m, k = m + 1 := ⟨k - 1, by omega⟩
    by_cases hb : b < 0x80
    · simp [scanRunes, hb]
    · have happ : b :: bs.take k ++ bs.drop k = b :: bs := by simp
      by_cases hw : 1 < (decodeRune (b :: bs)).2
      · have hadv : (decodeRune (b :: bs)).2 ≤ k + 1 := by
          simpa [scanRunes, hb, hw] using h
        have hd : decodeRune (b :: bs.take k) = decodeRune (b :: bs) :=
          decodeRune_take hw hadv
        simp only [scanRunes, List.take_succ_cons, hb, hd, hw, if_true, if_false]
        rw [← List.take_succ_cons, List.take_take, Nat.min_eq_left hadv]
      · have hw' : ¬ 1 < (decodeRune (b :: bs.take k)).2 := by
          intro hw'
          have hd := decodeRune_append (fullRune_of_width hw') (bs.drop k)
          rw [happ] at hd
          exact hw (hd ▸ hw')
        simp [scanRunes, hb, hw, hw']

/-! ## The sanitised text -/

/-- The text of a whole byte sequence: the tokens of `bufio.ScanRunes` at EOF, one rune at a
time. -/
def sanitize (data : List UInt8) : List UInt8 :=
  if _h : data = [] then []
  else (scanRunes data true).token.getD [] ++ sanitize (data.drop (scanRunes data true).advance)
termination_by data.length
decreasing_by
  obtain ⟨a, t, hs, ha, -⟩ := scanRunes_eof _h
  have := List.length_pos_iff.2 _h
  simp only [hs, List.length_drop]
  omega

@[simp] theorem sanitize_nil : sanitize [] = [] := by
  unfold sanitize; simp

/-- The first rune of a text. -/
theorem sanitize_step {data t : List UInt8} {a : Nat} (h : data ≠ [])
    (hs : scanRunes data true = ⟨a, some t, none⟩) :
    sanitize data = t ++ sanitize (data.drop a) := by
  rw [sanitize, dif_neg h, hs]
  rfl

/-- A non-empty sequence has a non-empty text. -/
theorem sanitize_ne_nil {data : List UInt8} (h : data ≠ []) : sanitize data ≠ [] := by
  obtain ⟨a, t, hs, -, -, ht, -⟩ := scanRunes_eof h
  rw [sanitize_step h hs]
  simp [ht]

/-- The text of any sequence is valid UTF-8. -/
theorem sanitize_isValid (data : List UInt8) : Valid (sanitize data) := by
  induction hn : data.length using Nat.strongRecOn generalizing data with
  | ind n ih =>
    by_cases h : data = []
    · subst h; rw [sanitize_nil]; exact .nil
    · obtain ⟨a, t, hs, ha, -, -, hv⟩ := scanRunes_eof h
      rw [sanitize_step h hs]
      have := List.length_pos_iff.2 h
      exact hv.append (ih _ (by rw [List.length_drop]; omega) _ rfl)

/-- The first rune of an encoded character is the character. -/
theorem scanRunes_encodeChar (c : Char) (rest : List UInt8) :
    scanRunes (String.utf8EncodeChar c ++ rest) true =
      ⟨(String.utf8EncodeChar c).length, some (String.utf8EncodeChar c), none⟩ := by
  rcases decodeRune_encodeChar c rest with ⟨b, hb, hlt⟩ | ⟨hlen, hw⟩
  · simp [hb, scanRunes, hlt]
  · obtain ⟨b, bs, hbs⟩ : ∃ b bs, String.utf8EncodeChar c = b :: bs :=
      List.exists_cons_of_ne_nil (by rw [← List.length_pos_iff]; omega)
    rw [hbs] at hw hlen ⊢
    rw [List.cons_append] at hw ⊢
    have hb : ¬ b < 0x80 := by
      intro hb
      have hd : (decodeRune (b :: (bs ++ rest))).2 = 1 := by simp [decodeRune, first, hb]
      omega
    simp only [scanRunes, hb, if_false, hw]
    rw [if_pos hlen, ← List.cons_append, List.take_left]

/-- **Valid text is kept.** -/
theorem sanitize_valid {data : List UInt8} (h : Valid data) : sanitize data = data := by
  obtain ⟨cs, rfl⟩ := h
  induction cs with
  | nil => simp
  | cons c cs ih =>
    have hs := scanRunes_encodeChar c (cs.flatMap String.utf8EncodeChar)
    rw [List.flatMap_cons, sanitize_step (by simp) hs, List.drop_left, ih]

end UAssign.Bufio

import Mathlib

/-!
# Cipher feedback

Cipher feedback with segments of `seg` units over a block function `E` on a shift register: a
segment is combined with the front of the register's block, and the resulting segment of ciphertext
is shifted into the register. Over whole blocks of units the register is the previous block of
ciphertext; the common modes differ in `seg` only. What a combination does, the same one undoes
(`decrypt_encrypt`).
-/

namespace UAssign.CipherFeedback

variable {α : Type}

section

variable (op : α → α → α) (E : List α → List α) (seg : Nat)

/-- The ciphertext of a text, from a register. -/
def encrypt (reg text : List α) : List α :=
  if _h : text = [] ∨ seg = 0 then []
  else
    let c := List.zipWith op (text.take seg) (E reg)
    c ++ encrypt (reg.drop seg ++ c) (text.drop seg)
termination_by text.length
decreasing_by
  have := List.length_pos_iff.2 (not_or.1 _h).1
  have := (not_or.1 _h).2
  rw [List.length_drop]
  omega

/-- The text of a ciphertext, from a register. -/
def decrypt (reg text : List α) : List α :=
  if _h : text = [] ∨ seg = 0 then []
  else
    let p := List.zipWith op (text.take seg) (E reg)
    p ++ decrypt (reg.drop seg ++ text.take seg) (text.drop seg)
termination_by text.length
decreasing_by
  have := List.length_pos_iff.2 (not_or.1 _h).1
  have := (not_or.1 _h).2
  rw [List.length_drop]
  omega

end

variable {op : α → α → α} {E : List α → List α} {seg : Nat} {reg text : List α}

@[simp] theorem encrypt_nil : encrypt op E seg reg [] = [] := by rw [encrypt, dif_pos (.inl rfl)]

@[simp] theorem decrypt_nil : decrypt op E seg reg [] = [] := by rw [decrypt, dif_pos (.inl rfl)]

/-- The first segment of a ciphertext. -/
theorem encrypt_step (hseg : seg ≠ 0) (h : text ≠ []) :
    encrypt op E seg reg text = List.zipWith op (text.take seg) (E reg) ++
      encrypt op E seg (reg.drop seg ++ List.zipWith op (text.take seg) (E reg))
        (text.drop seg) := by
  rw [encrypt, dif_neg (not_or.2 ⟨h, hseg⟩)]

/-- The first segment of a text. -/
theorem decrypt_step (hseg : seg ≠ 0) (h : text ≠ []) :
    decrypt op E seg reg text = List.zipWith op (text.take seg) (E reg) ++
      decrypt op E seg (reg.drop seg ++ text.take seg) (text.drop seg) := by
  rw [decrypt, dif_neg (not_or.2 ⟨h, hseg⟩)]

/-- A ciphertext of one segment does not depend on the segment size. -/
theorem encrypt_short (hseg : seg ≠ 0) (h : text.length ≤ seg) :
    encrypt op E seg reg text = List.zipWith op text (E reg) := by
  by_cases h0 : text = []
  · simp [h0]
  · rw [encrypt_step hseg h0, List.take_of_length_le h, List.drop_eq_nil_of_le h, encrypt_nil,
      List.append_nil]

/-- Combining twice with the same units gives a text back. -/
theorem zipWith_zipWith (hop : ∀ a b, op (op a b) b = a) {xs ks : List α}
    (h : xs.length ≤ ks.length) : List.zipWith op (List.zipWith op xs ks) ks = xs := by
  induction xs generalizing ks with
  | nil => simp
  | cons x xs ih =>
    cases ks with
    | nil => simp at h
    | cons k ks => simp [hop, ih (Nat.le_of_succ_le_succ h)]

variable (hE : ∀ reg, seg ≤ (E reg).length) (hseg : seg ≠ 0)

include hE

/-- A segment keeps its length. -/
theorem length_segment : (List.zipWith op (text.take seg) (E reg)).length =
    (text.take seg).length := by
  have := hE reg
  rw [List.length_zipWith, List.length_take]
  omega

include hseg

/-- A ciphertext has the length of its text. -/
theorem length_encrypt : (encrypt op E seg reg text).length = text.length := by
  induction hn : text.length using Nat.strongRecOn generalizing reg text with
  | ind n ih =>
    by_cases h : text = []
    · simp [h] at hn ⊢; exact hn
    · have hpos := List.length_pos_iff.2 h
      rw [encrypt_step hseg h, List.length_append, length_segment hE,
        ih _ (by rw [List.length_drop]; omega) rfl, List.length_take, List.length_drop]
      omega

/-- A text has the length of its ciphertext. -/
theorem length_decrypt : (decrypt op E seg reg text).length = text.length := by
  induction hn : text.length using Nat.strongRecOn generalizing reg text with
  | ind n ih =>
    by_cases h : text = []
    · simp [h] at hn ⊢; exact hn
    · have hpos := List.length_pos_iff.2 h
      rw [decrypt_step hseg h, List.length_append, length_segment hE,
        ih _ (by rw [List.length_drop]; omega) rfl, List.length_take, List.length_drop]
      omega

/-- **Decryption undoes encryption**, whatever the block function, the segment size and the length
of the text. -/
theorem decrypt_encrypt (hop : ∀ a b, op (op a b) b = a) :
    decrypt op E seg reg (encrypt op E seg reg text) = text := by
  induction hn : text.length using Nat.strongRecOn generalizing reg text with
  | ind n ih =>
    by_cases h : text = []
    · simp [h]
    · have hpos := List.length_pos_iff.2 h
      have hlen : (List.zipWith op (text.take seg) (E reg)).length = (text.take seg).length :=
        length_segment hE
      rw [encrypt_step hseg h]
      generalize hc : List.zipWith op (text.take seg) (E reg) = c at hlen ⊢
      generalize hr : encrypt op E seg (reg.drop seg ++ c) (text.drop seg) = rest
      -- the first segment of the ciphertext is `c`, also where it is the last one
      have hsplit : (c ++ rest).take seg = c ∧ (c ++ rest).drop seg = rest := by
        rw [List.length_take] at hlen
        by_cases hle : seg ≤ text.length
        · have hcl : c.length = seg := by omega
          exact ⟨List.take_left' hcl, List.drop_left' hcl⟩
        · have hdrop : text.drop seg = [] := List.drop_eq_nil_of_le (by omega)
          rw [hdrop, encrypt_nil] at hr
          subst hr
          rw [List.append_nil]
          exact ⟨List.take_of_length_le (by omega), List.drop_eq_nil_of_le (by omega)⟩
      have hne : c ++ rest ≠ [] := by
        intro h0
        rw [(List.append_eq_nil_iff.1 h0).1, List.length_take] at hlen
        simp only [List.length_nil] at hlen
        omega
      rw [decrypt_step hseg hne, hsplit.1, hsplit.2, ← hr,
        ih _ (by rw [List.length_drop]; omega) rfl, ← hc, zipWith_zipWith hop,
        List.take_append_drop]
      have := hE reg
      rw [List.length_take]
      omega

end UAssign.CipherFeedback

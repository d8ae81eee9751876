import UAssign.Lib.CipherFeedback

/-!
# `crypto/cipher`: the CFB stream

The stream of `NewCFBEncrypter` and `NewCFBDecrypter`, with its `next` and `out` blocks. The byte
slices of a call are windows of one memory, so that the two may be the same window: a decrypter that
works in place overwrites the ciphertext it is about to need as feedback. It decrypts all the same
(`xorKeyStream_decrypt`), and an encrypter writes the ciphertext of `CipherFeedback.encrypt`
(`xorKeyStream_encrypt`); the segments of both are whole blocks.
-/

namespace UAssign.Cipher

/-- `aes.BlockSize`. -/
def blockSize : Nat := 16

/-- A block cipher: the encryption of a block under a key already set up. -/
structure Block where
  encrypt : List UInt8 → List UInt8
  length_encrypt : ∀ b, (encrypt b).length = blockSize

/-! ## Windows of a memory -/

/-- The bytes of the window at `i` of length `n`. -/
def window (mem : List UInt8) (i n : Nat) : List UInt8 := (mem.drop i).take n

/-- The memory after a write at `i`. -/
def write (mem : List UInt8) (i : Nat) (bs : List UInt8) : List UInt8 :=
  mem.take i ++ bs ++ mem.drop (i + bs.length)

/-- `copy(dst[i:], src)`, for a slice `dst` apart from the memory. -/
def copyFrom (dst : List UInt8) (i : Nat) (src : List UInt8) : List UInt8 :=
  write dst i (src.take (dst.length - i))

/-! ## The stream -/

/-- `cipher.cfb`. -/
structure Cfb where
  b : Block
  next : List UInt8
  out : List UInt8
  outUsed : Nat
  decrypt : Bool

/-- `newCFB`. It panics on an IV that is not a block long. -/
def newCFB (b : Block) (iv : List UInt8) (decrypt : Bool) : Option Cfb :=
  if iv.length = blockSize then
    some
      { b := b, next := iv, out := List.replicate blockSize 0, outUsed := blockSize,
        decrypt := decrypt }
  else none

/-- One round of the loop of `XORKeyStream` over the windows of length `len` at `dst` and `src`: the
stream, the memory and the number of bytes done. -/
def Cfb.round (x : Cfb) (mem : List UInt8) (dst src len : Nat) : Cfb × List UInt8 × Nat :=
  let x := if x.outUsed = x.out.length then { x with out := x.b.encrypt x.next, outUsed := 0 }
    else x
  -- on decryption the feedback is taken before the ciphertext is overwritten
  let x := if x.decrypt then { x with next := copyFrom x.next x.outUsed (window mem src len) } else x
  let ks := x.out.drop x.outUsed
  let n := min len ks.length
  let mem := write mem dst (List.zipWith (· ^^^ ·) (window mem src n) ks)
  let x := if x.decrypt then x
    else { x with next := copyFrom x.next x.outUsed (window mem dst len) }
  ({ x with outUsed := x.outUsed + n }, mem, n)

/-- `cfb.XORKeyStream` of the window of length `len` at `src` into the one at `dst`. A round that
does nothing stands for the loop that would not end. -/
def Cfb.xorKeyStream (x : Cfb) (mem : List UInt8) (dst src len : Nat) : Cfb × List UInt8 :=
  match _h : x.round mem dst src len with
  | (x', mem', n) =>
    if _hn : 0 < n ∧ n ≤ len then x'.xorKeyStream mem' (dst + n) (src + n) (len - n) else (x, mem)
termination_by len
decreasing_by omega

/-! ## What the windows hold -/

section

variable {mem bs cs : List UInt8} {i j n : Nat}

theorem length_window (h : i + n ≤ mem.length) : (window mem i n).length = n := by
  rw [window, List.length_take, List.length_drop]
  omega

theorem length_write (h : i + bs.length ≤ mem.length) : (write mem i bs).length = mem.length := by
  simp only [write, List.length_append, List.length_take, List.length_drop]
  omega

@[simp] theorem write_nil : write mem i [] = mem := by simp [write]

/-- The part of a window from its `k`-th byte on. -/
theorem window_drop {k : Nat} : window mem (i + k) (n - k) = (window mem i n).drop k := by
  rw [window, window, List.drop_take, List.drop_drop]

/-- The first bytes of a window. -/
theorem window_take {k : Nat} (h : k ≤ n) : window mem i k = (window mem i n).take k := by
  rw [window, window, List.take_take, Nat.min_eq_left h]

/-- A window holds what has been written to it. -/
theorem window_write (h : i ≤ mem.length) : window (write mem i bs) i bs.length = bs := by
  rw [window, write, List.append_assoc, List.drop_left' (by rw [List.length_take]; omega),
    List.take_left]

/-- A write leaves the windows behind it as they are. -/
theorem window_write_after (h : i + bs.length ≤ mem.length) (hj : i + bs.length ≤ j) :
    window (write mem i bs) j n = window mem j n := by
  obtain ⟨k, rfl⟩ := Nat.exists_eq_add_of_le hj
  have hlen : (mem.take i ++ bs).length = i + bs.length := by
    rw [List.length_append, List.length_take]; omega
  rw [window, window, write, ← List.drop_drop, List.drop_left' hlen, List.drop_drop]

/-- Two writes side by side are one. -/
theorem write_write (h : i + bs.length ≤ mem.length) :
    write (write mem i bs) (i + bs.length) cs = write mem i (bs ++ cs) := by
  have hlen : (mem.take i ++ bs).length = i + bs.length := by
    rw [List.length_append, List.length_take]; omega
  have hdrop : (mem.take i ++ bs ++ mem.drop (i + bs.length)).drop (i + bs.length + cs.length) =
      mem.drop (i + (bs.length + cs.length)) := by
    rw [← List.drop_drop, List.drop_left' hlen, List.drop_drop, Nat.add_assoc]
  rw [write, write, write, List.take_left' hlen, hdrop, List.length_append]
  simp only [List.append_assoc]

end

/-! ## The loop -/

/-- A stream between two blocks. -/
structure Cfb.Aligned (x : Cfb) : Prop where
  next : x.next.length = blockSize
  out : x.out.length = blockSize
  outUsed : x.outUsed = blockSize

/-- A new stream has a block due. -/
theorem newCFB_aligned (b : Block) (decrypt : Bool) {iv : List UInt8}
    (h : iv.length = blockSize) :
    ∃ x, newCFB b iv decrypt = some x ∧ x.Aligned ∧ x.b = b ∧ x.next = iv ∧ x.decrypt = decrypt :=
  ⟨_, if_pos h, ⟨h, List.length_replicate, rfl⟩, rfl, rfl, rfl⟩

/-- `copy` over a whole block takes the front of what it is given. -/
theorem copyFrom_block {dst src : List UInt8} (h : dst.length = blockSize)
    (hs : blockSize ≤ src.length) : copyFrom dst 0 src = src.take blockSize := by
  have hlen : (src.take (dst.length - 0)).length = dst.length := by
    rw [List.length_take]; omega
  rw [copyFrom, write, List.take_zero, List.nil_append, Nat.zero_add, hlen, List.drop_length,
    List.append_nil, h]
  rfl

/-- A copy keeps the length of the block. -/
theorem length_copyFrom {dst src : List UInt8} {i : Nat} (h : i ≤ dst.length) :
    (copyFrom dst i src).length = dst.length := by
  refine length_write ?_
  rw [List.length_take]
  omega

section

variable {x : Cfb} {mem : List UInt8} {d s len : Nat}

/-- The bytes a round writes: the next segment of the window, combined with a new block. -/
def Cfb.segment (x : Cfb) (mem : List UInt8) (s len : Nat) : List UInt8 :=
  List.zipWith (· ^^^ ·) (window mem s (min len blockSize)) (x.b.encrypt x.next)

/-- A round writes as many bytes as it takes. -/
theorem Cfb.length_segment (hs : s + len ≤ mem.length) :
    (x.segment mem s len).length = min len blockSize := by
  rw [segment, List.length_zipWith, x.b.length_encrypt, length_window (by omega)]
  omega

/-- The feedback of a round: a decrypter reads it off its source, an encrypter off what it has
written. -/
def Cfb.feedback (x : Cfb) (mem : List UInt8) (d s len : Nat) : List UInt8 :=
  copyFrom x.next 0 (if x.decrypt then window mem s len
    else window (write mem d (x.segment mem s len)) d len)

/-- The stream after a round. -/
def Cfb.after (x : Cfb) (mem : List UInt8) (d s len : Nat) : Cfb :=
  { x with next := x.feedback mem d s len, out := x.b.encrypt x.next, outUsed := min len blockSize }

/-- One round between two blocks. -/
theorem Cfb.Aligned.round (h : x.Aligned) :
    x.round mem d s len =
      (x.after mem d s len, write mem d (x.segment mem s len), min len blockSize) := by
  have hout : x.outUsed = x.out.length := h.outUsed.trans h.out.symm
  unfold Cfb.round Cfb.after Cfb.feedback
  rw [if_pos hout]
  cases x.decrypt <;> simp [x.b.length_encrypt, Cfb.segment]

/-- The feedback is a block long. -/
theorem Cfb.Aligned.length_feedback (h : x.Aligned) :
    (x.feedback mem d s len).length = blockSize :=
  (length_copyFrom (Nat.zero_le _)).trans h.next

/-- After a round over a whole block the stream is between two blocks again. -/
theorem Cfb.Aligned.after (h : x.Aligned) (hlen : blockSize ≤ len) :
    (x.after mem d s len).Aligned :=
  ⟨h.length_feedback, x.b.length_encrypt _, Nat.min_eq_right hlen⟩

/-- A call is its first round and the rest of the loop. -/
theorem Cfb.Aligned.xorKeyStream (h : x.Aligned) (hlen : len ≠ 0) :
    x.xorKeyStream mem d s len = (x.after mem d s len).xorKeyStream
      (write mem d (x.segment mem s len)) (d + min len blockSize) (s + min len blockSize)
      (len - min len blockSize) := by
  have hpos : 0 < min len blockSize ∧ min len blockSize ≤ len := by
    have : 0 < blockSize := by decide
    omega
  rw [Cfb.xorKeyStream]
  split
  next x' mem' n hr =>
    rw [h.round] at hr
    cases hr
    rw [dif_pos hpos]

/-- A call over nothing does nothing. -/
theorem Cfb.xorKeyStream_zero : x.xorKeyStream mem d s 0 = (x, mem) := by
  rw [Cfb.xorKeyStream]
  split
  exact dif_neg (by omega)

/-- The decrypter's feedback is the next block of the ciphertext. -/
theorem Cfb.Aligned.feedback_decrypt (h : x.Aligned) (hx : x.decrypt = true)
    (hs : s + len ≤ mem.length) (hlen : blockSize ≤ len) :
    x.feedback mem d s len = (window mem s len).take blockSize := by
  rw [feedback, hx, if_pos rfl, copyFrom_block h.next (by rw [length_window hs]; exact hlen)]

/-- The encrypter's feedback is the block of ciphertext it has written. -/
theorem Cfb.Aligned.feedback_encrypt (h : x.Aligned) (hx : x.decrypt = false)
    (hd : d + len ≤ mem.length) (hs : s + len ≤ mem.length) (hlen : blockSize ≤ len) :
    x.feedback mem d s len = x.segment mem s len := by
  have hseg := length_segment (x := x) hs
  have hw : (write mem d (x.segment mem s len)).length = mem.length :=
    length_write (by omega)
  rw [feedback, hx, if_neg Bool.false_ne_true,
    copyFrom_block h.next (by rw [length_window (by omega)]; exact hlen), ← window_take hlen,
    show blockSize = (x.segment mem s len).length by omega, window_write (by omega)]

/-- The last, partial segment: nothing comes after it. -/
theorem Cfb.Aligned.xorKeyStream_last (h : x.Aligned) (hlen : len < blockSize) (h0 : len ≠ 0) :
    (x.xorKeyStream mem d s len).2 = write mem d (x.segment mem s len) := by
  rw [h.xorKeyStream h0, show len - min len blockSize = 0 by omega, xorKeyStream_zero]

/-- The text or ciphertext of a whole block and what follows it. -/
theorem Cfb.segment_eq (hlen : blockSize ≤ len) :
    x.segment mem s len =
      List.zipWith (· ^^^ ·) ((window mem s len).take blockSize) (x.b.encrypt x.next) := by
  rw [segment, Nat.min_eq_right hlen, window_take hlen]

/-- **Decryption in place.** Over one window as source and destination, a decrypter leaves the text
of the ciphertext that was there, and nothing else has changed. -/
theorem Cfb.Aligned.xorKeyStream_decrypt (h : x.Aligned) (hx : x.decrypt = true)
    (hd : d + len ≤ mem.length) :
    (x.xorKeyStream mem d d len).2 =
      write mem d (CipherFeedback.decrypt (· ^^^ ·) x.b.encrypt blockSize x.next
        (window mem d len)) := by
  have hbs : blockSize ≠ 0 := by decide
  induction hn : len using Nat.strongRecOn generalizing x mem d len with
  | ind n ih =>
    subst hn
    by_cases h0 : len = 0
    · subst h0
      simp [xorKeyStream_zero, window]
    have hlenr := length_window hd
    have hne : window mem d len ≠ [] := by
      rw [← List.length_pos_iff]; omega
    rw [CipherFeedback.decrypt_step hbs hne]
    by_cases hle : blockSize ≤ len
    · have hmin : min len blockSize = blockSize := Nat.min_eq_right hle
      have hseg := length_segment (x := x) hd
      have hdw : d + (x.segment mem d len).length ≤ mem.length := by omega
      have hreg : x.next.drop blockSize = [] := List.drop_eq_nil_of_le (Nat.le_of_eq h.next)
      -- the rest of the ciphertext is still there for the rest of the loop
      have hrest : window (write mem d (x.segment mem d len)) (d + blockSize) (len - blockSize) =
          (window mem d len).drop blockSize := by
        rw [window_write_after hdw (by omega), window_drop]
      have hnext : (x.after mem d d len).next = (window mem d len).take blockSize :=
        h.feedback_decrypt hx hd hle
      rw [h.xorKeyStream h0, hmin,
        ih (len - blockSize) (by omega) (h.after hle) hx
          (by rw [length_write hdw]; omega) rfl,
        hrest, hnext, hreg, List.nil_append, ← segment_eq hle]
      show write (write mem d _) (d + blockSize) _ = _
      rw [show d + blockSize = d + (x.segment mem d len).length by omega, write_write hdw]
      rfl
    · have hlt : len < blockSize := by omega
      have hdrop : (window mem d len).drop blockSize = [] := List.drop_eq_nil_of_le (by omega)
      rw [h.xorKeyStream_last hlt h0, List.take_of_length_le (by omega), hdrop,
        CipherFeedback.decrypt_nil, List.append_nil, Cfb.segment, Nat.min_eq_left (by omega)]

/-- **Encryption** from one window into another in front of it leaves the ciphertext of the text
there. -/
theorem Cfb.Aligned.xorKeyStream_encrypt (h : x.Aligned) (hx : x.decrypt = false)
    (hd : d + len ≤ s) (hs : s + len ≤ mem.length) :
    (x.xorKeyStream mem d s len).2 =
      write mem d (CipherFeedback.encrypt (· ^^^ ·) x.b.encrypt blockSize x.next
        (window mem s len)) := by
  have hbs : blockSize ≠ 0 := by decide
  induction hn : len using Nat.strongRecOn generalizing x mem d s len with
  | ind n ih =>
    subst hn
    by_cases h0 : len = 0
    · subst h0
      simp [xorKeyStream_zero, window]
    have hlenr := length_window hs
    have hne : window mem s len ≠ [] := by
      rw [← List.length_pos_iff]; omega
    rw [CipherFeedback.encrypt_step hbs hne]
    by_cases hle : blockSize ≤ len
    · have hmin : min len blockSize = blockSize := Nat.min_eq_right hle
      have hseg := length_segment (x := x) hs
      have hdw : d + (x.segment mem s len).length ≤ mem.length := by omega
      have hreg : x.next.drop blockSize = [] := List.drop_eq_nil_of_le (Nat.le_of_eq h.next)
      have hrest : window (write mem d (x.segment mem s len)) (s + blockSize) (len - blockSize) =
          (window mem s len).drop blockSize := by
        rw [window_write_after hdw (by omega), window_drop]
      have hnext : (x.after mem d s len).next = x.segment mem s len :=
        h.feedback_encrypt hx (by omega) hs hle
      rw [h.xorKeyStream h0, hmin,
        ih (len - blockSize) (by omega) (h.after hle) hx (by omega)
          (by rw [length_write hdw]; omega) rfl,
        hrest, hnext, hreg, List.nil_append, ← segment_eq hle]
      show write (write mem d _) (d + blockSize) _ = _
      rw [show d + blockSize = d + (x.segment mem s len).length by omega, write_write hdw]
      rfl
    · have hlt : len < blockSize := by omega
      have hdrop : (window mem s len).drop blockSize = [] := List.drop_eq_nil_of_le (by omega)
      rw [h.xorKeyStream_last hlt h0, List.take_of_length_le (by omega), hdrop,
        CipherFeedback.encrypt_nil, List.append_nil, Cfb.segment, Nat.min_eq_left (by omega)]

end

end UAssign.Cipher

import Mathlib

/-!
# `io.Copy`

The loop of `io.Copy`, between a reader whose reads are given, and a writer that may write less, or
fail. A copy ends at the first error, of either side; the reader's EOF is none. A copy has delivered
its input if it has read up to EOF and written all that it has read; it does so if and only if no
step of it does harm (`Copy.Fits.delivered_iff`).
-/

namespace UAssign

namespace Copy

/-! ## Readers -/

/-- What a call of `Read` returns: some bytes, and maybe an error with them. -/
structure Read (E : Type) where
  data : List UInt8
  err : Option E
  deriving DecidableEq

/-- A reader, by what each call of `Read` returns. -/
abbrev Reader (E : Type) : Type := Nat → Read E

namespace Reader

variable {E : Type} (r : Reader E)

/-- The bytes of the first reads. -/
def upTo (n : Nat) : List UInt8 := (List.range n).flatMap fun i => (r i).data

/-- The reader ends with this error, behind these bytes. -/
def Ends (data : List UInt8) (err : E) : Prop :=
  ∃ n, (∀ i < n, (r i).err = none) ∧ (r n).err = some err ∧ data = r.upTo (n + 1)

@[simp]
theorem upTo_succ (n : Nat) : r.upTo (n + 1) = r.upTo n ++ (r n).data := by
  simp [upTo, List.range_succ]

variable {r}

/-- A reader has one end. -/
theorem Ends.err_unique {data data' : List UInt8} {err err' : E} (h : r.Ends data err)
    (h' : r.Ends data' err') : err = err' := by
  obtain ⟨n, hbefore, herr, -⟩ := h
  obtain ⟨n', hbefore', herr', -⟩ := h'
  rcases Nat.lt_trichotomy n n' with hlt | rfl | hlt
  · rw [hbefore' n hlt] at herr
    cases herr
  · rw [herr] at herr'
    exact Option.some.inj herr'
  · rw [hbefore n' hlt] at herr'
    cases herr'

/-- A reader that has ended with no error before the read `n` has its bytes up to there. -/
theorem Ends.upTo_prefix {data : List UInt8} {err : E} (h : r.Ends data err) {n : Nat}
    (hbefore : ∀ i < n, (r i).err = none) : r.upTo (n + 1) <+: data := by
  obtain ⟨m, -, herr, rfl⟩ := h
  have hle : n ≤ m := by
    by_contra hlt
    rw [hbefore m (by omega)] at herr
    cases herr
  have hprefix : ∀ d, r.upTo (n + 1) <+: r.upTo (n + 1 + d) := by
    intro d
    induction d with
    | zero => exact List.prefix_refl _
    | succ d ih => exact ih.trans (by rw [← Nat.add_assoc, upTo_succ]; exact List.prefix_append _ _)
  obtain ⟨d, rfl⟩ := Nat.exists_eq_add_of_le hle
  rw [Nat.add_right_comm]
  exact hprefix d

end Reader

/-! ## Writers -/

/-- What comes of a call of `Write`: it takes all bytes, returns an error, or does not return. To
`io.Copy`, a write that takes less is an error. -/
inductive Answer (E : Type) where
  | takes
  | fails (err : E)
  | blocks
  deriving DecidableEq

/-- A writer, by what becomes of a call of `Write` behind those before it, with their bytes. -/
abbrev Writer (E : Type) : Type := List (List UInt8) → List UInt8 → Answer E

/-! ## The loop -/

/-- Where a copy is: in `Read`, in `Write` with what it has read, or returned. -/
inductive Pc (E : Type) where
  | reading
  | writing (rd : Read E)
  | returned (err : Option E)
  deriving DecidableEq

end Copy

/-- A copy: where it is, how often it has called `Read`, and what has been written. -/
structure Copy (E : Type) where
  pc : Copy.Pc E
  reads : Nat
  written : List UInt8
  deriving DecidableEq

namespace Copy

section

variable {E : Type} [DecidableEq E] (eof shortWrite : E) (r : Reader E)

/-- A copy that starts. -/
def initial : Copy E := { pc := .reading, reads := 0, written := [] }

/-- Behind a read whose bytes have been written, the copy looks at the error. -/
def after (err : Option E) : Pc E :=
  match err with
  | none => .reading
  | some e => .returned (if e = eof then none else some e)

/-- A read; without bytes, there is no write. -/
def read (c : Copy E) : Option (Copy E) :=
  match c.pc with
  | .reading =>
    some { c with
      pc := if (r c.reads).data = [] then after eof (r c.reads).err else .writing (r c.reads)
      reads := c.reads + 1 }
  | _ => none

/-- A write of the bytes at hand, of which the writer takes `n`. -/
def write (c : Copy E) (n : Nat) (err : Option E) : Option (Copy E) :=
  match c.pc with
  | .writing rd =>
    if n ≤ rd.data.length then
      some { c with
        pc :=
          match err with
          | some e => .returned (some e)
          | none => if n = rd.data.length then after eof rd.err else .returned (some shortWrite)
        written := c.written ++ rd.data.take n }
    else none
  | _ => none

/-- The reader has been read up to EOF, without another error, and all its bytes have been
written. -/
def Delivered (c : Copy E) : Prop :=
  ∃ n, c.reads = n + 1 ∧ (∀ i < n, (r i).err = none) ∧ (r n).err = some eof ∧
    c.written = r.upTo (n + 1)

/-- A read does no harm if it does not fail: -/
def HarmlessRead (c : Copy E) : Prop :=
  c.pc = .reading → ∀ e, (r c.reads).err = some e → e = eof

/-- a write, if it takes all bytes, and fails only when EOF has come with them. -/
def HarmlessWrite (c : Copy E) (n : Nat) (err : Option E) : Prop :=
  ∀ rd, c.pc = .writing rd → n = rd.data.length ∧ (err = none ∨ rd.err = some eof)

/-! ## What a copy keeps -/

/-- A copy all of whose steps did no harm (`good`) has written what it has read, but for the bytes
at hand, or delivered; a copy that did some harm has returned without, or is about to. -/
def Fits (c : Copy E) (good : Prop) : Prop :=
  match c.pc with
  | .reading => good ∧ (∀ i < c.reads, (r i).err = none) ∧ c.written = r.upTo c.reads
  | .writing rd =>
    ∃ n, c.reads = n + 1 ∧ rd = r n ∧ (∀ i < n, (r i).err = none) ∧ c.written = r.upTo n ∧
      (good ↔ ∀ e, rd.err = some e → e = eof)
  | .returned _ => good ↔ c.Delivered eof r

variable {eof shortWrite r} {c c' : Copy E} {good : Prop}

omit [DecidableEq E] in
theorem fits_initial : (initial : Copy E).Fits eof r True :=
  ⟨trivial, fun i hi => absurd hi (Nat.not_lt_zero i), rfl⟩

omit [DecidableEq E] in
theorem Fits.congr {good' : Prop} (h : c.Fits eof r good) (hiff : good ↔ good') :
    c.Fits eof r good' := by
  rwa [← propext hiff]

/-- Behind a read all of whose bytes have been written, the copy goes on, or has delivered, or the
reader has failed. -/
theorem fits_after {n : Nat} (hbefore : ∀ i < n, (r i).err = none)
    (hgood : good ↔ ∀ e, (r n).err = some e → e = eof) :
    (Copy.mk (after eof (r n).err) (n + 1) (r.upTo (n + 1))).Fits eof r good := by
  cases herr : (r n).err with
  | none =>
    refine ⟨hgood.2 fun e he => ?_, fun i hi => ?_, rfl⟩
    · rw [herr] at he
      cases he
    · rcases Nat.lt_succ_iff_lt_or_eq.1 hi with hlt | rfl
      · exact hbefore i hlt
      · exact herr
  | some e =>
    show good ↔ _
    rw [hgood]
    constructor
    · intro heof
      exact ⟨n, rfl, hbefore, by rw [herr, heof e herr], rfl⟩
    · rintro ⟨m, hm, -, heof, -⟩ e' he'
      cases hm
      rw [he'] at heof
      exact Option.some.inj heof

omit [DecidableEq E] in
/-- A short write loses bytes. -/
theorem not_delivered_of_short {m n : Nat} {pc : Pc E} (h : n < (r m).data.length) :
    ¬ (Copy.mk pc (m + 1) (r.upTo m ++ (r m).data.take n)).Delivered eof r := by
  rintro ⟨k, hk, -, -, hall⟩
  cases hk
  have hlength := congrArg List.length hall
  simp only [Reader.upTo_succ, List.length_append, List.length_take] at hlength
  omega

/-- **A read.** -/
theorem Fits.read (h : c.Fits eof r good) (hs : c.read eof r = some c') :
    c'.Fits eof r (good ∧ c.HarmlessRead eof r) := by
  obtain ⟨pc, reads, written⟩ := c
  cases pc with
  | reading =>
    cases hs
    obtain ⟨hgood, hbefore, hwritten⟩ := h
    have hiff : (good ∧ HarmlessRead eof r ⟨.reading, reads, written⟩) ↔
        ∀ e, (r reads).err = some e → e = eof :=
      ⟨fun hh => hh.2 rfl, fun hh => ⟨hgood, fun _ => hh⟩⟩
    have hwritten : written = r.upTo reads := hwritten
    by_cases hdata : (r reads).data = []
    · have hmore : written = r.upTo (reads + 1) := by
        rw [hwritten, Reader.upTo_succ, hdata, List.append_nil]
      have hfits := fits_after hbefore hiff
      rw [← hmore] at hfits
      simpa [hdata] using hfits
    · simp only [hdata, if_false]
      exact ⟨reads, rfl, rfl, hbefore, hwritten, hiff⟩
  | writing rd => cases hs
  | returned err => cases hs

/-- **A write.** -/
theorem Fits.write {n : Nat} {err : Option E} (h : c.Fits eof r good)
    (hs : c.write eof shortWrite n err = some c') :
    c'.Fits eof r (good ∧ c.HarmlessWrite eof n err) := by
  obtain ⟨pc, reads, written⟩ := c
  cases pc with
  | writing rd =>
    obtain ⟨hn, hs⟩ := Option.ite_none_right_eq_some.1 hs
    cases hs
    obtain ⟨m, hreads, rfl, hbefore, hwritten, hgood⟩ := h
    have hreads : reads = m + 1 := hreads
    have hwritten : written = r.upTo m := hwritten
    subst hreads hwritten
    have hiff : HarmlessWrite eof ⟨.writing (r m), m + 1, r.upTo m⟩ n err ↔
        n = (r m).data.length ∧ (err = none ∨ (r m).err = some eof) :=
      ⟨fun hh => hh _ rfl, fun hh rd hrd => by cases hrd; exact hh⟩
    rcases Nat.lt_or_eq_of_le hn with hshort | rfl
    · -- a short write ends the copy
      have hharm : ¬ (good ∧ HarmlessWrite eof ⟨.writing (r m), m + 1, r.upTo m⟩ n err) :=
        fun hh => by have := (hiff.1 hh.2).1; omega
      cases err with
      | some e => exact iff_of_false hharm (not_delivered_of_short hshort)
      | none =>
        simp only [Nat.ne_of_lt hshort, if_false]
        exact iff_of_false hharm (not_delivered_of_short hshort)
    · rw [List.take_length, ← Reader.upTo_succ]
      cases err with
      | none =>
        simp only [if_true]
        refine fits_after hbefore ?_
        rw [hgood, hiff]
        simp
      | some e =>
        show _ ↔ _
        rw [hgood, hiff]
        constructor
        · rintro ⟨-, -, herr | heof⟩
          · cases herr
          · exact ⟨m, rfl, hbefore, heof, rfl⟩
        · rintro ⟨k, hk, -, heof, -⟩
          cases hk
          refine ⟨fun e' he' => ?_, rfl, .inr heof⟩
          rw [he'] at heof
          exact Option.some.inj heof
  | reading => cases hs
  | returned err => cases hs

omit [DecidableEq E] in
/-- **A copy that has returned has delivered if and only if no step of it did harm.** -/
theorem Fits.delivered_iff {err : Option E} (h : c.Fits eof r good) (hc : c.pc = .returned err) :
    c.Delivered eof r ↔ good := by
  rw [Fits, hc] at h
  exact h.symm

omit [DecidableEq E] in
/-- What has been delivered is all that the reader had. -/
theorem Delivered.ends (h : c.Delivered eof r) : r.Ends c.written eof := by
  obtain ⟨n, -, hbefore, heof, hwritten⟩ := h
  exact ⟨n, hbefore, heof, hwritten⟩

/-! ## What has been written -/

/-- Bytes that the reader begins with, up to a read that no error has come before. -/
def Begins (r : Reader E) (bytes : List UInt8) : Prop :=
  ∃ n, (∀ i < n, (r i).err = none) ∧ bytes <+: r.upTo (n + 1)

omit [DecidableEq E] in
theorem Begins.prefix {bytes data : List UInt8} {err : E} (h : Begins r bytes)
    (hends : r.Ends data err) : bytes <+: data := by
  obtain ⟨n, hbefore, hprefix⟩ := h
  exact hprefix.trans (hends.upTo_prefix hbefore)

theorem read_written (hs : c.read eof r = some c') : c'.written = c.written := by
  unfold Copy.read at hs
  split at hs
  · cases hs
    rfl
  · cases hs

/-- **A write** adds the bytes that the writer takes, and they come from the reader. -/
theorem Fits.write_written {n : Nat} {err : Option E} (h : c.Fits eof r good)
    (hs : c.write eof shortWrite n err = some c') :
    c'.written.length = c.written.length + n ∧ Begins r c'.written := by
  obtain ⟨pc, reads, written⟩ := c
  cases pc with
  | writing rd =>
    obtain ⟨hn, hs⟩ := Option.ite_none_right_eq_some.1 hs
    cases hs
    obtain ⟨m, -, rfl, hbefore, hwritten, -⟩ := h
    have hwritten : written = r.upTo m := hwritten
    refine ⟨?_, m, hbefore, ?_⟩
    · show (written ++ (r m).data.take n).length = written.length + n
      rw [List.length_append, List.length_take, Nat.min_eq_left hn]
    · show written ++ (r m).data.take n <+: r.upTo (m + 1)
      rw [hwritten, Reader.upTo_succ]
      exact (List.prefix_append_right_inj _).2 (List.take_prefix n _)
  | reading => cases hs
  | returned err => cases hs

end

end Copy

end UAssign

import UAssign.Go.Copy

/-!
# Inputs that end by themselves

The copy of an input to a connection that takes so many bytes, or has been closed, where only some
of the reads return. It comes to its end by itself if they return up to an error of the reader, and
what they bring fits, or if a write fails (`EndsAlone`).
-/

namespace UAssign.Docker.Cancel

section

variable {E : Type}

/-- A copy in front of read `k` ends by itself, on a connection that takes `room` bytes or has been
closed, where only some of the reads return: the bytes up to an error of the reader fit, or a write
fails. -/
inductive EndsFrom (r : Copy.Reader E) (returns : Nat → Bool) (closed : Bool) : Nat → Nat → Prop
  | err {k room : Nat} : returns k = true → (r k).err ≠ none → (r k).data.length ≤ room →
      EndsFrom r returns closed k room
  | next {k room : Nat} : returns k = true → (r k).data.length ≤ room →
      EndsFrom r returns closed (k + 1) (room - (r k).data.length) → EndsFrom r returns closed k room
  | fails {k room : Nat} : returns k = true → closed = true → (r k).data ≠ [] →
      EndsFrom r returns closed k room

/-- The same of a copy wherever it is. -/
def EndsAlone (r : Copy.Reader E) (returns : Nat → Bool) (closed : Bool) (room : Nat)
    (c : Copy E) : Prop :=
  match c.pc with
  | .reading => EndsFrom r returns closed c.reads room
  | .writing rd =>
    closed = true ∨ rd.data.length ≤ room ∧
      (rd.err ≠ none ∨ EndsFrom r returns closed c.reads (room - rd.data.length))
  | .returned _ => True

variable {r : Copy.Reader E} {returns : Nat → Bool} {closed : Bool} {k room : Nat}

/-- More reads bring no less. -/
theorem upTo_length_mono {m n : Nat} (h : m ≤ n) : (r.upTo m).length ≤ (r.upTo n).length := by
  induction h with
  | refl => exact le_rfl
  | step _ ih =>
    rw [Copy.Reader.upTo_succ, List.length_append]
    omega

/-- On an open connection, the reads return up to an error, and the connection takes what they have
brought. -/
theorem endsFrom_iff : EndsFrom r returns false k room ↔
    ∃ n, k ≤ n ∧ (∀ i, k ≤ i → i ≤ n → returns i = true) ∧ (r n).err ≠ none ∧
      (r.upTo (n + 1)).length ≤ (r.upTo k).length + room := by
  have hsucc : ∀ k, (r.upTo (k + 1)).length = (r.upTo k).length + (r k).data.length := by
    intro k
    rw [Copy.Reader.upTo_succ, List.length_append]
  constructor
  · intro h
    induction h with
    | @err k room hreturns herr hlen =>
      refine ⟨k, le_rfl, fun i hki hik => ?_, herr, by rw [hsucc]; omega⟩
      rwa [Nat.le_antisymm hik hki]
    | @next k room hreturns hlen _ ih =>
      obtain ⟨n, hn, hall, herr, hle⟩ := ih
      rw [hsucc k] at hle
      refine ⟨n, by omega, fun i hki hin => ?_, herr, by omega⟩
      rcases Nat.eq_or_lt_of_le hki with rfl | hlt
      · exact hreturns
      · exact hall i hlt hin
    | fails _ hclosed => cases hclosed
  · rintro ⟨n, hn, hall, herr, hle⟩
    obtain ⟨d, rfl⟩ := Nat.exists_eq_add_of_le hn
    clear hn
    induction d generalizing k room with
    | zero =>
      rw [Nat.add_zero, hsucc k] at hle
      exact .err (hall k le_rfl (by omega)) herr (by omega)
    | succ d ih =>
      have hk : k + (d + 1) = k + 1 + d := by omega
      have hfit := upTo_length_mono (r := r) (show k + 1 ≤ k + 1 + d + 1 by omega)
      rw [hk] at herr hle hall
      rw [hsucc k] at hfit
      exact .next (hall k le_rfl (by omega)) (by omega)
        (ih (fun i hi hle => hall i (by omega) hle) herr (by rw [hsucc k]; omega))

/-- A reader ends before a read that does not return, and its bytes fit. -/
def EndsWithin (r : Copy.Reader E) (returns : Nat → Bool) (room : Nat) : Prop :=
  ∃ n, (∀ i < n, (r i).err = none) ∧ (r n).err ≠ none ∧ (∀ i ≤ n, returns i = true) ∧
    (r.upTo (n + 1)).length ≤ room

theorem endsFrom_zero_iff : EndsFrom r returns false 0 room ↔ EndsWithin r returns room := by
  rw [endsFrom_iff]
  have hzero : (r.upTo 0).length = 0 := rfl
  constructor
  · rintro ⟨n, -, hall, herr, hle⟩
    -- the first read with an error
    have hex : ∃ n, (r n).err ≠ none := ⟨n, herr⟩
    have hfirst : Nat.find hex ≤ n := Nat.find_le herr
    have hmono : (r.upTo (Nat.find hex + 1)).length ≤ (r.upTo (n + 1)).length :=
      upTo_length_mono (Nat.succ_le_succ hfirst)
    refine ⟨Nat.find hex, fun i hi => not_not.1 (Nat.find_min hex hi), Nat.find_spec hex,
      fun i hi => hall i (Nat.zero_le i) (hi.trans hfirst), ?_⟩
    omega
  · rintro ⟨n, -, herr, hall, hle⟩
    exact ⟨n, Nat.zero_le n, fun i _ hi => hall i hi, herr, by omega⟩

/-- What a copy does by itself, it does with more room, and on a closed connection. -/
theorem EndsFrom.mono {closed' : Bool} {room' : Nat} (h : EndsFrom r returns closed k room)
    (hclosed : closed = true → closed' = true) (hroom : room ≤ room') :
    EndsFrom r returns closed' k room' := by
  induction h generalizing room' with
  | err hreturns herr hlen => exact .err hreturns herr (by omega)
  | next hreturns hlen _ ih => exact .next hreturns (by omega) (ih (by omega))
  | fails hreturns h hdata => exact .fails hreturns (hclosed h) hdata

theorem EndsAlone.mono {closed' : Bool} {room' : Nat} {c : Copy E}
    (h : EndsAlone r returns closed room c) (hclosed : closed = true → closed' = true)
    (hroom : room ≤ room') : EndsAlone r returns closed' room' c := by
  unfold EndsAlone at h ⊢
  cases hpc : c.pc with
  | reading =>
    rw [hpc] at h
    exact EndsFrom.mono h hclosed hroom
  | writing rd =>
    rw [hpc] at h
    rcases h with h | ⟨hlen, herr | hrest⟩
    · exact .inl (hclosed h)
    · exact .inr ⟨by omega, .inl herr⟩
    · exact .inr ⟨by omega, .inr (hrest.mono hclosed (by omega))⟩
  | returned err => trivial

/-- What the first read has to do with it. -/
theorem endsFrom_step : EndsFrom r returns closed k room ↔ returns k = true ∧
    (closed = true ∧ (r k).data ≠ [] ∨ (r k).data.length ≤ room ∧
      ((r k).err ≠ none ∨ EndsFrom r returns closed (k + 1) (room - (r k).data.length))) := by
  constructor
  · intro h
    cases h with
    | err hreturns herr hlen => exact ⟨hreturns, .inr ⟨hlen, .inl herr⟩⟩
    | next hreturns hlen hrest => exact ⟨hreturns, .inr ⟨hlen, .inr hrest⟩⟩
    | fails hreturns hclosed hdata => exact ⟨hreturns, .inl ⟨hclosed, hdata⟩⟩
  · rintro ⟨hreturns, ⟨hclosed, hdata⟩ | ⟨hlen, herr | hrest⟩⟩
    · exact .fails hreturns hclosed hdata
    · exact .err hreturns herr hlen
    · exact .next hreturns hlen hrest

section

variable [DecidableEq E] {eof shortWrite : E} {c c' : Copy E} {n : Nat}

/-- Where a read goes whose bytes have been written. -/
theorem endsAlone_after {err : Option E} {written : List UInt8} :
    EndsAlone r returns closed room ⟨Copy.after eof err, k, written⟩ ↔
      (err ≠ none ∨ EndsFrom r returns closed k room) := by
  cases err with
  | none => simp [EndsAlone, Copy.after]
  | some e => simp [EndsAlone, Copy.after]

/-- A read that returns. -/
theorem endsAlone_read (hreturns : returns c.reads = true) (h : c.read eof r = some c') :
    EndsAlone r returns closed room c' ↔ EndsAlone r returns closed room c := by
  obtain ⟨pc, reads, written⟩ := c
  cases pc with
  | reading =>
    cases h
    have hreturns : returns reads = true := hreturns
    rw [show EndsAlone r returns closed room ⟨.reading, reads, written⟩ ↔
      EndsFrom r returns closed reads room from Iff.rfl, endsFrom_step]
    by_cases hdata : (r reads).data = []
    · rw [if_pos hdata, endsAlone_after]
      simp [hdata, hreturns]
    · rw [if_neg hdata]
      simp [EndsAlone, hdata, hreturns]
  | writing rd => cases h
  | returned err => cases h

/-- A write that the connection takes. -/
theorem endsAlone_write {rd : Copy.Read E} (hpc : c.pc = .writing rd)
    (hroom : rd.data.length ≤ room)
    (h : c.write eof shortWrite rd.data.length none = some c') :
    EndsAlone r returns closed room c ↔
      closed = true ∨ EndsAlone r returns closed (room - rd.data.length) c' := by
  obtain ⟨pc, reads, written⟩ := c
  cases hpc
  simp only [Copy.write, le_refl, if_true, Option.some.injEq] at h
  subst h
  rw [endsAlone_after]
  simp [EndsAlone, hroom]

end

end

end UAssign.Docker.Cancel

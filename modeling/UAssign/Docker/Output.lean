import UAssign.Docker.Exec

/-!
# Copies of outputs

The goroutines of `Exec` that copy the outputs of an exec. Both read from the connection, so that
each byte goes to one of them, and write what they have read to the writers of the config, which may
fail, or block. Whether they come to their ends with what there is to be read depends on how they
share it (`Dealing`).
-/

namespace UAssign.Docker

/-! ## One copy -/

/-- Where the copy of an output is: in `Read`, in `Write` with what it has read, or at its end. -/
inductive Output.Pc (E : Type) where
  | reading
  | writing (bs : List UInt8)
  | ended (err : Option E)
  deriving DecidableEq

/-- The copy of an output: where it is, and what it has written, write by write. -/
structure Output (E : Type) where
  pc : Output.Pc E
  written : List (List UInt8)
  deriving DecidableEq

namespace Output

section

variable {E : Type} (w : Copy.Writer E)

/-- A copy that starts. -/
def initial : Output E := { pc := .reading, written := [] }

/-- A read that brings some bytes. -/
def read (o : Output E) (bs : List UInt8) : Option (Output E) :=
  match o.pc with
  | .reading => if bs = [] then none else some { o with pc := .writing bs }
  | _ => none

/-- A read that brings EOF or another error. -/
def stop (o : Output E) (err : Option E) : Option (Output E) :=
  match o.pc with
  | .reading => some { o with pc := .ended err }
  | _ => none

/-- A write, as the writer answers. -/
def write (o : Output E) : Option (Output E) :=
  match o.pc with
  | .writing bs =>
    match w o.written bs with
    | .takes => some { pc := .reading, written := o.written ++ [bs] }
    | .fails err => some { o with pc := .ended (some err) }
    | .blocks => none
  | _ => none

/-- What is needed behind a write: if it has been taken, and if it has failed. -/
def Behind (answer : Copy.Answer E) (taken failed : Prop) : Prop :=
  match answer with
  | .takes => taken
  | .fails _ => failed
  | .blocks => False

variable (ends : Prop)

/-- A copy in front of a read comes to its end with these chunks, behind which the connection ends
or does not. -/
def FinishesReading : List (List UInt8) → List (List UInt8) → Prop
  | _, [] => ends
  | written, bs :: chunks =>
    bs ≠ [] ∧ Behind (w written bs) (FinishesReading (written ++ [bs]) chunks) (chunks = [])

/-- The same, wherever the copy is. -/
def Finishes (o : Output E) (chunks : List (List UInt8)) : Prop :=
  match o.pc with
  | .reading => FinishesReading w ends o.written chunks
  | .writing bs =>
    Behind (w o.written bs) (FinishesReading w ends (o.written ++ [bs]) chunks) (chunks = [])
  | .ended _ => chunks = []

variable {w ends} {o o' : Output E} {bs : List UInt8} {chunks : List (List UInt8)}

theorem read_spec (h : o.read bs = some o') :
    o.pc = .reading ∧ bs ≠ [] ∧ o' = { o with pc := .writing bs } := by
  unfold read at h
  split at h
  · next hpc =>
    obtain ⟨hbs, h⟩ := Option.ite_none_left_eq_some.1 h
    exact ⟨hpc, hbs, (Option.some.inj h).symm⟩
  · cases h

theorem stop_spec {err : Option E} (h : o.stop err = some o') :
    o.pc = .reading ∧ o' = { o with pc := .ended err } := by
  unfold stop at h
  split at h
  · next hpc => exact ⟨hpc, (Option.some.inj h).symm⟩
  · cases h

/-- A read takes the first chunk. -/
theorem finishes_read (h : o.read bs = some o') :
    o'.Finishes w ends chunks ↔ o.Finishes w ends (bs :: chunks) := by
  obtain ⟨hpc, hbs, rfl⟩ := read_spec h
  simp [Finishes, FinishesReading, hpc, hbs]

/-- Behind the last chunk, the connection has to end. -/
theorem finishes_stop {err : Option E} (h : o.stop err = some o') (hends : ends) :
    o'.Finishes w ends [] ↔ o.Finishes w ends [] := by
  obtain ⟨hpc, rfl⟩ := stop_spec h
  simp [Finishes, FinishesReading, hpc, hends]

/-- A write needs no chunk. -/
theorem finishes_write (h : o.write w = some o') :
    o'.Finishes w ends chunks ↔ o.Finishes w ends chunks := by
  unfold write at h
  split at h
  · next bs hpc =>
    split at h
    · next hw =>
      cases h
      simp [Finishes, hpc, hw, Behind]
    · next err hw =>
      cases h
      simp [Finishes, hpc, hw, Behind]
    · cases h
  · cases h

/-- A copy that comes to its end writes what it has at hand. -/
theorem Finishes.write (h : o.Finishes w ends chunks) (hpc : o.pc = .writing bs) :
    ∃ o', o.write w = some o' ∧ ∀ bs, o'.pc ≠ .writing bs := by
  unfold Finishes at h
  unfold Output.write
  rw [hpc] at h ⊢
  dsimp only at h ⊢
  cases hw : w o.written bs with
  | takes => exact ⟨_, rfl, by simp⟩
  | fails err => exact ⟨_, rfl, by simp⟩
  | blocks =>
    rw [hw] at h
    exact h.elim

end

end Output

/-! ## Both copies -/

/-- The chunks of a stream. -/
def chunksOf (p : Stream) (deals : List (Stream × List UInt8)) : List (List UInt8) :=
  deals.filterMap fun d => if d.1 = p then some d.2 else none

/-- What has been dealt. -/
def dealt (deals : List (Stream × List UInt8)) : List UInt8 := deals.flatMap Prod.snd

/-- The copies that are at work share the bytes that there are to be read in this way, one chunk
after the other, and come to their ends with them. On a connection that is closed, they may come to
the end of the bytes. -/
structure Dealing {E : Type} (writer : Stream → Option (Copy.Writer E)) (active : Stream → Bool)
    (output : Stream → Output E) (inbox : List UInt8) (closed : Bool)
    (deals : List (Stream × List UInt8)) : Prop where
  bytes : dealt deals <+: inbox
  streams : ∀ d ∈ deals, active d.1 = true
  finishes : ∀ p, active p = true → ∃ w, writer p = some w ∧
    (output p).Finishes w (closed = true ∧ dealt deals = inbox) (chunksOf p deals)

section

variable {E : Type} {writer : Stream → Option (Copy.Writer E)} {active : Stream → Bool}
  {output : Stream → Output E} {inbox : List UInt8} {closed : Bool}
  {deals : List (Stream × List UInt8)} {p : Stream} {o' : Output E}

@[simp]
theorem dealt_cons (d : Stream × List UInt8) (deals : List (Stream × List UInt8)) :
    dealt (d :: deals) = d.2 ++ dealt deals := rfl

theorem chunksOf_cons_self (bs : List UInt8) : chunksOf p ((p, bs) :: deals) =
    bs :: chunksOf p deals := by
  simp [chunksOf]

theorem chunksOf_cons_ne {q : Stream} (h : p ≠ q) (bs : List UInt8) :
    chunksOf q ((p, bs) :: deals) = chunksOf q deals := by
  simp [chunksOf, h]

/-- A stream without chunks. -/
theorem chunksOf_eq_nil_iff : chunksOf p deals = [] ↔ ∀ d ∈ deals, d.1 ≠ p := by
  simp [chunksOf, List.filterMap_eq_nil_iff]

/-- Nothing is dealt, but for chunks without bytes. -/
theorem mem_chunksOf {bs : List UInt8} (h : bs ∈ chunksOf p deals) (hdealt : dealt deals = []) :
    bs = [] := by
  obtain ⟨d, hd, hbs⟩ := List.mem_filterMap.1 h
  have hempty := List.flatMap_eq_nil_iff.1 hdealt d hd
  split at hbs
  · exact (Option.some.inj hbs).symm.trans hempty
  · cases hbs

/-- One of the copies is replaced. -/
theorem dealing_update (hp : active p = true)
    (hself : dealt deals <+: inbox → ∀ w, writer p = some w →
      (o'.Finishes w (closed = true ∧ dealt deals = inbox) (chunksOf p deals) ↔
        (output p).Finishes w (closed = true ∧ dealt deals = inbox) (chunksOf p deals))) :
    Dealing writer active (Function.update output p o') inbox closed deals ↔
      Dealing writer active output inbox closed deals := by
  have hiff : dealt deals <+: inbox → ∀ q,
      ((∃ w, writer q = some w ∧ (Function.update output p o' q).Finishes w
        (closed = true ∧ dealt deals = inbox) (chunksOf q deals)) ↔
      ∃ w, writer q = some w ∧ (output q).Finishes w
        (closed = true ∧ dealt deals = inbox) (chunksOf q deals)) := by
    intro hbytes q
    by_cases hq : q = p
    · subst hq
      rw [Function.update_self]
      exact exists_congr fun w => and_congr_right (hself hbytes w)
    · rw [Function.update_of_ne hq]
  constructor
  · rintro ⟨hbytes, hstreams, hfinishes⟩
    exact ⟨hbytes, hstreams, fun q hq => (hiff hbytes q).1 (hfinishes q hq)⟩
  · rintro ⟨hbytes, hstreams, hfinishes⟩
    exact ⟨hbytes, hstreams, fun q hq => (hiff hbytes q).2 (hfinishes q hq)⟩

/-- **A write.** -/
theorem dealing_write {w : Copy.Writer E} (hp : active p = true) (hw : writer p = some w)
    (h : (output p).write w = some o') :
    Dealing writer active (Function.update output p o') inbox closed deals ↔
      Dealing writer active output inbox closed deals := by
  refine dealing_update hp fun _ w' hw' => ?_
  cases hw.symm.trans hw'
  exact Output.finishes_write h

/-- **A read to the end** of a connection that is closed. -/
theorem dealing_stop {err : Option E} (hp : active p = true) (h : (output p).stop err = some o') :
    Dealing writer active (Function.update output p o') [] true deals ↔
      Dealing writer active output [] true deals := by
  refine dealing_update hp fun hbytes w _ => ?_
  have hdealt : dealt deals = [] := List.prefix_nil.1 hbytes
  cases hchunks : chunksOf p deals with
  | nil => exact Output.finishes_stop h ⟨rfl, hdealt⟩
  | cons bs chunks =>
    -- no chunk has bytes
    have hbs : bs = [] := mem_chunksOf (by rw [hchunks]; exact List.mem_cons_self) hdealt
    obtain ⟨hpc, rfl⟩ := Output.stop_spec h
    simp [Output.Finishes, Output.FinishesReading, hpc, hbs]

/-- **A read that brings some bytes** deals the first chunk. -/
theorem dealing_read {bs rest : List UInt8} (hp : active p = true)
    (h : (output p).read bs = some o') :
    Dealing writer active (Function.update output p o') rest closed deals ↔
      Dealing writer active output (bs ++ rest) closed ((p, bs) :: deals) := by
  have hends : dealt ((p, bs) :: deals) = bs ++ rest ↔ dealt deals = rest := by
    rw [dealt_cons, List.append_cancel_left_eq]
  have hfinishes : ∀ q w, (Function.update output p o' q).Finishes w
      (closed = true ∧ dealt deals = rest) (chunksOf q deals) ↔ (output q).Finishes w
      (closed = true ∧ dealt ((p, bs) :: deals) = bs ++ rest) (chunksOf q ((p, bs) :: deals)) := by
    intro q w
    rw [hends]
    by_cases hq : q = p
    · subst hq
      rw [Function.update_self, chunksOf_cons_self]
      exact Output.finishes_read h
    · rw [Function.update_of_ne hq, chunksOf_cons_ne (Ne.symm hq)]
  constructor
  · rintro ⟨hbytes, hstreams, hall⟩
    refine ⟨(List.prefix_append_right_inj bs).2 hbytes, ?_, fun q hq => ?_⟩
    · intro d hd
      rcases List.mem_cons.1 hd with rfl | hd
      · exact hp
      · exact hstreams d hd
    · obtain ⟨w, hw, hfin⟩ := hall q hq
      exact ⟨w, hw, (hfinishes q w).1 hfin⟩
  · rintro ⟨hbytes, hstreams, hall⟩
    refine ⟨(List.prefix_append_right_inj bs).1 hbytes,
      fun d hd => hstreams d (List.mem_cons_of_mem _ hd), fun q hq => ?_⟩
    obtain ⟨w, hw, hfin⟩ := hall q hq
    exact ⟨w, hw, (hfinishes q w).2 hfin⟩

/-- **The end of a copy** that is over. -/
theorem dealing_end {w : Copy.Writer E} {err : Option E} (hp : active p = true)
    (hw : writer p = some w) (hended : (output p).pc = .ended err) :
    Dealing writer (fun q => if q = p then false else active q) output inbox closed deals ↔
      Dealing writer active output inbox closed deals := by
  constructor
  · rintro ⟨hbytes, hstreams, hall⟩
    have hne : ∀ d ∈ deals, d.1 ≠ p ∧ active d.1 = true := fun d hd => by
      simpa using hstreams d hd
    refine ⟨hbytes, fun d hd => (hne d hd).2, fun q hq => ?_⟩
    by_cases hqp : q = p
    · subst hqp
      refine ⟨w, hw, ?_⟩
      rw [Output.Finishes, hended]
      exact chunksOf_eq_nil_iff.2 fun d hd => (hne d hd).1
    · exact hall q (by rwa [if_neg hqp])
  · rintro ⟨hbytes, hstreams, hall⟩
    refine ⟨hbytes, fun d hd => ?_, fun q hq => ?_⟩
    · obtain ⟨w, -, hfin⟩ := hall p hp
      rw [Output.Finishes, hended] at hfin
      rw [if_neg (chunksOf_eq_nil_iff.1 hfin d hd)]
      exact hstreams d hd
    · by_cases hqp : q = p
      · simp [hqp] at hq
      · exact hall q (by rwa [if_neg hqp] at hq)

/-- A write at hand is answered. -/
theorem Dealing.write {bs : List UInt8} (h : Dealing writer active output inbox closed deals)
    (hp : active p = true) (hpc : (output p).pc = .writing bs) :
    ∃ w o', writer p = some w ∧ (output p).write w = some o' ∧ ∀ bs, o'.pc ≠ .writing bs := by
  obtain ⟨w, hw, hfin⟩ := h.finishes p hp
  obtain ⟨o', ho', hne⟩ := hfin.write hpc
  exact ⟨w, o', hw, ho', hne⟩

/-- The first chunk can be read, -/
theorem Dealing.cons {bs : List UInt8}
    (h : Dealing writer active output inbox closed ((p, bs) :: deals))
    (hpc : ∀ bs, (output p).pc ≠ .writing bs) :
    active p = true ∧ (∃ rest, inbox = bs ++ rest) ∧ ∃ o', (output p).read bs = some o' := by
  have hp : active p = true := h.streams _ List.mem_cons_self
  obtain ⟨w, -, hfin⟩ := h.finishes p hp
  obtain ⟨rest, hrest⟩ := h.bytes
  rw [dealt_cons, List.append_assoc] at hrest
  refine ⟨hp, ⟨_, hrest.symm⟩, ?_⟩
  rw [chunksOf_cons_self] at hfin
  unfold Output.Finishes at hfin
  unfold Output.read
  cases hread : (output p).pc with
  | reading =>
    rw [hread] at hfin
    exact ⟨_, if_neg hfin.1⟩
  | writing bs' => exact absurd hread (hpc bs')
  | ended err =>
    rw [hread] at hfin
    cases hfin

/-- and behind the last, a copy is over, or the connection ends. -/
theorem Dealing.nil (h : Dealing writer active output inbox closed []) (hp : active p = true)
    (hpc : ∀ bs, (output p).pc ≠ .writing bs) :
    (∃ err, (output p).pc = .ended err) ∨
      closed = true ∧ inbox = [] ∧ ∃ o', (output p).stop none = some o' := by
  obtain ⟨w, -, hfin⟩ := h.finishes p hp
  unfold Output.Finishes at hfin
  cases hread : (output p).pc with
  | reading =>
    rw [hread] at hfin
    exact .inr ⟨hfin.1, hfin.2.symm, ⟨.ended none, (output p).written⟩, by simp [Output.stop, hread]⟩
  | writing bs' => exact absurd hread (hpc bs')
  | ended err => exact .inl ⟨err, rfl⟩

end

end UAssign.Docker

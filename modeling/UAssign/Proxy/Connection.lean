import UAssign.Lib.Transition
import UAssign.Proxy.Frame

/-!
# Two writers of one connection

`pkg/docker/proxy/ws.go`: `WriteJSON` writes a frame in two pieces under a mutex, and `ReadJSON`
answers the control frames that it comes across by writing to the same connection, without it. The
frames stay whole on the runs whose steps meet `apart` (`frames_whole`).
-/

namespace UAssign.Proxy.Connection

/-! ## The system -/

/-- Where a call of `WriteJSON` is, with the frame that it writes: in front of `mu.Lock`, of the
header, of the payload and of `mu.Unlock`. -/
inductive Writer where
  | idle
  | locking (f : Frame)
  | header (f : Frame)
  | payload (f : Frame)
  | unlocking
  | done
  deriving DecidableEq

/-- Where the loop of `ReadJSON` is: with the answer to a control frame, of which `k` bytes have
been written, or behind a close frame. -/
inductive Reader where
  | reading
  | replying (f : Frame) (k : Nat)
  | ended
  deriving DecidableEq

/-- `WSConn`: what has been written, the frames that it was written for, the mutex, the calls of
`WriteJSON` and the loop of `ReadJSON`. -/
structure State where
  bytes : List UInt8
  frames : List Frame
  mu : Option Nat
  writers : Nat → Writer
  reader : Reader

/-- The steps: the statements of `WriteJSON`, and what comes from the client. The answer to a
control frame is written in pieces of any length. -/
inductive Act where
  | call (i : Nat) (f : Frame)
  | lock (i : Nat)
  | header (i : Nat)
  | payload (i : Nat)
  | unlock (i : Nat)
  | data
  | control (f : Frame)
  | reply (n : Nat)
  deriving DecidableEq

namespace State

/-- A call has moved. -/
def put (s : State) (i : Nat) (w : Writer) : State :=
  { s with writers := fun j => if j = i then w else s.writers j }

/-- Some more bytes. -/
def write (s : State) (l : List UInt8) : State := { s with bytes := s.bytes ++ l }

/-- The first bytes of a frame. -/
def start (s : State) (f : Frame) : State := { s with frames := s.frames ++ [f] }

/-- `WriteJSON`, statement by statement. -/
def lock (s : State) (i : Nat) : Option State :=
  match s.writers i with
  | .locking f => if s.mu = none then some { s.put i (.header f) with mu := some i } else none
  | _ => none

@[inherit_doc lock]
def header (s : State) (i : Nat) : Option State :=
  match s.writers i with
  | .header f => some (((s.start f).write f.header).put i (.payload f))
  | _ => none

@[inherit_doc lock]
def payload (s : State) (i : Nat) : Option State :=
  match s.writers i with
  | .payload f => some ((s.write f.payload).put i .unlocking)
  | _ => none

@[inherit_doc lock]
def unlock (s : State) (i : Nat) : Option State :=
  match s.writers i with
  | .unlocking => some { s.put i .done with mu := none }
  | _ => none

/-- The next `n` bytes of an answer. The loop ends behind the answer to a close frame. -/
def reply (s : State) (n : Nat) : Option State :=
  match s.reader with
  | .replying f k =>
    if 0 < n ∧ k + n ≤ f.encode.length then
      some { (if k = 0 then s.start f else s).write ((f.encode.drop k).take n) with
        reader :=
          if k + n < f.encode.length then .replying f (k + n)
          else if f.opCode = .close then .ended
          else .reading }
    else none
  | _ => none

end State

/-- One step. -/
def step (s : State) : Act → Option State
  | .call i f =>
    if s.writers i = .idle ∧ f.opCode = .text then some (s.put i (.locking f)) else none
  | .lock i => s.lock i
  | .header i => s.header i
  | .payload i => s.payload i
  | .unlock i => s.unlock i
  | .data => if s.reader = .reading then some s else none
  | .control f =>
    if s.reader = .reading ∧ f.opCode ≠ .text then some { s with reader := .replying f 0 } else none
  | .reply n => s.reply n

/-- `NewWSConn`. -/
def newWSConn : State :=
  { bytes := [], frames := [], mu := none, writers := fun _ => .idle, reader := .reading }

/-- The calls and the loop. -/
def wsConn : System State Act := { init := (· = newWSConn), step := step }

/-- The header has been written and the payload has not. -/
def Writer.partway : Writer → Bool
  | .payload _ => true
  | _ => false

/-- An answer has been written in part. -/
def Reader.partway : Reader → Bool
  | .replying _ k => k != 0
  | _ => false

/-- No frame has been written in part: no call is between `Lock` and `Unlock`, and no answer is. -/
def Resting (s : State) : Prop := s.mu = none ∧ s.reader.partway = false

/-- What has been written are complete frames, and at most one more in part. -/
def Whole (s : State) : Prop :=
  (∃ fs, s.bytes <+: Frame.encodeAll fs) ∧ (Resting s → ∃ fs, s.bytes = Frame.encodeAll fs)

/-- Nothing is written of an answer while a call is between its header and its payload, and no
header while an answer has been written in part. -/
def apart (s : State) : Act → Bool
  | .header _ => !s.reader.partway
  | .reply _ => !s.mu.any fun i => (s.writers i).partway
  | _ => true

/-! ## The invariant -/

/-- What a call has still to write of its frame, -/
def Writer.rest : Writer → List UInt8
  | .payload f => f.payload
  | _ => []

/-- and what the loop has to write of an answer. -/
def Reader.rest : Reader → List UInt8
  | .replying f k => if k = 0 then [] else f.encode.drop k
  | _ => []

/-- The mutex is held. -/
def Writer.locked : Writer → Bool
  | .header _ | .payload _ | .unlocking => true
  | _ => false

/-- What is missing of the frames. -/
def State.rest (s : State) : List UInt8 :=
  (s.mu.elim [] fun i => (s.writers i).rest) ++ s.reader.rest

/-- What the runs under `apart` keep: the mutex is that of the call that is between `Lock` and
`Unlock`, and what has been written and what is missing are the frames. -/
structure Inv (s : State) : Prop where
  mutex : ∀ i, s.mu = some i ↔ (s.writers i).locked = true
  exclusive : s.reader.partway = true → ∀ i, (s.writers i).partway = false
  whole : s.bytes ++ s.rest = Frame.encodeAll s.frames

section

variable {s s' : State} {a : Act} {i : Nat} {w : Writer}

/-- Who is not partway has nothing left to write. -/
theorem Writer.rest_eq_nil (h : w.partway = false) : w.rest = [] := by
  cases w <;> first | rfl | cases h

theorem Reader.rest_eq_nil {r : Reader} (h : r.partway = false) : r.rest = [] := by
  cases r with
  | replying f k => exact if_pos (by simpa [Reader.partway] using h)
  | reading | ended => rfl

/-- Who is partway holds the mutex. -/
theorem Writer.locked_of_partway (h : w.partway = true) : w.locked = true := by
  cases w <;> first | rfl | cases h

theorem rest_of_mu (h : s.mu = some i) : s.rest = (s.writers i).rest ++ s.reader.rest := by
  rw [State.rest, h]
  rfl

/-- The call that has moved, and the others. -/
@[simp] theorem put_self : (s.put i w).writers i = w := if_pos rfl

theorem put_ne {j : Nat} (h : j ≠ i) : (s.put i w).writers j = s.writers j := if_neg h

theorem rest_put (h : s.mu = some i) : (s.put i w).rest = w.rest ++ s.reader.rest := by
  rw [rest_of_mu (s := s.put i w) (i := i) h, put_self]
  rfl

/-- A call that has moved as far as the mutex does not see. -/
theorem Inv.mutex_put (h : Inv s) (hw : (s.writers i).locked = w.locked) (j : Nat) :
    s.mu = some j ↔ ((s.put i w).writers j).locked = true := by
  by_cases hj : j = i
  · subst hj
    rw [put_self, ← hw]
    exact h.mutex j
  · rw [put_ne hj]
    exact h.mutex j

/-- Nobody else is partway. -/
theorem Inv.exclusive_put (h : Inv s) (hw : s.reader.partway = true → w.partway = false) :
    s.reader.partway = true → ∀ j, ((s.put i w).writers j).partway = false := by
  intro hr j
  by_cases hj : j = i
  · subst hj
    rw [put_self]
    exact hw hr
  · rw [put_ne hj]
    exact h.exclusive hr j

/-- `mu.Lock`, and the call in front of it. -/
theorem Inv.lock (h : Inv s) (hs : s.lock i = some s') : Inv s' := by
  unfold State.lock at hs
  split at hs
  · next f hw =>
    obtain ⟨hmu, hs⟩ := Option.ite_none_right_eq_some.1 hs
    obtain rfl := Option.some.inj hs
    refine ⟨fun j => ?_, h.exclusive_put fun _ => rfl, ?_⟩
    · by_cases hj : j = i
      · subst hj
        exact iff_of_true rfl (by rw [put_self]; rfl)
      · refine iff_of_false (fun heq => hj (Option.some.inj heq).symm) fun hlocked => ?_
        rw [put_ne hj, ← h.mutex, hmu] at hlocked
        cases hlocked
    · have hrest : s.rest = s.reader.rest := by rw [State.rest, hmu]; rfl
      have hrest' : State.rest { s.put i (.header f) with mu := some i } = s.reader.rest := by
        rw [rest_of_mu rfl, put_self]
        rfl
      rw [hrest', ← hrest]
      exact h.whole
  · cases hs

/-- **The header is written**: the frame begins, and no other one is written in part. -/
theorem Inv.header (h : Inv s) (hapart : s.reader.partway = false) (hs : s.header i = some s') :
    Inv s' := by
  unfold State.header at hs
  split at hs
  · next f hw =>
    obtain rfl := Option.some.inj hs
    have hmu : s.mu = some i := (h.mutex i).2 (by rw [hw]; rfl)
    have hbytes : s.bytes = Frame.encodeAll s.frames := by
      rw [← h.whole, rest_of_mu hmu, hw, Reader.rest_eq_nil hapart]
      simp [Writer.rest]
    refine ⟨h.mutex_put (by rw [hw]; rfl), fun hr => ?_, ?_⟩
    · exact (Bool.false_ne_true (hapart.symm.trans hr)).elim
    · have hrest : State.rest (((s.start f).write f.header).put i (.payload f)) = f.payload := by
        rw [rest_put (s := (s.start f).write f.header) hmu]
        show f.payload ++ s.reader.rest = f.payload
        rw [Reader.rest_eq_nil hapart, List.append_nil]
      rw [hrest]
      show s.bytes ++ f.header ++ f.payload = Frame.encodeAll (s.frames ++ [f])
      rw [hbytes, encodeAll_append, List.append_assoc]
      simp [Frame.encode]
  · cases hs

/-- **The payload is written**: the frame is complete. -/
theorem Inv.payload (h : Inv s) (hs : s.payload i = some s') : Inv s' := by
  unfold State.payload at hs
  split at hs
  · next f hw =>
    obtain rfl := Option.some.inj hs
    have hmu : s.mu = some i := (h.mutex i).2 (by rw [hw]; rfl)
    have hapart : s.reader.partway = false := Bool.eq_false_iff.2 fun hr => by
      have hno := h.exclusive hr i
      rw [hw] at hno
      cases hno
    refine ⟨h.mutex_put (by rw [hw]; rfl), h.exclusive_put fun _ => rfl, ?_⟩
    have hrest : State.rest ((s.write f.payload).put i .unlocking) = [] := by
      rw [rest_put (s := s.write f.payload) hmu]
      exact Reader.rest_eq_nil hapart
    rw [hrest, List.append_nil]
    show s.bytes ++ f.payload = Frame.encodeAll s.frames
    rw [← h.whole, rest_of_mu hmu, hw, Reader.rest_eq_nil hapart, List.append_nil]
    rfl
  · cases hs

/-- `mu.Unlock`. -/
theorem Inv.unlock (h : Inv s) (hs : s.unlock i = some s') : Inv s' := by
  unfold State.unlock at hs
  split at hs
  · next hw =>
    obtain rfl := Option.some.inj hs
    have hmu : s.mu = some i := (h.mutex i).2 (by rw [hw]; rfl)
    refine ⟨fun j => iff_of_false (fun heq => by cases heq) fun hlocked => ?_,
      h.exclusive_put fun _ => rfl, ?_⟩
    · by_cases hj : j = i
      · subst hj
        rw [put_self] at hlocked
        cases hlocked
      · rw [put_ne hj, ← h.mutex, hmu] at hlocked
        exact hj (Option.some.inj hlocked).symm
    · have hrest : s.rest = s.reader.rest := by rw [rest_of_mu hmu, hw]; rfl
      show s.bytes ++ s.reader.rest = _
      rw [← hrest]
      exact h.whole
  · cases hs

/-- **A piece of an answer is written**, while no call is between its header and its payload. -/
theorem Inv.reply {n : Nat} (h : Inv s)
    (hapart : ∀ i, s.mu = some i → (s.writers i).partway = false) (hs : s.reply n = some s') :
    Inv s' := by
  unfold State.reply at hs
  split at hs
  · next f k hr =>
    obtain ⟨⟨hn, hlen⟩, hs⟩ := Option.ite_none_right_eq_some.1 hs
    obtain rfl := Option.some.inj hs
    have hno : ∀ i, (s.writers i).partway = false := fun i => Bool.eq_false_iff.2 fun hp => by
      have hmu := (h.mutex i).2 (Writer.locked_of_partway hp)
      exact Bool.false_ne_true ((hapart i hmu).symm.trans hp)
    have hcalls : (s.mu.elim [] fun i => (s.writers i).rest) = [] := by
      cases s.mu with
      | none => rfl
      | some i => exact Writer.rest_eq_nil (hno i)
    have hbytes : s.bytes ++ s.reader.rest = Frame.encodeAll s.frames := by
      rw [← h.whole, State.rest, hcalls, List.nil_append]
    have hdone : ∀ r : Reader, (if k + n < f.encode.length then Reader.replying f (k + n)
        else if f.opCode = .close then .ended else .reading) = r →
        r.rest = f.encode.drop (k + n) := by
      rintro r rfl
      split
      · exact if_neg (by omega)
      · next hge =>
        rw [List.drop_eq_nil_of_le (by omega)]
        split <;> rfl
    have hpiece : (f.encode.drop k).take n ++ f.encode.drop (k + n) = f.encode.drop k := by
      rw [← List.drop_drop, List.take_append_drop]
    have hframes : ∀ t : State, (if k = 0 then s.start f else s) = t →
        t.bytes = s.bytes ∧ t.mu = s.mu ∧ t.writers = s.writers ∧
          s.bytes ++ f.encode.drop k = Frame.encodeAll t.frames := by
      rintro t rfl
      rw [hr] at hbytes
      split
      · next hk =>
        subst hk
        refine ⟨rfl, rfl, rfl, ?_⟩
        have hnil : s.bytes = Frame.encodeAll s.frames := by
          simpa [Reader.rest] using hbytes
        show s.bytes ++ f.encode = Frame.encodeAll (s.frames ++ [f])
        rw [hnil, encodeAll_append]
        simp
      · next hk =>
        refine ⟨rfl, rfl, rfl, ?_⟩
        rw [← hbytes, Reader.rest, if_neg hk]
    obtain ⟨hb, hm, hw, hf⟩ := hframes _ rfl
    refine ⟨fun i => ?_, fun _ i => ?_, ?_⟩
    · show (if k = 0 then s.start f else s).mu = some i ↔ _
      rw [hm]
      refine (h.mutex i).trans ?_
      show _ ↔ ((if k = 0 then s.start f else s).writers i).locked = true
      rw [hw]
    · show ((if k = 0 then s.start f else s).writers i).partway = false
      rw [hw]
      exact hno i
    · show (if k = 0 then s.start f else s).bytes ++ (f.encode.drop k).take n ++
        (((if k = 0 then s.start f else s).mu.elim [] fun i =>
          ((if k = 0 then s.start f else s).writers i).rest) ++ Reader.rest _) =
        Frame.encodeAll (if k = 0 then s.start f else s).frames
      rw [hb, hm, hw, hcalls, hdone _ rfl, ← hf, List.nil_append, List.append_assoc, hpiece]
  · cases hs

/-- **Each step** that meets `apart` keeps the invariant. -/
theorem Inv.step (h : Inv s) (hapart : apart s a = true) (hs : step s a = some s') : Inv s' := by
  cases a with
  | call i f =>
    obtain ⟨⟨hw, -⟩, hs⟩ := Option.ite_none_right_eq_some.1 hs
    obtain rfl := Option.some.inj hs
    refine ⟨h.mutex_put (by rw [hw]; rfl), h.exclusive_put fun _ => rfl, ?_⟩
    have hrest : (s.put i (.locking f)).rest = s.rest := by
      cases hmu : s.mu with
      | none =>
        rw [State.rest, State.rest, hmu, show (s.put i (.locking f)).mu = none from hmu]
        rfl
      | some j =>
        have hj : j ≠ i := by
          rintro rfl
          have hlocked := (h.mutex j).1 hmu
          rw [hw] at hlocked
          cases hlocked
        rw [rest_of_mu hmu, rest_of_mu (s := s.put i (.locking f)) (i := j) hmu, put_ne hj]
        rfl
    rw [hrest]
    exact h.whole
  | lock i => exact h.lock hs
  | header i =>
    have hno : s.reader.partway = false := by simpa [apart] using hapart
    exact h.header hno hs
  | payload i => exact h.payload hs
  | unlock i => exact h.unlock hs
  | data =>
    obtain ⟨-, hs⟩ := Option.ite_none_right_eq_some.1 hs
    exact Option.some.inj hs ▸ h
  | control f =>
    obtain ⟨⟨hr, -⟩, hs⟩ := Option.ite_none_right_eq_some.1 hs
    obtain rfl := Option.some.inj hs
    refine ⟨h.mutex, fun hp => (by cases hp), ?_⟩
    have hrest : s.rest = s.mu.elim [] (fun i => (s.writers i).rest) ++ [] := by
      rw [State.rest, hr]
      rfl
    have hwhole := h.whole
    rw [hrest] at hwhole
    exact hwhole
  | reply n =>
    refine h.reply (fun i hmu => ?_) hs
    simpa [apart, hmu] using hapart

/-- A new connection. -/
theorem inv_newWSConn : Inv newWSConn where
  mutex _ := iff_of_false (fun h => by cases h) fun h => by cases h
  exclusive h := by cases h
  whole := rfl

/-- When no frame has been written in part, nothing is missing. -/
theorem rest_of_resting (h : Resting s) : s.rest = [] := by
  rw [State.rest, h.1, Reader.rest_eq_nil h.2]
  rfl

end

/-- **Websocket frames reach the client whole** on the runs whose steps meet `apart`: what has been
written is always a prefix of complete frames, and, whenever no frame has been written in part, the
complete frames that were begun, in that order. -/
theorem frames_whole {s : State} (h : wsConn.Reaches (fun s a => apart s a = true) s) :
    Whole s ∧ (Resting s → s.bytes = Frame.encodeAll s.frames) := by
  have hi : Inv s := h.invariant (fun _ h₀ => h₀ ▸ inv_newWSConn)
    fun _ _ _ hi hapart hs => hi.step hapart hs
  have hall : Resting s → s.bytes = Frame.encodeAll s.frames := fun hr => by
    rw [← hi.whole, rest_of_resting hr, List.append_nil]
  exact ⟨⟨⟨s.frames, s.rest, hi.whole⟩, fun hr => ⟨s.frames, hall hr⟩⟩, hall⟩

/-- The text of a message that wipes the client's terminal. -/
def wipe : Frame := ⟨.text, [0x5b, 0x22, 0x77, 0x69, 0x70, 0x65, 0x22, 0x5d], by decide⟩

/-- The answer to an empty ping. -/
def pong : Frame := ⟨.pong, [], by decide⟩

/-- A ping is answered before the message is written. -/
def pingFirst : List Act :=
  [.call 0 wipe, .control pong, .reply 2, .lock 0, .header 0, .payload 0, .unlock 0]

/-- Both frames are there. -/
theorem frames_whole_pingFirst :
    ∃ s, wsConn.execWhere apart newWSConn pingFirst = some s ∧ s.bytes.length = 12 ∧
      s.bytes = Frame.encodeAll [pong, wipe] := by
  refine ⟨_, rfl, rfl, ?_⟩
  have hrun : wsConn.Run (fun s a => apart s a = true) newWSConn pingFirst _ :=
    System.run_of_execWhere rfl
  exact (frames_whole ⟨_, _, rfl, hrun⟩).2 ⟨rfl, rfl⟩

/-- A ping is answered between the header of the message and its payload. -/
def pingBetween : List Act :=
  [.call 0 wipe, .lock 0, .header 0, .control pong, .reply 2, .payload 0, .unlock 0]

/-- **The answer gets into the message**: the client reads a text frame that begins with the pong,
and the last two bytes of the message are no frame. -/
theorem frames_not_whole :
    ¬ ∀ s, wsConn.Reaches System.Any s → Whole s := by
  intro h
  have hrun : wsConn.Run System.Any newWSConn pingBetween _ := System.run_of_exec rfl
  obtain ⟨-, hwhole⟩ := h _ ⟨_, _, rfl, hrun⟩
  obtain ⟨fs, hfs⟩ := hwhole ⟨rfl, rfl⟩
  obtain ⟨f, fs', -, hparse⟩ := parse_encodeAll hfs (fun hnil => by cases hnil)
  have hparse' : some (_, [0x22, 0x5d]) = some (f, Frame.encodeAll fs') := hparse
  obtain ⟨-, hrest⟩ := Prod.mk.inj (Option.some.inj hparse')
  obtain ⟨_, _, -, hnone⟩ := parse_encodeAll hrest (fun hnil => by cases hnil)
  cases hnone

end UAssign.Proxy.Connection

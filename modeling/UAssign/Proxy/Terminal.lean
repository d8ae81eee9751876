import UAssign.Lib.Transition
import UAssign.Proxy.Output

/-!
# Two output pumps on one terminal

`Proxy` (`pkg/docker/proxy/proxy.go`) starts two output pumps for one TTY: the `stdout` pump reads
`hj.Conn`, the `stderr` pump reads `hj.Reader`, a buffered reader over the same connection. Both
write to the same client, each after a `wipe` of its own, and a fourth goroutine closes both
connections once a pump has returned. `pumps` is that system: which pump gets which bytes, and in
which order the messages reach the client, is left to the schedule.

The text on the client's terminal is the text of the stream on the schedules whose steps all meet
`Exclusive` (`exclusive_text`); without a condition it is so only if there is no output
(`lost_text`).
-/

namespace UAssign.Proxy

open Bufio Utf8

/-! ## One pump -/

/-- What a pump does with the bytes of one read: the splitter takes a token off the bytes held and
read, if there is one, and the pump keeps the rest. -/
def feed (pending bs : List UInt8) : Option (List UInt8) × List UInt8 :=
  ((scanRunesGreedy (pending ++ bs) false).token,
    (pending ++ bs).drop (scanRunesGreedy (pending ++ bs) false).advance)

/-- What a pump does with the bytes it holds when the stream ends. -/
def flush (pending : List UInt8) : Option (List UInt8) := (scanRunesGreedy pending true).token

/-- The place of an output pump in `proxyOutputFunc`: before its `wipe`, in `Scan`, in `WriteJSON`
with a text, the same after EOF, and returned. -/
inductive Pc where
  | start
  | scan
  | write (text : List UInt8)
  | writeLast (text : List UInt8)
  | returned
  deriving DecidableEq

/-- An output pump: its place, and the bytes its scanner holds. -/
structure Pump where
  pc : Pc
  pending : List UInt8
  deriving DecidableEq

/-- The two output pumps `Proxy` starts. -/
inductive Name where
  | stdout
  | stderr
  deriving DecidableEq

/-- The other pump. -/
def Name.other : Name → Name
  | .stdout => .stderr
  | .stderr => .stdout

/-! ## The system -/

/-- The state of a `Proxy` call, as far as its output goes: the bytes still in the connection, the
buffer of `hj.Reader`, the two pumps, whether the hijacked connection and the client's have been
closed, and the messages the client has received. -/
structure State where
  conn : List UInt8
  buffered : List UInt8
  pump : Name → Pump
  hjClosed : Bool
  connClosed : Bool
  received : List Message

/-- The steps of the pumps and of the goroutine that closes the connections. `read` is a read of
the `stdout` pump from the connection; `fill` and `take` are the `stderr` pump's, of the connection
into the reader's buffer, and from there. -/
inductive Act where
  | wipe (p : Name)
  | read (n : Nat)
  | fill (n : Nat)
  | take (n : Nat)
  | eof (p : Name)
  | readClosed (p : Name)
  | write (p : Name)
  | closeHijacked
  | closeConn
  deriving DecidableEq

namespace State

/-- The state with pump `p` replaced. -/
def setPump (s : State) (p : Name) (x : Pump) : State :=
  { s with pump := fun q => if q = p then x else s.pump q }

/-- The pump `p` after a read of `bs`. -/
def fed (s : State) (p : Name) (bs : List UInt8) : State :=
  s.setPump p
    { pc := match (feed (s.pump p).pending bs).1 with
        | some text => .write text
        | none => .scan
      pending := (feed (s.pump p).pending bs).2 }

/-- The pump `p` writes `m` and goes on at `pc`; on a closed connection it returns the error. -/
def send (s : State) (p : Name) (m : Message) (pc : Pc) : State :=
  if s.connClosed then s.setPump p { s.pump p with pc := .returned }
  else { s.setPump p { s.pump p with pc := pc } with received := s.received ++ [m] }

/-- The pump `p` meets the end of the stream: it writes the text of the bytes it holds, or
returns. -/
def ended (s : State) (p : Name) : State :=
  s.setPump p
    { pc := match flush (s.pump p).pending with
        | some text => .writeLast text
        | none => .returned
      pending := [] }

/-- The pump that is through with the stream has nothing of it left to read. -/
def drained (s : State) : Name → Bool
  | .stdout => s.conn = []
  | .stderr => s.conn = [] ∧ s.buffered = []

end State

/-- One step of the system. -/
def step (s : State) : Act → Option State
  | .wipe p => if (s.pump p).pc = .start then some (s.send p .wipe .scan) else none
  | .read n =>
    if (s.pump .stdout).pc = .scan ∧ s.hjClosed = false ∧ 0 < n ∧ n ≤ s.conn.length then
      some ({ s with conn := s.conn.drop n }.fed .stdout (s.conn.take n))
    else none
  | .fill n =>
    if (s.pump .stderr).pc = .scan ∧ s.hjClosed = false ∧ s.buffered = [] ∧ 0 < n ∧
        n ≤ s.conn.length then
      some { s with conn := s.conn.drop n, buffered := s.conn.take n }
    else none
  | .take n =>
    if (s.pump .stderr).pc = .scan ∧ 0 < n ∧ n ≤ s.buffered.length then
      some ({ s with buffered := s.buffered.drop n }.fed .stderr (s.buffered.take n))
    else none
  | .eof p =>
    if (s.pump p).pc = .scan ∧ s.hjClosed = false ∧ s.drained p = true then some (s.ended p)
    else none
  | .readClosed p =>
    -- the scanner's last token is dropped: `s.Err()` is not nil by then
    if (s.pump p).pc = .scan ∧ s.hjClosed = true then
      some (s.setPump p { pc := .returned, pending := [] })
    else none
  | .write p =>
    match (s.pump p).pc with
    | .write text => some (s.send p (.stdout text) .scan)
    | .writeLast text => some (s.send p (.stdout text) .returned)
    | _ => none
  | .closeHijacked =>
    -- the context is cancelled once a pump has returned, and no earlier
    if (s.pump .stdout).pc = .returned ∨ (s.pump .stderr).pc = .returned then
      some { s with hjClosed := true }
    else none
  | .closeConn => if s.hjClosed = true then some { s with connClosed := true } else none

/-- The state in which `Proxy` starts its pumps: some bytes may be in the reader's buffer already,
from the time the connection was hijacked. -/
def started (buffered conn : List UInt8) : State :=
  { conn := conn, buffered := buffered, pump := fun _ => ⟨.start, []⟩, hjClosed := false,
    connClosed := false, received := [] }

/-- The output pumps of a `Proxy` call on a stream. -/
def pumps (stream : List UInt8) : System State Act where
  init s := ∃ buffered conn, buffered ++ conn = stream ∧ s = started buffered conn
  step := step

/-! ## The client -/

/-- The client's message listener (`templates/container.qtpl`): `stdout` prints, `wipe` clears. -/
def terminal (text : List UInt8) : List Message → List UInt8
  | [] => text
  | .wipe :: ms => terminal [] ms
  | .stdout t :: ms => terminal (text ++ t) ms

/-- Both pumps have returned. -/
def State.finished (s : State) : Prop := ∀ p, (s.pump p).pc = .returned

/-- The texts of the `stdout` messages. -/
def printed : List Message → List UInt8
  | [] => []
  | .wipe :: ms => printed ms
  | .stdout t :: ms => t ++ printed ms

/-- The client has been sent valid text only. -/
def ValidTexts (ms : List Message) : Prop := ∀ t, .stdout t ∈ ms → Valid t

variable {before : List UInt8} {ms : List Message} {t : List UInt8}

@[simp] theorem printed_wipe : printed (ms ++ [.wipe]) = printed ms := by
  induction ms with
  | nil => rfl
  | cons m ms ih => cases m <;> simp [printed, ih]

@[simp] theorem printed_stdout : printed (ms ++ [.stdout t]) = printed ms ++ t := by
  induction ms with
  | nil => simp [printed]
  | cons m ms ih => cases m <;> simp [printed, ih]

@[simp] theorem terminal_wipe : terminal before (ms ++ [.wipe]) = [] := by
  induction ms generalizing before with
  | nil => rfl
  | cons m ms ih => cases m <;> simp [terminal, ih]

@[simp] theorem terminal_stdout :
    terminal before (ms ++ [.stdout t]) = terminal before ms ++ t := by
  induction ms generalizing before with
  | nil => simp [terminal]
  | cons m ms ih => cases m <;> simp [terminal, ih]

/-- Wipes print nothing. -/
theorem printed_eq_nil (h : ∀ m ∈ ms, m = .wipe) : printed ms = [] := by
  induction ms with
  | nil => rfl
  | cons m ms ih =>
    obtain ⟨rfl, hms⟩ := List.forall_mem_cons.1 h
    exact ih hms

/-! ## The pump and its scanner -/

/-- A read adds its bytes to those held, and the token is taken off the front, whatever follows. -/
theorem feed_text (pending bs rest : List UInt8) :
    sanitize (pending ++ bs ++ rest) =
      (feed pending bs).1.getD [] ++ sanitize ((feed pending bs).2 ++ rest) := by
  obtain ⟨n, -, h, -, htext⟩ := scanRunesGreedy_more (pending ++ bs)
  rw [htext rest, feed, h]
  by_cases hn : sanitize ((pending ++ bs).take n) = [] <;> simp [bytes, hn]

/-- The text of a token is valid. -/
theorem feed_valid {pending bs text : List UInt8} (h : (feed pending bs).1 = some text) :
    Valid text := by
  obtain ⟨n, -, h', -, -⟩ := scanRunesGreedy_more (pending ++ bs)
  rw [feed, h'] at h
  simp only [bytes] at h
  split at h
  · cases h
  · cases h; exact sanitize_isValid _

/-- At the end the pump sends the text of what it holds, if it holds something. -/
theorem flush_eq (pending : List UInt8) : flush pending = bytes (sanitize pending) := by
  rw [flush, scanRunesGreedy_eof]

/-- **The pump's read is the scanner's.** Where the scanner has the bytes of a read behind those it
held and knows no end, its splitter gives the token of `feed` and leaves what `feed` leaves; without
a token it asks for more. -/
theorem trySplit_feed {s : Scanner} {r : Reader} {pending bs : List UInt8} (h : Ready s r)
    (he : s.err = none) (hp : s.pending = pending ++ bs) (hbs : bs ≠ []) :
    match (feed pending bs).1 with
    | some text => ∃ s', s.trySplit scanRunesGreedy = (some (.token text), s') ∧
        s'.pending = (feed pending bs).2
    | none => s.trySplit scanRunesGreedy = (none, s) ∧ s.pending = (feed pending bs).2 := by
  have hne : s.pending ≠ [] := by simp [hp, hbs]
  have hlen := h.ok.length_pending
  have hpos := List.length_pos_iff.2 hne
  obtain ⟨n, hle, hsplit, -, -⟩ := scanRunesGreedy_more s.pending
  have hfeed : feed pending bs = (bytes (sanitize (s.pending.take n)), s.pending.drop n) := by
    rw [feed, ← hp, hsplit]
  rw [hfeed]
  by_cases hn : n = 0
  · subst hn
    simp only [List.take_zero, sanitize_nil, bytes, if_true, List.drop_zero, and_true]
    unfold Scanner.trySplit
    rw [if_pos (.inl (by omega)), he]
    simp only [Option.isSome_none, hsplit, List.take_zero, sanitize_nil, bytes, if_true]
    rw [if_neg (by omega)]
    rfl
  · have htake : s.pending.take n ≠ [] := by simp [hn, hne]
    simp only [bytes, if_neg (sanitize_ne_nil htake)]
    refine ⟨{ s.skip n with empties := 0 }, ?_, Scanner.pending_skip s n⟩
    unfold Scanner.trySplit
    rw [if_pos (.inl (by omega)), he]
    simp only [Option.isSome_none, hsplit, bytes, if_neg (sanitize_ne_nil htake)]
    rw [if_neg (by omega), if_pos (.inr (by omega))]

/-- The same at the end of the stream, where the scanner's token is that of `flush`. -/
theorem trySplit_flush {s : Scanner} {r : Reader} {text : List UInt8} (h : Ready s r)
    (he : s.err = some .eof) (ht : flush s.pending = some text) :
    ∃ s', s.trySplit scanRunesGreedy = (some (.token text), s') ∧ s'.pending = [] := by
  have hlen := h.ok.length_pending
  have hsplit := scanRunesGreedy_eof s.pending
  have hpos : 0 < s.pending.length := by
    refine List.length_pos_iff.2 fun h0 => ?_
    rw [flush_eq, h0, sanitize_nil] at ht
    cases ht
  rw [flush_eq] at ht
  refine ⟨{ s.skip s.pending.length with empties := 0 }, ?_, ?_⟩
  · unfold Scanner.trySplit
    rw [if_pos (.inl (by omega)), he]
    simp only [Option.isSome_some, hsplit, ht]
    rw [if_neg (by omega), if_pos (.inr hpos)]
  · exact (Scanner.pending_skip s _).trans (by simp)

/-! ## Exclusive schedules -/

/-- The text a pump is about to write. -/
def Pump.inHand (x : Pump) : Option (List UInt8) :=
  match x.pc with
  | .write text | .writeLast text => some text
  | _ => none

/-- The pump holds nothing of the stream. -/
def Pump.Idle (x : Pump) : Prop := x.pending = [] ∧ x.inHand = none

/-- The steps at which the pumps do not get in each other's way: a pump wipes before any text has
been sent (or too late for the client to see it), and reads, or meets the end, only if the other
one holds nothing of the stream. -/
def Exclusive (s : State) : Act → Prop
  | .wipe _ => s.connClosed = true ∨ ∀ m ∈ s.received, m = .wipe
  | .read _ => (s.pump .stderr).Idle ∧ s.buffered = []
  | .fill _ => (s.pump .stdout).Idle
  | .eof p => (s.pump p.other).Idle ∧ s.buffered = []
  | _ => True

/-- Nothing of the stream is under way any more. -/
structure State.AllSent (s : State) : Prop where
  conn : s.conn = []
  buffered : s.buffered = []
  idle : ∀ p, (s.pump p).Idle

/-- At most pump `p` holds something of the stream, and its text is, in this order, what has been
printed, what `p` has in hand, and the text of what is still to be read. -/
structure TextAt (stream : List UInt8) (s : State) (p : Name) : Prop where
  other : (s.pump p.other).Idle
  unbuffered : p = .stdout → s.buffered = []
  text : sanitize stream = printed s.received ++
    ((s.pump p).inHand.getD [] ++ sanitize ((s.pump p).pending ++ (s.buffered ++ s.conn)))

/-- What exclusive schedules keep. -/
structure Inv (stream : List UInt8) (s : State) : Prop where
  text : ∃ p, TextAt stream s p
  wiped : ∀ p, (s.pump p).pc ≠ .start → .wipe ∈ s.received
  fresh : ∀ p, (s.pump p).pc = .start → (s.pump p).Idle
  last : ∀ p text, (s.pump p).pc = .writeLast text →
    s.conn = [] ∧ s.buffered = [] ∧ (s.pump p).pending = [] ∧ (s.pump p.other).Idle
  returned : ∀ p, (s.pump p).pc = .returned → s.AllSent
  hjClosed : s.hjClosed = true → ∃ p, (s.pump p).pc = .returned
  connClosed : s.connClosed = true → ∃ p, (s.pump p).pc = .returned
  onTerminal : .wipe ∈ s.received → ∀ before, terminal before s.received = printed s.received
  valid : ValidTexts s.received ∧ ∀ p text, (s.pump p).inHand = some text → Valid text

@[simp] theorem Name.other_ne (p : Name) : p.other ≠ p := by cases p <;> decide

@[simp] theorem Name.other_other (p : Name) : p.other.other = p := by cases p <;> rfl

/-- There are two pumps. -/
theorem Name.eq_or_other (p q : Name) : q = p ∨ q = p.other := by cases p <;> cases q <;> decide

section

variable {stream : List UInt8} {s s' : State} {p q : Name} {x : Pump} {n : Nat} {a : Act}

@[simp] theorem State.setPump_self : (s.setPump p x).pump p = x := by simp [setPump]

@[simp] theorem State.setPump_other : (s.setPump p x).pump p.other = s.pump p.other := by
  simp [setPump]

/-- What holds of the new pump and of the other one holds of both. -/
theorem State.forall_setPump {P : Name → Pump → Prop} (hp : P p x)
    (ho : P p.other (s.pump p.other)) (q : Name) : P q ((s.setPump p x).pump q) := by
  rcases Name.eq_or_other p q with rfl | rfl
  · rw [setPump_self]; exact hp
  · rw [setPump_other]; exact ho

/-- Nothing but what the pumps hold, what is left to read and what has been printed matters. -/
theorem TextAt.congr (h : TextAt stream s p)
    (hpump : ∀ q, (s'.pump q).pending = (s.pump q).pending ∧
      (s'.pump q).inHand = (s.pump q).inHand)
    (hb : s'.buffered = s.buffered) (hc : s'.conn = s.conn)
    (hr : printed s'.received = printed s.received) : TextAt stream s' p := by
  refine ⟨⟨?_, ?_⟩, fun hp => ?_, ?_⟩
  · rw [(hpump _).1, h.other.1]
  · rw [(hpump _).2, h.other.2]
  · rw [hb, h.unbuffered hp]
  · rw [hr, (hpump _).1, (hpump _).2, hb, hc, ← h.text]

/-- Either pump may be said to hold the stream while the other one holds nothing. -/
theorem Inv.textAt (h : Inv stream s) (hidle : (s.pump p.other).Idle)
    (hb : p = .stdout → s.buffered = []) : TextAt stream s p := by
  obtain ⟨q, hq⟩ := h.text
  rcases Name.eq_or_other p q with rfl | rfl
  · exact hq
  · have hp := hq.other
    rw [Name.other_other] at hp
    have ht := hq.text
    rw [hidle.1, hidle.2] at ht
    exact ⟨hidle, hb, by rw [ht, hp.1, hp.2]⟩

/-- A pump with a text in hand is the one that holds the stream. -/
theorem Inv.textAt_inHand {text : List UInt8} (h : Inv stream s)
    (hp : (s.pump p).inHand = some text) : TextAt stream s p := by
  obtain ⟨q, hq⟩ := h.text
  rcases Name.eq_or_other q p with rfl | rfl
  · exact hq
  · rw [hq.other.2] at hp; cases hp

/-- Once everything has been sent, the printed text is that of the stream. -/
theorem Inv.printed (h : Inv stream s) (hs : s.AllSent) : printed s.received = sanitize stream := by
  obtain ⟨q, hq⟩ := h.text
  rw [hq.text, (hs.idle q).1, (hs.idle q).2, hs.buffered, hs.conn]
  simp

/-- The printed text is always the beginning of the stream's. -/
theorem Inv.printed_prefix (h : Inv stream s) : Proxy.printed s.received <+: sanitize stream := by
  obtain ⟨q, hq⟩ := h.text
  exact ⟨_, hq.text.symm⟩

/-- The start. -/
theorem started_inv {buffered conn : List UInt8} (h : buffered ++ conn = stream) :
    Inv stream (started buffered conn) := by
  refine ⟨⟨.stderr, ⟨rfl, rfl⟩, nofun, ?_⟩, fun _ hp => (hp rfl).elim, fun _ _ => ⟨rfl, rfl⟩,
    fun _ _ => nofun, fun _ => nofun, nofun, nofun, nofun, nofun, fun _ _ => nofun⟩
  subst h
  simp [started, Proxy.printed, Pump.inHand]

/-- A failed write ends the pump; the client's connection is only closed when there is nothing
left to send. -/
theorem Inv.fail (h : Inv stream s) (hs : s.AllSent) (hw : .wipe ∈ s.received)
    (hx : x.Idle) (hpc : x.pc = .returned) : Inv stream (s.setPump p x) := by
  have hall : (s.setPump p x).AllSent :=
    ⟨hs.conn, hs.buffered, State.forall_setPump (P := fun _ y => y.Idle) hx (hs.idle _)⟩
  refine ⟨⟨p, hall.idle _, fun _ => hs.buffered, ?_⟩, fun _ _ => hw, ?_, fun q text hq => ?_,
    fun _ _ => hall, fun _ => ⟨p, by simpa⟩, fun _ => ⟨p, by simpa⟩, h.onTerminal, h.valid.1,
    fun q text hq => ?_⟩
  · show sanitize stream = Proxy.printed s.received ++ _
    rw [(hall.idle p).1, (hall.idle p).2, hall.buffered, hall.conn, h.printed hs]
    simp
  · exact fun q _ => hall.idle q
  · exact ⟨hs.conn, hs.buffered, (hall.idle q).1, hall.idle _⟩
  · rw [(hall.idle q).2] at hq; cases hq

/-- What is left to show when a pump that has not returned moves on and no connection is closed. -/
theorem Inv.move (h : Inv stream s) (hp : (s.pump p).pc ≠ .returned)
    (hpump : s'.pump = (s.setPump p x).pump)
    (hclosed : s'.hjClosed = s.hjClosed ∧ s'.connClosed = s.connClosed)
    (htext : TextAt stream s' q) (hstart : x.pc ≠ .start) (hwiped : .wipe ∈ s'.received)
    (hlast : ∀ text, x.pc = .writeLast text →
      s'.conn = [] ∧ s'.buffered = [] ∧ x.pending = [] ∧ (s.pump p.other).Idle)
    (hother : ∀ text, (s.pump p.other).pc = .writeLast text →
      s'.conn = [] ∧ s'.buffered = [] ∧ (s.pump p.other).pending = [] ∧ x.Idle)
    (hreturned : x.pc = .returned ∨ (s.pump p.other).pc = .returned → s'.AllSent)
    (hterm : ∀ before, terminal before s'.received = Proxy.printed s'.received)
    (hvalid : ValidTexts s'.received ∧ ∀ text, x.inHand = some text → Valid text) :
    Inv stream s' := by
  have hself : s'.pump p = x := by rw [hpump, State.setPump_self]
  have hoth : s'.pump p.other = s.pump p.other := by rw [hpump, State.setPump_other]
  have hclosing : (∃ q, (s.pump q).pc = .returned) → ∃ q, (s'.pump q).pc = .returned := by
    rintro ⟨q, hq⟩
    rcases Name.eq_or_other p q with rfl | rfl
    · exact (hp hq).elim
    · exact ⟨p.other, by rw [hoth]; exact hq⟩
  refine ⟨⟨q, htext⟩, fun _ _ => hwiped, fun q hq => ?_, fun q text hq => ?_, fun q hq => ?_,
    fun hc => hclosing (h.hjClosed (hclosed.1 ▸ hc)),
    fun hc => hclosing (h.connClosed (hclosed.2 ▸ hc)), fun _ => hterm, hvalid.1,
    fun q text hq => ?_⟩
  all_goals rcases Name.eq_or_other p q with rfl | rfl
  · rw [hself] at hq; exact (hstart hq).elim
  · rw [hoth] at hq ⊢; exact h.fresh _ hq
  · rw [hself] at hq ⊢; rw [hoth]; exact hlast text hq
  · rw [hoth] at hq ⊢; rw [Name.other_other, hself]; exact hother text hq
  · rw [hself] at hq; exact hreturned (.inl hq)
  · rw [hoth] at hq; exact hreturned (.inr hq)
  · rw [hself] at hq; exact hvalid.2 text hq
  · rw [hoth] at hq; exact h.valid.2 _ text hq

/-- A pump's opening `wipe` that no text has gone before. -/
theorem Inv.wipe (h : Inv stream s) (hpc : (s.pump p).pc = .start)
    (hex : s.connClosed = true ∨ ∀ m ∈ s.received, m = .wipe) :
    Inv stream (s.send p .wipe .scan) := by
  have hidle := h.fresh p hpc
  unfold State.send
  split
  · next hc =>
    obtain ⟨q, hq⟩ := h.connClosed hc
    exact h.fail (h.returned q hq) (h.wiped q (by simp [hq])) ⟨hidle.1, rfl⟩ rfl
  · next hc =>
    have hwipes := hex.resolve_left hc
    have hx : Pump.Idle { s.pump p with pc := .scan } := ⟨hidle.1, rfl⟩
    obtain ⟨q, hq⟩ := h.text
    refine h.move (p := p) (x := { s.pump p with pc := .scan }) (by simp [hpc]) rfl ⟨rfl, rfl⟩
      (q := q) ?_ nofun (by simp) nofun (fun text ht => ?_) (fun hr => ?_) ?_ ?_
    · exact hq.congr (State.forall_setPump
        (P := fun r y => y.pending = (s.pump r).pending ∧ y.inHand = (s.pump r).inHand)
        (p := p) ⟨rfl, hidle.2.symm⟩ ⟨rfl, rfl⟩) rfl rfl (by simp)
    · obtain ⟨h₁, h₂, h₃, -⟩ := h.last _ text ht
      exact ⟨h₁, h₂, h₃, hx⟩
    · have hs := h.returned _ (hr.resolve_left nofun)
      exact ⟨hs.conn, hs.buffered, State.forall_setPump (P := fun _ y => y.Idle) hx (hs.idle _)⟩
    · simp [printed_eq_nil hwipes]
    · refine ⟨fun t ht => ?_, nofun⟩
      rcases List.mem_append.1 ht with ht | ht
      · exact h.valid.1 t ht
      · simp at ht

/-- A read of the pump that holds the stream, or that may come to hold it. -/
theorem Inv.fed {bs : List UInt8} {s₀ : State} (h : Inv stream s₀) (ht : TextAt stream s₀ p)
    (hs : s.pump = s₀.pump ∧ s.received = s₀.received ∧ s.hjClosed = s₀.hjClosed ∧
      s.connClosed = s₀.connClosed)
    (hrest : s₀.buffered ++ s₀.conn = bs ++ (s.buffered ++ s.conn))
    (hb : p = .stdout → s.buffered = []) (hleft : ¬ (s₀.conn = [] ∧ s₀.buffered = []))
    (hpc : (s₀.pump p).pc = .scan) : Inv stream (s.fed p bs) := by
  obtain ⟨hpump, hreceived, hhj, hconn⟩ := hs
  have hscan : (s₀.pump p).inHand = none := by simp [Pump.inHand, hpc]
  have hwiped := h.wiped p (by simp [hpc])
  unfold State.fed
  rw [hpump]
  generalize hx : Pump.mk _ (feed (s₀.pump p).pending bs).2 = x
  have hpend : x.pending = (feed (s₀.pump p).pending bs).2 := by rw [← hx]
  have hhand : x.inHand = (feed (s₀.pump p).pending bs).1 := by
    rw [← hx]
    cases (feed (s₀.pump p).pending bs).1 <;> rfl
  have hxpc : (∃ text, x.pc = .write text) ∨ x.pc = .scan := by
    rw [← hx]
    cases (feed (s₀.pump p).pending bs).1 with
    | some text => exact .inl ⟨text, rfl⟩
    | none => exact .inr rfl
  refine h.move (p := p) (x := x) (q := p) (by simp [hpc]) ?_ ⟨hhj, hconn⟩ ⟨?_, hb, ?_⟩ ?_
    (hreceived ▸ hwiped) (fun text hl => ?_) (fun text hl => ?_) ?_ (fun before => ?_)
    ⟨hreceived ▸ h.valid.1, fun text htext => feed_valid (hhand ▸ htext)⟩
  · simp only [State.setPump, hpump]
  · rw [State.setPump_other, hpump]; exact ht.other
  · have hfeed := feed_text (s₀.pump p).pending bs (s.buffered ++ s.conn)
    rw [ht.text, hscan, hrest, ← List.append_assoc (s₀.pump p).pending, hfeed,
      State.setPump_self, hpend, hhand]
    show _ = Proxy.printed s.received ++ _
    rw [hreceived]
    rfl
  · rcases hxpc with ⟨text, hxpc⟩ | hxpc <;> simp [hxpc]
  · rcases hxpc with ⟨text, hxpc⟩ | hxpc <;> simp [hxpc] at hl
  · obtain ⟨h₁, h₂, -⟩ := h.last _ text hl
    exact (hleft ⟨h₁, h₂⟩).elim
  · rintro (hr | hr)
    · rcases hxpc with ⟨text, hxpc⟩ | hxpc <;> simp [hxpc] at hr
    · have hs := h.returned _ hr
      exact (hleft ⟨hs.conn, hs.buffered⟩).elim
  · show terminal before s.received = Proxy.printed s.received
    rw [hreceived]
    exact h.onTerminal hwiped before

/-- The end of the stream. -/
theorem Inv.ended (h : Inv stream s) (hpc : (s.pump p).pc = .scan) (hd : s.drained p = true)
    (ho : (s.pump p.other).Idle) (hb : s.buffered = []) : Inv stream (s.ended p) := by
  have hc : s.conn = [] := by cases p <;> simp_all [State.drained]
  have hscan : (s.pump p).inHand = none := by simp [Pump.inHand, hpc]
  have hwiped := h.wiped p (by simp [hpc])
  have ht := h.textAt ho fun _ => hb
  unfold State.ended
  rw [flush_eq]
  generalize hx : Pump.mk _ [] = x
  have hpend : x.pending = [] := by rw [← hx]
  have hhand : x.inHand = bytes (sanitize (s.pump p).pending) := by
    rw [← hx]
    cases bytes (sanitize (s.pump p).pending) <;> rfl
  have hret : x.pc = .returned ∨ (s.pump p.other).pc = .returned → x.Idle := by
    rintro (hr | hr)
    · refine ⟨hpend, ?_⟩
      simp only [Pump.inHand, hr]
    · have hidle := (h.returned _ hr).idle p
      refine ⟨hpend, ?_⟩
      rw [hhand, hidle.1, sanitize_nil]
      rfl
  refine h.move (p := p) (x := x) (q := p) (by simp [hpc]) rfl ⟨rfl, rfl⟩
    ⟨by rw [State.setPump_other]; exact ho, fun _ => hb, ?_⟩ ?_ hwiped
    (fun text _ => ⟨hc, hb, hpend, ho⟩) (fun text hl => ?_)
    (fun hr => ⟨hc, hb, State.forall_setPump (P := fun _ y => y.Idle) (hret hr) ho⟩)
    (h.onTerminal hwiped) ⟨h.valid.1, fun text htext => ?_⟩
  · rw [ht.text, State.setPump_self, hscan, hpend, hhand]
    show Proxy.printed s.received ++ (_ ++ sanitize (_ ++ (s.buffered ++ s.conn))) =
      Proxy.printed s.received ++ (_ ++ sanitize (_ ++ (s.buffered ++ s.conn)))
    simp only [hb, hc, List.append_nil, sanitize_nil, Option.getD_none, List.nil_append, bytes]
    split
    · next h0 => simp [h0]
    · rfl
  · rw [← hx]
    cases bytes (sanitize (s.pump p).pending) <;> intro hl <;> cases hl
  · have := ho.2
    simp [Pump.inHand, hl] at this
  · rw [hhand] at htext
    simp only [bytes] at htext
    split at htext
    · cases htext
    · cases htext; exact sanitize_isValid _

/-- A pump writes the text it has in hand, and has none from then on. -/
theorem Inv.sent {text : List UInt8} {pc : Pc} (h : Inv stream s)
    (hp : (s.pump p).inHand = some text)
    (hpc : pc = .scan ∨ (pc = .returned ∧ (s.pump p).pc = .writeLast text)) :
    Inv stream (s.send p (.stdout text) pc) := by
  have ht := h.textAt_inHand hp
  have hnot : ∀ q, (s.pump q).pc ≠ .returned := by
    intro q hq
    rw [((h.returned q hq).idle p).2] at hp; cases hp
  have hwiped : .wipe ∈ s.received := h.wiped p fun h0 => by simp [Pump.inHand, h0] at hp
  have hhand : Pump.inHand { s.pump p with pc := pc } = none := by
    rcases hpc with rfl | ⟨rfl, -⟩ <;> rfl
  unfold State.send
  split
  · next hc =>
    obtain ⟨q, hq⟩ := h.connClosed hc
    exact (hnot q hq).elim
  · next hc =>
    refine h.move (p := p) (x := { s.pump p with pc := pc }) (q := p) (hnot p) rfl ⟨rfl, rfl⟩
      ⟨?_, ht.unbuffered, ?_⟩ ?_ (by simp [hwiped]) (fun text hl => ?_) (fun text hl => ?_)
      (fun hr => ?_) (fun before => ?_) ⟨fun t hmem => ?_, fun t hmem => ?_⟩
    · show ((s.setPump p _).pump _).Idle
      rw [State.setPump_other]; exact ht.other
    · show _ = Proxy.printed (s.received ++ [.stdout text]) ++
        (((s.setPump p _).pump p).inHand.getD [] ++
          sanitize (((s.setPump p _).pump p).pending ++ (s.buffered ++ s.conn)))
      rw [State.setPump_self, hhand, printed_stdout, ht.text, hp]
      simp
    · rcases hpc with rfl | ⟨rfl, -⟩ <;> nofun
    · rcases hpc with rfl | ⟨rfl, -⟩ <;> cases hl
    · have := ht.other.2
      simp [Pump.inHand, hl] at this
    · rcases hr with rfl | hr
      · obtain ⟨h₁, h₂, h₃, h₄⟩ := h.last p text (hpc.resolve_left nofun).2
        exact ⟨h₁, h₂, State.forall_setPump (P := fun _ y => y.Idle) ⟨h₃, rfl⟩ h₄⟩
      · exact (hnot _ hr).elim
    · rw [terminal_stdout, h.onTerminal hwiped before, printed_stdout]
    · rcases List.mem_append.1 hmem with hmem | hmem
      · exact h.valid.1 t hmem
      · cases List.mem_singleton.1 hmem; exact h.valid.2 p _ hp
    · rw [hhand] at hmem; cases hmem

/-- **One step of an exclusive schedule** keeps the invariant. -/
theorem Inv.step (h : Inv stream s) (hex : Exclusive s a) (hs : step s a = some s') :
    Inv stream s' := by
  cases a with
  | wipe p =>
    obtain ⟨hpc, hs⟩ := Option.ite_none_right_eq_some.1 hs
    cases hs
    exact h.wipe hpc hex
  | read n =>
    obtain ⟨⟨hpc, -, hn, hle⟩, hs⟩ := Option.ite_none_right_eq_some.1 hs
    cases hs
    refine h.fed (h.textAt (p := .stdout) hex.1 fun _ => hex.2) ⟨rfl, rfl, rfl, rfl⟩ ?_
      (fun _ => hex.2) (fun h0 => ?_) hpc
    · simp [hex.2]
    · rw [h0.1] at hle; exact absurd hle (by simp; omega)
  | fill n =>
    obtain ⟨⟨hpc, -, hb, hn, hle⟩, hs⟩ := Option.ite_none_right_eq_some.1 hs
    cases hs
    have ht := h.textAt (p := .stderr) hex nofun
    have hc : s.conn ≠ [] := fun h0 => by rw [h0] at hle; simp at hle; omega
    refine h.move (p := .stderr) (x := s.pump .stderr) (q := .stderr) (by simp [hpc]) ?_ ⟨rfl, rfl⟩
      ⟨ht.other, nofun, ?_⟩ (by simp [hpc]) (h.wiped .stderr (by simp [hpc])) (by simp [hpc])
      (fun text hl => ?_) ?_ (h.onTerminal (h.wiped .stderr (by simp [hpc])))
      ⟨h.valid.1, h.valid.2 _⟩
    · funext q; simp [State.setPump]; rintro rfl; rfl
    · rw [ht.text, hb]; simp
    · exact (hc (h.last _ text hl).1).elim
    · rintro (hr | hr)
      · rw [hpc] at hr; cases hr
      · exact (hc (h.returned _ hr).conn).elim
  | take n =>
    obtain ⟨⟨hpc, hn, hle⟩, hs⟩ := Option.ite_none_right_eq_some.1 hs
    cases hs
    have hb : s.buffered ≠ [] := fun h0 => by rw [h0] at hle; simp at hle; omega
    have ht : TextAt stream s .stderr := by
      obtain ⟨q, hq⟩ := h.text
      cases q with
      | stdout => exact (hb (hq.unbuffered rfl)).elim
      | stderr => exact hq
    refine h.fed ht ⟨rfl, rfl, rfl, rfl⟩ ?_ nofun (fun h0 => hb h0.2) hpc
    rw [← List.append_assoc, List.take_append_drop]
  | eof p =>
    obtain ⟨⟨hpc, -, hd⟩, hs⟩ := Option.ite_none_right_eq_some.1 hs
    cases hs
    exact h.ended hpc hd hex.1 hex.2
  | readClosed p =>
    obtain ⟨⟨hpc, hc⟩, hs⟩ := Option.ite_none_right_eq_some.1 hs
    cases hs
    obtain ⟨q, hq⟩ := h.hjClosed hc
    exact h.fail (h.returned q hq) (h.wiped p (by simp [hpc])) ⟨rfl, rfl⟩ rfl
  | write p =>
    simp only [Proxy.step] at hs
    split at hs
    · next text hpc =>
      cases hs
      exact h.sent (by simp [Pump.inHand, hpc]) (.inl rfl)
    · next text hpc =>
      cases hs
      exact h.sent (by simp [Pump.inHand, hpc]) (.inr ⟨rfl, hpc⟩)
    · cases hs
  | closeHijacked =>
    obtain ⟨hr, hs⟩ := Option.ite_none_right_eq_some.1 hs
    cases hs
    have hr : ∃ p, (s.pump p).pc = .returned := hr.elim (fun h => ⟨_, h⟩) fun h => ⟨_, h⟩
    exact ⟨h.text.imp fun q hq => ⟨hq.other, hq.unbuffered, hq.text⟩, h.wiped, h.fresh, h.last,
      fun p hp => ⟨(h.returned p hp).conn, (h.returned p hp).buffered, (h.returned p hp).idle⟩,
      fun _ => hr, h.connClosed, h.onTerminal, h.valid⟩
  | closeConn =>
    obtain ⟨hc, hs⟩ := Option.ite_none_right_eq_some.1 hs
    cases hs
    exact ⟨h.text.imp fun q hq => ⟨hq.other, hq.unbuffered, hq.text⟩, h.wiped, h.fresh, h.last,
      fun p hp => ⟨(h.returned p hp).conn, (h.returned p hp).buffered, (h.returned p hp).idle⟩,
      h.hjClosed, fun _ => h.hjClosed hc, h.onTerminal, h.valid⟩

end

/-! ## What the client sees -/

/-- What the client is to see of a stream: valid texts, at every moment after a wipe the beginning
of the stream's text, and all of it in the end. -/
def InOrder (stream : List UInt8) (s : State) : Prop :=
  ValidTexts s.received ∧
  (.wipe ∈ s.received → ∀ before, terminal before s.received <+: sanitize stream) ∧
  (s.finished → ∀ before, terminal before s.received = sanitize stream)

/-- The invariant says what the client sees. -/
theorem Inv.inOrder {stream : List UInt8} {s : State} (h : Inv stream s) : InOrder stream s := by
  refine ⟨h.valid.1, fun hw before => ?_, fun hf before => ?_⟩
  · rw [h.onTerminal hw]; exact h.printed_prefix
  · have hwiped := h.wiped .stdout (by simp [hf .stdout])
    rw [h.onTerminal hwiped, h.printed (h.returned _ (hf .stdout))]

/-- **Exclusive schedules show the stream in order.** -/
theorem exclusive_text {stream : List UInt8} {s : State} (h : (pumps stream).Reaches Exclusive s) :
    InOrder stream s := by
  refine (h.invariant (I := Inv stream) ?_ fun t a t' ht ha hs => ht.step ha hs).inOrder
  rintro _ ⟨buffered, conn, hstream, rfl⟩
  exact started_inv hstream

/-- **Any output may be lost.** One pump reads all of it, the other one meets the end, and the
connections are closed before the first one has written anything. -/
theorem lost_text {stream : List UInt8} (h : stream ≠ []) :
    ∃ s, (pumps stream).Reaches System.Any s ∧ s.finished ∧ s.received = [.wipe, .wipe] := by
  have hpos : 0 < stream.length := List.length_pos_iff.2 h
  have hstart : (pumps stream).init (started [] stream) := ⟨[], stream, rfl, rfl⟩
  have hflush : flush [] = none := by rw [flush_eq, sanitize_nil]; rfl
  obtain ⟨s, hs, hf, hr⟩ : ∃ s, (pumps stream).exec (started [] stream)
      [.wipe .stdout, .wipe .stderr, .read stream.length, .eof .stderr, .closeHijacked, .closeConn,
        match (feed [] stream).1 with
        | some _ => .write .stdout
        | none => .readClosed .stdout] = some s ∧ s.finished ∧ s.received = [.wipe, .wipe] := by
    cases hfeed : (feed [] stream).1 with
    | some text =>
      refine ⟨_, by simp [System.exec, pumps, step, started, State.send, State.setPump, State.fed,
        hpos, hfeed, State.ended, hflush, State.drained]; rfl, fun p => ?_, ?_⟩
      · cases p <;> simp
      · simp
    | none =>
      refine ⟨_, by simp [System.exec, pumps, step, started, State.send, State.setPump, State.fed,
        hpos, hfeed, State.ended, hflush, State.drained]; rfl, fun p => ?_, ?_⟩
      · cases p <;> simp
      · simp
  exact ⟨s, ⟨_, _, hstart, System.run_of_exec hs⟩, hf, hr⟩

/-- Nothing has been sent, and there is nothing to send. -/
structure Quiet (s : State) : Prop where
  sent : s.AllSent
  wipes : ∀ m ∈ s.received, m = .wipe

/-- The pumps cannot get in each other's way over nothing. -/
theorem Quiet.exclusive {s : State} (h : Quiet s) (a : Act) : Exclusive s a := by
  cases a with
  | wipe p => exact .inr h.wipes
  | read n => exact ⟨h.sent.idle _, h.sent.buffered⟩
  | fill n => exact h.sent.idle _
  | eof p => exact ⟨h.sent.idle _, h.sent.buffered⟩
  | _ => trivial

/-- A pump that stays idle keeps things quiet. -/
theorem Quiet.setPump {s : State} {p : Name} {x : Pump} (h : Quiet s) (hx : x.Idle) :
    Quiet (s.setPump p x) :=
  ⟨⟨h.sent.conn, h.sent.buffered,
    State.forall_setPump (P := fun _ y => y.Idle) hx (h.sent.idle _)⟩, h.wipes⟩

/-- Things stay quiet. -/
theorem Quiet.step {s s' : State} {a : Act} (h : Quiet s) (hs : step s a = some s') :
    Quiet s' := by
  cases a with
  | wipe p =>
    obtain ⟨-, hs⟩ := Option.ite_none_right_eq_some.1 hs
    cases hs
    unfold State.send
    split
    · exact h.setPump ⟨(h.sent.idle p).1, rfl⟩
    · have hq := h.setPump (p := p) (x := { s.pump p with pc := .scan }) ⟨(h.sent.idle p).1, rfl⟩
      refine ⟨⟨hq.sent.conn, hq.sent.buffered, hq.sent.idle⟩, fun m hm => ?_⟩
      rcases List.mem_append.1 hm with hm | hm
      · exact h.wipes m hm
      · exact List.mem_singleton.1 hm
  | read n =>
    obtain ⟨⟨-, -, hn, hle⟩, -⟩ := Option.ite_none_right_eq_some.1 hs
    rw [h.sent.conn] at hle
    exact absurd hle (by simp; omega)
  | fill n =>
    obtain ⟨⟨-, -, -, hn, hle⟩, -⟩ := Option.ite_none_right_eq_some.1 hs
    rw [h.sent.conn] at hle
    exact absurd hle (by simp; omega)
  | take n =>
    obtain ⟨⟨-, hn, hle⟩, -⟩ := Option.ite_none_right_eq_some.1 hs
    rw [h.sent.buffered] at hle
    exact absurd hle (by simp; omega)
  | eof p =>
    obtain ⟨-, hs⟩ := Option.ite_none_right_eq_some.1 hs
    cases hs
    refine h.setPump ⟨rfl, ?_⟩
    rw [(h.sent.idle p).1, flush_eq, sanitize_nil]
    rfl
  | readClosed p =>
    obtain ⟨-, hs⟩ := Option.ite_none_right_eq_some.1 hs
    cases hs
    exact h.setPump ⟨rfl, rfl⟩
  | write p =>
    have hidle := (h.sent.idle p).2
    simp only [Proxy.step] at hs
    split at hs
    · next text hpc => simp [Pump.inHand, hpc] at hidle
    · next text hpc => simp [Pump.inHand, hpc] at hidle
    · cases hs
  | closeHijacked =>
    obtain ⟨-, hs⟩ := Option.ite_none_right_eq_some.1 hs
    cases hs
    exact ⟨⟨h.sent.conn, h.sent.buffered, h.sent.idle⟩, h.wipes⟩
  | closeConn =>
    obtain ⟨-, hs⟩ := Option.ite_none_right_eq_some.1 hs
    cases hs
    exact ⟨⟨h.sent.conn, h.sent.buffered, h.sent.idle⟩, h.wipes⟩

/-- Where there is no output, every schedule shows it. -/
theorem quiet_text {s : State} (h : (pumps []).Reaches System.Any s) : InOrder [] s := by
  refine (h.invariant (I := fun t => Inv [] t ∧ Quiet t) ?_
    fun t a t' ht _ hs => ⟨ht.1.step (ht.2.exclusive a) hs, ht.2.step hs⟩).1.inOrder
  rintro _ ⟨buffered, conn, hstream, rfl⟩
  obtain ⟨rfl, rfl⟩ := List.append_eq_nil_iff.1 hstream
  exact ⟨started_inv rfl, ⟨rfl, rfl, fun _ => ⟨rfl, rfl⟩⟩, nofun⟩

/-- **The terminal shows the stream.** On every run whose steps are exclusive the client sees the
text of the stream, in order and in the end all of it; on every run there is, only if there is no
output. -/
theorem pumps_inOrder (stream : List UInt8) :
    (∀ s, (pumps stream).Reaches Exclusive s → InOrder stream s) ∧
    ((∀ s, (pumps stream).Reaches System.Any s → InOrder stream s) ↔ stream = []) := by
  refine ⟨fun s hs => exclusive_text hs, fun hall => ?_, ?_⟩
  · refine Decidable.byContradiction fun hne => ?_
    obtain ⟨s, hs, hf, hr⟩ := lost_text hne
    have := (hall s hs).2.2 hf []
    rw [hr] at this
    exact sanitize_ne_nil hne this.symm
  · rintro rfl s hs
    exact quiet_text hs

/-- The losing schedule for an output of two letters. -/
theorem pumps_not_inOrder :
    ¬ ∀ s, (pumps [0x68, 0x69]).Reaches System.Any s → InOrder [0x68, 0x69] s := by
  intro hall
  have hne : ([0x68, 0x69] : List UInt8) ≠ [] := by decide
  obtain ⟨s, hs, hf, hr⟩ := lost_text hne
  have := (hall s hs).2.2 hf []
  rw [hr] at this
  exact sanitize_ne_nil hne this.symm

end UAssign.Proxy

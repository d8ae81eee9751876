import UAssign.Go.JsonString
import UAssign.Proxy.Connection
import UAssign.Proxy.Terminal

/-!
# From the exec to the page

`WriteJSON` makes an array of strings of a message, and a frame of the array; the connection cuts
the frames into segments of any size; the page (`templates/container.qtpl`) puts them together,
decodes each text frame and prints it. `wire_text` is the way as a whole, from the greeting of
`instanceWS` on: whatever the schedules of the pumps and of the writers and the segments are, the
page shows what the messages say, and the text of the stream if the pumps keep out of each other's
way.
-/

namespace UAssign.Proxy

open Bufio Json Utf8

/-! ## Frames in segments -/

section

variable {op : OpCode} {n k : Nat} {l m r : List UInt8} {f : Frame} {fs frames : List Frame}

/-- A payload stays the same when more bytes come. -/
theorem parsePayload_mono (h : Frame.parsePayload op n l = some (f, r)) :
    Frame.parsePayload op n (l ++ m) = some (f, r ++ m) ∧ r.length ≤ l.length := by
  unfold Frame.parsePayload at h ⊢
  obtain ⟨hn, h⟩ := Option.dite_none_right_eq_some.1 h
  cases h
  have hle : n ≤ (l ++ m).length := by
    rw [List.length_append]
    omega
  refine ⟨?_, by rw [List.length_drop]; omega⟩
  rw [dif_pos ⟨hle, hn.2⟩]
  simp only [List.take_append_of_le_length hn.1, List.drop_append_of_le_length hn.1]

/-- So does one behind its length. -/
theorem parseLong_mono (h : Frame.parseLong op k l = some (f, r)) :
    Frame.parseLong op k (l ++ m) = some (f, r ++ m) ∧ r.length ≤ l.length := by
  unfold Frame.parseLong at h ⊢
  obtain ⟨hk, h⟩ := Option.ite_none_right_eq_some.1 h
  obtain ⟨hmono, hlen⟩ := @parsePayload_mono _ _ _ m _ _ h
  rw [if_pos (by rw [List.length_append]; omega), List.take_append_of_le_length hk,
    List.drop_append_of_le_length hk]
  exact ⟨hmono, hlen.trans (by rw [List.length_drop]; omega)⟩

/-- **A frame that has been read stays the same when more bytes come.** -/
theorem parse_mono (h : Frame.parse l = some (f, r)) :
    Frame.parse (l ++ m) = some (f, r ++ m) ∧ r.length < l.length := by
  rcases l with _ | ⟨first, _ | ⟨length, l⟩⟩
  · cases h
  · cases h
  · obtain ⟨op, hop, h⟩ := Option.bind_eq_some_iff.1 h
    simp only [List.cons_append, Frame.parse, hop, Option.bind_some, List.length_cons] at h ⊢
    split_ifs at h ⊢
    · exact (parsePayload_mono h).imp id fun hlen => by omega
    · exact (parseLong_mono h).imp id fun hlen => by omega
    · exact (parseLong_mono h).imp id fun hlen => by omega

/-- What has come of some frames is no whole one, or begins with the first of them. -/
theorem parse_prefix (h : l <+: Frame.encodeAll fs) (hl : Frame.parse l = some (f, r)) :
    ∃ fs', fs = f :: fs' ∧ l = f.encode ++ r ∧ r <+: Frame.encodeAll fs' := by
  obtain ⟨m, hm⟩ := h
  have hmono := (@parse_mono l m _ _ hl).1
  have hne : l ++ m ≠ [] := by
    rintro hnil
    rw [(List.append_eq_nil_iff.1 hnil).1] at hl
    cases hl
  obtain ⟨g, fs', rfl, hg⟩ := parse_encodeAll hm hne
  rw [hmono] at hg
  obtain ⟨rfl, hrest⟩ := Prod.mk.inj (Option.some.inj hg)
  refine ⟨fs', rfl, ?_, ⟨m, hrest⟩⟩
  rw [encodeAll_cons, ← hrest, ← List.append_assoc] at hm
  exact List.append_cancel_right hm

end

/-! ## The page -/

/-- What the page shows: the text on the terminal, and whether the connection has been closed. -/
structure Screen where
  text : List UInt8
  closed : Bool
  deriving DecidableEq

/-- The listener for `message`. -/
def Screen.listen (text data : List UInt8) : List UInt8 :=
  match parse data with
  | some (.arr (.str command :: rest)) =>
    if command = ascii "stdout" then
      match rest with
      | .str s :: _ => text ++ s
      | _ => text
    else if command = ascii "wipe" then []
    else text
  | _ => text

/-- A frame. Behind a close frame nothing is heard. -/
def Screen.frame (s : Screen) (f : Frame) : Screen :=
  if s.closed then s
  else
    match f.opCode with
    | .text => { s with text := Screen.listen s.text f.payload }
    | .close => { s with closed := true }
    | .pong => s

/-- The page, with the bytes that have come and are no whole frame yet. -/
structure Page where
  pending : List UInt8
  screen : Screen
  deriving DecidableEq

namespace Page

/-- The socket is open, and the terminal is empty. -/
def opened : Page := ⟨[], [], false⟩

/-- The frames that are whole. -/
def drain (p : Page) : Page :=
  match _h : Frame.parse p.pending with
  | none => p
  | some (f, rest) => drain ⟨rest, p.screen.frame f⟩
termination_by p.pending.length
decreasing_by exact (@parse_mono p.pending [] _ _ _h).2

/-- A segment. -/
def receive (p : Page) (segment : List UInt8) : Page :=
  drain { p with pending := p.pending ++ segment }

/-- Some segments, one after the other. -/
def receiveAll (p : Page) (segments : List (List UInt8)) : Page := segments.foldl receive p

end Page

section

variable {fs : List Frame} {segments : List (List UInt8)} {screen : Screen} {ms : List Message}
  {m : Message} {text : List UInt8}

/-- What is left of the bytes of some frames is no whole one. -/
theorem drain_frames (p : Page) {fs : List Frame} {more : List UInt8}
    (h : p.pending ++ more = Frame.encodeAll fs) : ∃ done rest, fs = done ++ rest ∧
      p.drain.screen = done.foldl Screen.frame p.screen ∧
      p.pending = Frame.encodeAll done ++ p.drain.pending ∧
      p.drain.pending ++ more = Frame.encodeAll rest ∧ Frame.parse p.drain.pending = none := by
  fun_induction Page.drain p generalizing fs with
  | case1 p hnone => exact ⟨[], fs, rfl, rfl, rfl, h, hnone⟩
  | case2 p f l hf ih =>
    obtain ⟨fs', rfl, hl, -⟩ := parse_prefix ⟨more, h⟩ hf
    rw [hl, encodeAll_cons, List.append_assoc] at h
    obtain ⟨done, rest, rfl, hscreen, hpending, hmore, hnone⟩ := ih (List.append_cancel_left h)
    refine ⟨f :: done, rest, rfl, hscreen, ?_, hmore, hnone⟩
    rw [hl, encodeAll_cons, List.append_assoc]
    exact congrArg _ hpending

/-- **The page puts frames together**, however they have been cut. -/
theorem receiveAll_frames (p : Page) (segments : List (List UInt8)) {fs : List Frame}
    {more : List UInt8} (hp : Frame.parse p.pending = none)
    (h : p.pending ++ segments.flatten ++ more = Frame.encodeAll fs) :
    ∃ done rest, fs = done ++ rest ∧
      (p.receiveAll segments).screen = done.foldl Screen.frame p.screen ∧
      (p.receiveAll segments).pending ++ more = Frame.encodeAll rest ∧
      Frame.parse (p.receiveAll segments).pending = none := by
  induction segments generalizing p fs with
  | nil =>
    rw [List.flatten_nil, List.append_nil] at h
    exact ⟨[], fs, rfl, rfl, h, hp⟩
  | cons segment segments ih =>
    rw [List.flatten_cons, ← List.append_assoc, List.append_assoc] at h
    obtain ⟨done, rest, rfl, hscreen, -, hmore, hnone⟩ :=
      drain_frames { p with pending := p.pending ++ segment } h
    rw [← List.append_assoc] at hmore
    obtain ⟨done', rest', rfl, hscreen', hmore', hnone'⟩ := ih (p.receive segment) hnone hmore
    refine ⟨done ++ done', rest', (List.append_assoc ..).symm, ?_, hmore', hnone'⟩
    rw [List.foldl_append, ← hscreen]
    exact hscreen'

/-- When all of some frames has come, nothing is pending. -/
theorem eq_nil_of_parse {l : List UInt8} (h : l = Frame.encodeAll fs)
    (hnone : Frame.parse l = none) : fs = [] := by
  cases fs with
  | nil => rfl
  | cons f fs =>
    rw [h, encodeAll_cons, parse_encode] at hnone
    cases hnone

/-! ## Messages -/

/-- What `WriteJSON` makes of a message. -/
def Message.marshal : Message → List UInt8
  | .wipe => marshalStrings [ascii "wipe"]
  | .stdout text => marshalStrings [ascii "stdout", text]

/-- The texts of the text frames. -/
def texts (fs : List Frame) : List (List UInt8) :=
  (fs.filter fun f => f.opCode = .text).map Frame.payload

/-- The page does with the text of a message what the message says. -/
theorem listen_marshal (h : ∀ t, m = .stdout t → Valid t) :
    Screen.listen text m.marshal = terminal text [m] := by
  have hwipe : sanitize (ascii "wipe") = ascii "wipe" := sanitize_ascii (by decide)
  have hstdout : sanitize (ascii "stdout") = ascii "stdout" := sanitize_ascii (by decide)
  cases m with
  | wipe =>
    rw [Screen.listen, Message.marshal, parse_marshalStrings]
    simp only [List.map_cons, List.map_nil, hwipe]
    rfl
  | stdout t =>
    rw [Screen.listen, Message.marshal, parse_marshalStrings]
    simp only [List.map_cons, List.map_nil, hstdout, sanitize_valid (h t rfl)]
    rfl

/-- Behind a close frame nothing changes. -/
theorem foldl_closed (h : screen.closed = true) : fs.foldl Screen.frame screen = screen := by
  induction fs with
  | nil => rfl
  | cons f fs ih =>
    have hf : screen.frame f = screen := if_pos h
    rw [List.foldl_cons, hf, ih]

/-- **What frames show** of the messages that they carry: all of them, or the first ones if one of
the frames closes the connection. -/
theorem frames_show (screen : Screen) (hscreen : screen.closed = false)
    (htexts : texts fs = ms.map Message.marshal) (hvalid : ValidTexts ms) :
    (∃ k, (fs.foldl Screen.frame screen).text = terminal screen.text (ms.take k)) ∧
      ((∀ f ∈ fs, f.opCode ≠ .close) →
        (fs.foldl Screen.frame screen).text = terminal screen.text ms) := by
  induction fs generalizing screen ms with
  | nil =>
    obtain rfl : ms = [] := List.map_eq_nil_iff.1 htexts.symm
    exact ⟨⟨0, rfl⟩, fun _ => rfl⟩
  | cons f fs ih =>
    have hopen : ∀ {x y : Screen}, (if screen.closed then x else y) = y :=
      if_neg (by rw [hscreen]; exact Bool.false_ne_true)
    cases hop : f.opCode with
    | text =>
      have hhead : texts (f :: fs) = f.payload :: texts fs := by simp [texts, hop]
      rw [hhead] at htexts
      obtain ⟨m, ms, rfl⟩ : ∃ m ms', ms = m :: ms' :=
        List.exists_cons_of_ne_nil fun hnil => by rw [hnil] at htexts; cases htexts
      obtain ⟨hm, hms⟩ := List.cons.inj htexts
      have hfirst : screen.frame f = { screen with text := terminal screen.text [m] } := by
        rw [Screen.frame, hopen, hop]
        simp only [hm, listen_marshal fun t ht => hvalid t (ht ▸ List.mem_cons_self)]
      have hcons : ∀ l, terminal (terminal screen.text [m]) l = terminal screen.text (m :: l) := by
        intro l
        cases m <;> rfl
      obtain ⟨⟨k, hk⟩, hall⟩ := @ih ms (screen.frame f) (by rw [hfirst]; exact hscreen) hms
        fun t ht => hvalid t (List.mem_cons_of_mem _ ht)
      rw [hfirst] at hk hall
      rw [List.foldl_cons, hfirst]
      refine ⟨⟨k + 1, ?_⟩, fun hclose => ?_⟩
      · rw [hk, hcons, List.take_succ_cons]
      · rw [hall fun f hf => hclose f (List.mem_cons_of_mem _ hf), hcons]
    | pong =>
      have hhead : texts (f :: fs) = texts fs := by simp [texts, hop]
      have hfirst : screen.frame f = screen := by rw [Screen.frame, hopen, hop]
      rw [hhead] at htexts
      obtain ⟨hk, hall⟩ := ih screen hscreen htexts hvalid
      rw [List.foldl_cons, hfirst]
      exact ⟨hk, fun hclose => hall fun f hf => hclose f (List.mem_cons_of_mem _ hf)⟩
    | close =>
      have hfirst : screen.frame f = { screen with closed := true } := by
        rw [Screen.frame, hopen, hop]
      rw [List.foldl_cons, hfirst, foldl_closed rfl]
      exact ⟨⟨0, rfl⟩, fun hclose => (hclose f List.mem_cons_self hop).elim⟩

end

/-! ## The messages of the pumps -/

section

variable {stream : List UInt8} {s s' : State} {a : Act} {C : State → Act → Prop} {ms : List Message}

/-- A pump's write. -/
theorem received_send (s : State) (p : Name) (m : Message) (pc : Pc) :
    (s.send p m pc).received = s.received ∨ (s.send p m pc).received = s.received ++ [m] := by
  unfold State.send
  split
  · exact .inl rfl
  · exact .inr rfl

/-- **What a step sends**: nothing, a wipe, or the text that a pump has in hand. -/
theorem step_received (hs : step s a = some s') : s'.received = s.received ∨
    ∃ m, s'.received = s.received ++ [m] ∧
      (m = .wipe ∨ ∃ p text, m = .stdout text ∧ (s.pump p).inHand = some text) := by
  cases a with
  | wipe p =>
    obtain ⟨-, hs⟩ := Option.ite_none_right_eq_some.1 hs
    cases hs
    exact (received_send s p .wipe .scan).imp id fun h => ⟨.wipe, h, .inl rfl⟩
  | write p =>
    simp only [step] at hs
    split at hs
    · next text hpc =>
      cases hs
      exact (received_send s p (.stdout text) .scan).imp id fun h =>
        ⟨_, h, .inr ⟨p, text, rfl, by simp [Pump.inHand, hpc]⟩⟩
    · next text hpc =>
      cases hs
      exact (received_send s p (.stdout text) .returned).imp id fun h =>
        ⟨_, h, .inr ⟨p, text, rfl, by simp [Pump.inHand, hpc]⟩⟩
    · cases hs
  | _ =>
    obtain ⟨-, hs⟩ := Option.ite_none_right_eq_some.1 hs
    cases hs
    exact .inl rfl

/-- What a pump has in hand is valid text. -/
def State.HoldsText (s : State) : Prop :=
  ∀ p text, (s.pump p).inHand = some text → Valid text

/-- A pump with a new text in hand, or with none. -/
theorem State.HoldsText.setPump {p : Name} {x : Pump} (h : s.HoldsText)
    (hx : ∀ text, x.inHand = some text → Valid text) : (s.setPump p x).HoldsText :=
  State.forall_setPump (P := fun _ y => ∀ text, y.inHand = some text → Valid text) hx (h _)

/-- A pump behind a read. -/
theorem State.HoldsText.fed {p : Name} {bs : List UInt8} (h : s.HoldsText) :
    (s.fed p bs).HoldsText := by
  refine h.setPump fun text htext => ?_
  cases hfeed : (feed (s.pump p).pending bs).1 with
  | none => simp [Pump.inHand, hfeed] at htext
  | some t =>
    simp only [Pump.inHand, hfeed, Option.some.injEq] at htext
    exact htext ▸ feed_valid hfeed

/-- A pump behind its write. -/
theorem State.HoldsText.send {p : Name} {m : Message} {pc : Pc} (h : s.HoldsText)
    (hpc : pc = .scan ∨ pc = .returned) : (s.send p m pc).HoldsText := by
  unfold State.send
  split
  · exact h.setPump (by intro text htext; cases htext)
  · refine State.HoldsText.setPump (s := s) h fun text htext => ?_
    rcases hpc with rfl | rfl <;> cases htext

/-- **Whatever the schedule is**, the pumps have valid text in hand, -/
theorem State.HoldsText.step (h : s.HoldsText) (hs : Proxy.step s a = some s') :
    s'.HoldsText := by
  cases a with
  | wipe p =>
    obtain ⟨-, hs⟩ := Option.ite_none_right_eq_some.1 hs
    cases hs
    exact h.send (.inl rfl)
  | read n =>
    obtain ⟨-, hs⟩ := Option.ite_none_right_eq_some.1 hs
    cases hs
    exact State.HoldsText.fed h
  | take n =>
    obtain ⟨-, hs⟩ := Option.ite_none_right_eq_some.1 hs
    cases hs
    exact State.HoldsText.fed h
  | eof p =>
    obtain ⟨-, hs⟩ := Option.ite_none_right_eq_some.1 hs
    cases hs
    refine h.setPump fun text htext => ?_
    rw [flush_eq] at htext
    by_cases hnil : sanitize (s.pump p).pending = []
    · simp [Pump.inHand, bytes, hnil] at htext
    · simp only [Pump.inHand, bytes, if_neg hnil, Option.some.injEq] at htext
      exact htext ▸ sanitize_isValid _
  | readClosed p =>
    obtain ⟨-, hs⟩ := Option.ite_none_right_eq_some.1 hs
    cases hs
    exact h.setPump (by intro text htext; cases htext)
  | write p =>
    simp only [Proxy.step] at hs
    split at hs
    · cases hs
      exact h.send (.inl rfl)
    · cases hs
      exact h.send (.inr rfl)
    · cases hs
  | _ =>
    obtain ⟨-, hs⟩ := Option.ite_none_right_eq_some.1 hs
    cases hs
    exact h

/-- and send valid text. -/
theorem validTexts_of_reaches (h : (pumps stream).Reaches C s) : ValidTexts s.received := by
  refine (h.invariant (I := fun t => ValidTexts t.received ∧ t.HoldsText) ?_ ?_).1
  · rintro _ ⟨buffered, conn, -, rfl⟩
    exact ⟨nofun, nofun⟩
  · rintro t a t' ⟨hvalid, hholds⟩ - hs
    refine ⟨?_, hholds.step hs⟩
    rcases step_received hs with heq | ⟨m, heq, hm⟩
    · rwa [heq]
    · intro text htext
      rw [heq] at htext
      rcases List.mem_append.1 htext with htext | htext
      · exact hvalid text htext
      obtain rfl := List.mem_singleton.1 htext
      rcases hm with hm | ⟨p, text', hm, hp⟩
      · cases hm
      · cases hm
        exact hholds p text hp

/-- **The first messages have been all messages**, at an earlier moment. -/
theorem reaches_prefix (h : (pumps stream).Reaches C s) (hms : ms <+: s.received) :
    ∃ t, (pumps stream).Reaches C t ∧ t.received = ms := by
  have hpast : (pumps stream).Reaches C s ∧
      ∀ ms, ms <+: s.received → ∃ t, (pumps stream).Reaches C t ∧ t.received = ms := by
    obtain ⟨s₀, as, hinit, hrun⟩ := h
    refine hrun.invariant (I := fun t => (pumps stream).Reaches C t ∧
      ∀ ms, ms <+: t.received → ∃ t', (pumps stream).Reaches C t' ∧ t'.received = ms) ?_ ?_
    · refine ⟨⟨s₀, [], hinit, .nil⟩, fun ms hms => ⟨s₀, ⟨s₀, [], hinit, .nil⟩, ?_⟩⟩
      obtain ⟨buffered, conn, -, rfl⟩ := hinit
      exact (List.prefix_nil.1 hms).symm
    · rintro t a t' ⟨⟨s₁, bs, hinit, hrun⟩, hpast⟩ hC hs
      have ht' : (pumps stream).Reaches C t' := ⟨s₁, _, hinit, hrun.snoc hC hs⟩
      refine ⟨ht', fun ms hms => ?_⟩
      rcases step_received hs with heq | ⟨m, heq, -⟩
      · exact hpast ms (heq ▸ hms)
      · rw [heq] at hms
        rcases List.prefix_concat_iff.1 hms with rfl | hms
        · exact ⟨t', ht', heq⟩
        · exact hpast ms hms
  exact hpast.2 ms hms

/-- The first message is a wipe, if the pumps keep out of each other's way: none has sent anything
before its own. -/
theorem wipe_mem_of_reaches (h : (pumps stream).Reaches Exclusive s) (hne : s.received ≠ []) :
    .wipe ∈ s.received := by
  refine (h.invariant (I := fun t => Inv stream t ∧ (t.received ≠ [] → .wipe ∈ t.received))
    ?_ ?_).2 hne
  · rintro _ ⟨buffered, conn, hstream, rfl⟩
    exact ⟨started_inv hstream, fun hne => (hne rfl).elim⟩
  · rintro t a t' ⟨hinv, hwiped⟩ hC hs
    refine ⟨hinv.step hC hs, fun hne => ?_⟩
    rcases step_received hs with heq | ⟨m, heq, hm⟩
    · rw [heq] at hne ⊢
      exact hwiped hne
    · rw [heq]
      rcases hm with rfl | ⟨p, text, -, hp⟩
      · exact List.mem_append_right _ List.mem_cons_self
      · refine List.mem_append_left _ (hinv.wiped p fun hstart => ?_)
        rw [(hinv.fresh p hstart).2] at hp
        cases hp

/-- What the first messages show in front of a text, if the pumps keep out of each other's way. -/
theorem terminal_of_reaches (h : (pumps stream).Reaches Exclusive s) (hms : ms <+: s.received)
    (before : List UInt8) : ms = [] ∨ terminal before ms <+: sanitize stream := by
  obtain ⟨t, ht, rfl⟩ := reaches_prefix h hms
  by_cases hne : t.received = []
  · exact .inl hne
  · exact .inr ((exclusive_text ht).2.1 (wipe_mem_of_reaches ht hne) before)

end

/-- A check that the pumps keep out of each other's way. -/
def exclusive (s : State) : Act → Bool
  | .wipe _ => s.connClosed || s.received.all fun m => m = .wipe
  | .read _ => (s.pump .stderr).pending.isEmpty && (s.pump .stderr).inHand.isNone &&
    s.buffered.isEmpty
  | .fill _ => (s.pump .stdout).pending.isEmpty && (s.pump .stdout).inHand.isNone
  | .eof p => (s.pump p.other).pending.isEmpty && (s.pump p.other).inHand.isNone &&
    s.buffered.isEmpty
  | _ => true

/-- It is enough. -/
theorem exclusive_of {s : State} {a : Act} (h : exclusive s a = true) : Exclusive s a := by
  cases a with
  | wipe p => simpa [exclusive, Exclusive] using h
  | read n => simpa [exclusive, Exclusive, Pump.Idle] using h
  | fill n => simpa [exclusive, Exclusive, Pump.Idle] using h
  | eof p => simpa [exclusive, Exclusive, Pump.Idle] using h
  | _ => trivial

/-! ## The way as a whole -/

/-- The frames of a connection whose writers keep apart. -/
theorem Connection.whole_of_reaches {s : State}
    (h : wsConn.Reaches (fun s a => apart s a = true) s) :
    s.bytes ++ s.rest = Frame.encodeAll s.frames :=
  (h.invariant (fun _ h₀ => h₀ ▸ inv_newWSConn) fun _ _ _ hi hapart hs => hi.step hapart hs).whole

/-- `instanceWS` greets before the pumps start. -/
def pleaseWait : Message := .stdout (ascii "Please wait...")

/-- All messages have been written, and all that has been written has come to the page. -/
structure Arrived (ms : List Message) (s : Connection.State) (segments : List (List UInt8)) :
    Prop where
  resting : Connection.Resting s
  texts : texts s.frames = ms.map Message.marshal
  notClosed : ∀ f ∈ s.frames, f.opCode ≠ .close
  segments : segments.flatten = s.bytes

/-- **The connection is transparent**: the page shows the first of the messages, and all of them
when they have arrived. -/
theorem wire_messages {ms : List Message} (hvalid : ValidTexts ms) {s : Connection.State}
    (hs : Connection.wsConn.Reaches (fun s a => Connection.apart s a = true) s)
    (hsent : texts s.frames <+: ms.map Message.marshal)
    {segments : List (List UInt8)} (hsegments : segments.flatten <+: s.bytes) :
    (∃ shown, shown <+: ms ∧
      (Page.opened.receiveAll segments).screen.text = terminal [] shown) ∧
      (Arrived ms s segments →
        (Page.opened.receiveAll segments).screen.text = terminal [] ms) := by
  have hwhole := Connection.whole_of_reaches hs
  obtain ⟨more, hmore⟩ := hsegments
  have hbytes : Page.opened.pending ++ segments.flatten ++ (more ++ s.rest) =
      Frame.encodeAll s.frames := by
    rw [← hwhole, ← hmore, ← List.append_assoc]
    rfl
  obtain ⟨done, rest, hframes, hscreen, hpending, hnone⟩ :=
    receiveAll_frames Page.opened segments rfl hbytes
  rw [hscreen]
  have hdone : texts done <+: texts s.frames := by
    rw [hframes, texts, texts, List.filter_append, List.map_append]
    exact List.prefix_append _ _
  obtain ⟨k, hk⟩ : ∃ k, texts done = (ms.take k).map Message.marshal := by
    refine ⟨(texts done).length, ?_⟩
    rw [List.map_take]
    exact List.prefix_iff_eq_take.1 (hdone.trans hsent)
  have hfirst : ValidTexts (ms.take k) := fun t ht => hvalid t (List.mem_of_mem_take ht)
  obtain ⟨⟨j, hj⟩, -⟩ := frames_show Page.opened.screen rfl hk hfirst
  refine ⟨⟨_, (List.take_prefix j _).trans (List.take_prefix k _), hj⟩, fun harrived => ?_⟩
  rw [harrived.segments] at hmore
  obtain rfl : more = [] := by simpa using hmore
  rw [Connection.rest_of_resting harrived.resting, List.append_nil, List.append_nil] at hpending
  obtain rfl := eq_nil_of_parse hpending hnone
  rw [List.append_nil] at hframes
  have htexts := harrived.texts
  have hclose := harrived.notClosed
  rw [hframes] at htexts hclose
  exact (frames_show Page.opened.screen rfl htexts hvalid).2 hclose

/-- **From the exec to the page.** Two pumps share a stream on any schedule; their messages are
written behind the greeting to a connection that also answers pings, on any schedule that keeps the
frames apart; what has been written comes to the page in any segments. At every moment the page
shows the first of the messages, and in the end all of them. On the exclusive schedules of the pumps
it shows the greeting or a beginning of the text of the stream, and the text in the end. -/
theorem wire_text {stream : List UInt8} {t : State} {s : Connection.State}
    {segments : List (List UInt8)} (ht : (pumps stream).Reaches System.Any t)
    (hs : Connection.wsConn.Reaches (fun s a => Connection.apart s a = true) s)
    (hsent : texts s.frames <+: (pleaseWait :: t.received).map Message.marshal)
    (hsegments : segments.flatten <+: s.bytes) :
    (∃ shown, shown <+: pleaseWait :: t.received ∧
      (Page.opened.receiveAll segments).screen.text = terminal [] shown) ∧
    (Arrived (pleaseWait :: t.received) s segments →
      (Page.opened.receiveAll segments).screen.text = terminal [] (pleaseWait :: t.received)) ∧
    ((pumps stream).Reaches Exclusive t →
      ((Page.opened.receiveAll segments).screen.text = ascii "Please wait..." ∨
        (Page.opened.receiveAll segments).screen.text <+: sanitize stream) ∧
      (t.finished → Arrived (pleaseWait :: t.received) s segments →
        (Page.opened.receiveAll segments).screen.text = sanitize stream)) := by
  have hgreeting : Valid (ascii "Please wait...") := by
    have hascii : sanitize (ascii "Please wait...") = ascii "Please wait..." :=
      sanitize_ascii (by decide)
    exact hascii ▸ sanitize_isValid _
  have hvalid : ValidTexts (pleaseWait :: t.received) := by
    intro text htext
    rcases List.mem_cons.1 htext with htext | htext
    · cases htext
      exact hgreeting
    · exact validTexts_of_reaches ht text htext
  obtain ⟨⟨shown, hshown, htext⟩, hall⟩ := wire_messages hvalid hs hsent hsegments
  refine ⟨⟨shown, hshown, htext⟩, hall, fun hexclusive => ⟨?_, fun hfinished harrived => ?_⟩⟩
  · rw [htext]
    rcases shown with _ | ⟨m, ms⟩
    · exact .inr List.nil_prefix
    · obtain ⟨rfl, hms⟩ := List.cons_prefix_cons.1 hshown
      rcases terminal_of_reaches hexclusive hms (ascii "Please wait...") with rfl | hprefix
      · exact .inl rfl
      · exact .inr hprefix
  · rw [hall harrived]
    exact (exclusive_text hexclusive).2.2 hfinished _

/-- A text is printed on an empty terminal, and both pumps return. -/
def printText : List Act :=
  [.wipe .stdout, .wipe .stderr, .read 1, .write .stdout, .eof .stdout, .closeHijacked,
    .readClosed .stderr]

/-- An `h` is printed. -/
theorem pumps_printText : ∃ t, (pumps [0x68]).Reaches Exclusive t ∧
    t.received = [.wipe, .wipe, .stdout [0x68]] ∧ t.finished := by
  have hfeed : feed [] [0x68] = (some [0x68], []) := by decide +kernel
  have hflush : flush [] = none := by rw [flush_eq, sanitize_nil]; rfl
  have hinit : (pumps [0x68]).init (started [] [0x68]) := ⟨[], [0x68], rfl, rfl⟩
  obtain ⟨t, hexec, hreceived, hfinished⟩ : ∃ t, (pumps [0x68]).execWhere
      exclusive (started [] [0x68]) printText = some t ∧
      t.received = [.wipe, .wipe, .stdout [0x68]] ∧ t.finished := by
    refine ⟨_, by simp [printText, System.execWhere, pumps, step, started, State.send,
      State.setPump, State.fed, exclusive, Pump.inHand, Name.other, hfeed, State.ended,
      hflush, State.drained]; rfl, ?_, fun p => ?_⟩
    · simp
    · cases p <;> simp
  have hrun := System.run_of_execWhere hexec
  exact ⟨t, ⟨_, _, hinit, hrun.mono fun _ _ => exclusive_of⟩, hreceived, hfinished⟩

/-- The frame of the greeting. -/
def greeting : Frame := ⟨.text, ascii "[\"stdout\",\"Please wait...\"]", by decide⟩

/-- The frame of the message that prints an `h`. -/
def printH : Frame := ⟨.text, ascii "[\"stdout\",\"h\"]", by decide⟩

/-- The greeting and the messages of the pumps, with a ping answered in between. -/
def printing : List Connection.Act :=
  [.call 0 greeting, .lock 0, .header 0, .payload 0, .unlock 0,
    .call 1 Connection.wipe, .lock 1, .header 1, .payload 1, .unlock 1, .control Connection.pong,
    .reply 2, .call 2 Connection.wipe, .lock 2, .header 2, .payload 2, .unlock 2,
    .call 3 printH, .lock 3, .header 3, .payload 3, .unlock 3]

/-- The page prints an `h` that has come in segments of three bytes and the rest. -/
theorem wire_text_printing : ∃ s : Connection.State,
    Connection.wsConn.execWhere Connection.apart Connection.newWSConn printing = some s ∧
      (Page.opened.receiveAll [s.bytes.take 3, s.bytes.drop 3]).screen.text = [0x68] := by
  obtain ⟨t, ht, hreceived, hfinished⟩ := pumps_printText
  have hsafe : ∀ t : String, ((ascii t).all fun c => c < 0x80 && htmlSafe c) = true →
      escapeString (ascii t) = ascii t := fun _ => escapeString_safe
  have hmarshal : (pleaseWait :: t.received).map Message.marshal =
      texts [greeting, Connection.wipe, Connection.pong, Connection.wipe, printH] := by
    have hh : [0x68] = ascii "h" := rfl
    rw [hreceived, hh]
    simp only [pleaseWait, List.map_cons, List.map_nil, Message.marshal, marshalStrings,
      hsafe "wipe" (by decide), hsafe "stdout" (by decide), hsafe "h" (by decide),
      hsafe "Please wait..." (by decide)]
    rfl
  obtain ⟨s, hexec, hframes, hrest⟩ : ∃ s : Connection.State,
      Connection.wsConn.execWhere Connection.apart Connection.newWSConn printing = some s ∧
        s.frames = [greeting, Connection.wipe, Connection.pong, Connection.wipe, printH] ∧
        Connection.Resting s :=
    ⟨_, rfl, rfl, rfl, rfl⟩
  have hall : [s.bytes.take 3, s.bytes.drop 3].flatten = s.bytes := by simp
  have htexts : texts s.frames = (pleaseWait :: t.received).map Message.marshal := by
    rw [hmarshal, hframes]
  have hclose : ∀ f ∈ s.frames, f.opCode ≠ .close := by
    rw [hframes]
    decide
  have hany : (pumps [0x68]).Reaches System.Any t := by
    obtain ⟨t₀, as, hinit, hrun⟩ := ht
    exact ⟨t₀, as, hinit, hrun.mono fun _ _ _ => trivial⟩
  have hsegments : [s.bytes.take 3, s.bytes.drop 3].flatten <+: s.bytes := by rw [hall]
  have hshown := wire_text hany ⟨_, _, rfl, System.run_of_execWhere hexec⟩
    (htexts ▸ List.prefix_rfl) hsegments
  refine ⟨s, hexec, ?_⟩
  rw [(hshown.2.2 ht).2 hfinished ⟨hrest, htexts, hclose, hall⟩]
  exact sanitize_ascii rfl

end UAssign.Proxy

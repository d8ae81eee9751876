import UAssign.Proxy.Session

/-!
# Who closes the websocket

`handleInstance` of `app/instance.go` hands its connection to `proxy.Proxy`, which closes it, but
only if the exec has been created and attached. Otherwise nobody does, unless the manager's
`onExpire` closure or the client happens to (`websocket_closed_iff`). The handler holds its token
from `Acquire` to `Release`; as long, the manager may start the closure, any number of times.
-/

namespace UAssign.App.Websocket

open Proxy

/-! ## The system -/

/-- Where `handleInstance` is, by the call to come; `blocked` is inside `Acquire`, and `creating` to
`proxying` are inside `Proxy`. -/
inductive Pc where
  | acquiring
  | blocked
  | clearing
  | starting
  | creating
  | attaching
  | proxying
  | renewing
  | stopping
  | releasing
  | returned
  deriving DecidableEq

/-- The handler, the session (which says whether the connection has been closed, also before the
exec is attached), whether the client has closed it, and the closures that the manager has started
and that have not closed it yet. -/
structure State (E : Type) where
  pc : Pc
  session : Session.State E
  clientClosed : Bool
  closures : Nat

/-- The steps of the handler, with the errors of its calls; those of the session; the manager's
start of the closure, for a displacement or an idle expiry; the closure's `Close`; and the client's
end of the connection. -/
inductive Act (E : Type) where
  | acquire (blocked : Bool)
  | unblocked
  | clearExpiry (err : Option E)
  | containerStart (err : Option E)
  | execCreate (err : Option E)
  | execAttach (err : Option E)
  | session (a : Session.Act E)
  | proxied
  | renewExpiry (err : Option E)
  | containerStop (err : Option E)
  | release
  | startClosure
  | closure
  | clientCloses
  deriving DecidableEq

section

variable {E : Type} [DecidableEq E] (eof : E) (isClose : E → Bool)

/-- The handler moves on, if it is where it has to be. -/
def State.goto (s : State E) (pc pc' : Pc) : Option (State E) :=
  if s.pc = pc then some { s with pc := pc' } else none

/-- One step. The errors of the updates and of the container's start and stop are only logged. -/
def step (s : State E) : Act E → Option (State E)
  | .acquire blocked => s.goto .acquiring (if blocked then .blocked else .clearing)
  | .unblocked => s.goto .blocked .clearing
  | .clearExpiry _ => s.goto .clearing .starting
  | .containerStart _ => s.goto .starting .creating
  | .execCreate err => s.goto .creating (if err.isSome then .renewing else .attaching)
  | .execAttach err => s.goto .attaching (if err.isSome then .renewing else .proxying)
  | .session a =>
    if s.pc = .proxying ∧ a ≠ .expire then
      (Session.step eof isClose s.session a).map fun session => { s with session := session }
    else none
  | .proxied =>
    match s.session.main with
    | .returned _ => s.goto .proxying .renewing
    | .waiting => none
  | .renewExpiry _ => s.goto .renewing .stopping
  | .containerStop _ => s.goto .stopping .releasing
  | .release => s.goto .releasing .returned
  | .startClosure =>
    if s.pc ≠ .acquiring ∧ s.pc ≠ .returned then some { s with closures := s.closures + 1 }
    else none
  | .closure =>
    if 0 < s.closures then
      some { s with closures := s.closures - 1, session := { s.session with connClosed := true } }
    else none
  | .clientCloses => some { s with clientClosed := true }

/-- `handleInstance` has been called, with an open connection. -/
def State.initial : State E :=
  { pc := .acquiring, session := .initial false false, clientClosed := false, closures := 0 }

/-- `handleInstance`. -/
def handleInstance : System (State E) (Act E) :=
  { init := (· = State.initial), step := step eof isClose }

/-- The connection has been closed, by the server or by the client. -/
def State.Closed (s : State E) : Prop := s.session.connClosed = true ∨ s.clientClosed = true

/-- In this run the exec has been attached, or a closure or the client has closed the connection. -/
def Closes (as : List (Act E)) : Prop :=
  .execAttach none ∈ as ∨ .closure ∈ as ∨ .clientCloses ∈ as

/-! ## What a run keeps -/

/-- How far the handler is: in front of `Proxy`'s pumps, at them, or behind. -/
def Pc.stage : Pc → Nat
  | .acquiring | .blocked | .clearing | .starting | .creating | .attaching => 0
  | .proxying => 1
  | .renewing | .stopping | .releasing | .returned => 2

variable {eof isClose}

/-- What holds of a run and the state it leads to: who closes the connection is known from the run,
and an exec that has been attached is at the pumps, or they have closed the connection. -/
structure Inv (isClose : E → Bool) (as : List (Act E)) (s : State E) : Prop where
  session : Session.Inv isClose s.session
  closure : .closure ∈ as → s.session.connClosed = true
  client : s.clientClosed = true ↔ .clientCloses ∈ as
  conn : s.session.connClosed = true → .closure ∈ as ∨ .execAttach none ∈ as
  attached : .execAttach none ∈ as → s.pc.stage = 1 ∨ s.pc.stage = 2 ∧ s.session.connClosed = true
  proxying : s.pc.stage = 1 → .execAttach none ∈ as

variable {s s' : State E} {a : Act E} {as : List (Act E)}

omit [DecidableEq E] in
theorem goto_spec {pc pc' : Pc} (h : s.goto pc pc' = some s') :
    s.pc = pc ∧ s' = { s with pc := pc' } := by
  obtain ⟨hpc, h⟩ := Option.ite_none_right_eq_some.1 h
  exact ⟨hpc, (Option.some.inj h).symm⟩

omit [DecidableEq E] in
/-- A step of the handler, which neither comes to the pumps nor leaves them open behind. -/
theorem Inv.goto (h : Inv isClose as s) {pc pc' : Pc} (hs : s.goto pc pc' = some s')
    (hstage : pc'.stage = pc.stage ∨ pc'.stage = 2 ∧ (pc.stage = 0 ∨ s.session.connClosed = true))
    (hclosure : a ≠ .closure) (hclient : a ≠ .clientCloses) (hattach : a ≠ .execAttach none) :
    Inv isClose (as ++ [a]) s' := by
  obtain ⟨rfl, rfl⟩ := goto_spec hs
  have hmem : ∀ b, b ≠ a → (b ∈ as ++ [a] ↔ b ∈ as) := fun b hb => by simp [hb]
  refine ⟨h.session, ?_, ?_, ?_, ?_, ?_⟩
  · rw [hmem _ hclosure.symm]
    exact h.closure
  · rw [hmem _ hclient.symm]
    exact h.client
  · rw [hmem _ hclosure.symm, hmem _ hattach.symm]
    exact h.conn
  · rw [hmem _ hattach.symm]
    intro hmem
    show pc'.stage = 1 ∨ pc'.stage = 2 ∧ s.session.connClosed = true
    rcases hstage with hsame | ⟨hbehind, hfront | hclosed⟩
    · rw [hsame]
      exact h.attached hmem
    · have hpast := h.attached hmem
      omega
    · exact .inr ⟨hbehind, hclosed⟩
  · rw [hmem _ hattach.symm]
    intro hat
    have hat : pc'.stage = 1 := hat
    exact h.proxying (by omega)

omit [DecidableEq E] in
/-- When `Proxy`'s pumps have returned, they have closed the connection. -/
theorem connClosed_of_returned {s : Session.State E} (h : Session.Inv isClose s) {r : Option E}
    (hr : s.main = .returned r) : s.connClosed = true := by
  refine h.conn ?_
  rw [(h.main r hr).1.2.2]
  exact Nat.zero_le 1

/-- **Every step keeps it.** -/
theorem Inv.step (h : Inv isClose as s) (hs : step eof isClose s a = some s') :
    Inv isClose (as ++ [a]) s' := by
  cases a with
  | acquire blocked =>
    refine h.goto hs (.inl ?_) (by simp) (by simp) (by simp)
    cases blocked <;> rfl
  | unblocked | clearExpiry _ | containerStart _ | renewExpiry _ | containerStop _ | release =>
    exact h.goto hs (.inl rfl) (by simp) (by simp) (by simp)
  | execCreate err =>
    cases err with
    | none => exact h.goto hs (.inl rfl) (by simp) (by simp) (by simp)
    | some e => exact h.goto hs (.inr ⟨rfl, .inl rfl⟩) (by simp) (by simp) (by simp)
  | execAttach err =>
    cases err with
    | none =>
      obtain ⟨-, rfl⟩ := goto_spec hs
      refine ⟨h.session, fun hc => h.closure ?_, ?_, fun _ => .inr (by simp), fun _ => .inl rfl,
        fun _ => by simp⟩
      · simpa using hc
      · simpa using h.client
    | some e => exact h.goto hs (.inr ⟨rfl, .inl rfl⟩) (by simp) (by simp) (by simp)
  | session a =>
    obtain ⟨⟨hpc, -⟩, hs⟩ := Option.ite_none_right_eq_some.1 hs
    obtain ⟨session, hsession, rfl⟩ := Option.map_eq_some_iff.1 hs
    have hnext := Session.step_next hsession
    have hstage : s.pc.stage = 1 := by rw [hpc]; rfl
    have hattach : .execAttach none ∈ as ++ [.session a] := by simp [h.proxying hstage]
    refine ⟨h.session.next hnext, fun hc => hnext.mono.2.2 (h.closure ?_), ?_,
      fun _ => .inr hattach, fun _ => .inl hstage, fun _ => hattach⟩
    · simpa using hc
    · simpa using h.client
  | proxied =>
    simp only [Websocket.step] at hs
    split at hs
    · next r hr =>
      exact h.goto hs (.inr ⟨rfl, .inr (connClosed_of_returned h.session hr)⟩) (by simp) (by simp)
        (by simp)
    · cases hs
  | startClosure =>
    obtain ⟨-, hs⟩ := Option.ite_none_right_eq_some.1 hs
    cases hs
    exact ⟨h.session, by simpa using h.closure, by simpa using h.client, by simpa using h.conn,
      by simpa using h.attached, by simpa using h.proxying⟩
  | closure =>
    obtain ⟨-, hs⟩ := Option.ite_none_right_eq_some.1 hs
    cases hs
    refine ⟨h.session.next .expire, fun _ => rfl, by simpa using h.client, fun _ => .inl (by simp),
      fun hattach => ?_, by simpa using h.proxying⟩
    exact (h.attached (by simpa using hattach)).imp_right fun hpast => ⟨hpast.1, rfl⟩
  | clientCloses =>
    cases hs
    exact ⟨h.session, by simpa using h.closure, by simp, by simpa using h.conn,
      by simpa using h.attached, by simpa using h.proxying⟩

/-- **It holds in every run.** -/
theorem run_inv (h : (handleInstance eof isClose).Run System.Any .initial as s) :
    Inv isClose as s := by
  induction h with
  | nil =>
    refine ⟨Session.State.initial_inv false false, ?_, ?_, ?_, ?_, ?_⟩
    · simp
    · simp [State.initial]
    · simp [State.initial, Session.State.initial]
    · simp
    · intro hstage
      cases hstage
  | snoc _ _ hs ih => exact ih.step hs

/-- **The connection is closed exactly if the exec has been attached, or a closure or the client
closes it.** -/
theorem websocket_closed_iff {E : Type} [DecidableEq E] (eof : E) (isClose : E → Bool)
    (as : List (Act E)) (s : State E)
    (h : (handleInstance eof isClose).Run System.Any .initial as s) (hs : s.pc = .returned) :
    s.Closed ↔ Closes as := by
  have hinv := run_inv h
  constructor
  · rintro (hconn | hclient)
    · rcases hinv.conn hconn with hclosure | hattach
      · exact .inr (.inl hclosure)
      · exact .inl hattach
    · exact .inr (.inr (hinv.client.1 hclient))
  · rintro (hattach | hclosure | hclient)
    · rcases hinv.attached hattach with hat | ⟨-, hclosed⟩
      · rw [hs] at hat
        cases hat
      · exact .inl hclosed
    · exact .inl (hinv.closure hclosure)
    · exact .inr (hinv.client.2 hclient)

end

/-- It holds of a session whose client goes away. -/
theorem websocket_closed_session : ∃ as s,
    (handleInstance true id).Run System.Any .initial as s ∧ s.pc = .returned ∧
      (s.Closed ↔ Closes as) := by
  let as : List (Act Bool) :=
    [.acquire false, .clearExpiry none, .containerStart none, .execCreate none, .execAttach none,
      .session (.inputFails true), .session (.report .input), .session .wake, .session .closeHj,
      .session (.closeConn none), .session (.report .closer), .session (.outputFails .stdout true),
      .session (.report (.output .stdout)), .session (.outputFails .stderr true),
      .session (.report (.output .stderr)), .session .wait, .proxied, .renewExpiry none,
      .containerStop none, .release]
  have h : (handleInstance true id).Run System.Any .initial as _ := System.run_of_exec rfl
  exact ⟨as, _, h, rfl, websocket_closed_iff true id as _ h rfl⟩

/-- **An exec that cannot be created leaves the connection open.** -/
theorem websocket_left_open : ∃ as s,
    (handleInstance true id).Run System.Any .initial as s ∧ s.pc = .returned ∧ ¬s.Closed :=
  ⟨[.acquire false, .clearExpiry none, .containerStart none, .execCreate (some false),
    .renewExpiry none, .containerStop none, .release], { State.initial with pc := .returned },
    System.run_of_exec rfl, rfl, by simp [State.Closed, State.initial, Session.State.initial]⟩

end UAssign.App.Websocket

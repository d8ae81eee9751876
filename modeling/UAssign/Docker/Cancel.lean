import UAssign.Docker.Input
import UAssign.Docker.Output

/-!
# Cancelled executions

`Exec` of `pkg/docker/dexec/dexec.go` under a context. The `select` of `waitForExit` and most calls
to Docker notice that the context is cancelled, but `ContainerExecAttach` does not behind the dial,
and `g.Wait` and the copies never do: they end when the process, the daemon and the reader and the
writers of the config let them. So a cancelled `Exec` returns by itself exactly if it neither is in a
call that does not watch the context nor waits for a copy that cannot end (`exec_released_iff`).
-/

namespace UAssign.Docker

namespace Cancel

/-! ## Calls to Docker -/

/-- The calls to Docker, that of `ContainerExecAttach` up to the dial and behind it. -/
inductive Call where
  | create
  | dial
  | attach
  | inspect
  deriving DecidableEq

/-- What is known of the client's calls: requests and the dial watch their context, but behind the
dial, the client waits for the daemon's answer without it. -/
structure Documented (watches : Call → Bool) : Prop where
  create : watches .create = true
  dial : watches .dial = true
  attach : watches .attach = false
  inspect : watches .inspect = true

/-! ## The system -/

/-- An execution under a context: the context's error once it is cancelled, whether the client has
dialled, the copies of the outputs, the bytes that there are to be read from the connection, how
many bytes it takes while the process reads none, and whether the daemon has closed it. -/
structure State (E : Type) where
  exec : Exec.State E
  ctx : Option E
  dialled : Bool
  output : Stream → Output E
  inbox : List UInt8
  room : Nat
  closed : Bool

/-- The steps: those of `Exec`; the dial; a read of an output's copy that brings some bytes or an
error, and a write; the end of the context; and what the process and the daemon do: read some of the
input, put out some bytes, answer the attach with some of them, and close the connection, of which a
reset loses what has not been read. -/
inductive Act (E : Type) where
  | exec (a : Exec.Act E)
  | dial
  | outputRead (p : Stream) (n : Nat)
  | outputStop (p : Stream) (err : Option E)
  | outputWrite (p : Stream)
  | cancel (err : E)
  | drain (n : Nat)
  | deliver (bs : List UInt8)
  | buffer (n : Nat)
  | close (reset : Bool)
  deriving DecidableEq

section

variable {E : Type} [DecidableEq E] (eof shortWrite : E) (config : Config E)
  (returns : Nat → Bool) (watches : Call → Bool)

/-- The call to Docker that `Exec` is in. -/
def State.call (s : State E) : Option Call :=
  match s.exec.main with
  | .creating => some .create
  | .attaching => some (if s.dialled then .attach else .dial)
  | .inspecting => some .inspect
  | .waiting | .checking | .returned _ => none

/-- How many reads from the input there have been. -/
def State.reads (s : State E) : Nat :=
  match s.exec.stdin with
  | .copying c => c.reads
  | _ => 0

/-- The bytes at hand in the copy of the input. -/
def State.pending (s : State E) : Nat :=
  match s.exec.stdin with
  | .copying c =>
    match c.pc with
    | .writing rd => rd.data.length
    | _ => 0
  | _ => 0

/-- The attach has dialled, a read returns, a write without an error has been taken whole, the copy
of an output has come to its end, and the `select` sees the context's error. -/
def State.Allows (s : State E) : Exec.Act E → Prop
  | .attach none => s.dialled = true
  | .read => returns s.reads = true
  | .write n none => n = s.pending ∧ n ≤ s.room
  | .outputEnds p err => (s.output p).pc = .ended err
  | .ctx err => err = s.ctx
  | _ => True

instance (s : State E) : (a : Exec.Act E) → Decidable (s.Allows returns a)
  | .attach none => inferInstanceAs (Decidable (s.dialled = true))
  | .read => inferInstanceAs (Decidable (returns s.reads = true))
  | .write n none => inferInstanceAs (Decidable (n = s.pending ∧ n ≤ s.room))
  | .outputEnds p err => inferInstanceAs (Decidable ((s.output p).pc = .ended err))
  | .ctx err => inferInstanceAs (Decidable (err = s.ctx))
  | .attach (some _) | .write _ (some _) | .create _ | .closeWrite _ | .wait | .inspect _ _
  | .inspectFails _ => inferInstanceAs (Decidable True)

/-- The copy of an output moves on. -/
def State.copiesOutput (s : State E) (p : Stream) (o : Output E) (inbox : List UInt8) : State E :=
  { s with output := Function.update s.output p o, inbox := inbox }

/-- One step. A context keeps its first error. Bytes that come with the answer to the attach are in
the buffer of `hj.Reader`: they are the first that is written to `Stderr`, and do not get to
`Stdout`. -/
def step (s : State E) : Act E → Option (State E)
  | .exec a =>
    if s.Allows returns a then
      (Exec.step eof shortWrite config s.exec a).map fun exec =>
        { s with exec := exec, room := s.room - a.taken }
    else none
  | .dial => if s.call = some .dial then some { s with dialled := true } else none
  | .outputRead p n =>
    if s.exec.output p = true ∧ n ≤ s.inbox.length then
      ((s.output p).read (s.inbox.take n)).map fun o => s.copiesOutput p o (s.inbox.drop n)
    else none
  | .outputStop p err =>
    if s.exec.output p = true ∧ s.closed = true ∧ s.inbox = [] then
      ((s.output p).stop err).map fun o => s.copiesOutput p o s.inbox
    else none
  | .outputWrite p =>
    match config.writer p with
    | some w =>
      if s.exec.output p = true then
        ((s.output p).write w).map fun o => s.copiesOutput p o s.inbox
      else none
    | none => none
  | .cancel err => some { s with ctx := s.ctx.or (some err) }
  | .drain n => some { s with room := s.room + n }
  | .deliver bs =>
    if s.dialled = true ∧ s.closed = false then some { s with inbox := s.inbox ++ bs } else none
  | .buffer n =>
    if s.call = some .attach ∧ n ≤ s.inbox.length then
      ((s.output .stderr).read (s.inbox.take n)).map fun o =>
        s.copiesOutput .stderr o (s.inbox.drop n)
    else none
  | .close reset =>
    if s.dialled = true then
      some { s with closed := true, inbox := if reset then [] else s.inbox }
    else none

/-- `Exec` has been called, and the connection will take so many bytes. -/
def State.initial (room : Nat) : State E :=
  { exec := Exec.State.initial, ctx := none, dialled := false, output := fun _ => Output.initial
    inbox := [], room := room, closed := false }

/-- `Exec` under a context. -/
def cancel (room : Nat) : System (State E) (Act E) :=
  { init := (· = State.initial room), step := step eof shortWrite config returns }

/-- A call returns with an error by itself: that of the context, if it watches it, or of a connection
that the daemon has closed. -/
def State.Gives (s : State E) (e : E) : Prop :=
  ∃ c, s.call = some c ∧ (watches c = true ∧ s.ctx = some e ∨ c = .attach ∧ s.closed = true)

/-- The steps that neither the process nor the daemon has a part in: a call to Docker returns with an
error by itself, and a write fails because the connection is closed. -/
def Alone (s : State E) : Act E → Prop
  | .exec (.create (some e)) | .exec (.attach (some e)) | .exec (.inspectFails e) =>
    s.Gives watches e
  | .exec (.create none) | .exec (.attach none) | .exec (.inspect _ _) | .dial => False
  | .exec .read | .exec (.closeWrite _) | .exec .wait | .exec (.ctx _) | .exec (.write _ none)
  | .exec (.outputEnds _ _) | .outputRead _ _ | .outputStop _ _ | .outputWrite _ => True
  | .exec (.write _ (some _)) => s.closed = true
  | .cancel _ | .drain _ | .deliver _ | .buffer _ | .close _ => False

/-- `Exec` has returned, or goes on by itself to return an error. -/
def Released (room : Nat) (s : State E) : Prop :=
  (∃ err, s.exec.main = .returned err) ∨
    (cancel eof shortWrite config returns room).Can (Alone watches)
      (fun t => ∃ err, t.exec.main = .returned (some err)) s

/-- The copies of the outputs come to their ends by themselves. -/
def State.OutputsEnd (s : State E) : Prop :=
  ∃ deals, Dealing config.writer s.exec.output s.output s.inbox s.closed deals

/-- `Exec` is in a call that does not watch the context. -/
def State.InCall (s : State E) : Prop :=
  ∃ c, s.call = some c ∧ watches c = false ∧ ¬ (c = .attach ∧ s.closed = true)

/-- `Exec` copies an input that does not end by itself. -/
def State.InputHeld (s : State E) : Prop :=
  ∃ c r, s.exec.stdin = .copying c ∧ config.stdin = some r ∧
    ¬ EndsAlone r returns s.closed s.room c

/-- `Exec` is in such a call, or in `g.Wait` for a copy that does not end by itself. -/
def Held (s : State E) : Prop :=
  s.InCall watches ∨
    s.exec.main = .waiting ∧ (¬ s.OutputsEnd config ∨ s.InputHeld config returns)

/-- Streams are copied only if the config has them. -/
structure State.Attached (s : State E) : Prop where
  input : ∀ c, s.exec.stdin = .copying c → config.stdin.isSome = true
  output : ∀ p, s.exec.output p = true → (config.writer p).isSome = true

variable {eof shortWrite config returns watches} {room : Nat} {s s' : State E} {a : Act E}

/-! ## What a step does -/

theorem exec_spec {a : Exec.Act E}
    (h : step eof shortWrite config returns s (.exec a) = some s') :
    s.Allows returns a ∧ ∃ exec, Exec.step eof shortWrite config s.exec a = some exec ∧
      s' = { s with exec := exec, room := s.room - a.taken } := by
  obtain ⟨hallows, h⟩ := Option.ite_none_right_eq_some.1 h
  obtain ⟨exec, hexec, rfl⟩ := Option.map_eq_some_iff.1 h
  exact ⟨hallows, exec, hexec, rfl⟩

theorem outputRead_spec {p : Stream} {n : Nat}
    (h : step eof shortWrite config returns s (.outputRead p n) = some s') :
    s.exec.output p = true ∧ ∃ o, (s.output p).read (s.inbox.take n) = some o ∧
      s' = s.copiesOutput p o (s.inbox.drop n) := by
  obtain ⟨⟨hp, -⟩, h⟩ := Option.ite_none_right_eq_some.1 h
  obtain ⟨o, ho, rfl⟩ := Option.map_eq_some_iff.1 h
  exact ⟨hp, o, ho, rfl⟩

theorem outputStop_spec {p : Stream} {err : Option E}
    (h : step eof shortWrite config returns s (.outputStop p err) = some s') :
    s.exec.output p = true ∧ s.closed = true ∧ s.inbox = [] ∧
      ∃ o, (s.output p).stop err = some o ∧ s' = s.copiesOutput p o s.inbox := by
  obtain ⟨⟨hp, hclosed, hinbox⟩, h⟩ := Option.ite_none_right_eq_some.1 h
  obtain ⟨o, ho, rfl⟩ := Option.map_eq_some_iff.1 h
  exact ⟨hp, hclosed, hinbox, o, ho, rfl⟩

theorem outputWrite_spec {p : Stream}
    (h : step eof shortWrite config returns s (.outputWrite p) = some s') :
    s.exec.output p = true ∧ ∃ w o, config.writer p = some w ∧ (s.output p).write w = some o ∧
      s' = s.copiesOutput p o s.inbox := by
  simp only [step] at h
  split at h
  · next w hw =>
    obtain ⟨hp, h⟩ := Option.ite_none_right_eq_some.1 h
    obtain ⟨o, ho, rfl⟩ := Option.map_eq_some_iff.1 h
    exact ⟨hp, w, o, hw, ho, rfl⟩
  · cases h

theorem buffer_spec {n : Nat}
    (h : step eof shortWrite config returns s (.buffer n) = some s') :
    ∃ o, s' = s.copiesOutput .stderr o (s.inbox.drop n) := by
  obtain ⟨-, h⟩ := Option.ite_none_right_eq_some.1 h
  obtain ⟨o, -, rfl⟩ := Option.map_eq_some_iff.1 h
  exact ⟨o, rfl⟩

omit [DecidableEq E] in
theorem pending_eq {c : Copy E} {rd : Copy.Read E} (hc : s.exec.stdin = .copying c)
    (hpc : c.pc = .writing rd) : s.pending = rd.data.length := by
  rw [State.pending, hc]
  simp only [hpc]

omit [DecidableEq E] in
theorem reads_eq {c : Copy E} (hc : s.exec.stdin = .copying c) : s.reads = c.reads := by
  rw [State.reads, hc]

omit [DecidableEq E] in
theorem call_eq_none (h : s.exec.main = .waiting) : s.call = none := by
  rw [State.call, h]

/-- A copy writes what it has at hand. -/
theorem write_spec {c c' : Copy E} {n : Nat} {err : Option E}
    (h : c.write eof shortWrite n err = some c') : ∃ rd, c.pc = .writing rd := by
  unfold Copy.write at h
  split at h
  · exact ⟨_, ‹_›⟩
  · cases h

/-- **Attached** is what the config has. -/
theorem State.Attached.step (h : s.Attached config)
    (hs : step eof shortWrite config returns s a = some s') : s'.Attached config := by
  cases a with
  | exec a =>
    obtain ⟨-, exec, hexec, rfl⟩ := exec_spec hs
    cases Exec.step_next hexec with
    | goes | wait => exact ⟨h.input, h.output⟩
    | attach =>
      refine ⟨fun c hc => ?_, fun p hp => by cases p <;> exact hp⟩
      by_contra hnone
      have hattach : ¬ config.execConfig.attachStdin = true := hnone
      dsimp only at hc
      rw [if_neg hattach] at hc
      cases hc
    | read hr => exact ⟨fun _ _ => by rw [hr]; rfl, h.output⟩
    | write hc => exact ⟨fun _ _ => h.input _ hc, h.output⟩
    | closeWrite => exact ⟨fun c hc => (by cases hc), h.output⟩
    | @outputEnds p err hp =>
      refine ⟨h.input, fun q hq => h.output q ?_⟩
      by_cases hqp : q = p
      · rw [hqp]
        exact hp
      · simpa [hqp] using hq
  | dial =>
    obtain ⟨-, hs⟩ := Option.ite_none_right_eq_some.1 hs
    cases hs
    exact ⟨h.input, h.output⟩
  | outputRead p n =>
    obtain ⟨-, o, -, rfl⟩ := outputRead_spec hs
    exact ⟨h.input, h.output⟩
  | outputStop p err =>
    obtain ⟨-, -, -, o, -, rfl⟩ := outputStop_spec hs
    exact ⟨h.input, h.output⟩
  | outputWrite p =>
    obtain ⟨-, w, o, -, -, rfl⟩ := outputWrite_spec hs
    exact ⟨h.input, h.output⟩
  | cancel err | drain n =>
    cases hs
    exact ⟨h.input, h.output⟩
  | deliver bs =>
    obtain ⟨-, hs⟩ := Option.ite_none_right_eq_some.1 hs
    cases hs
    exact ⟨h.input, h.output⟩
  | buffer n =>
    obtain ⟨o, rfl⟩ := buffer_spec hs
    exact ⟨h.input, h.output⟩
  | close reset =>
    obtain ⟨-, hs⟩ := Option.ite_none_right_eq_some.1 hs
    cases hs
    exact ⟨h.input, h.output⟩

theorem attached_of_reaches
    (h : (cancel eof shortWrite config returns room).Reaches System.Any s) :
    s.Attached config := by
  refine h.invariant (I := State.Attached config) ?_ fun t a t' ht _ hs => ht.step hs
  rintro _ rfl
  exact ⟨fun c hc => (by cases hc), fun p hp => (by cases hp)⟩

/-! ## Held executions -/

omit [DecidableEq E] in
/-- A call that does not watch the context gives nothing. -/
theorem State.InCall.not_gives (h : s.InCall watches) (e : E) : ¬ s.Gives watches e := by
  obtain ⟨c, hcall, hwatches, hopen⟩ := h
  rintro ⟨c', hcall', hgives⟩
  cases hcall.symm.trans hcall'
  rcases hgives with ⟨htrue, -⟩ | hclosed
  · rw [hwatches] at htrue
    cases htrue
  · exact hopen hclosed

/-- **Who is in such a call stays there.** -/
theorem State.InCall.step (h : s.InCall watches) (ha : Alone watches s a)
    (hs : step eof shortWrite config returns s a = some s') : s'.InCall watches := by
  cases a with
  | exec a =>
    obtain ⟨-, exec, hexec, rfl⟩ := exec_spec hs
    cases Exec.step_next hexec with
    | @goes _ main hgoes =>
      obtain ⟨c, hcall, -⟩ := id h
      generalize hmain : s.exec.main = main₀ at hgoes
      cases hgoes with
      | created | running | exitCode | exited => cases ha
      | create e | attach e | inspectFails e => exact absurd ha (h.not_gives e)
      | checked | ctx =>
        rw [State.call, hmain] at hcall
        cases hcall
    | attach => cases ha
    | wait hjoined hmain =>
      obtain ⟨c, hcall, -⟩ := h
      rw [call_eq_none hmain] at hcall
      cases hcall
    | read | write | closeWrite | outputEnds => exact h
  | outputRead p n =>
    obtain ⟨-, o, -, rfl⟩ := outputRead_spec hs
    exact h
  | outputStop p err =>
    obtain ⟨-, -, -, o, -, rfl⟩ := outputStop_spec hs
    exact h
  | outputWrite p =>
    obtain ⟨-, w, o, -, -, rfl⟩ := outputWrite_spec hs
    exact h
  | dial | cancel | drain | deliver | buffer | close => cases ha

/-- **Outputs that end**, by a step that is taken alone, have done so before. -/
theorem State.OutputsEnd.before (hattached : s.Attached config) (ha : Alone watches s a)
    (hs : step eof shortWrite config returns s a = some s')
    (h : s'.OutputsEnd config) : s.OutputsEnd config := by
  obtain ⟨deals, h⟩ := h
  cases a with
  | exec a =>
    obtain ⟨hallows, exec, hexec, rfl⟩ := exec_spec hs
    cases Exec.step_next hexec with
    | goes | wait | read | write | closeWrite => exact ⟨deals, h⟩
    | attach => cases ha
    | @outputEnds p err hp =>
      obtain ⟨w, hw⟩ := Option.isSome_iff_exists.1 (hattached.output p hp)
      exact ⟨deals, (dealing_end hp hw hallows).1 h⟩
  | outputRead p n =>
    obtain ⟨hp, o, ho, rfl⟩ := outputRead_spec hs
    have hread : Dealing config.writer s.exec.output s.output (s.inbox.take n ++ s.inbox.drop n)
      s.closed ((p, s.inbox.take n) :: deals) := (dealing_read hp ho).1 h
    rw [List.take_append_drop] at hread
    exact ⟨_, hread⟩
  | outputStop p err =>
    obtain ⟨hp, hclosed, hinbox, o, ho, rfl⟩ := outputStop_spec hs
    simp only [State.copiesOutput, hclosed, hinbox] at h
    refine ⟨deals, ?_⟩
    rw [hclosed, hinbox]
    exact (dealing_stop hp ho).1 h
  | outputWrite p =>
    obtain ⟨hp, w, o, hw, ho, rfl⟩ := outputWrite_spec hs
    exact ⟨deals, (dealing_write hp hw ho).1 h⟩
  | dial | cancel | drain | deliver | buffer | close => cases ha

/-- **An input that is held stays so.** -/
theorem State.InputHeld.step (h : s.InputHeld config returns) (ha : Alone watches s a)
    (hs : step eof shortWrite config returns s a = some s') (hmain : s.exec.main = .waiting) :
    s'.InputHeld config returns := by
  obtain ⟨c₀, r₀, hc₀, hr₀, hends⟩ := id h
  cases a with
  | exec a =>
    obtain ⟨hallows, exec, hexec, rfl⟩ := exec_spec hs
    cases Exec.step_next hexec with
    | goes hgoes => exact absurd hmain hgoes.ne_waiting
    | attach => cases ha
    | wait hjoined => exact absurd hc₀ (hjoined.1 c₀)
    | outputEnds => exact h
    | @read r c c' hr hc hread =>
      cases hc₀.symm.trans hc
      cases hr₀.symm.trans hr
      have hreturns : returns c₀.reads = true := by rw [← reads_eq hc]; exact hallows
      exact ⟨c', r₀, rfl, hr, fun hc' => hends ((endsAlone_read hreturns hread).1 hc')⟩
    | @write n err c c' hc hwrite =>
      cases hc₀.symm.trans hc
      refine ⟨c', r₀, rfl, hr₀, fun hc' => hends ?_⟩
      obtain ⟨rd, hpc⟩ := write_spec hwrite
      cases err with
      | some e =>
        have hclosed : s.closed = true := ha
        simp [EndsAlone, hpc, hclosed]
      | none =>
        obtain ⟨rfl, hroom⟩ : n = s.pending ∧ n ≤ s.room := hallows
        simp only [Exec.Act.taken] at hc'
        rw [pending_eq hc hpc] at hroom hwrite hc'
        exact (endsAlone_write hpc hroom hwrite).2 (.inr hc')
    | closeWrite hc hpc =>
      cases hc₀.symm.trans hc
      simp [EndsAlone, hpc] at hends
  | outputRead p n =>
    obtain ⟨-, o, -, rfl⟩ := outputRead_spec hs
    exact h
  | outputStop p err =>
    obtain ⟨-, -, -, o, -, rfl⟩ := outputStop_spec hs
    exact h
  | outputWrite p =>
    obtain ⟨-, w, o, -, -, rfl⟩ := outputWrite_spec hs
    exact h
  | dial | cancel | drain | deliver | buffer | close => cases ha

variable (config returns) in
omit [DecidableEq E] in
/-- Copies that have ended are not held. -/
theorem not_held_of_joined (hjoined : s.exec.Joined) :
    s.OutputsEnd config ∧ ¬ s.InputHeld config returns := by
  refine ⟨⟨[], List.nil_prefix, fun d hd => absurd hd List.not_mem_nil, fun p hp => ?_⟩, ?_⟩
  · rw [hjoined.2 p] at hp
    cases hp
  · rintro ⟨c, r, hc, -⟩
    exact hjoined.1 c hc

/-- While it waits for a copy that does not end, `Exec` stays in `g.Wait`. -/
theorem waiting_step (hmain : s.exec.main = .waiting)
    (hheld : ¬ s.OutputsEnd config ∨ s.InputHeld config returns) (ha : Alone watches s a)
    (hs : step eof shortWrite config returns s a = some s') : s'.exec.main = .waiting := by
  cases a with
  | exec a =>
    obtain ⟨-, exec, hexec, rfl⟩ := exec_spec hs
    cases Exec.step_next hexec with
    | goes hgoes => exact absurd hmain hgoes.ne_waiting
    | attach => cases ha
    | wait hjoined =>
      obtain ⟨hends, hinput⟩ := not_held_of_joined config returns hjoined
      exact (hheld.elim (fun hnot => hnot hends) hinput).elim
    | read | write | closeWrite | outputEnds => exact hmain
  | outputRead p n =>
    obtain ⟨-, o, -, rfl⟩ := outputRead_spec hs
    exact hmain
  | outputStop p err =>
    obtain ⟨-, -, -, o, -, rfl⟩ := outputStop_spec hs
    exact hmain
  | outputWrite p =>
    obtain ⟨-, w, o, -, -, rfl⟩ := outputWrite_spec hs
    exact hmain
  | dial | cancel | drain | deliver | buffer | close => cases ha

/-- **What is held stays so**, until the process or the daemon acts. -/
theorem Held.step (hattached : s.Attached config) (h : Held config returns watches s)
    (ha : Alone watches s a) (hs : step eof shortWrite config returns s a = some s') :
    Held config returns watches s' := by
  rcases h with hcall | ⟨hmain, hheld⟩
  · exact .inl (hcall.step ha hs)
  · refine .inr ⟨waiting_step hmain hheld ha hs, ?_⟩
    rcases hheld with houtput | hinput
    · exact .inl fun hends => houtput (hends.before hattached ha hs)
    · exact .inr (hinput.step ha hs hmain)

omit [DecidableEq E] in
/-- What is held has not returned. -/
theorem Held.not_returned (h : Held config returns watches s) (err : Option (Exec.Failure E)) :
    s.exec.main ≠ .returned err := by
  intro hmain
  rcases h with ⟨c, hcall, -⟩ | ⟨hwaiting, -⟩
  · rw [State.call, hmain] at hcall
    cases hcall
  · rw [hmain] at hwaiting
    cases hwaiting

/-- What is held is not released. -/
theorem not_released_of_held (hattached : s.Attached config)
    (h : Held config returns watches s) :
    ¬ Released eof shortWrite config returns watches room s := by
  rintro (⟨err, herr⟩ | hcan)
  · exact h.not_returned err herr
  · obtain ⟨t, ⟨-, ht⟩, err, herr⟩ := hcan.invariant
      (I := fun t => t.Attached config ∧ Held config returns watches t) ⟨hattached, h⟩
      fun t a t' ht ha hs => ⟨ht.1.step hs, ht.2.step ht.1 ha hs⟩
    exact ht.not_returned _ herr

/-! ## Inputs that end -/

/-- The copy of the input moves on. -/
def State.copies (s : State E) (c : Copy E) (room : Nat) : State E :=
  { s with exec := { s.exec with stdin := .copying c }, room := room }

/-- What the end of the input's copy leaves alone. -/
structure Kept (s t : State E) : Prop where
  main : t.exec.main = s.exec.main
  active : t.exec.output = s.exec.output
  ctx : t.ctx = s.ctx
  output : t.output = s.output
  inbox : t.inbox = s.inbox
  closed : t.closed = s.closed

variable (eof shortWrite config returns watches room) in
/-- The copy of the input goes on by itself to its end. -/
def InputEnds (s : State E) : Prop :=
  (cancel eof shortWrite config returns room).Can (Alone watches)
    (fun t => Kept s t ∧ ∃ c, t.exec.stdin = .ended c) s

theorem InputEnds.step {t : State E} (ha : Alone watches s a)
    (hs : step eof shortWrite config returns s a = some t) (hkept : Kept s t)
    (h : InputEnds eof shortWrite config returns watches room t) :
    InputEnds eof shortWrite config returns watches room s := by
  refine (System.Can.step ha hs h).trans ?_
  rintro u ⟨hu, hended⟩
  exact .here ⟨⟨hu.main.trans hkept.main, hu.active.trans hkept.active, hu.ctx.trans hkept.ctx,
    hu.output.trans hkept.output, hu.inbox.trans hkept.inbox, hu.closed.trans hkept.closed⟩,
    hended⟩

omit [DecidableEq E] in
theorem kept_copies (s : State E) (c : Copy E) (room : Nat) : Kept s (s.copies c room) :=
  ⟨rfl, rfl, rfl, rfl, rfl, rfl⟩

/-- It has only to call `CloseWrite`. -/
theorem inputEnds_returned {c : Copy E} {err : Option E} (hc : s.exec.stdin = .copying c)
    (hpc : c.pc = .returned err) : InputEnds eof shortWrite config returns watches room s := by
  have hs : step eof shortWrite config returns s (.exec (.closeWrite none)) =
      some { s with exec := { s.exec with stdin := .ended c, err := s.exec.err.or err } } := by
    simp only [Cancel.step, State.Allows, Exec.step, hc, hpc]
    rfl
  exact InputEnds.step (a := .exec (.closeWrite none)) trivial hs ⟨rfl, rfl, rfl, rfl, rfl, rfl⟩
    (System.Can.here ⟨⟨rfl, rfl, rfl, rfl, rfl, rfl⟩, c, rfl⟩)

/-- A write fails on a closed connection. -/
theorem inputEnds_fails {c : Copy E} {rd : Copy.Read E} (hc : s.exec.stdin = .copying c)
    (hpc : c.pc = .writing rd) (hclosed : s.closed = true) :
    InputEnds eof shortWrite config returns watches room s := by
  refine InputEnds.step (a := .exec (.write 0 (some eof)))
    (t := s.copies ⟨.returned (some eof), c.reads, c.written ++ rd.data.take 0⟩ s.room)
    hclosed ?_ (kept_copies s _ _) (inputEnds_returned rfl rfl)
  simp only [Cancel.step, State.Allows, Exec.step, hc, Copy.write, hpc]
  rfl

/-- A write that the connection takes. -/
theorem inputEnds_write {c : Copy E} {rd : Copy.Read E} (hc : s.exec.stdin = .copying c)
    (hpc : c.pc = .writing rd) (hroom : rd.data.length ≤ s.room)
    (hrest : ∀ t : State E, t.closed = s.closed → t.room = s.room - rd.data.length →
      t.exec.stdin = .copying ⟨Copy.after eof rd.err, c.reads, c.written ++ rd.data⟩ →
      InputEnds eof shortWrite config returns watches room t) :
    InputEnds eof shortWrite config returns watches room s := by
  refine InputEnds.step (a := .exec (.write rd.data.length none))
    (t := s.copies ⟨Copy.after eof rd.err, c.reads, c.written ++ rd.data⟩
      (s.room - rd.data.length)) trivial ?_ (kept_copies s _ _) (hrest _ rfl rfl rfl)
  simp only [Cancel.step, State.Allows, pending_eq hc hpc, hroom, and_self, if_true,
    Exec.step, hc, Copy.write, hpc, le_refl, List.take_length]
  rfl

/-- A read that returns. -/
theorem inputEnds_read {r : Copy.Reader E} {c : Copy E} (hr : config.stdin = some r)
    (hc : s.exec.stdin = .copying c) (hpc : c.pc = .reading) (hreturns : returns c.reads = true)
    (hrest : ∀ t : State E, t.closed = s.closed → t.room = s.room →
      t.exec.stdin = .copying
        ⟨if (r c.reads).data = [] then Copy.after eof (r c.reads).err else .writing (r c.reads),
          c.reads + 1, c.written⟩ →
      InputEnds eof shortWrite config returns watches room t) :
    InputEnds eof shortWrite config returns watches room s := by
  refine InputEnds.step (a := .exec .read)
    (t := s.copies
      ⟨if (r c.reads).data = [] then Copy.after eof (r c.reads).err else .writing (r c.reads),
        c.reads + 1, c.written⟩ s.room) trivial ?_ (kept_copies s _ _) (hrest _ rfl rfl rfl)
  simp only [Cancel.step, State.Allows, reads_eq hc, hreturns, if_true, Exec.step, hr, hc,
    Copy.read, hpc]
  rfl

/-- Behind a read whose bytes have been written, the copy has returned or goes on. -/
theorem inputEnds_after {err : Option E} {k : Nat} {written : List UInt8}
    (hc : s.exec.stdin = .copying ⟨Copy.after eof err, k, written⟩)
    (h : err = none → s.exec.stdin = .copying ⟨.reading, k, written⟩ →
      InputEnds eof shortWrite config returns watches room s) :
    InputEnds eof shortWrite config returns watches room s := by
  cases err with
  | none => exact h rfl hc
  | some e => exact inputEnds_returned hc rfl

/-- The connection takes what a read has brought. -/
theorem inputEnds_next {r : Copy.Reader E} {c : Copy E} (hr : config.stdin = some r)
    (hc : s.exec.stdin = .copying c) (hpc : c.pc = .reading) (hreturns : returns c.reads = true)
    (hroom : (r c.reads).data.length ≤ s.room)
    (hrest : (r c.reads).err = none → ∀ (t : State E) (written : List UInt8),
      t.closed = s.closed → t.room = s.room - (r c.reads).data.length →
      t.exec.stdin = .copying ⟨.reading, c.reads + 1, written⟩ →
      InputEnds eof shortWrite config returns watches room t) :
    InputEnds eof shortWrite config returns watches room s := by
  refine inputEnds_read hr hc hpc hreturns fun t hclosed htroom ht => ?_
  by_cases hdata : (r c.reads).data = []
  · rw [if_pos hdata] at ht
    refine inputEnds_after ht fun herr ht => hrest herr t _ hclosed ?_ ht
    rw [htroom, hdata, List.length_nil, Nat.sub_zero]
  · rw [if_neg hdata] at ht
    refine inputEnds_write ht rfl (htroom ▸ hroom) fun u huclosed huroom hu => ?_
    refine inputEnds_after hu fun herr hu =>
      hrest herr u _ (huclosed.trans hclosed) (by rw [huroom, htroom]) hu

/-- **A copy in front of a read** goes on as `EndsFrom` says. -/
theorem inputEnds_of_endsFrom {r : Copy.Reader E} (hr : config.stdin = some r) {closed : Bool}
    {k n : Nat} (h : EndsFrom r returns closed k n) {s : State E} {written : List UInt8}
    (hc : s.exec.stdin = .copying ⟨.reading, k, written⟩) (hclosed : s.closed = closed)
    (hroom : s.room = n) : InputEnds eof shortWrite config returns watches room s := by
  induction h generalizing s written with
  | err hreturns herr hlen =>
    exact inputEnds_next hr hc rfl hreturns (hroom ▸ hlen) fun hnone => absurd hnone herr
  | next hreturns hlen _ ih =>
    refine inputEnds_next hr hc rfl hreturns (hroom ▸ hlen) fun _ t _ htclosed htroom ht => ?_
    exact ih ht (htclosed.trans hclosed) (by rw [htroom, hroom])
  | fails hreturns h hdata =>
    refine inputEnds_read hr hc rfl hreturns fun t htclosed _ ht => ?_
    rw [if_neg hdata] at ht
    exact inputEnds_fails ht rfl (by rw [htclosed, hclosed, h])

/-- **A copy wherever it is.** -/
theorem inputEnds_of_endsAlone {r : Copy.Reader E} {c : Copy E} (hr : config.stdin = some r)
    (hc : s.exec.stdin = .copying c) (h : EndsAlone r returns s.closed s.room c) :
    InputEnds eof shortWrite config returns watches room s := by
  obtain ⟨pc, reads, written⟩ := c
  cases pc with
  | reading => exact inputEnds_of_endsFrom hr h hc rfl rfl
  | writing rd =>
    rcases h with hclosed | ⟨hlen, hrest⟩
    · exact inputEnds_fails hc rfl hclosed
    · refine inputEnds_write hc rfl hlen fun t htclosed htroom ht => ?_
      refine inputEnds_after ht fun herr ht => ?_
      rcases hrest with hne | hends
      · exact absurd herr hne
      · exact inputEnds_of_endsFrom hr hends ht htclosed htroom
  | returned err => exact inputEnds_returned hc rfl

/-! ## Outputs that end -/

/-- A step of `Exec` by itself, and then on. -/
theorem can_exec {a : Exec.Act E} {exec : Exec.State E} {R : State E → Prop}
    (ha : Alone watches s (.exec a)) (hallows : s.Allows returns a)
    (hexec : Exec.step eof shortWrite config s.exec a = some exec)
    (h : (cancel eof shortWrite config returns room).Can (Alone watches) R
      { s with exec := exec, room := s.room - a.taken }) :
    (cancel eof shortWrite config returns room).Can (Alone watches) R s := by
  have hs : (cancel eof shortWrite config returns room).step s (.exec a) =
      some { s with exec := exec, room := s.room - a.taken } := by
    simp only [cancel, Cancel.step, hallows, if_true, hexec]
    rfl
  exact System.Can.step ha hs h

variable {R : State E → Prop} {deals : List (Stream × List UInt8)} {p : Stream}

/-- A write at hand is done. -/
theorem can_settle
    (h : Dealing config.writer s.exec.output s.output s.inbox s.closed deals)
    (hp : s.exec.output p = true)
    (hrest : ∀ o, Dealing config.writer s.exec.output (Function.update s.output p o) s.inbox
      s.closed deals → (∀ bs, o.pc ≠ .writing bs) →
      (cancel eof shortWrite config returns room).Can (Alone watches) R
        (s.copiesOutput p o s.inbox)) :
    (cancel eof shortWrite config returns room).Can (Alone watches) R s := by
  by_cases hpc : ∃ bs, (s.output p).pc = .writing bs
  · obtain ⟨bs, hpc⟩ := hpc
    obtain ⟨w, o, hw, ho, hne⟩ := h.write hp hpc
    have hs : (cancel eof shortWrite config returns room).step s (.outputWrite p) =
        some (s.copiesOutput p o s.inbox) := by
      simp only [cancel, Cancel.step, hw, hp, if_true, ho]
      rfl
    have ha : Alone watches s (.outputWrite p) := trivial
    exact System.Can.step ha hs (hrest o ((dealing_write hp hw ho).2 h) hne)
  · have hself : s.copiesOutput p (s.output p) s.inbox = s := by
      simp [State.copiesOutput]
    rw [← hself]
    exact hrest _ (by rwa [Function.update_eq_self]) (not_exists.1 hpc)

/-- What the end of the copy of an output leaves alone. -/
structure Left (p : Stream) (s t : State E) : Prop where
  main : t.exec.main = s.exec.main
  stdin : t.exec.stdin = s.exec.stdin
  ctx : t.ctx = s.ctx
  active : ∀ q, t.exec.output q = true → q ≠ p ∧ s.exec.output q = true

/-- The goroutine of a copy ends. -/
theorem can_join {err : Option E}
    (h : Dealing config.writer s.exec.output s.output s.inbox s.closed deals)
    (hp : s.exec.output p = true) (hended : (s.output p).pc = .ended err)
    (hrest : ∀ t : State E, Left p s t →
      Dealing config.writer t.exec.output t.output t.inbox t.closed deals →
      (cancel eof shortWrite config returns room).Can (Alone watches) R t) :
    (cancel eof shortWrite config returns room).Can (Alone watches) R s := by
  obtain ⟨w, hw, -⟩ := h.finishes p hp
  have hexec : Exec.step eof shortWrite config s.exec (.outputEnds p err) =
      some { s.exec with
        output := fun q => if q = p then false else s.exec.output q
        err := s.exec.err.or err } := by
    simp only [Exec.step, hp, if_true]
  refine can_exec (a := .outputEnds p err) trivial hended hexec
    (hrest _ ⟨rfl, rfl, rfl, fun q hq => ?_⟩ ((dealing_end hp hw hended).2 h))
  by_cases hqp : q = p
  · simp [hqp] at hq
  · exact ⟨hqp, by simpa [hqp] using hq⟩

/-- **Behind the last chunk**, the copy of an output ends. -/
theorem can_end_output (p : Stream)
    (h : Dealing config.writer s.exec.output s.output s.inbox s.closed [])
    (hrest : ∀ t : State E, Left p s t →
      Dealing config.writer t.exec.output t.output t.inbox t.closed [] →
      (cancel eof shortWrite config returns room).Can (Alone watches) R t) :
    (cancel eof shortWrite config returns room).Can (Alone watches) R s := by
  cases hp : s.exec.output p with
  | false =>
    refine hrest s ⟨rfl, rfl, rfl, fun q hq => ⟨?_, hq⟩⟩ h
    rintro rfl
    rw [hp] at hq
    cases hq
  | true =>
    refine can_settle h hp fun o ho hne => ?_
    have hself : Function.update s.output p o p = o := Function.update_self ..
    rcases ho.nil hp (by rwa [hself]) with ⟨err, hended⟩ | ⟨hclosed, hinbox, o', ho'⟩
    · exact can_join ho hp hended fun t ht => hrest t ⟨ht.main, ht.stdin, ht.ctx, ht.active⟩
    · have ha : Alone watches (s.copiesOutput p o s.inbox) (.outputStop p none) := trivial
      have hs : (cancel eof shortWrite config returns room).step (s.copiesOutput p o s.inbox)
          (.outputStop p none) =
            some ((s.copiesOutput p o s.inbox).copiesOutput p o' s.inbox) := by
        have hguard : (s.copiesOutput p o s.inbox).exec.output p = true ∧
            (s.copiesOutput p o s.inbox).closed = true ∧
            (s.copiesOutput p o s.inbox).inbox = [] := ⟨hp, hclosed, hinbox⟩
        have hstop : ((s.copiesOutput p o s.inbox).output p).stop none = some o' := ho'
        simp only [cancel, Cancel.step, if_pos hguard, hstop]
        rfl
      have hended : o'.pc = .ended none := by
        obtain ⟨-, rfl⟩ := Output.stop_spec ho'
        rfl
      rw [hinbox, hclosed] at ho
      have hd := (dealing_stop hp ho').2 ho
      have hdealing : Dealing config.writer s.exec.output
          (Function.update (Function.update s.output p o) p o') s.inbox s.closed [] := by
        rw [hinbox, hclosed]
        exact hd
      have hpc : (Function.update (Function.update s.output p o) p o' p).pc = .ended none := by
        rw [Function.update_self, hended]
      exact System.Can.step ha hs (can_join hdealing hp hpc
        fun t ht => hrest t ⟨ht.main, ht.stdin, ht.ctx, ht.active⟩)

/-- **The copies of the outputs** end as they share the bytes. -/
theorem can_end_outputs
    (h : Dealing config.writer s.exec.output s.output s.inbox s.closed deals)
    (hrest : ∀ t : State E, t.exec.main = s.exec.main → t.exec.stdin = s.exec.stdin →
      t.ctx = s.ctx → (∀ p, t.exec.output p = false) →
      (cancel eof shortWrite config returns room).Can (Alone watches) R t) :
    (cancel eof shortWrite config returns room).Can (Alone watches) R s := by
  induction deals generalizing s with
  | nil =>
    refine can_end_output .stdout h fun t ht hd => ?_
    refine can_end_output .stderr hd fun u hu _ => ?_
    refine hrest u (hu.main.trans ht.main) (hu.stdin.trans ht.stdin) (hu.ctx.trans ht.ctx)
      fun p => ?_
    by_contra hp
    obtain ⟨hne, hp⟩ := hu.active p (Bool.eq_true_of_not_eq_false hp)
    cases p with
    | stdout => exact (ht.active _ hp).1 rfl
    | stderr => exact hne rfl
  | cons d deals ih =>
    obtain ⟨p, bs⟩ := d
    have hp : s.exec.output p = true := h.streams _ List.mem_cons_self
    refine can_settle h hp fun o ho hne => ?_
    have hself : Function.update s.output p o p = o := Function.update_self ..
    obtain ⟨-, ⟨rest, hinbox⟩, o', ho'⟩ := ho.cons (by rwa [hself])
    have ha : Alone watches (s.copiesOutput p o s.inbox) (.outputRead p bs.length) := trivial
    have hs : (cancel eof shortWrite config returns room).step (s.copiesOutput p o s.inbox)
        (.outputRead p bs.length) =
          some ((s.copiesOutput p o s.inbox).copiesOutput p o' rest) := by
      have hguard : (s.copiesOutput p o s.inbox).exec.output p = true ∧
          bs.length ≤ (s.copiesOutput p o s.inbox).inbox.length := by
        refine ⟨hp, ?_⟩
        show bs.length ≤ s.inbox.length
        rw [hinbox, List.length_append]
        omega
      have hread : ((s.copiesOutput p o s.inbox).output p).read
          ((s.copiesOutput p o s.inbox).inbox.take bs.length) = some o' := by
        show (Function.update s.output p o p).read (s.inbox.take bs.length) = some o'
        rw [hinbox, List.take_left]
        exact ho'
      have hdrop : (s.copiesOutput p o s.inbox).inbox.drop bs.length = rest := by
        show s.inbox.drop bs.length = rest
        rw [hinbox, List.drop_left]
      simp only [cancel, Cancel.step, if_pos hguard, hread, hdrop]
      rfl
    rw [hinbox] at ho
    exact System.Can.step ha hs (ih ((dealing_read hp ho').2 ho) hrest)

/-! ## Released executions -/

/-- The calls to Docker and the `select` return with an error. -/
theorem can_return {err : E} (hctx : s.ctx = some err) (hmain : s.exec.main ≠ .waiting)
    (hreturned : ∀ err, s.exec.main ≠ .returned err) (hcall : ¬ s.InCall watches) :
    (cancel eof shortWrite config returns room).Can (Alone watches)
      (fun t => ∃ err, t.exec.main = .returned (some err)) s := by
  have hgoto : ∀ a main, s.exec.main = main → Alone watches s (.exec a) → s.Allows returns a →
      Exec.step eof shortWrite config s.exec a =
        s.exec.goto main (.returned (some (.err err))) →
      (cancel eof shortWrite config returns room).Can (Alone watches)
        (fun t => ∃ err, t.exec.main = .returned (some err)) s := by
    intro a main hmain ha hallows hexec
    rw [Exec.State.goto, if_pos hmain] at hexec
    exact can_exec ha hallows hexec (.here ⟨.err err, rfl⟩)
  have hgives : ∀ c, s.call = some c → s.Gives watches err := by
    intro c hc
    by_contra hnot
    refine hcall ⟨c, hc, Bool.eq_false_iff.2 fun hwatches => ?_, fun hclosed => ?_⟩
    · exact hnot ⟨c, hc, .inl ⟨hwatches, hctx⟩⟩
    · exact hnot ⟨c, hc, .inr hclosed⟩
  cases h : s.exec.main with
  | creating =>
    exact hgoto (.create (some err)) _ h (hgives .create (by rw [State.call, h])) trivial rfl
  | attaching =>
    exact hgoto (.attach (some err)) _ h (hgives _ (by rw [State.call, h])) trivial rfl
  | waiting => exact absurd h hmain
  | checking => exact hgoto (.ctx (some err)) _ h trivial hctx.symm rfl
  | inspecting =>
    exact hgoto (.inspectFails err) _ h (hgives .inspect (by rw [State.call, h])) trivial rfl
  | returned err' => exact absurd h (hreturned err')

/-- `g.Wait` is over. -/
theorem can_return_of_joined {err : E} (hctx : s.ctx = some err) (hmain : s.exec.main = .waiting)
    (hjoined : s.exec.Joined) :
    (cancel eof shortWrite config returns room).Can (Alone watches)
      (fun t => ∃ err, t.exec.main = .returned (some err)) s := by
  have hexec : Exec.step eof shortWrite config s.exec .wait =
      some { s.exec with main := .checking } := by
    simp only [Exec.step, hjoined, if_true, Exec.State.goto, hmain]
  refine can_exec (a := .wait) trivial trivial hexec
    (can_return hctx (by simp) (by simp) ?_)
  rintro ⟨c, hc, -⟩
  cases hc

/-- **What is not held is released.** -/
theorem released_of_not_held {err : E} (hattached : s.Attached config) (hctx : s.ctx = some err)
    (h : ¬ Held config returns watches s) :
    Released eof shortWrite config returns watches room s := by
  obtain ⟨hcall, hwait⟩ := not_or.1 h
  by_cases hreturned : ∃ err, s.exec.main = .returned err
  · exact .inl hreturned
  refine .inr ?_
  by_cases hmain : s.exec.main = .waiting
  · obtain ⟨houtput, hinput⟩ := not_or.1 fun hheld => hwait ⟨hmain, hheld⟩
    obtain ⟨deals, hdeals⟩ := not_not.1 houtput
    -- the input first, which leaves the outputs alone
    have hends : (cancel eof shortWrite config returns room).Can (Alone watches)
        (fun t => t.exec.main = .waiting ∧ t.ctx = some err ∧
          Dealing config.writer t.exec.output t.output t.inbox t.closed deals ∧
          ∀ c, t.exec.stdin ≠ .copying c) s := by
      cases hstdin : s.exec.stdin with
      | copying c =>
        obtain ⟨r, hr⟩ := Option.isSome_iff_exists.1 (hattached.input c hstdin)
        have halone : EndsAlone r returns s.closed s.room c :=
          not_not.1 fun hnot => hinput ⟨c, r, hstdin, hr, hnot⟩
        refine (inputEnds_of_endsAlone hr hstdin halone).trans ?_
        rintro t ⟨hkept, c', hc'⟩
        refine .here ⟨hkept.main.trans hmain, hkept.ctx.trans hctx, ?_, fun c hc => ?_⟩
        · rwa [hkept.active, hkept.output, hkept.inbox, hkept.closed]
        · rw [hc'] at hc
          cases hc
      | absent => exact .here ⟨hmain, hctx, hdeals, fun c hc => by rw [hstdin] at hc; cases hc⟩
      | ended c => exact .here ⟨hmain, hctx, hdeals, fun c hc => by rw [hstdin] at hc; cases hc⟩
    refine hends.trans ?_
    rintro t ⟨htmain, htctx, htdeals, htstdin⟩
    refine can_end_outputs htdeals fun u humain hustdin huctx huout => ?_
    refine can_return_of_joined (huctx.trans htctx) (humain.trans htmain) ⟨fun c hc => ?_, huout⟩
    exact htstdin c (hustdin.symm.trans hc)
  · exact can_return hctx hmain (not_exists.1 hreturned) hcall

/-! ## What a run keeps -/

/-- `Exec` has not attached to the exec yet. -/
def InFront (e : Exec.State E) : Prop := e.main = .creating ∨ e.main = .attaching

omit [DecidableEq E] in
/-- `Exec` does not go back. -/
theorem inFront_of_goes {e : Exec.State E} {a : Exec.Act E} {main : Exec.Main E}
    (h : Exec.Goes e.main a main) (hfront : InFront { e with main := main }) : InFront e := by
  by_contra hbehind
  obtain ⟨hcreating, hattaching⟩ := not_or.1 hbehind
  obtain ⟨hcreating', hattaching'⟩ := h.behind hcreating hattaching
  exact hfront.elim hcreating' hattaching'

variable (config returns) in
/-- No output is copied, and the input ends and fits into the connection. -/
structure Fits (s : State E) : Prop where
  output : ∀ p, s.exec.output p = false
  front : InFront s.exec →
    s.exec.stdin = .absent ∧ ∀ r, config.stdin = some r → EndsFrom r returns false 0 s.room
  copy : ∀ c r, s.exec.stdin = .copying c → config.stdin = some r →
    EndsAlone r returns false s.room c

omit [DecidableEq E] in
/-- Then only a call holds it. -/
theorem Fits.inCall (h : Fits config returns s) (hheld : Held config returns watches s) :
    s.InCall watches := by
  rcases hheld with hcall | ⟨-, houtput | ⟨c, r, hc, hr, hends⟩⟩
  · exact hcall
  · refine absurd ⟨[], List.nil_prefix, fun d hd => absurd hd List.not_mem_nil, fun p hp => ?_⟩
      houtput
    rw [h.output p] at hp
    cases hp
  · exact absurd ((h.copy c r hc hr).mono (by simp) le_rfl) hends

/-- A step of `Exec` keeps it where no output is attached, -/
theorem Fits.exec {a : Exec.Act E} (hout : ∀ p, config.execConfig.attachOutput p = false)
    (h : Fits config returns s)
    (hs : Cancel.step eof shortWrite config returns s (.exec a) = some s') :
    Fits config returns s' := by
  obtain ⟨hallows, e, hexec, rfl⟩ := exec_spec hs
  cases Exec.step_next hexec with
  | goes hgoes =>
    rw [hgoes.taken]
    exact ⟨h.output, fun hf => h.front (inFront_of_goes hgoes hf), h.copy⟩
  | wait => exact ⟨h.output, fun hf => by cases hf <;> contradiction, h.copy⟩
  | @outputEnds p err hp => cases (h.output p).symm.trans hp
  | closeWrite hc =>
    refine ⟨h.output, fun hf => ?_, fun c r hc' => ?_⟩
    · cases (h.front hf).1.symm.trans hc
    · cases hc'
  | attach hmain =>
    refine ⟨hout, fun hf => by cases hf <;> contradiction, fun c r hc hr => ?_⟩
    simp only [Config.execConfig, hr, Option.isSome_some, if_true] at hc
    cases hc
    exact (h.front (.inr hmain)).2 r hr
  | read hr hc hread =>
    refine ⟨h.output, fun hf => ?_, fun c r hc' hr' => ?_⟩
    · cases (h.front hf).1.symm.trans hc
    · cases hc'
      cases hr.symm.trans hr'
      have hreturns : returns s.reads = true := hallows
      rw [reads_eq hc] at hreturns
      exact (endsAlone_read hreturns hread).2 (h.copy _ _ hc hr)
  | @write n err c₀ c' hc hwrite =>
    refine ⟨h.output, fun hf => ?_, fun c r hc' hr => ?_⟩
    · cases (h.front hf).1.symm.trans hc
    · cases hc'
      obtain ⟨rd, hpc⟩ := write_spec hwrite
      cases err with
      | none =>
        obtain ⟨rfl, hroom⟩ : n = s.pending ∧ n ≤ s.room := hallows
        show EndsAlone r returns false (s.room - s.pending) _
        rw [pending_eq hc hpc] at hroom hwrite ⊢
        simpa using (endsAlone_write hpc hroom hwrite).1 (h.copy _ _ hc hr)
      | some e =>
        obtain ⟨pc, reads, written⟩ := c₀
        cases hpc
        obtain ⟨-, hwrite⟩ := Option.ite_none_right_eq_some.1 hwrite
        cases hwrite
        trivial

/-- **and so does every step.** -/
theorem Fits.step (hout : ∀ p, config.execConfig.attachOutput p = false)
    (h : Fits config returns s) (hs : step eof shortWrite config returns s a = some s') :
    Fits config returns s' := by
  cases a with
  | exec a => exact h.exec hout hs
  | dial =>
    obtain ⟨-, hs⟩ := Option.ite_none_right_eq_some.1 hs
    cases hs
    exact ⟨h.output, h.front, h.copy⟩
  | outputRead p n =>
    obtain ⟨-, o, -, rfl⟩ := outputRead_spec hs
    exact ⟨h.output, h.front, h.copy⟩
  | outputStop p err =>
    obtain ⟨-, -, -, o, -, rfl⟩ := outputStop_spec hs
    exact ⟨h.output, h.front, h.copy⟩
  | outputWrite p =>
    obtain ⟨-, w, o, -, -, rfl⟩ := outputWrite_spec hs
    exact ⟨h.output, h.front, h.copy⟩
  | cancel err =>
    cases hs
    exact ⟨h.output, h.front, h.copy⟩
  | drain n =>
    cases hs
    refine ⟨h.output, fun hfront => ⟨(h.front hfront).1, fun r hr => ?_⟩, fun c r hc hr => ?_⟩
    · exact ((h.front hfront).2 r hr).mono id (Nat.le_add_right _ _)
    · exact (h.copy c r hc hr).mono id (Nat.le_add_right _ _)
  | deliver bs =>
    obtain ⟨-, hs⟩ := Option.ite_none_right_eq_some.1 hs
    cases hs
    exact ⟨h.output, h.front, h.copy⟩
  | buffer n =>
    obtain ⟨o, rfl⟩ := buffer_spec hs
    exact ⟨h.output, h.front, h.copy⟩
  | close reset =>
    obtain ⟨-, hs⟩ := Option.ite_none_right_eq_some.1 hs
    cases hs
    exact ⟨h.output, h.front, h.copy⟩

variable (config room) in
/-- The context is cancelled while the streams are copied. -/
def attached (err : E) : State E where
  exec :=
    { main := .waiting
      stdin := if config.execConfig.attachStdin then .copying .initial else .absent
      output := config.execConfig.attachOutput, err := none }
  ctx := some err
  dialled := true
  output _ := Output.initial
  inbox := []
  room := room
  closed := false

theorem reaches_attached (err : E) :
    (cancel eof shortWrite config returns room).Reaches System.Any (attached config room err) :=
  ⟨State.initial room, [.exec (.create none), .dial, .exec (.attach none), .cancel err], rfl,
    System.run_of_exec rfl⟩

variable (room) in
/-- The context is cancelled behind the dial. -/
def dialled (err : E) : State E :=
  { State.initial room with
    exec := { Exec.State.initial with main := .attaching }, ctx := some err, dialled := true }

theorem reaches_dialled (err : E) :
    (cancel eof shortWrite config returns room).Reaches System.Any (dialled room err) :=
  ⟨State.initial room, [.exec (.create none), .dial, .cancel err], rfl, System.run_of_exec rfl⟩

omit [DecidableEq E] in
/-- While nothing is put out, the copy of an output does not end. -/
theorem not_outputsEnd_attached {err : E} (hp : config.execConfig.attachOutput p = true) :
    ¬ (attached config room err).OutputsEnd config := by
  rintro ⟨deals, hdeals⟩
  have hdealt : dealt deals = [] := List.prefix_nil.1 hdeals.bytes
  obtain ⟨w, -, hfin⟩ := hdeals.finishes p hp
  have hfin : Output.FinishesReading w _ [] (chunksOf p deals) := hfin
  cases hchunks : chunksOf p deals with
  | nil =>
    rw [hchunks] at hfin
    cases hfin.1
  | cons bs chunks =>
    rw [hchunks] at hfin
    exact hfin.1 (mem_chunksOf (by rw [hchunks]; exact List.mem_cons_self) hdealt)

/-- **When a cancelled `Exec` is released**: in a state, exactly if it is not held. As the client
is documented, that is never so in all states, since the attach does not watch the context; and so
in all others exactly if no output is attached, and the input, if there is one, ends and fits into
the connection. -/
theorem exec_released_iff (eof shortWrite : E) (config : Config E) (returns : Nat → Bool)
    (watches : Call → Bool) (room : Nat) :
    (∀ s, (cancel eof shortWrite config returns room).Reaches System.Any s →
      s.ctx.isSome = true →
      (Released eof shortWrite config returns watches room s ↔
        ¬ Held config returns watches s)) ∧
    (Documented watches →
      (∃ s, (cancel eof shortWrite config returns room).Reaches System.Any s ∧
        s.ctx.isSome = true ∧ s.call = some .attach ∧
        ¬ Released eof shortWrite config returns watches room s) ∧
      ((∀ s, (cancel eof shortWrite config returns room).Reaches System.Any s →
          s.ctx.isSome = true → s.call ≠ some .attach →
          Released eof shortWrite config returns watches room s) ↔
        config.stdout = none ∧ config.stderr = none ∧
          ∀ r, config.stdin = some r → EndsWithin r returns room)) := by
  have hiff : ∀ s, (cancel eof shortWrite config returns room).Reaches System.Any s →
      s.ctx.isSome = true → (Released eof shortWrite config returns watches room s ↔
        ¬ Held config returns watches s) := by
    intro s hs hctx
    obtain ⟨err, herr⟩ := Option.isSome_iff_exists.1 hctx
    exact ⟨fun hreleased hheld => not_released_of_held (attached_of_reaches hs) hheld hreleased,
      released_of_not_held (attached_of_reaches hs) herr⟩
  refine ⟨hiff, fun hdoc => ⟨?_, ?_, ?_⟩⟩
  · refine ⟨dialled room eof, reaches_dialled eof, rfl, rfl, fun hreleased => ?_⟩
    refine (hiff _ (reaches_dialled eof) rfl).1 hreleased (.inl ⟨.attach, rfl, hdoc.attach, ?_⟩)
    rintro ⟨-, hclosed⟩
    cases hclosed
  · intro h
    have hheld := (hiff _ (reaches_attached eof) rfl).1
      (h _ (reaches_attached eof) rfl (by simp [State.call, attached]))
    have houtput : ∀ p, config.writer p = none := fun p => by
      by_contra hp
      refine hheld (.inr ⟨rfl, .inl (not_outputsEnd_attached (p := p) ?_)⟩)
      cases p <;> exact Option.isSome_iff_ne_none.2 hp
    refine ⟨houtput .stdout, houtput .stderr, fun r hr => ?_⟩
    by_contra hends
    have hattach : config.execConfig.attachStdin = true := by simp [Config.execConfig, hr]
    refine hheld (.inr ⟨rfl, .inr ⟨.initial, r, ?_, hr, fun halone => ?_⟩⟩)
    · rw [attached, hattach, if_pos rfl]
    · exact hends (endsFrom_zero_iff.1 halone)
  · rintro ⟨hstdout, hstderr, hinput⟩ s hs hctx hcall
    have hfits : Fits config returns s := by
      refine hs.invariant ?_ fun t a t' ht _ hs => ht.step (fun p => ?_) hs
      · rintro _ rfl
        refine ⟨fun _ => rfl, fun _ => ⟨rfl, fun r hr => ?_⟩, fun c r hc => ?_⟩
        · exact endsFrom_zero_iff.2 (hinput r hr)
        · cases hc
      · cases p with
        | stdout => simp [Config.execConfig, ExecConfig.attachOutput, hstdout]
        | stderr => simp [Config.execConfig, ExecConfig.attachOutput, hstderr]
    refine (hiff s hs hctx).2 fun hheld => ?_
    -- all other calls watch the context
    obtain ⟨c, hc, hwatches, -⟩ := hfits.inCall hheld
    cases c with
    | create => rw [hdoc.create] at hwatches; cases hwatches
    | dial => rw [hdoc.dial] at hwatches; cases hwatches
    | attach => exact hcall hc
    | inspect => rw [hdoc.inspect] at hwatches; cases hwatches

/-- `cat` without an input, whose output is collected. -/
def catConfig : Config String where
  user := ""
  cmd := ["cat"]
  env := []
  workingDir := ""
  stdin := none
  stdout := some fun _ _ => .takes
  stderr := some fun _ _ => .takes
  tty := false

/-- The calls that watch the context. -/
def clientWatches (c : Call) : Bool := c ≠ .attach

theorem documented_clientWatches : Documented clientWatches := ⟨rfl, rfl, rfl, rfl⟩

/-- It holds of `cat`, which is stuck in the attach, and when its output is copied. -/
theorem exec_released_iff_cat :
    (∃ s, (cancel "EOF" "short write" catConfig (fun _ => true) 0).Reaches System.Any s ∧
      s.ctx.isSome = true ∧ s.call = some .attach ∧
      ¬ Released "EOF" "short write" catConfig (fun _ => true) clientWatches 0 s) ∧
    ∃ s, (cancel "EOF" "short write" catConfig (fun _ => true) 0).Reaches System.Any s ∧
      s.ctx.isSome = true ∧ s.call ≠ some .attach ∧
      ¬ Released "EOF" "short write" catConfig (fun _ => true) clientWatches 0 s := by
  obtain ⟨-, h⟩ := exec_released_iff "EOF" "short write" catConfig (fun _ => true) clientWatches 0
  obtain ⟨hattach, hiff⟩ := h documented_clientWatches
  refine ⟨hattach, ?_⟩
  by_contra hall
  have hstdout := (hiff.1 fun s hs hctx hcall => by
    by_contra hnot
    exact hall ⟨s, hs, hctx, hcall, hnot⟩).1
  cases hstdout

/-- A process that does not end holds it: there is no step that `Exec` can take by itself. -/
theorem exec_stuck :
    ¬ ∀ (config : Config String) (returns : Nat → Bool) (watches : Call → Bool) (room : Nat)
      (s : State String), Documented watches →
      (cancel "EOF" "short write" config returns room).Reaches System.Any s →
      s.ctx.isSome = true →
      (∃ err, s.exec.main = .returned err) ∨ ∃ a s', Alone watches s a ∧
        (cancel "EOF" "short write" config returns room).step s a = some s' := by
  intro h
  rcases h catConfig (fun _ => true) clientWatches 0 (attached catConfig 0 "context canceled")
    documented_clientWatches (reaches_attached _) rfl with ⟨err, herr⟩ | ⟨a, s', ha, hs⟩
  · cases herr
  · have hs : step "EOF" "short write" catConfig (fun _ => true)
        (attached catConfig 0 "context canceled") a = some s' := hs
    cases a with
    | exec a =>
      obtain ⟨hallows, e, hexec, -⟩ := exec_spec hs
      cases Exec.step_next hexec with
      | goes hgoes => exact hgoes.ne_waiting rfl
      | attach => cases ha
      | outputEnds => cases hallows
      | read _ hc => cases hc
      | write hc => cases hc
      | closeWrite hc => cases hc
      | wait hjoined => cases hjoined.2 .stdout
    | outputRead p n =>
      obtain ⟨-, o, ho, -⟩ := outputRead_spec hs
      obtain ⟨-, hbs, -⟩ := Output.read_spec ho
      exact hbs List.take_nil
    | outputStop p err =>
      obtain ⟨-, hclosed, -⟩ := outputStop_spec hs
      cases hclosed
    | outputWrite p =>
      obtain ⟨-, w, o, -, ho, -⟩ := outputWrite_spec hs
      cases ho
    | dial | cancel | drain | deliver | buffer | close => cases ha

end

end Cancel

end UAssign.Docker

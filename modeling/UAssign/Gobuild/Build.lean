import UAssign.Docker.Exec

/-!
# The archive of a Go build

`Build` of `app/gobuild/gobuild.go`: the container writes frames to the attach stream, a goroutine
takes the stream apart with `stdcopy.StdCopy`, and `Build` returns the buffer with the container's
stdout when it is told that the container has been removed. Nobody waits for the goroutine: the
archive is complete exactly if no stdout is left on the stream at that moment
(`build_complete_iff`).
-/

namespace UAssign.Gobuild

open Docker

/-! ## The system -/

/-- A frame of the attach stream. -/
structure Frame where
  stream : Stream
  data : List UInt8
  deriving DecidableEq

/-- The bytes of a stream that frames carry. -/
def payload (st : Stream) (fs : List Frame) : List UInt8 :=
  (fs.filter fun f => f.stream = st).flatMap Frame.data

/-- `container.ContainerWaitOKBody`. -/
structure Result where
  error : Option String
  statusCode : Int
  deriving DecidableEq

/-- An error of `Build`: one of a call to Docker, the message of the result, or its status code with
what stderr holds. -/
inductive Failure (E : Type) where
  | err (e : E)
  | message (m : String)
  | statusCode (code : Int) (stderr : List UInt8)
  deriving DecidableEq

/-- Where `Build` is: in front of a call to Docker, in the `select`, or returned. -/
inductive Pc (E : Type) where
  | pulling
  | creating
  | attaching
  | starting
  | waiting
  | returned (err : Option (Failure E))
  deriving DecidableEq

/-- The goroutine with `StdCopy`: not started, in a read of the stream, in front of the write of a
frame, or ended. -/
inductive StdCopy where
  | absent
  | reading
  | writing (f : Frame)
  | ended
  deriving DecidableEq

/-- A build: where it is; whether the container runs, or has exited, and what it has written; the
frames that have not been read; the goroutine and the buffers it writes to; and what `ContainerWait`
has sent. -/
structure State (E : Type) where
  pc : Pc E
  started : Bool
  exited : Bool
  wrote : Stream → List UInt8
  unread : List Frame
  copy : StdCopy
  buffer : Stream → List UInt8
  resultC : Option Result
  errC : Option E

/-- The steps: the calls to Docker, with their errors; those of the container and of the daemon;
those of `StdCopy`, which may end at any time; and the two cases of the `select`. -/
inductive Act (E : Type) where
  | pull (err : Option E)
  | create (err : Option E)
  | attach (err : Option E)
  | start (err : Option E)
  | containerWrites (f : Frame)
  | containerExits
  | removed (result : Result)
  | waitFails (err : E)
  | copyReads
  | copyWrites
  | copyEnds
  | result
  | err
  deriving DecidableEq

section

variable {E : Type} [DecidableEq E]

/-- `Build` makes a call, and returns with its error or moves on. -/
def State.call (s : State E) (pc pc' : Pc E) (err : Option E) : Option (State E) :=
  if s.pc = pc then
    some { s with pc := match err with | some e => .returned (some (.err e)) | none => pc' }
  else none

/-- What `Build` returns on a result. -/
def State.outcome (s : State E) (result : Result) : Option (Failure E) :=
  match result.error with
  | some m => some (.message m)
  | none =>
    if result.statusCode ≠ 0 then some (.statusCode result.statusCode (s.buffer .stderr)) else none

/-- A stream has grown. -/
def grow (buffer : Stream → List UInt8) (f : Frame) : Stream → List UInt8 :=
  fun st => buffer st ++ payload st [f]

/-- One step. -/
def step (s : State E) : Act E → Option (State E)
  | .pull err => s.call .pulling .creating err
  | .create err => s.call .creating .attaching err
  | .attach err => s.call .attaching .starting err
  | .start err =>
    (s.call .starting .waiting err).map fun s' =>
      match err with
      | some _ => s'
      | none => { s' with started := true, copy := .reading }
  | .containerWrites f =>
    if s.started = true ∧ s.exited = false then
      some { s with wrote := grow s.wrote f, unread := s.unread ++ [f] }
    else none
  | .containerExits => if s.started = true then some { s with exited := true } else none
  | .removed result =>
    if s.exited = true ∧ s.resultC = none then some { s with resultC := some result } else none
  | .waitFails err => some { s with errC := some err }
  | .copyReads =>
    match s.copy, s.unread with
    | .reading, f :: fs => some { s with copy := .writing f, unread := fs }
    | _, _ => none
  | .copyWrites =>
    match s.copy with
    | .writing f => some { s with copy := .reading, buffer := grow s.buffer f }
    | _ => none
  | .copyEnds => if s.copy = .reading then some { s with copy := .ended } else none
  | .result =>
    match s.resultC with
    | some result =>
      if s.pc = .waiting then some { s with pc := .returned (s.outcome result) } else none
    | none => none
  | .err =>
    match s.errC with
    | some e => if s.pc = .waiting then some { s with pc := .returned (some (.err e)) } else none
    | none => none

/-- `Build` has been called. -/
def State.initial : State E :=
  { pc := .pulling, started := false, exited := false, wrote := fun _ => [], unread := [],
    copy := .absent, buffer := fun _ => [], resultC := none, errC := none }

variable (E) in
/-- `Build`. -/
def build : System (State E) (Act E) :=
  { init := (· = State.initial), step := step }

/-- The frames that are not in the buffers. -/
def State.pending (s : State E) : List Frame :=
  match s.copy with
  | .writing f => f :: s.unread
  | _ => s.unread

/-- The reader that `Build` returns yields what the container wrote to stdout, and nothing is
appended to it. -/
def State.Complete (s : State E) : Prop :=
  s.buffer .stdout = s.wrote .stdout ∧
    ∀ as s', (build E).Run System.Any s as s' → s'.buffer .stdout = s.wrote .stdout

/-- A result of success is taken when no stdout is left on the stream. -/
def Drained (s : State E) (a : Act E) : Prop :=
  a = .result → s.resultC = some ⟨none, 0⟩ → payload .stdout s.pending = []

/-! ## What a step does -/

/-- `Build` has not come to its `select`. -/
def Pc.front : Pc E → Bool
  | .pulling | .creating | .attaching | .starting => true
  | .waiting | .returned _ => false

/-- A step, by what it changes. -/
inductive Next (s : State E) : Act E → State E → Prop
  | moves {a : Act E} {pc : Pc E} (hpc : pc ≠ .returned none)
      (hfront : pc.front = true → s.pc.front = true) : Next s a { s with pc := pc }
  | starts {a : Act E} (hpc : s.pc = .starting) :
      Next s a { s with pc := .waiting, started := true, copy := .reading }
  | writes {a : Act E} {f : Frame} (hstarted : s.started = true) (hexited : s.exited = false) :
      Next s a { s with wrote := grow s.wrote f, unread := s.unread ++ [f] }
  | exits {a : Act E} : Next s a { s with exited := true }
  | removed {a : Act E} {result : Result} (hexited : s.exited = true) :
      Next s a { s with resultC := some result }
  | waitFails {a : Act E} {e : E} : Next s a { s with errC := some e }
  | copyReads {a : Act E} {f : Frame} {fs : List Frame} (hcopy : s.copy = .reading)
      (hunread : s.unread = f :: fs) : Next s a { s with copy := .writing f, unread := fs }
  | copyWrites {a : Act E} {f : Frame} (hcopy : s.copy = .writing f) :
      Next s a { s with copy := .reading, buffer := grow s.buffer f }
  | copyEnds {a : Act E} (hcopy : s.copy = .reading) : Next s a { s with copy := .ended }
  | succeeds (hresult : s.resultC = some ⟨none, 0⟩) :
      Next s .result { s with pc := .returned none }

variable {s s' : State E} {a : Act E}

omit [DecidableEq E] in
/-- `Build` succeeds on a result without an error, with status code 0. -/
theorem outcome_eq_none {result : Result} (h : s.outcome result = none) : result = ⟨none, 0⟩ := by
  obtain ⟨error, statusCode⟩ := result
  cases error with
  | some m => cases h
  | none =>
    by_cases hcode : statusCode = 0
    · rw [hcode]
    · simp [State.outcome, hcode] at h

theorem call_next {pc pc' : Pc E} {err : Option E} (h : s.call pc pc' err = some s')
    (hfront : pc.front = true) (hpc : pc' ≠ .returned none) : Next s a s' := by
  obtain ⟨hs, h⟩ := Option.ite_none_right_eq_some.1 h
  cases h
  have hfront : s.pc.front = true := by rw [hs]; exact hfront
  cases err with
  | some e => exact .moves (by simp) fun _ => hfront
  | none => exact .moves hpc fun _ => hfront

/-- **What a step does.** -/
theorem step_next (h : step s a = some s') : Next s a s' := by
  cases a with
  | pull err => exact call_next h rfl (by simp)
  | create err => exact call_next h rfl (by simp)
  | attach err => exact call_next h rfl (by simp)
  | start err =>
    obtain ⟨t, hcall, rfl⟩ := Option.map_eq_some_iff.1 h
    cases err with
    | some e => exact call_next hcall rfl (by simp)
    | none =>
      obtain ⟨hpc, hcall⟩ := Option.ite_none_right_eq_some.1 hcall
      cases hcall
      exact .starts hpc
  | containerWrites f =>
    obtain ⟨⟨hstarted, hexited⟩, h⟩ := Option.ite_none_right_eq_some.1 h
    cases h
    exact .writes hstarted hexited
  | containerExits =>
    obtain ⟨-, h⟩ := Option.ite_none_right_eq_some.1 h
    cases h
    exact .exits
  | removed result =>
    obtain ⟨⟨hexited, -⟩, h⟩ := Option.ite_none_right_eq_some.1 h
    cases h
    exact .removed hexited
  | waitFails err =>
    cases h
    exact .waitFails
  | copyReads =>
    simp only [step] at h
    split at h
    · next hcopy hunread =>
      cases h
      exact .copyReads hcopy hunread
    · cases h
  | copyWrites =>
    simp only [step] at h
    split at h
    · next hcopy =>
      cases h
      exact .copyWrites hcopy
    · cases h
  | copyEnds =>
    obtain ⟨hcopy, h⟩ := Option.ite_none_right_eq_some.1 h
    cases h
    exact .copyEnds hcopy
  | result =>
    simp only [step] at h
    split at h
    · next result hresult =>
      obtain ⟨-, h⟩ := Option.ite_none_right_eq_some.1 h
      cases h
      cases houtcome : s.outcome result with
      | none =>
        rw [outcome_eq_none houtcome] at hresult
        exact .succeeds hresult
      | some e => exact .moves (by simp) fun hfront => by cases hfront
    · cases h
  | err =>
    simp only [step] at h
    split at h
    · obtain ⟨-, h⟩ := Option.ite_none_right_eq_some.1 h
      cases h
      exact .moves (by simp) fun hfront => by cases hfront
    · cases h

/-! ## What a run keeps -/

theorem payload_append (st : Stream) (fs gs : List Frame) :
    payload st (fs ++ gs) = payload st fs ++ payload st gs := by
  simp [payload]

/-- Nothing is lost between the container and the buffers, the goroutine starts with the container,
and who has been told of a success has been told by a container that has exited. -/
structure Inv (s : State E) : Prop where
  flow : ∀ st, s.wrote st = s.buffer st ++ payload st s.pending
  front : s.pc.front = true → s.copy = .absent
  result : s.resultC.isSome = true → s.exited = true
  returned : s.pc = .returned none → s.exited = true

omit [DecidableEq E] in
theorem initial_inv : Inv (State.initial : State E) :=
  ⟨fun _ => rfl, fun _ => rfl, fun h => (by cases h), fun h => (by cases h)⟩

omit [DecidableEq E] in
/-- The goroutine has been started behind the calls to Docker. -/
theorem Inv.not_front (h : Inv s) (hcopy : s.copy ≠ .absent) : ¬ s.pc.front = true :=
  fun hfront => hcopy (h.front hfront)

omit [DecidableEq E] in
/-- A frame that the container writes comes last. -/
theorem pending_append (s : State E) (f : Frame) (wrote : Stream → List UInt8) :
    { s with wrote := wrote, unread := s.unread ++ [f] : State E }.pending = s.pending ++ [f] := by
  cases hcopy : s.copy <;> simp [State.pending, hcopy]

omit [DecidableEq E] in
/-- **Every step keeps it.** -/
theorem Inv.next (h : Inv s) (hs : Next s a s') : Inv s' := by
  cases hs with
  | moves hpc hfront =>
    exact ⟨h.flow, fun hf => h.front (hfront hf), h.result, fun hr => absurd hr hpc⟩
  | starts hpc =>
    have hcopy : s.copy = .absent := h.front (by rw [hpc]; rfl)
    have hpending : s.pending = s.unread := by simp [State.pending, hcopy]
    refine ⟨fun st => ?_, fun hf => (by cases hf), h.result, fun hr => (by cases hr)⟩
    rw [h.flow st, hpending]
    rfl
  | @writes _ f hstarted hexited =>
    refine ⟨fun st => ?_, h.front, h.result, h.returned⟩
    rw [pending_append, payload_append, ← List.append_assoc, ← h.flow st]
    rfl
  | exits => exact ⟨h.flow, h.front, fun _ => rfl, fun _ => rfl⟩
  | removed hexited => exact ⟨h.flow, h.front, fun _ => hexited, h.returned⟩
  | waitFails => exact ⟨h.flow, h.front, h.result, h.returned⟩
  | copyReads hcopy hunread =>
    refine ⟨fun st => ?_, fun hf => ?_, h.result, h.returned⟩
    · rw [h.flow st]
      simp [State.pending, hcopy, hunread]
    · exact absurd hf (h.not_front (by simp [hcopy]))
  | @copyWrites _ f hcopy =>
    refine ⟨fun st => ?_, fun hf => ?_, h.result, h.returned⟩
    · have hpending : s.pending = [f] ++ s.unread := by simp [State.pending, hcopy]
      rw [h.flow st, hpending, payload_append, ← List.append_assoc]
      rfl
    · exact absurd hf (h.not_front (by simp [hcopy]))
  | copyEnds hcopy =>
    refine ⟨fun st => ?_, fun hf => ?_, h.result, h.returned⟩
    · rw [h.flow st]
      simp [State.pending, hcopy]
    · exact absurd hf (h.not_front (by simp [hcopy]))
  | succeeds hresult =>
    refine ⟨h.flow, fun hf => (by cases hf), h.result, fun _ => h.result ?_⟩
    rw [hresult]
    rfl

omit [DecidableEq E] in
/-- A container that has exited writes nothing, and what is left on the stream becomes less. -/
theorem Next.settled (hs : Next s a s') (h : Inv s) (hexited : s.exited = true) :
    s'.exited = true ∧ s'.wrote = s.wrote ∧ ∃ fs, s.pending = fs ++ s'.pending := by
  cases hs with
  | moves | removed | waitFails | succeeds => exact ⟨hexited, rfl, [], rfl⟩
  | starts hpc =>
    have hcopy : s.copy = .absent := h.front (by rw [hpc]; rfl)
    exact ⟨hexited, rfl, [], by simp [State.pending, hcopy]⟩
  | writes _ hopen =>
    rw [hexited] at hopen
    cases hopen
  | exits => exact ⟨rfl, rfl, [], rfl⟩
  | copyReads hcopy hunread => exact ⟨hexited, rfl, [], by simp [State.pending, hcopy, hunread]⟩
  | @copyWrites _ f hcopy => exact ⟨hexited, rfl, [f], by simp [State.pending, hcopy]⟩
  | copyEnds hcopy => exact ⟨hexited, rfl, [], by simp [State.pending, hcopy]⟩

/-- No stdout is left, and none will come. -/
def State.Dry (s : State E) : Prop := s.exited = true ∧ payload .stdout s.pending = []

omit [DecidableEq E] in
theorem Next.dry (hs : Next s a s') (h : Inv s) (hdry : s.Dry) :
    s'.Dry ∧ s'.wrote = s.wrote := by
  obtain ⟨hexited, hwrote, fs, hpending⟩ := hs.settled h hdry.1
  have hnone := hdry.2
  rw [hpending, payload_append] at hnone
  exact ⟨⟨hexited, (List.append_eq_nil_iff.1 hnone).2⟩, hwrote⟩

/-- **What is dry is complete.** -/
theorem Inv.complete (h : Inv s) (hdry : s.Dry) : s.Complete := by
  have hflow : ∀ t : State E, Inv t → t.Dry → t.buffer .stdout = t.wrote .stdout := by
    intro t ht htdry
    rw [ht.flow, htdry.2, List.append_nil]
  refine ⟨hflow s h hdry, fun as s' hrun => ?_⟩
  have hrun : Inv s' ∧ s'.Dry ∧ s'.wrote = s.wrote := by
    refine hrun.invariant (I := fun t => Inv t ∧ t.Dry ∧ t.wrote = s.wrote) ⟨h, hdry, rfl⟩ ?_
    rintro t b t' ⟨hinv, htdry, hwrote⟩ - hs
    have hnext := step_next hs
    obtain ⟨hdry', hwrote'⟩ := hnext.dry hinv htdry
    exact ⟨hinv.next hnext, hdry', hwrote'.trans hwrote⟩
  rw [hflow s' hrun.1 hrun.2.1, hrun.2.2]

omit [DecidableEq E] in
/-- A step to success is the `select`'s. -/
theorem Next.returns (hs : Next s a s') (h : s'.pc = .returned none) :
    s.pc = .returned none ∨
      a = .result ∧ s.resultC = some ⟨none, 0⟩ ∧ s' = { s with pc := .returned none } := by
  cases hs with
  | moves hpc => exact absurd h hpc
  | starts => cases h
  | writes | exits | removed | waitFails | copyReads | copyWrites | copyEnds => exact .inl h
  | succeeds hresult => exact .inr ⟨rfl, hresult, rfl⟩

/-- **The archive is complete in every run that takes a success when no stdout is left on the
stream**; where some is left, it is not. -/
theorem build_complete_iff (E : Type) [DecidableEq E] :
    (∀ s, (build E).Reaches Drained s → s.pc = .returned none → s.Complete) ∧
    (∀ s s', (build E).Reaches System.Any s → step s .result = some s' → s'.pc = .returned none →
      (s'.Complete ↔ payload .stdout s.pending = [])) := by
  constructor
  · intro s hs hreturned
    have hinv : Inv s ∧ (s.pc = .returned none → s.Dry) := by
      refine hs.invariant (I := fun t => Inv t ∧ (t.pc = .returned none → t.Dry)) ?_ ?_
      · rintro _ rfl
        exact ⟨initial_inv, fun h => by cases h⟩
      · rintro t a t' ⟨ht, hdry⟩ hdrained hstep
        have hnext := step_next hstep
        refine ⟨ht.next hnext, fun hpc => ?_⟩
        rcases hnext.returns hpc with hpast | ⟨rfl, hresult, rfl⟩
        · exact (hnext.dry ht (hdry hpast)).1
        · exact ⟨ht.result (by rw [hresult]; rfl), hdrained rfl hresult⟩
    exact hinv.1.complete (hinv.2 hreturned)
  · intro s s' hs hstep hreturned
    have hinv : Inv s := by
      refine hs.invariant ?_ fun t a t' ht _ hstep => ht.next (step_next hstep)
      rintro _ rfl
      exact initial_inv
    have hnext := step_next hstep
    have hinv' := hinv.next hnext
    have hpending : s'.pending = s.pending := by
      simp only [step] at hstep
      split at hstep
      · obtain ⟨-, hstep⟩ := Option.ite_none_right_eq_some.1 hstep
        cases hstep
        rfl
      · cases hstep
    constructor
    · intro hcomplete
      have hflow := hinv'.flow .stdout
      rw [hcomplete.1, hpending] at hflow
      exact List.self_eq_append_right.1 hflow
    · intro hnone
      exact hinv'.complete ⟨hinv'.returned hreturned, by rw [hpending]; exact hnone⟩

end

/-- **A container that has been removed before its output has been read leaves the archive empty.**
-/
theorem build_incomplete : ∃ as s, (build Unit).Run System.Any .initial as s ∧
    s.pc = .returned none ∧ ¬ s.Complete := by
  let f : Frame := ⟨.stdout, [0x1F, 0x8B]⟩
  have h : (build Unit).Run System.Any .initial
      [.pull none, .create none, .attach none, .start none, .containerWrites f, .containerExits,
        .removed ⟨none, 0⟩, .result] _ := System.run_of_exec rfl
  refine ⟨_, _, h, rfl, fun hcomplete => ?_⟩
  have hempty : ([] : List UInt8) = [0x1F, 0x8B] := hcomplete.1
  cases hempty

end UAssign.Gobuild

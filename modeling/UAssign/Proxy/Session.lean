import UAssign.Lib.Fairness

/-!
# The end of a session

`Proxy` of `pkg/docker/proxy/proxy.go`, once the exec is attached: an `errgroup` with the input
pump, the two output pumps and a goroutine that closes both connections when the group's context
ends. The first end of a pump, or of the context, leads to the end of all (`proxy_tears_down`).

A pump that reads or writes an open connection goes on when the world lets it; on a connection that
has been closed, it fails. What is buffered may still be read. `proxyInputFunc` panics on some
messages, on which the process ends; they are no messages here.
-/

namespace UAssign.Proxy.Session

/-! ## Goroutines -/

/-- The output pumps, by their names. -/
inductive Pipe where
  | stdout
  | stderr
  deriving DecidableEq

/-- The goroutines of the group, and `Proxy` in `g.Wait`. -/
inductive Goroutine where
  | input
  | output (p : Pipe)
  | closer
  | main
  deriving DecidableEq

/-- Where `proxyInputFunc` is: in `ReadJSON`, in `Write`, at the `i`-th try to resize, or returned;
with `ended`, the group has been told. -/
inductive Input (E : Type) where
  | reading
  | writing
  | resizing (i : Nat)
  | returned (err : E)
  | ended
  deriving DecidableEq

/-- Where `proxyOutputFunc` is: in the first `WriteJSON`, in `Scan`, in the loop's `WriteJSON`, or
returned. -/
inductive Output (E : Type) where
  | wiping
  | scanning
  | writing
  | returned (err : E)
  | ended
  deriving DecidableEq

/-- Where the goroutine that closes the connections is. -/
inductive Closer (E : Type) where
  | waiting
  | closingHj
  | closingConn
  | returned (err : Option E)
  | ended
  deriving DecidableEq

/-- Where `Proxy` is. -/
inductive Main (E : Type) where
  | waiting
  | returned (err : Option E)
  deriving DecidableEq

/-- A session: its goroutines; the group's context, its error and what it has been told, the oldest
first; and which connections have been closed. -/
structure State (E : Type) where
  input : Input E
  output : Pipe → Output E
  closer : Closer E
  main : Main E
  cancelled : Bool
  err : Option E
  reports : List (Option E)
  hjClosed : Bool
  connClosed : Bool

/-- The messages of a client, by what the input pump does with them. -/
inductive Message where
  | stdin
  | setSize
  | other
  deriving DecidableEq

/-- The steps: those of the input pump and of an output pump, a goroutine that tells the group its
error, those of the closer, the end of `g.Wait`; the end of the context around the group; and
somebody else who closes the client connection. -/
inductive Act (E : Type) where
  | message (m : Message)
  | inputFails (err : E)
  | wrote
  | resized (ok : Bool)
  | wiped (p : Pipe)
  | scanned (p : Pipe) (err : Option E)
  | scanEnds (p : Pipe)
  | written (p : Pipe)
  | outputFails (p : Pipe) (err : E)
  | report (g : Goroutine)
  | wake
  | closeHj
  | closeConn (err : Option E)
  | wait
  | cancel
  | expire
  deriving DecidableEq

/-- Who takes a step. -/
def Act.owner {E : Type} : Act E → Option Goroutine
  | .message _ | .inputFails _ | .wrote | .resized _ => some .input
  | .wiped p | .scanned p _ | .scanEnds p | .written p | .outputFails p _ => some (.output p)
  | .report g => some g
  | .wake | .closeHj | .closeConn _ => some .closer
  | .wait => some .main
  | .cancel | .expire => none

namespace State

variable {E : Type}

/-- An output pump has moved. -/
def put (s : State E) (p : Pipe) (o : Output E) : State E :=
  { s with output := fun q => if q = p then o else s.output q }

/-- The group of `errgroup.WithContext` is told of a goroutine's end: the first error is the
group's, and ends its context. -/
def record (s : State E) (err : Option E) : State E :=
  { s with
    err := s.err.or err
    cancelled := s.cancelled || err.isSome
    reports := s.reports ++ [err] }

/-- All goroutines of the group have ended. -/
def AllEnded (s : State E) : Prop :=
  s.input = .ended ∧ (∀ p, s.output p = .ended) ∧ s.closer = .ended

instance [DecidableEq E] (s : State E) : Decidable s.AllEnded :=
  decidable_of_iff (s.input = .ended ∧ (s.output .stdout = .ended ∧ s.output .stderr = .ended) ∧
    s.closer = .ended) <| by
      refine and_congr_right fun _ => and_congr_left fun _ => ⟨fun h p => ?_, fun h => ⟨h _, h _⟩⟩
      cases p with
      | stdout => exact h.1
      | stderr => exact h.2

/-- A goroutine's end is told. -/
def report (s : State E) : Goroutine → Option (State E)
  | .input =>
    match s.input with
    | .returned err => some ({ s with input := .ended }.record (some err))
    | _ => none
  | .output p =>
    match s.output p with
    | .returned err => some ((s.put p .ended).record (some err))
    | _ => none
  | .closer =>
    match s.closer with
    | .returned err => some ({ s with closer := .ended }.record err)
    | _ => none
  | .main => none

end State

section

variable {E : Type} [DecidableEq E] (eof : E) (isClose : E → Bool)

/-- The steps of the input pump, -/
def inputStep (s : State E) : Act E → Option (State E)
  | .message m =>
    if s.input = .reading ∧ s.connClosed = false then
      match m with
      | .stdin => some { s with input := .writing }
      | .setSize => some { s with input := .resizing 0 }
      | .other => some s
    else none
  | .inputFails err =>
    if s.input = .reading ∨ s.input = .writing then some { s with input := .returned err } else none
  | .wrote =>
    if s.input = .writing ∧ s.hjClosed = false then some { s with input := .reading } else none
  | .resized ok =>
    match s.input with
    | .resizing i =>
      if ok = false ∧ i + 1 < 5 then some { s with input := .resizing (i + 1) }
      else some { s with input := .reading }
    | _ => none
  | _ => none

/-- of an output pump, -/
def outputStep (s : State E) : Act E → Option (State E)
  | .wiped p =>
    if s.output p = .wiping ∧ s.connClosed = false then some (s.put p .scanning) else none
  | .scanned p err =>
    if s.output p = .scanning then
      match err with
      | some e => some (s.put p (.returned e))
      | none => some (s.put p .writing)
    else none
  | .scanEnds p => if s.output p = .scanning then some (s.put p (.returned eof)) else none
  | .written p =>
    if s.output p = .writing ∧ s.connClosed = false then some (s.put p .scanning) else none
  | .outputFails p err =>
    if s.output p = .wiping ∨ s.output p = .writing then some (s.put p (.returned err)) else none
  | _ => none

/-- of the closer, -/
def closerStep (s : State E) : Act E → Option (State E)
  | .wake =>
    if s.closer = .waiting ∧ s.cancelled = true then some { s with closer := .closingHj } else none
  | .closeHj =>
    if s.closer = .closingHj then some { s with closer := .closingConn, hjClosed := true } else none
  | .closeConn err =>
    if s.closer = .closingConn then some { s with closer := .returned err, connClosed := true }
    else none
  | _ => none

/-- and all of them. `g.Wait` ends the group's context, and an error that is a close is none. -/
def step (s : State E) : Act E → Option (State E)
  | .report g => s.report g
  | .wait =>
    if s.main = .waiting ∧ s.AllEnded then
      some { s with
        main := .returned (s.err.filter fun e => !isClose e)
        cancelled := true
        hjClosed := true }
    else none
  | .cancel => some { s with cancelled := true }
  | .expire => some { s with connClosed := true }
  | a =>
    match a.owner with
    | some .input => inputStep s a
    | some (.output _) => outputStep eof s a
    | _ => closerStep s a

/-- The exec has been attached; the context may have ended, and the client connection may have been
closed. -/
def State.initial (cancelled connClosed : Bool) : State E :=
  { input := .reading, output := fun _ => .wiping, closer := .waiting, main := .waiting,
    cancelled := cancelled, err := none, reports := [], hjClosed := false,
    connClosed := connClosed }

/-- `Proxy`. -/
def proxy : System (State E) (Act E) :=
  { init := fun s => ∃ cancelled connClosed, s = .initial cancelled connClosed
    step := step eof isClose }

end

/-! ## What a step does -/

/-- How much a pump still does on closed connections, -/
def Input.rank {E : Type} : Input E → Nat
  | .reading | .writing => 2
  | .resizing i => 3 + (5 - i)
  | .returned _ => 1
  | .ended => 0

@[inherit_doc Input.rank]
def Output.rank {E : Type} : Output E → Nat
  | .scanning => 3
  | .wiping | .writing => 2
  | .returned _ => 1
  | .ended => 0

/-- the closer, -/
def Closer.rank {E : Type} : Closer E → Nat
  | .waiting => 4
  | .closingHj => 3
  | .closingConn => 2
  | .returned _ => 1
  | .ended => 0

/-- and `Proxy`. -/
def Main.rank {E : Type} : Main E → Nat
  | .waiting => 1
  | .returned _ => 0

/-- A step, by who takes it. The moves of the pumps are known by what they do on closed
connections. -/
inductive Next {E : Type} (isClose : E → Bool) (s : State E) : Option Goroutine → State E → Prop
  | input {i : Input E} (hi : 1 ≤ i.rank) (hs : 2 ≤ s.input.rank)
      (hrank : s.hjClosed = true → s.connClosed = true → i.rank < s.input.rank) :
      Next isClose s (some .input) { s with input := i }
  | output {p : Pipe} {o : Output E} (ho : 1 ≤ o.rank) (hs : 2 ≤ (s.output p).rank)
      (hrank : s.connClosed = true → o.rank < (s.output p).rank) :
      Next isClose s (some (.output p)) (s.put p o)
  | inputEnds {err : E} (hs : s.input = .returned err) :
      Next isClose s (some .input) ({ s with input := .ended }.record (some err))
  | outputEnds {p : Pipe} {err : E} (hs : s.output p = .returned err) :
      Next isClose s (some (.output p)) ((s.put p .ended).record (some err))
  | closerEnds {err : Option E} (hs : s.closer = .returned err) :
      Next isClose s (some .closer) ({ s with closer := .ended }.record err)
  | wake (hs : s.closer = .waiting) (hcancelled : s.cancelled = true) :
      Next isClose s (some .closer) { s with closer := .closingHj }
  | closeHj (hs : s.closer = .closingHj) :
      Next isClose s (some .closer) { s with closer := .closingConn, hjClosed := true }
  | closeConn {err : Option E} (hs : s.closer = .closingConn) :
      Next isClose s (some .closer) { s with closer := .returned err, connClosed := true }
  | wait (hs : s.main = .waiting) (hall : s.AllEnded) :
      Next isClose s (some .main)
        { s with
          main := .returned (s.err.filter fun e => !isClose e)
          cancelled := true
          hjClosed := true }
  | cancel : Next isClose s none { s with cancelled := true }
  | expire : Next isClose s none { s with connClosed := true }

section

variable {E : Type} [DecidableEq E] {eof : E} {isClose : E → Bool} {s s' : State E} {a : Act E}

theorem inputStep_next (h : inputStep s a = some s') (ha : a.owner = some .input) :
    Next isClose s (some .input) s' := by
  cases a with
  | message m =>
    obtain ⟨⟨hreading, hopen⟩, h⟩ := Option.ite_none_right_eq_some.1 h
    have hclosed : s.connClosed = true → ∀ n m : Nat, n < m := fun hc => by
      rw [hopen] at hc
      cases hc
    have hs : 2 ≤ s.input.rank := by rw [hreading]; exact Nat.le_refl 2
    cases m with
    | stdin =>
      cases h
      exact .input (Nat.le_succ 1) hs fun _ hc => hclosed hc _ _
    | setSize =>
      cases h
      exact .input (i := .resizing 0) (Nat.le_add_left 1 7) hs fun _ hc => hclosed hc _ _
    | other =>
      cases h
      exact .input (i := s.input) (Nat.le_of_succ_le hs) hs fun _ hc => hclosed hc _ _
  | inputFails err =>
    obtain ⟨hs, h⟩ := Option.ite_none_right_eq_some.1 h
    cases h
    have hrank : s.input.rank = 2 := by rcases hs with hs | hs <;> rw [hs] <;> rfl
    exact .input (Nat.le_refl 1) (by omega) fun _ _ => by rw [hrank]; exact Nat.lt_succ_self 1
  | wrote =>
    obtain ⟨⟨hwriting, hopen⟩, h⟩ := Option.ite_none_right_eq_some.1 h
    cases h
    refine .input (Nat.le_succ 1) (by rw [hwriting]; exact Nat.le_refl 2) fun hc => ?_
    rw [hopen] at hc
    cases hc
  | resized ok =>
    simp only [inputStep] at h
    split at h
    · next i hi =>
      have hrank : s.input.rank = 3 + (5 - i) := by rw [hi]; rfl
      split at h
      · next hnext =>
        cases h
        refine .input (i := .resizing (i + 1)) ?_ (by omega) fun _ _ => ?_
        · show 1 ≤ 3 + (5 - (i + 1))
          omega
        · rw [hrank]
          show 3 + (5 - (i + 1)) < 3 + (5 - i)
          omega
      · cases h
        refine .input (Nat.le_succ 1) (by omega) fun _ _ => ?_
        rw [hrank]
        exact Nat.lt_of_lt_of_le (Nat.lt_succ_self 2) (Nat.le_add_right 3 _)
    · cases h
  | wiped | scanned | scanEnds | written | outputFails => cases h
  | report | wake | closeHj | closeConn | wait | cancel | expire => cases h

theorem outputStep_next {p : Pipe} (h : outputStep eof s a = some s')
    (ha : a.owner = some (.output p)) : Next isClose s (some (.output p)) s' := by
  cases a with
  | wiped q =>
    cases ha
    obtain ⟨⟨hwiping, hopen⟩, h⟩ := Option.ite_none_right_eq_some.1 h
    cases h
    refine .output (Nat.le_add_left 1 2) (by rw [hwiping]; exact Nat.le_refl 2) fun hc => ?_
    rw [hopen] at hc
    cases hc
  | scanned q err =>
    cases ha
    obtain ⟨hscanning, h⟩ := Option.ite_none_right_eq_some.1 h
    have hs : (s.output p).rank = 3 := by rw [hscanning]; rfl
    cases err with
    | some e =>
      cases h
      exact .output (Nat.le_refl 1) (by omega) fun _ => by rw [hs]; exact (by decide : 1 < 3)
    | none =>
      cases h
      exact .output (Nat.le_succ 1) (by omega) fun _ => by rw [hs]; exact Nat.lt_succ_self 2
  | scanEnds q =>
    cases ha
    obtain ⟨hscanning, h⟩ := Option.ite_none_right_eq_some.1 h
    cases h
    have hs : (s.output p).rank = 3 := by rw [hscanning]; rfl
    exact .output (Nat.le_refl 1) (by omega) fun _ => by rw [hs]; exact (by decide : 1 < 3)
  | written q =>
    cases ha
    obtain ⟨⟨hwriting, hopen⟩, h⟩ := Option.ite_none_right_eq_some.1 h
    cases h
    refine .output (Nat.le_add_left 1 2) (by rw [hwriting]; exact Nat.le_refl 2) fun hc => ?_
    rw [hopen] at hc
    cases hc
  | outputFails q err =>
    cases ha
    obtain ⟨hs, h⟩ := Option.ite_none_right_eq_some.1 h
    cases h
    have hrank : (s.output p).rank = 2 := by rcases hs with hs | hs <;> rw [hs] <;> rfl
    exact .output (Nat.le_refl 1) (by omega) fun _ => by rw [hrank]; exact Nat.lt_succ_self 1
  | message | inputFails | wrote | resized => cases ha
  | report | wake | closeHj | closeConn | wait | cancel | expire => cases h

theorem closerStep_next (h : closerStep s a = some s') : Next isClose s (some .closer) s' := by
  cases a with
  | wake =>
    obtain ⟨⟨hs, hcancelled⟩, h⟩ := Option.ite_none_right_eq_some.1 h
    cases h
    exact .wake hs hcancelled
  | closeHj =>
    obtain ⟨hs, h⟩ := Option.ite_none_right_eq_some.1 h
    cases h
    exact .closeHj hs
  | closeConn err =>
    obtain ⟨hs, h⟩ := Option.ite_none_right_eq_some.1 h
    cases h
    exact .closeConn hs
  | message | inputFails | wrote | resized | wiped | scanned => cases h
  | scanEnds | written | outputFails | report | wait | cancel | expire => cases h

omit [DecidableEq E] in
theorem report_next {g : Goroutine} (h : s.report g = some s') : Next isClose s (some g) s' := by
  cases g with
  | input =>
    simp only [State.report] at h
    split at h
    · next err hs =>
      cases h
      exact .inputEnds hs
    · cases h
  | output p =>
    simp only [State.report] at h
    split at h
    · next err hs =>
      cases h
      exact .outputEnds hs
    · cases h
  | closer =>
    simp only [State.report] at h
    split at h
    · next err hs =>
      cases h
      exact .closerEnds hs
    · cases h
  | main => cases h

/-- **What a step does.** -/
theorem step_next (h : step eof isClose s a = some s') : Next isClose s a.owner s' := by
  cases a with
  | message m => exact inputStep_next (a := .message m) h rfl
  | inputFails err => exact inputStep_next (a := .inputFails err) h rfl
  | wrote => exact inputStep_next (a := .wrote) h rfl
  | resized ok => exact inputStep_next (a := .resized ok) h rfl
  | wiped p =>
    have h : outputStep eof s (.wiped p) = some s' := h
    exact outputStep_next h rfl
  | scanned p err =>
    have h : outputStep eof s (.scanned p err) = some s' := h
    exact outputStep_next h rfl
  | scanEnds p =>
    have h : outputStep eof s (.scanEnds p) = some s' := h
    exact outputStep_next h rfl
  | written p =>
    have h : outputStep eof s (.written p) = some s' := h
    exact outputStep_next h rfl
  | outputFails p err =>
    have h : outputStep eof s (.outputFails p err) = some s' := h
    exact outputStep_next h rfl
  | report g => exact report_next h
  | wake => exact closerStep_next (a := .wake) h
  | closeHj => exact closerStep_next (a := .closeHj) h
  | closeConn err => exact closerStep_next (a := .closeConn err) h
  | wait =>
    obtain ⟨⟨hs, hall⟩, h⟩ := Option.ite_none_right_eq_some.1 h
    cases h
    exact .wait hs hall
  | cancel =>
    cases h
    exact .cancel
  | expire =>
    cases h
    exact .expire

/-! ## The invariant -/

/-- What a session keeps: the group's error is the first that it was told; a pump that has ended has
ended the group's context; the closer has done what it is past; and `Proxy` returns behind all
goroutines, with the group's error unless that is a close. -/
structure Inv (isClose : E → Bool) (s : State E) : Prop where
  err : s.err = s.reports.findSome? id
  input : s.input = .ended → s.cancelled = true
  output : ∀ p, s.output p = .ended → s.cancelled = true
  closer : s.closer.rank ≤ 3 → s.cancelled = true
  hj : s.closer.rank ≤ 2 → s.hjClosed = true
  conn : s.closer.rank ≤ 1 → s.connClosed = true
  main : ∀ r, s.main = .returned r → s.AllEnded ∧ r = s.err.filter fun e => !isClose e

omit [DecidableEq E] in
theorem State.initial_inv (cancelled connClosed : Bool) :
    Inv isClose (State.initial cancelled connClosed : State E) :=
  ⟨rfl, fun h => (by cases h), fun p h => (by cases h), fun h => absurd h (by decide : ¬ 4 ≤ 3),
    fun h => absurd h (by decide : ¬ 4 ≤ 2), fun h => absurd h (by decide : ¬ 4 ≤ 1),
    fun r h => (by cases h)⟩

omit [DecidableEq E] in
/-- The error that the group has first. -/
theorem record_err (h : s.err = s.reports.findSome? id) (err : Option E) :
    (s.record err).err = (s.record err).reports.findSome? id := by
  show s.err.or err = (s.reports ++ [err]).findSome? id
  rw [List.findSome?_append, ← h]
  cases err <;> rfl

omit [DecidableEq E] in
/-- **Every step keeps it.** -/
theorem Inv.next {g : Option Goroutine} (h : Inv isClose s) (hs : Next isClose s g s') :
    Inv isClose s' := by
  cases hs with
  | @input i hi hlive _ =>
    refine ⟨h.err, fun hended => ?_, h.output, h.closer, h.hj, h.conn, fun r hr => ?_⟩
    · have hended : i = .ended := hended
      rw [hended] at hi
      exact absurd hi (by decide : ¬ 1 ≤ 0)
    · rw [(h.main r hr).1.1] at hlive
      exact absurd hlive (by decide : ¬ 2 ≤ 0)
  | @output p o ho hlive _ =>
    refine ⟨h.err, h.input, fun q hended => ?_, h.closer, h.hj, h.conn, fun r hr => ?_⟩
    · have hended : (if q = p then o else s.output q) = .ended := hended
      split at hended
      · rw [hended] at ho
        exact absurd ho (by decide : ¬ 1 ≤ 0)
      · exact h.output q hended
    · rw [(h.main r hr).1.2.1 p] at hlive
      exact absurd hlive (by decide : ¬ 2 ≤ 0)
  | inputEnds hs =>
    refine ⟨record_err h.err _, fun _ => Bool.or_true _, fun _ _ => Bool.or_true _,
      fun _ => Bool.or_true _, h.hj, h.conn, fun r hr => ?_⟩
    have hended := (h.main r hr).1.1
    rw [hs] at hended
    cases hended
  | @outputEnds p err hs =>
    refine ⟨record_err (s := s.put p .ended) h.err _, fun _ => Bool.or_true _,
      fun _ _ => Bool.or_true _, fun _ => Bool.or_true _, h.hj, h.conn, fun r hr => ?_⟩
    have hended := (h.main r hr).1.2.1 p
    rw [hs] at hended
    cases hended
  | @closerEnds err hs =>
    have hrank : s.closer.rank = 1 := by rw [hs]; rfl
    have hcancelled : s.cancelled = true := h.closer (by omega)
    refine ⟨record_err h.err _, fun _ => ?_, fun _ _ => ?_, fun _ => ?_, fun _ => h.hj (by omega),
      fun _ => h.conn (by omega), fun r hr => ?_⟩
    · show (s.cancelled || err.isSome) = true
      rw [hcancelled, Bool.true_or]
    · show (s.cancelled || err.isSome) = true
      rw [hcancelled, Bool.true_or]
    · show (s.cancelled || err.isSome) = true
      rw [hcancelled, Bool.true_or]
    · have hended := (h.main r hr).1.2.2
      rw [hs] at hended
      cases hended
  | wake hs hcancelled =>
    refine ⟨h.err, h.input, h.output, fun _ => hcancelled,
      fun h' => absurd h' (by decide : ¬ 3 ≤ 2), fun h' => absurd h' (by decide : ¬ 3 ≤ 1),
      fun r hr => ?_⟩
    have hended := (h.main r hr).1.2.2
    rw [hs] at hended
    cases hended
  | closeHj hs =>
    have hrank : s.closer.rank = 3 := by rw [hs]; rfl
    refine ⟨h.err, h.input, h.output, fun _ => h.closer (by omega), fun _ => rfl,
      fun h' => absurd h' (by decide : ¬ 2 ≤ 1), fun r hr => ?_⟩
    have hended := (h.main r hr).1.2.2
    rw [hs] at hended
    cases hended
  | closeConn hs =>
    have hrank : s.closer.rank = 2 := by rw [hs]; rfl
    refine ⟨h.err, h.input, h.output, fun _ => h.closer (by omega), fun _ => h.hj (by omega),
      fun _ => rfl, fun r hr => ?_⟩
    have hended := (h.main r hr).1.2.2
    rw [hs] at hended
    cases hended
  | wait hs hall =>
    refine ⟨h.err, fun _ => rfl, fun _ _ => rfl, fun _ => rfl, fun _ => rfl, h.conn, fun r hr => ?_⟩
    cases hr
    exact ⟨hall, rfl⟩
  | cancel => exact ⟨h.err, fun _ => rfl, fun _ _ => rfl, fun _ => rfl, h.hj, h.conn, h.main⟩
  | expire => exact ⟨h.err, h.input, h.output, h.closer, h.hj, fun _ => rfl, h.main⟩

/-! ## Who is ready -/

/-- A goroutine is ready if it need not wait for anybody: it has returned, what it reads or writes
has been closed, its request ends with the context, or what it waits for has happened. -/
def Ready : Goroutine → State E → Prop
  | .input, s =>
    match s.input with
    | .reading => s.connClosed = true
    | .writing => s.hjClosed = true
    | .resizing _ => s.cancelled = true
    | .returned _ => True
    | .ended => False
  | .output p, s =>
    match s.output p with
    | .wiping | .writing => s.connClosed = true
    | .scanning => s.hjClosed = true
    | .returned _ => True
    | .ended => False
  | .closer, s =>
    match s.closer with
    | .waiting => s.cancelled = true
    | .closingHj | .closingConn | .returned _ => True
    | .ended => False
  | .main, s => s.main = .waiting ∧ s.AllEnded

/-- Who is ready can take a step. -/
theorem Ready.enabled {g : Goroutine} (h : Ready g s) :
    ∃ a s', a.owner = some g ∧ step eof isClose s a = some s' := by
  cases g with
  | input =>
    simp only [Ready] at h
    cases hi : s.input with
    | reading => exact ⟨.inputFails eof, _, rfl, if_pos (.inl hi)⟩
    | writing => exact ⟨.inputFails eof, _, rfl, if_pos (.inr hi)⟩
    | resizing i =>
      refine ⟨.resized true, { s with input := .reading }, rfl, ?_⟩
      simp [step, Act.owner, inputStep, hi]
    | returned err =>
      have hreport : s.report .input = some ({ s with input := .ended }.record (some err)) := by
        simp only [State.report, hi]
      exact ⟨.report .input, _, rfl, hreport⟩
    | ended =>
      rw [hi] at h
      exact h.elim
  | output p =>
    simp only [Ready] at h
    cases ho : s.output p with
    | wiping => exact ⟨.outputFails p eof, _, rfl, if_pos (.inl ho)⟩
    | writing => exact ⟨.outputFails p eof, _, rfl, if_pos (.inr ho)⟩
    | scanning => exact ⟨.scanEnds p, _, rfl, if_pos ho⟩
    | returned err =>
      have hreport : s.report (.output p) = some ((s.put p .ended).record (some err)) := by
        simp only [State.report, ho]
      exact ⟨.report (.output p), _, rfl, hreport⟩
    | ended =>
      rw [ho] at h
      exact h.elim
  | closer =>
    simp only [Ready] at h
    cases hc : s.closer with
    | waiting =>
      rw [hc] at h
      exact ⟨.wake, _, rfl, if_pos ⟨hc, h⟩⟩
    | closingHj => exact ⟨.closeHj, _, rfl, if_pos hc⟩
    | closingConn => exact ⟨.closeConn none, _, rfl, if_pos hc⟩
    | returned err =>
      have hreport : s.report .closer = some ({ s with closer := .ended }.record err) := by
        simp only [State.report, hc]
      exact ⟨.report .closer, _, rfl, hreport⟩
    | ended =>
      rw [hc] at h
      exact h.elim
  | main => exact ⟨.wait, _, rfl, if_pos h⟩

/-- A pump has returned. -/
def State.PumpReturned (s : State E) : Prop :=
  s.input.rank ≤ 1 ∨ ∃ p, (s.output p).rank ≤ 1

/-- Both connections have been closed. -/
def State.Closed (s : State E) : Prop := s.hjClosed = true ∧ s.connClosed = true

/-! ## The end of all -/

omit [DecidableEq E] in
/-- What has happened stays so. -/
theorem Next.mono {g : Option Goroutine} (hs : Next isClose s g s') :
    (s.cancelled = true → s'.cancelled = true) ∧ (s.hjClosed = true → s'.hjClosed = true) ∧
      (s.connClosed = true → s'.connClosed = true) := by
  cases hs with
  | inputEnds | outputEnds | closerEnds =>
    refine ⟨fun h => ?_, id, id⟩
    show (s.cancelled || _) = true
    rw [h, Bool.true_or]
  | input | output | wake => exact ⟨id, id, id⟩
  | closeHj => exact ⟨id, fun _ => rfl, id⟩
  | closeConn => exact ⟨id, id, fun _ => rfl⟩
  | wait => exact ⟨fun _ => rfl, fun _ => rfl, id⟩
  | cancel => exact ⟨fun _ => rfl, id, id⟩
  | expire => exact ⟨id, id, fun _ => rfl⟩

omit [DecidableEq E] in
/-- What a goroutine does changes only where it is itself. -/
theorem Next.frame {g : Option Goroutine} (hs : Next isClose s g s') :
    (g ≠ some .input → s'.input = s.input) ∧
      (∀ p, g ≠ some (.output p) → s'.output p = s.output p) ∧
      (g ≠ some .closer → s'.closer = s.closer) ∧ (g ≠ some .main → s'.main = s.main) := by
  cases hs with
  | input | inputEnds =>
    exact ⟨fun h => absurd rfl h, fun _ _ => rfl, fun _ => rfl, fun _ => rfl⟩
  | output | outputEnds =>
    refine ⟨fun _ => rfl, fun q hq => if_neg fun h => hq ?_, fun _ => rfl, fun _ => rfl⟩
    rw [h]
  | closerEnds | wake | closeHj | closeConn =>
    exact ⟨fun _ => rfl, fun _ _ => rfl, fun h => absurd rfl h, fun _ => rfl⟩
  | wait => exact ⟨fun _ => rfl, fun _ _ => rfl, fun _ => rfl, fun h => absurd rfl h⟩
  | cancel | expire => exact ⟨fun _ => rfl, fun _ _ => rfl, fun _ => rfl, fun _ => rfl⟩

omit [DecidableEq E] in
/-- Who has returned has no other step than to tell the group. -/
theorem Next.input_ends (hs : Next isClose s (some .input) s') (h : s.input.rank ≤ 1) :
    s'.cancelled = true ∧ s'.input = .ended := by
  cases hs with
  | input _ hlive _ => omega
  | inputEnds => exact ⟨Bool.or_true _, rfl⟩

omit [DecidableEq E] in
@[inherit_doc Next.input_ends]
theorem Next.output_ends {p : Pipe} (hs : Next isClose s (some (.output p)) s')
    (h : (s.output p).rank ≤ 1) : s'.cancelled = true ∧ s'.output p = .ended := by
  cases hs with
  | output _ hlive _ => omega
  | outputEnds => exact ⟨Bool.or_true _, if_pos rfl⟩

omit [DecidableEq E] in
/-- The closer's steps. -/
theorem Next.closer_lt (hs : Next isClose s (some .closer) s') :
    s'.closer.rank < s.closer.rank := by
  cases hs with
  | closerEnds hs => rw [hs]; exact Nat.lt_succ_self 0
  | wake hs => rw [hs]; exact Nat.lt_succ_self 3
  | closeHj hs => rw [hs]; exact Nat.lt_succ_self 2
  | closeConn hs => rw [hs]; exact Nat.lt_succ_self 1

/-- What is left to do on closed connections. -/
def State.rank (s : State E) : Nat :=
  s.input.rank + (s.output .stdout).rank + (s.output .stderr).rank + s.closer.rank + s.main.rank

omit [DecidableEq E] in
/-- **On closed connections, every step is one of a finite number.** -/
theorem Next.rank_lt {g : Goroutine} (hs : Next isClose s (some g) s') (hclosed : s.Closed) :
    s'.rank < s.rank := by
  obtain ⟨hinput, houtput, hcloser, hmain⟩ := hs.frame
  unfold State.rank
  cases g with
  | input =>
    rw [houtput .stdout (by simp), houtput .stderr (by simp), hcloser (by simp), hmain (by simp)]
    have hlt : s'.input.rank < s.input.rank := by
      cases hs with
      | input _ _ hrank => exact hrank hclosed.1 hclosed.2
      | inputEnds hs => rw [hs]; exact Nat.lt_succ_self 0
    omega
  | output p =>
    have hlt : (s'.output p).rank < (s.output p).rank := by
      cases hs with
      | output _ _ hrank =>
        simp only [State.put, if_true]
        exact hrank hclosed.2
      | outputEnds hs =>
        rw [hs]
        simp only [State.record, State.put, if_true]
        exact Nat.lt_succ_self 0
    rw [hinput (by simp), hcloser (by simp), hmain (by simp)]
    cases p with
    | stdout =>
      rw [houtput .stderr (by simp)]
      omega
    | stderr =>
      rw [houtput .stdout (by simp)]
      omega
  | closer =>
    rw [hinput (by simp), houtput .stdout (by simp), houtput .stderr (by simp), hmain (by simp)]
    have := hs.closer_lt
    omega
  | main =>
    rw [hinput (by simp), houtput .stdout (by simp), houtput .stderr (by simp), hcloser (by simp)]
    have hlt : s'.main.rank < s.main.rank := by
      cases hs with
      | wait hs => rw [hs]; exact Nat.lt_succ_self 0
    omega

/-- Somebody who is ready on closed connections. -/
def State.helper (s : State E) : Goroutine :=
  if s.input ≠ .ended then .input
  else if s.output .stdout ≠ .ended then .output .stdout
  else if s.output .stderr ≠ .ended then .output .stderr
  else if s.closer ≠ .ended then .closer
  else .main

theorem State.helper_ready (hclosed : s.Closed) (hcancelled : s.cancelled = true)
    (hmain : s.main = .waiting) : Ready s.helper s := by
  have houtput : ∀ p, s.output p ≠ .ended → Ready (.output p) s := by
    intro p hp
    simp only [Ready]
    cases ho : s.output p with
    | wiping | writing => exact hclosed.2
    | scanning => exact hclosed.1
    | returned err => trivial
    | ended => exact absurd ho hp
  unfold State.helper
  split
  · next hi =>
    simp only [Ready]
    cases hinput : s.input with
    | reading => exact hclosed.2
    | writing => exact hclosed.1
    | resizing i => exact hcancelled
    | returned err => trivial
    | ended => exact absurd hinput hi
  · next hi =>
    split
    · next ho => exact houtput _ ho
    · next ho =>
      split
      · next he => exact houtput _ he
      · next he =>
        split
        · next hc =>
          simp only [Ready]
          cases hcloser : s.closer with
          | waiting => exact hcancelled
          | closingHj | closingConn | returned err => trivial
          | ended => exact absurd hcloser hc
        · next hc =>
          refine ⟨hmain, not_not.1 hi, fun p => ?_, not_not.1 hc⟩
          cases p with
          | stdout => exact not_not.1 ho
          | stderr => exact not_not.1 he

/-- The states of a trace keep the invariant. -/
theorem trace_inv (σ : (proxy eof isClose).Trace) (n : Nat) : Inv isClose (σ.state n) := by
  refine (σ.reaches n).invariant ?_ fun s a s' h _ hs => h.next (step_next hs)
  rintro _ ⟨cancelled, connClosed, rfl⟩
  exact State.initial_inv cancelled connClosed

variable {σ : (proxy eof isClose).Trace} {n : Nat}

/-- **A pump that has returned ends the context.** -/
theorem cancelled_of_pump (hfair : σ.Fair Ready Act.owner) (h : (σ.state n).PumpReturned) :
    ∃ m, n ≤ m ∧ (σ.state m).cancelled = true := by
  rcases h with h | ⟨p, h⟩
  · refine hfair.leadsTo (fun s => Inv isClose s ∧ s.input.rank ≤ 1) (fun s => s.cancelled = true)
      (fun _ => 0) (fun _ => .input) ?_ ?_ ?_ ⟨trace_inv σ n, h⟩
    · rintro s a s' ⟨hinv, hrank⟩ hs
      have hnext := step_next hs
      refine ⟨hinv.next hnext, ?_⟩
      by_cases howner : a.owner = some .input
      · rw [howner] at hnext
        rw [(hnext.input_ends hrank).2]
        exact Nat.zero_le 1
      · rwa [hnext.frame.1 howner]
    · rintro s ⟨hinv, hrank⟩ hopen
      simp only [Ready]
      cases hi : s.input with
      | returned err => trivial
      | ended => exact absurd (hinv.input hi) hopen
      | reading | writing | resizing i =>
        rw [hi] at hrank
        simp only [Input.rank] at hrank
        omega
    · rintro s a s' ⟨-, hrank⟩ - hs
      by_cases howner : a.owner = some .input
      · have hnext := step_next hs
        rw [howner] at hnext
        exact .inl (hnext.input_ends hrank).1
      · exact .inr (.inr ⟨rfl, rfl, howner⟩)
  · refine hfair.leadsTo (fun s => Inv isClose s ∧ (s.output p).rank ≤ 1)
      (fun s => s.cancelled = true) (fun _ => 0) (fun _ => .output p) ?_ ?_ ?_ ⟨trace_inv σ n, h⟩
    · rintro s a s' ⟨hinv, hrank⟩ hs
      have hnext := step_next hs
      refine ⟨hinv.next hnext, ?_⟩
      by_cases howner : a.owner = some (.output p)
      · rw [howner] at hnext
        rw [(hnext.output_ends hrank).2]
        exact Nat.zero_le 1
      · rwa [hnext.frame.2.1 p howner]
    · rintro s ⟨hinv, hrank⟩ hopen
      simp only [Ready]
      cases ho : s.output p with
      | returned err => trivial
      | ended => exact absurd (hinv.output p ho) hopen
      | wiping | scanning | writing =>
        rw [ho] at hrank
        simp only [Output.rank] at hrank
        omega
    · rintro s a s' ⟨-, hrank⟩ - hs
      by_cases howner : a.owner = some (.output p)
      · have hnext := step_next hs
        rw [howner] at hnext
        exact .inl (hnext.output_ends hrank).1
      · exact .inr (.inr ⟨rfl, rfl, howner⟩)

/-- **The end of the context closes the connections.** -/
theorem closed_of_cancelled (hfair : σ.Fair Ready Act.owner)
    (h : (σ.state n).cancelled = true) : ∃ m, n ≤ m ∧ (σ.state m).Closed := by
  refine hfair.leadsTo (fun s => Inv isClose s ∧ s.cancelled = true) State.Closed
    (fun s => s.closer.rank) (fun _ => .closer) ?_ ?_ ?_ ⟨trace_inv σ n, h⟩
  · rintro s a s' ⟨hinv, hcancelled⟩ hs
    have hnext := step_next hs
    exact ⟨hinv.next hnext, hnext.mono.1 hcancelled⟩
  · rintro s ⟨hinv, hcancelled⟩ hopen
    simp only [Ready]
    cases hc : s.closer with
    | waiting => exact hcancelled
    | closingHj | closingConn | returned err => trivial
    | ended =>
      refine absurd ⟨hinv.hj ?_, hinv.conn ?_⟩ hopen
      · rw [hc]
        exact Nat.zero_le 2
      · rw [hc]
        exact Nat.zero_le 1
  · rintro s a s' - - hs
    have hnext := step_next hs
    by_cases howner : a.owner = some .closer
    · rw [howner] at hnext
      exact .inr (.inl hnext.closer_lt)
    · exact .inr (.inr ⟨by rw [hnext.frame.2.2.1 howner], rfl, howner⟩)

/-- **On closed connections, all goroutines end, and `Proxy` returns.** -/
theorem returned_of_closed (hfair : σ.Fair Ready Act.owner)
    (hcancelled : (σ.state n).cancelled = true) (hclosed : (σ.state n).Closed) :
    ∃ m, n ≤ m ∧ ∃ r, (σ.state m).main = .returned r := by
  refine hfair.leadsTo (fun s => s.cancelled = true ∧ s.Closed)
    (fun s => ∃ r, s.main = .returned r) State.rank State.helper ?_ ?_ ?_ ⟨hcancelled, hclosed⟩
  · rintro s a s' ⟨hcancelled, hclosed⟩ hs
    have hmono := (step_next hs).mono
    exact ⟨hmono.1 hcancelled, hmono.2.1 hclosed.1, hmono.2.2 hclosed.2⟩
  · rintro s ⟨hcancelled, hclosed⟩ hwaiting
    refine State.helper_ready hclosed hcancelled ?_
    cases hmain : s.main with
    | waiting => rfl
    | returned r => exact absurd ⟨r, hmain⟩ hwaiting
  · rintro s a s' ⟨-, hclosed⟩ - hs
    have hnext := step_next hs
    cases howner : a.owner with
    | some g =>
      rw [howner] at hnext
      exact .inr (.inl (hnext.rank_lt hclosed))
    | none =>
      rw [howner] at hnext
      obtain ⟨hinput, houtput, hcloser, hmain⟩ := hnext.frame
      refine .inr (.inr ⟨?_, ?_, fun h => by cases h⟩)
      · simp [State.rank, hinput, houtput, hcloser, hmain]
      · simp [State.helper, hinput, houtput, hcloser]

end

/-- **`Proxy` tears down completely.** In every fair schedule, once a pump has returned or the
context has ended, both connections get closed, and `Proxy` returns. When it does, all goroutines
have ended, and it returns no error exactly if the first one that the group was told of is a close,
or there is none. -/
theorem proxy_tears_down {E : Type} [DecidableEq E] (eof : E) (isClose : E → Bool) :
    (∀ σ : (proxy eof isClose).Trace, σ.Fair Ready Act.owner → ∀ n,
      (σ.state n).PumpReturned ∨ (σ.state n).cancelled = true →
      (∃ m, n ≤ m ∧ (σ.state m).Closed) ∧ ∃ m, n ≤ m ∧ ∃ r, (σ.state m).main = .returned r) ∧
    (∀ s, (proxy eof isClose).Reaches System.Any s → ∀ r, s.main = .returned r →
      s.AllEnded ∧ s.Closed ∧
        (r = none ↔ ∀ e, s.reports.findSome? id = some e → isClose e = true)) := by
  constructor
  · intro σ hfair n h
    obtain ⟨k, hk, hcancelled⟩ : ∃ k, n ≤ k ∧ (σ.state k).cancelled = true := by
      rcases h with h | h
      · exact cancelled_of_pump hfair h
      · exact ⟨n, Nat.le_refl n, h⟩
    obtain ⟨m, hm, hclosed⟩ := closed_of_cancelled hfair hcancelled
    have hstill : (σ.state m).cancelled = true :=
      System.Trace.stable (I := fun s : State E => s.cancelled = true)
        (fun s a s' h hs => (step_next hs).mono.1 h) hcancelled hm
    obtain ⟨m', hm', hreturned⟩ := returned_of_closed hfair hstill hclosed
    exact ⟨⟨m, hk.trans hm, hclosed⟩, ⟨m', (hk.trans hm).trans hm', hreturned⟩⟩
  · intro s hs r hr
    have hinv : Inv isClose s := by
      refine hs.invariant ?_ fun s a s' h _ hs => h.next (step_next hs)
      rintro _ ⟨cancelled, connClosed, rfl⟩
      exact State.initial_inv cancelled connClosed
    obtain ⟨hall, rfl⟩ := hinv.main r hr
    have hrank : s.closer.rank = 0 := by rw [hall.2.2]; rfl
    refine ⟨hall, ⟨hinv.hj (by omega), hinv.conn (by omega)⟩, ?_⟩
    rw [← hinv.err]
    cases s.err with
    | none => simp
    | some e => simp [Option.filter]

/-- The client closes the connection, and everything ends. `true` is the error of a close. -/
def hangUp : List (Act Bool) :=
  [.inputFails true, .report .input, .wake, .closeHj, .closeConn none, .outputFails .stdout true,
    .outputFails .stderr true, .report (.output .stderr), .report .closer,
    .report (.output .stdout), .wait]

/-- It holds of a schedule in which the client goes away: it is fair, who is ready in it can take a
step, and `Proxy` ends without an error. -/
theorem proxy_tears_down_hangUp : ∃ σ : (proxy false (id : Bool → Bool)).Trace,
    σ.Fair Ready Act.owner ∧
    (∀ n g, Ready g (σ.state n) →
      ∃ a s', a.owner = some g ∧ (proxy false id).step (σ.state n) a = some s') ∧
    (σ.state 1).PumpReturned ∧ (∃ m, 1 ≤ m ∧ (σ.state m).Closed) ∧
    ∃ m r, 1 ≤ m ∧ (σ.state m).main = .returned r := by
  have hexec : (proxy false (id : Bool → Bool)).exec (.initial false false) hangUp = some _ := rfl
  let σ := System.Trace.ofExec (M := proxy false (id : Bool → Bool)) ⟨false, false, rfl⟩ hexec
  have hfair : σ.Fair Ready Act.owner := by
    refine System.Trace.fair_ofExec _ _ fun g h => ?_
    cases g with
    | input | closer => exact h
    | output p => cases p <;> exact h
    | main => cases h.1
  have hpump : (σ.state 1).PumpReturned := .inl (Nat.le_refl 1)
  obtain ⟨hclosed, m, hm, r, hr⟩ := (proxy_tears_down false id).1 σ hfair 1 (.inl hpump)
  exact ⟨σ, hfair, fun n g h => h.enabled, hpump, hclosed, m, r, hm, hr⟩

end UAssign.Proxy.Session

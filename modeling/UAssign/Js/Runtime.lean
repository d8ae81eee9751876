import UAssign.Lib.Transition

/-!
# Running a program with a timeout

`Runtime.Run` of `pkg/js/js.go` starts a watcher, which waits for the end of `Run` or for the
context's, and tells it in a deferred function that `Run` ends, over a channel without a buffer. A
watcher that has seen the end of the context is no longer there to receive this: from then on `Run`
does not return (`run_returns`).
-/

namespace UAssign.Js.Runtime

/-! ## The system -/

/-- A program, by what the VM does with it: whether it has ended behind so many instructions, and
with which error; first in `RunString`, then in `exportViaJSON`. -/
structure Program where
  run : Nat → Option (Option String)
  exportViaJSON : Nat → Option (Option String)

/-- The errors of `Run`: the context's, the program's, and `InterruptedError` where it is not
unwrapped. -/
inductive Error where
  | ctx
  | program (msg : String)
  | interrupted
  deriving DecidableEq

/-- Where `Run` is: in the VM behind some instructions, with its error in front of the deferred
`stop <- struct{}{}` or of `close(stop)`, or returned. -/
inductive Pc where
  | running (n : Nat)
  | exporting (n : Nat)
  | sending (err : Option Error)
  | closing (err : Option Error)
  | returned (err : Option Error)
  deriving DecidableEq

/-- Where the watcher is. -/
inductive Watcher where
  | selecting
  | interrupting
  | exited
  deriving DecidableEq

/-- `Run`, its watcher, whether the context has been cancelled, and the VM's flag. -/
structure State where
  pc : Pc
  watcher : Watcher
  cancelled : Bool
  interrupted : Bool
  deriving DecidableEq

/-- The steps: the end of the context, an instruction of the VM, the value that goes over the
channel, the watcher's other branch and what it does there, and the end of the deferred function. -/
inductive Act where
  | cancel
  | vm
  | stop
  | done
  | interrupt
  | close
  deriving DecidableEq

/-- An instruction. The VM looks at its flag unless the program has ended. -/
def vm (p : Program) (s : State) : Option State :=
  match s.pc with
  | .running n =>
    match p.run n with
    | some none => some { s with pc := .exporting 0 }
    | some (some msg) => some { s with pc := .sending (some (.program msg)) }
    | none =>
      if s.interrupted then some { s with pc := .sending (some .ctx), interrupted := false }
      else some { s with pc := .running (n + 1) }
  | .exporting n =>
    match p.exportViaJSON n with
    | some err => some { s with pc := .sending (err.map .program) }
    | none =>
      if s.interrupted then
        some { s with pc := .sending (some .interrupted), interrupted := false }
      else some { s with pc := .exporting (n + 1) }
  | _ => none

/-- One step. -/
def step (p : Program) (s : State) : Act → Option State
  | .cancel => some { s with cancelled := true }
  | .vm => vm p s
  | .stop =>
    match s.pc, s.watcher with
    | .sending err, .selecting => some { s with pc := .closing err, watcher := .exited }
    | _, _ => none
  | .done =>
    if s.watcher = .selecting ∧ s.cancelled = true then some { s with watcher := .interrupting }
    else none
  | .interrupt =>
    if s.watcher = .interrupting then some { s with watcher := .exited, interrupted := true }
    else none
  | .close =>
    match s.pc with
    | .closing err => some { s with pc := .returned err }
    | _ => none

/-- `Run` has been called, with a context that has been cancelled or not. -/
def State.initial (cancelled : Bool) : State :=
  { pc := .running 0, watcher := .selecting, cancelled := cancelled, interrupted := false }

/-- `Run` and its watcher. -/
def run (p : Program) : System State Act :=
  { init := fun s => ∃ cancelled, s = .initial cancelled, step := step p }

/-! ## Hanging -/

/-- The program has ended, or has been interrupted. -/
def State.Ended (s : State) : Prop :=
  (∀ n, s.pc ≠ .running n) ∧ ∀ n, s.pc ≠ .exporting n

/-- `Run` has returned. -/
def State.Returned (s : State) : Prop := ∃ err, s.pc = .returned err

/-- The program has ended, `Run` has not returned, and neither `Run` nor the watcher has a step. -/
def Hung (p : Program) (s : State) : Prop :=
  s.Ended ∧ ¬ s.Returned ∧ ∀ a, a ≠ .cancel → step p s a = none

/-- The watcher does not see the end of the context. -/
def unnoticed (_ : State) (a : Act) : Prop := a ≠ .done

/-- How much of the deferred function is to come. -/
def Pc.toGo : Pc → Nat
  | .running _ | .exporting _ => 3
  | .sending _ => 2
  | .closing _ => 1
  | .returned _ => 0

section

variable {p : Program} {s s' : State} {a : Act} {as : List Act}

/-! ## While the watcher waits -/

/-- The watcher waits until it is told of the end. -/
structure Waiting (s : State) : Prop where
  pc : s.watcher = .selecting ∧ 2 ≤ s.pc.toGo ∨ s.watcher = .exited ∧ s.pc.toGo ≤ 1
  flag : s.interrupted = false

/-- What an instruction leads to: the VM goes on, or is behind the program. -/
theorem vm_spec (h : vm p s = some s') :
    s'.watcher = s.watcher ∧ s'.cancelled = s.cancelled ∧ s.pc.toGo = 3 ∧
      (s'.interrupted = s.interrupted ∧ 2 ≤ s'.pc.toGo ∨
        s.interrupted = true ∧ s'.interrupted = false ∧ s'.pc.toGo = 2) := by
  unfold vm at h
  split at h
  · next n hpc =>
    split at h
    · cases h
      exact ⟨rfl, rfl, by rw [hpc]; rfl, .inl ⟨rfl, Nat.le_succ 2⟩⟩
    · cases h
      exact ⟨rfl, rfl, by rw [hpc]; rfl, .inl ⟨rfl, Nat.le_refl 2⟩⟩
    · split at h
      · next hflag =>
        cases h
        exact ⟨rfl, rfl, by rw [hpc]; rfl, .inr ⟨hflag, rfl, rfl⟩⟩
      · cases h
        exact ⟨rfl, rfl, by rw [hpc]; rfl, .inl ⟨rfl, Nat.le_succ 2⟩⟩
  · next n hpc =>
    split at h
    · cases h
      exact ⟨rfl, rfl, by rw [hpc]; rfl, .inl ⟨rfl, Nat.le_refl 2⟩⟩
    · split at h
      · next hflag =>
        cases h
        exact ⟨rfl, rfl, by rw [hpc]; rfl, .inr ⟨hflag, rfl, rfl⟩⟩
      · cases h
        exact ⟨rfl, rfl, by rw [hpc]; rfl, .inl ⟨rfl, Nat.le_succ 2⟩⟩
  · cases h

/-- The rendezvous. -/
theorem stop_spec (h : step p s .stop = some s') :
    s.watcher = .selecting ∧ ∃ err, s.pc = .sending err ∧
      s' = { s with pc := .closing err, watcher := .exited } := by
  simp only [step] at h
  split at h
  · next err hpc hwatcher => exact ⟨hwatcher, err, hpc, (Option.some.inj h).symm⟩
  · cases h

theorem close_spec (h : step p s .close = some s') :
    ∃ err, s.pc = .closing err ∧ s' = { s with pc := .returned err } := by
  simp only [step] at h
  split at h
  · next err hpc => exact ⟨err, hpc, (Option.some.inj h).symm⟩
  · cases h

/-- A step that is not the watcher's other branch. -/
theorem Waiting.step (h : Waiting s) (ha : unnoticed s a) (hs : Runtime.step p s a = some s') :
    Waiting s' := by
  cases a with
  | cancel =>
    cases hs
    exact ⟨h.pc, h.flag⟩
  | vm =>
    obtain ⟨hwatcher, -, hrunning, hflag | ⟨hflag, -⟩⟩ := vm_spec hs
    · rcases h.pc with ⟨hw, -⟩ | ⟨-, hpc⟩
      · exact ⟨.inl ⟨by rw [hwatcher, hw], hflag.2⟩, by rw [hflag.1, h.flag]⟩
      · omega
    · rw [h.flag] at hflag
      cases hflag
  | stop =>
    obtain ⟨-, err, -, rfl⟩ := stop_spec hs
    exact ⟨.inr ⟨rfl, Nat.le_refl 1⟩, h.flag⟩
  | done => exact absurd rfl ha
  | interrupt =>
    obtain ⟨hw, -⟩ := Option.ite_none_right_eq_some.1 hs
    rcases h.pc with ⟨hw', -⟩ | ⟨hw', -⟩ <;> rw [hw] at hw' <;> cases hw'
  | close =>
    obtain ⟨err, hpc, rfl⟩ := close_spec hs
    refine ⟨.inr ⟨?_, Nat.zero_le 1⟩, h.flag⟩
    rcases h.pc with ⟨-, h2⟩ | ⟨hw, -⟩
    · rw [hpc] at h2
      exact absurd h2 (by decide : ¬ 2 ≤ 1)
    · exact hw

/-- **While the watcher waits, `Run` is not stuck.** -/
theorem Waiting.not_hung (h : Waiting s) : ¬ Hung p s := by
  rintro ⟨⟨hrun, hexport⟩, hret, hstuck⟩
  obtain ⟨pc, watcher, cancelled, interrupted⟩ := s
  cases pc with
  | running n => exact hrun n rfl
  | exporting n => exact hexport n rfl
  | sending err =>
    rcases h.pc with ⟨hw, -⟩ | ⟨-, hpc⟩
    · obtain rfl : watcher = .selecting := hw
      have := hstuck .stop (by decide)
      cases this
    · exact absurd hpc (by decide : ¬ 2 ≤ 1)
  | closing err =>
    have := hstuck .close (by decide)
    cases this
  | returned err => exact hret ⟨err, rfl⟩

/-- Behind the program, each step of `Run` or of the watcher brings the return closer. -/
theorem Waiting.toGo_lt (h : Waiting s) (hended : s.Ended) (ha : unnoticed s a)
    (hcancel : a ≠ .cancel) (hs : Runtime.step p s a = some s') : s'.pc.toGo < s.pc.toGo := by
  cases a with
  | cancel => exact absurd rfl hcancel
  | vm =>
    obtain ⟨-, -, hrunning, -⟩ := vm_spec hs
    obtain ⟨hrun, hexport⟩ := hended
    cases hpc : s.pc with
    | running n => exact absurd hpc (hrun n)
    | exporting n => exact absurd hpc (hexport n)
    | sending err | closing err | returned err =>
      rw [hpc] at hrunning
      cases hrunning
  | stop =>
    obtain ⟨-, err, hpc, rfl⟩ := stop_spec hs
    rw [hpc]
    exact Nat.lt_succ_self 1
  | done => exact absurd rfl ha
  | interrupt =>
    obtain ⟨hw, -⟩ := Option.ite_none_right_eq_some.1 hs
    rcases h.pc with ⟨hw', -⟩ | ⟨hw', -⟩ <;> rw [hw] at hw' <;> cases hw'
  | close =>
    obtain ⟨err, hpc, rfl⟩ := close_spec hs
    rw [hpc]
    exact Nat.lt_succ_self 0

/-! ## When it has left -/

/-- The watcher has left for the context, and `Run` has not got past it. -/
structure Left (s : State) : Prop where
  watcher : s.watcher ≠ .selecting
  pc : 2 ≤ s.pc.toGo
  flag : s.pc.toGo = 3 → s.watcher = .interrupting ∨ s.interrupted = true

/-- Nothing brings it back. -/
theorem Left.step (h : Left s) (hs : (run p).step s a = some s') : Left s' := by
  have hs : Runtime.step p s a = some s' := hs
  cases a with
  | cancel =>
    cases hs
    exact ⟨h.watcher, h.pc, h.flag⟩
  | vm =>
    obtain ⟨hwatcher, -, hrunning, hflag | ⟨-, -, hpc⟩⟩ := vm_spec hs
    · exact ⟨by rw [hwatcher]; exact h.watcher, hflag.2, fun _ => by
        rw [hwatcher, hflag.1]; exact h.flag hrunning⟩
    · exact ⟨by rw [hwatcher]; exact h.watcher, by omega, fun h' => by omega⟩
  | stop => exact absurd (stop_spec hs).1 h.watcher
  | done => exact absurd (Option.ite_none_right_eq_some.1 hs).1.1 h.watcher
  | interrupt =>
    obtain ⟨-, hs⟩ := Option.ite_none_right_eq_some.1 hs
    cases hs
    exact ⟨(fun h => by cases h), h.pc, fun _ => .inr rfl⟩
  | close =>
    obtain ⟨err, hpc, -⟩ := close_spec hs
    have := h.pc
    rw [hpc] at this
    exact absurd this (by decide : ¬ 2 ≤ 1)

/-- `Run` has not returned. -/
theorem Left.not_returned (h : Left s) : ¬ s.Returned := by
  rintro ⟨err, hpc⟩
  have := h.pc
  rw [hpc] at this
  exact absurd this (by decide : ¬ 2 ≤ 0)

/-- The flag of the VM ends the program in a step or two. -/
theorem vm_of_flag (hpc : s.pc.toGo = 3) (hflag : s.interrupted = true) :
    ∃ s', vm p s = some s' ∧ s'.watcher = s.watcher ∧
      (s'.pc.toGo = 2 ∨
        (∃ n, s.pc = .running n) ∧ s'.pc = .exporting 0 ∧ s'.interrupted = true) := by
  unfold vm
  cases h : s.pc with
  | running n =>
    simp only
    split
    · exact ⟨_, rfl, rfl, .inr ⟨⟨n, rfl⟩, rfl, hflag⟩⟩
    · exact ⟨_, rfl, rfl, .inl rfl⟩
    · rw [if_pos hflag]
      exact ⟨_, rfl, rfl, .inl rfl⟩
  | exporting n =>
    simp only
    split
    · exact ⟨_, rfl, rfl, .inl rfl⟩
    · rw [if_pos hflag]
      exact ⟨_, rfl, rfl, .inl rfl⟩
  | sending err | closing err | returned err =>
    rw [h] at hpc
    cases hpc

/-- Without the watcher, `Run` is stuck in its deferred function. -/
theorem Left.hung (h : Left s) (hpc : s.pc.toGo = 2) (hw : s.watcher = .exited) : Hung p s := by
  obtain ⟨pc, watcher, cancelled, interrupted⟩ := s
  obtain rfl : watcher = .exited := hw
  cases pc with
  | sending err =>
    refine ⟨⟨fun n hn => (by cases hn), fun n hn => (by cases hn)⟩, h.not_returned, fun a ha => ?_⟩
    cases a with
    | cancel => exact absurd rfl ha
    | vm | stop | done | interrupt | close => rfl
  | running n | exporting n => cases hpc
  | closing err | returned err => cases hpc

/-- **Once it has left, `Run` gets stuck.** -/
theorem Left.gets_hung (h : Left s) : ∃ bs t, (run p).Run System.Any s bs t ∧ Hung p t := by
  -- the watcher exits
  obtain ⟨as₁, s₁, hrun₁, h₁, hw₁⟩ : ∃ as₁ s₁, (run p).Run System.Any s as₁ s₁ ∧ Left s₁ ∧
      s₁.watcher = .exited := by
    cases hw : s.watcher with
    | selecting => exact absurd hw h.watcher
    | interrupting =>
      have hs : (run p).step s .interrupt =
          some { s with watcher := .exited, interrupted := true } := if_pos hw
      exact ⟨_, _, .single trivial hs, h.step hs, rfl⟩
    | exited => exact ⟨_, _, .nil, h, hw⟩
  -- `RunString` ends
  obtain ⟨as₂, s₂, hrun₂, h₂, hw₂, hpc₂⟩ : ∃ as₂ s₂, (run p).Run System.Any s₁ as₂ s₂ ∧ Left s₂ ∧
      s₂.watcher = .exited ∧ (s₂.pc.toGo = 2 ∨ s₂.pc = .exporting 0 ∧ s₂.interrupted = true) := by
    rcases Nat.lt_or_ge s₁.pc.toGo 3 with hlt | hge
    · exact ⟨_, _, .nil, h₁, hw₁, .inl (by have := h₁.pc; omega)⟩
    · have hpc : s₁.pc.toGo = 3 := by
        refine Nat.le_antisymm ?_ hge
        cases s₁.pc <;> simp [Pc.toGo]
      have hflag : s₁.interrupted = true := by
        rcases h₁.flag hpc with hw | hflag
        · rw [hw₁] at hw
          cases hw
        · exact hflag
      obtain ⟨s₂, hvm, hw, hpc₂⟩ := vm_of_flag (p := p) hpc hflag
      have hs : (run p).step s₁ .vm = some s₂ := hvm
      exact ⟨_, _, .single trivial hs, h₁.step hs, by rw [hw, hw₁], hpc₂.imp_right fun h => h.2⟩
  rcases hpc₂ with hpc | ⟨hpc, hflag⟩
  · exact ⟨_, _, hrun₁.trans hrun₂, h₂.hung hpc hw₂⟩
  · -- and `exportViaJSON`
    obtain ⟨s₃, hvm, hw, hpc₃⟩ := vm_of_flag (p := p) (by rw [hpc]; rfl) hflag
    have hs : (run p).step s₂ .vm = some s₃ := hvm
    rcases hpc₃ with hpc₃ | ⟨⟨n, hn⟩, -⟩
    · exact ⟨_, _, (hrun₁.trans hrun₂).trans (.single trivial hs),
        (h₂.step hs).hung hpc₃ (by rw [hw, hw₂])⟩
    · rw [hpc] at hn
      cases hn

/-- In every run, the watcher is there until it has been told, or has seen the end of the context.
-/
theorem watcher_invariant (h : (run p).Reaches System.Any s) :
    s.watcher = .selecting → 2 ≤ s.pc.toGo := by
  refine h.invariant (I := fun s => s.watcher = .selecting → 2 ≤ s.pc.toGo) ?_ ?_
  · rintro _ ⟨cancelled, rfl⟩ -
    exact (by decide : 2 ≤ 3)
  · intro s a s' hi _ hs hw
    have hs : Runtime.step p s a = some s' := hs
    cases a with
    | cancel =>
      cases hs
      exact hi hw
    | vm =>
      obtain ⟨hwatcher, -, -, hflag | ⟨-, -, hpc⟩⟩ := vm_spec hs
      · exact hflag.2
      · omega
    | stop =>
      obtain ⟨-, err, -, rfl⟩ := stop_spec hs
      cases hw
    | done =>
      obtain ⟨-, hs⟩ := Option.ite_none_right_eq_some.1 hs
      cases hs
      cases hw
    | interrupt =>
      obtain ⟨-, hs⟩ := Option.ite_none_right_eq_some.1 hs
      cases hs
      cases hw
    | close =>
      obtain ⟨err, hpc, rfl⟩ := close_spec hs
      have := hi hw
      rw [hpc] at this
      exact absurd this (by decide : ¬ 2 ≤ 1)

end

/-- **When `Run` returns.** In the runs in which the watcher does not see the end of the context,
`Run` is never stuck, and behind the program each of its steps brings the return closer. Once the
watcher has seen it, `Run` never returns, and can always come to be stuck. -/
theorem run_returns (p : Program) :
    (∀ s, (run p).Reaches unnoticed s → ¬ Hung p s ∧ (s.Ended → ∀ a s', unnoticed s a →
      a ≠ .cancel → step p s a = some s' → s'.pc.toGo < s.pc.toGo)) ∧
    (∀ s s', (run p).Reaches System.Any s → step p s .done = some s' →
      ∀ bs t, (run p).Run System.Any s' bs t →
        ¬ t.Returned ∧ ∃ cs u, (run p).Run System.Any t cs u ∧ Hung p u) := by
  constructor
  · intro s hs
    have hwaiting : Waiting s := by
      refine hs.invariant ?_ fun t a t' ht ha h => ht.step ha h
      rintro _ ⟨cancelled, rfl⟩
      exact ⟨.inl ⟨rfl, (by decide : 2 ≤ 3)⟩, rfl⟩
    exact ⟨hwaiting.not_hung, fun hended a s' ha hcancel h => hwaiting.toGo_lt hended ha hcancel h⟩
  · intro s s' hs hdone bs t hrun
    have hleft : Left t := by
      refine hrun.invariant ?_ fun t a t' ht _ h => ht.step h
      obtain ⟨⟨hw, -⟩, hdone⟩ := Option.ite_none_right_eq_some.1 hdone
      have hpc : 2 ≤ s.pc.toGo := watcher_invariant hs hw
      cases hdone
      exact ⟨(fun h => by cases h), hpc, fun _ => .inl rfl⟩
    exact ⟨hleft.not_returned, hleft.gets_hung⟩

/-- `while (true);` -/
def forever : Program := { run := fun _ => none, exportViaJSON := fun _ => none }

/-- The context of an endless program ends, the watcher interrupts the VM, and `Run` is stuck. -/
theorem forever_hangs : ∃ s, (run forever).Reaches System.Any s ∧ Hung forever s := by
  have hexec : (run forever).exec (.initial false) [.cancel, .done, .interrupt, .vm] =
      some ⟨.sending (some .ctx), .exited, true, false⟩ := by decide
  refine ⟨_, ⟨_, _, ⟨false, rfl⟩, System.run_of_exec hexec⟩, ?_⟩
  refine ⟨⟨fun n hn => (by cases hn), fun n hn => (by cases hn)⟩,
    fun ⟨err, h⟩ => (by cases h), fun a ha => ?_⟩
  cases a with
  | cancel => exact absurd rfl ha
  | vm | stop | done | interrupt | close => rfl

end UAssign.Js.Runtime

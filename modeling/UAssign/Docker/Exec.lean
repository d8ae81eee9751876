import UAssign.Go.Copy
import UAssign.Lib.Transition

/-!
# Executions

`Exec` of `pkg/docker/dexec/dexec.go`: the exec is created and attached, an `errgroup` copies the
input and the outputs, and `waitForExit` asks for the exit code. The group's error is only logged,
so a success says nothing about the copies: the input has been delivered exactly if no step of its
copy did harm (`exec_delivered_iff`).
-/

namespace UAssign.Docker

/-! ## Configurations -/

/-- The output streams of a container. -/
inductive Stream where
  | stdout
  | stderr
  deriving DecidableEq

/-- `Config`, with `Stdin` by its reads, and the writers by their writes. -/
structure Config (E : Type) where
  user : String
  cmd : List String
  env : List String
  workingDir : String
  stdin : Option (Copy.Reader E)
  stdout : Option (Copy.Writer E)
  stderr : Option (Copy.Writer E)
  tty : Bool

/-- The writer of a stream. -/
def Config.writer {E : Type} (config : Config E) : Stream → Option (Copy.Writer E)
  | .stdout => config.stdout
  | .stderr => config.stderr

/-- `types.ExecConfig`. -/
structure ExecConfig where
  user : String
  cmd : List String
  env : List String
  workingDir : String
  attachStdin : Bool
  attachStdout : Bool
  attachStderr : Bool
  tty : Bool
  deriving DecidableEq

/-- The exec that `Exec` asks for. -/
def Config.execConfig {E : Type} (config : Config E) : ExecConfig :=
  { user := config.user, cmd := config.cmd, env := config.env, workingDir := config.workingDir,
    attachStdin := config.stdin.isSome, attachStdout := config.stdout.isSome,
    attachStderr := config.stderr.isSome, tty := config.tty }

/-- Whether an output of the exec is attached. -/
def ExecConfig.attachOutput (ec : ExecConfig) : Stream → Bool
  | .stdout => ec.attachStdout
  | .stderr => ec.attachStderr

/-! ## The system -/

namespace Exec

/-- An error of `Exec`; `exitCode` is `ExitCodeError`. -/
inductive Failure (E : Type) where
  | err (e : E)
  | exitCode (code : Int)
  deriving DecidableEq

/-- Where `Exec` is: in front of a call to Docker, in `g.Wait`, in the `select` of `waitForExit`, in
front of its call, or returned. -/
inductive Main (E : Type) where
  | creating
  | attaching
  | waiting
  | checking
  | inspecting
  | returned (err : Option (Failure E))
  deriving DecidableEq

/-- The goroutine that copies the input: not started, at work until `CloseWrite`, or ended. -/
inductive Stdin (E : Type) where
  | absent
  | copying (c : Copy E)
  | ended (c : Copy E)
  deriving DecidableEq

/-- An execution: where it is, the copy of the input, which copies of outputs are at work, and the
error of the group. -/
structure State (E : Type) where
  main : Main E
  stdin : Stdin E
  output : Stream → Bool
  err : Option E

/-- The steps: the calls to Docker with their errors; a read, a write and the end of the input's
copy; the end of an output's copy; the end of `g.Wait`; and those of `waitForExit`: the context's
error, and what it is told about the exec. -/
inductive Act (E : Type) where
  | create (err : Option E)
  | attach (err : Option E)
  | read
  | write (n : Nat) (err : Option E)
  | closeWrite (err : Option E)
  | outputEnds (p : Stream) (err : Option E)
  | wait
  | ctx (err : Option E)
  | inspect (running : Bool) (exitCode : Int)
  | inspectFails (err : E)
  deriving DecidableEq

section

variable {E : Type} [DecidableEq E] (eof shortWrite : E) (config : Config E)

/-- `Exec` moves on, if it is where it has to be. -/
def State.goto (s : State E) (main main' : Main E) : Option (State E) :=
  if s.main = main then some { s with main := main' } else none

/-- All goroutines of the group have ended. -/
def State.Joined (s : State E) : Prop :=
  (∀ c, s.stdin ≠ .copying c) ∧ ∀ p, s.output p = false

instance (s : State E) : Decidable s.Joined :=
  decidable_of_iff ((match s.stdin with | .copying _ => false | _ => true) = true ∧
    (s.output .stdout = false ∧ s.output .stderr = false)) <| by
      refine and_congr ?_ ⟨fun h p => ?_, fun h => ⟨h _, h _⟩⟩
      · cases s.stdin <;> simp
      · cases p with
        | stdout => exact h.1
        | stderr => exact h.2

/-- One step. The error of `CloseWrite` and that of the group are only logged. -/
def step (s : State E) : Act E → Option (State E)
  | .create err =>
    s.goto .creating (match err with | some e => .returned (some (.err e)) | none => .attaching)
  | .attach err =>
    match err with
    | some e => s.goto .attaching (.returned (some (.err e)))
    | none =>
      if s.main = .attaching then
        some { s with
          main := .waiting
          stdin := if config.execConfig.attachStdin then .copying .initial else .absent
          output := config.execConfig.attachOutput }
      else none
  | .read =>
    match config.stdin, s.stdin with
    | some r, .copying c => (c.read eof r).map fun c => { s with stdin := .copying c }
    | _, _ => none
  | .write n err =>
    match s.stdin with
    | .copying c => (c.write eof shortWrite n err).map fun c => { s with stdin := .copying c }
    | _ => none
  | .closeWrite _ =>
    match s.stdin with
    | .copying c =>
      match c.pc with
      | .returned err => some { s with stdin := .ended c, err := s.err.or err }
      | _ => none
    | _ => none
  | .outputEnds p err =>
    if s.output p = true then
      some { s with output := fun q => if q = p then false else s.output q, err := s.err.or err }
    else none
  | .wait => if s.Joined then s.goto .waiting .checking else none
  | .ctx err =>
    s.goto .checking (match err with | some e => .returned (some (.err e)) | none => .inspecting)
  | .inspect running exitCode =>
    s.goto .inspecting
      (if running then .checking
      else if exitCode ≠ 0 then .returned (some (.exitCode exitCode))
      else .returned none)
  | .inspectFails err => s.goto .inspecting (.returned (some (.err err)))

/-- `Exec` has been called. -/
def State.initial : State E :=
  { main := .creating, stdin := .absent, output := fun _ => false, err := none }

/-- `Exec`. -/
def exec : System (State E) (Act E) :=
  { init := (· = State.initial), step := step eof shortWrite config }

/-- The reader has been consumed to EOF without another error, and all its bytes have been written
to the connection. -/
def State.Delivered (r : Copy.Reader E) (s : State E) : Prop :=
  ∃ c, s.stdin = .ended c ∧ c.Delivered eof r

/-- The steps of the input's copy that do no harm: reads that do not fail, and writes that take all
bytes, and fail only when EOF has come with them. -/
def Harmless (s : State E) : Act E → Prop
  | .read => ∀ r c, config.stdin = some r → s.stdin = .copying c → c.HarmlessRead eof r
  | .write n err => ∀ c, s.stdin = .copying c → c.HarmlessWrite eof n err
  | _ => True

/-- How many bytes the connection takes in a step. -/
def Act.taken : Act E → Nat
  | .write n _ => n
  | _ => 0

/-! ## What a step does -/

/-- The steps in which `Exec` only moves on. -/
inductive Goes : Main E → Act E → Main E → Prop
  | created : Goes .creating (.create none) .attaching
  | create (e : E) : Goes .creating (.create (some e)) (.returned (some (.err e)))
  | attach (e : E) : Goes .attaching (.attach (some e)) (.returned (some (.err e)))
  | checked : Goes .checking (.ctx none) .inspecting
  | ctx (e : E) : Goes .checking (.ctx (some e)) (.returned (some (.err e)))
  | running (exitCode : Int) : Goes .inspecting (.inspect true exitCode) .checking
  | exitCode {exitCode : Int} (h : exitCode ≠ 0) :
    Goes .inspecting (.inspect false exitCode) (.returned (some (.exitCode exitCode)))
  | exited : Goes .inspecting (.inspect false 0) (.returned none)
  | inspectFails (e : E) : Goes .inspecting (.inspectFails e) (.returned (some (.err e)))

/-- What the steps do, where they are taken. -/
inductive Next (s : State E) : Act E → State E → Prop
  | goes {a : Act E} {main : Main E} (h : Goes s.main a main) : Next s a { s with main := main }
  | attach (hmain : s.main = .attaching) :
    Next s (.attach none)
      { s with
        main := .waiting
        stdin := if config.execConfig.attachStdin then .copying .initial else .absent
        output := config.execConfig.attachOutput }
  | read {r : Copy.Reader E} {c c' : Copy E} (hr : config.stdin = some r)
    (hc : s.stdin = .copying c) (hread : c.read eof r = some c') :
    Next s .read { s with stdin := .copying c' }
  | write {n : Nat} {err : Option E} {c c' : Copy E} (hc : s.stdin = .copying c)
    (hwrite : c.write eof shortWrite n err = some c') :
    Next s (.write n err) { s with stdin := .copying c' }
  | closeWrite {c : Copy E} {err cerr : Option E} (hc : s.stdin = .copying c)
    (hpc : c.pc = .returned err) :
    Next s (.closeWrite cerr) { s with stdin := .ended c, err := s.err.or err }
  | outputEnds {p : Stream} {err : Option E} (hp : s.output p = true) :
    Next s (.outputEnds p err)
      { s with output := fun q => if q = p then false else s.output q, err := s.err.or err }
  | wait (hjoined : s.Joined) (hmain : s.main = .waiting) :
    Next s .wait { s with main := .checking }

/-! ## What a run keeps -/

/-- `Exec` is behind `g.Wait`, and has not failed. -/
def Main.Past : Main E → Prop
  | .checking | .inspecting | .returned none => True
  | .creating | .attaching | .waiting | .returned (some _) => False

/-- What holds in a run, whose copy of the input has done no harm if `good`: the copy fits what it
has done, and has ended when `Exec` is behind it. -/
def Inv (r : Copy.Reader E) (s : State E) (good : Prop) : Prop :=
  match s.stdin with
  | .absent => good ∧ s.main ≠ .waiting ∧ ¬ s.main.Past
  | .copying c => c.Fits eof r good ∧ s.main = .waiting
  | .ended c =>
    c.Fits eof r good ∧ (∃ err, c.pc = .returned err) ∧ s.main ≠ .creating ∧ s.main ≠ .attaching

variable {eof shortWrite config} {r : Copy.Reader E} {s s' : State E} {a : Act E} {good : Prop}

theorem goto_spec {main main' : Main E} (h : s.goto main main' = some s') :
    s.main = main ∧ s' = { s with main := main' } := by
  obtain ⟨hmain, h⟩ := Option.ite_none_right_eq_some.1 h
  exact ⟨hmain, (Option.some.inj h).symm⟩

theorem goto_next {main main' : Main E} (h : s.goto main main' = some s')
    (hgoes : Goes main a main') : Next eof shortWrite config s a s' := by
  obtain ⟨rfl, rfl⟩ := goto_spec h
  exact .goes hgoes

theorem step_next (h : step eof shortWrite config s a = some s') :
    Next eof shortWrite config s a s' := by
  cases a with
  | create err =>
    cases err with
    | none => exact goto_next h .created
    | some e => exact goto_next h (.create e)
  | attach err =>
    cases err with
    | none =>
      obtain ⟨hmain, h⟩ := Option.ite_none_right_eq_some.1 h
      cases h
      exact .attach hmain
    | some e => exact goto_next h (.attach e)
  | read =>
    simp only [step] at h
    split at h
    · next r c hr hc =>
      obtain ⟨c', hread, rfl⟩ := Option.map_eq_some_iff.1 h
      exact .read hr hc hread
    · cases h
  | write n err =>
    simp only [step] at h
    split at h
    · next c hc =>
      obtain ⟨c', hwrite, rfl⟩ := Option.map_eq_some_iff.1 h
      exact .write hc hwrite
    · cases h
  | closeWrite cerr =>
    simp only [step] at h
    split at h
    · next c hc =>
      split at h
      · next err hpc =>
        cases h
        exact .closeWrite hc hpc
      · cases h
    · cases h
  | outputEnds p err =>
    obtain ⟨hp, h⟩ := Option.ite_none_right_eq_some.1 h
    cases h
    exact .outputEnds hp
  | wait =>
    obtain ⟨hjoined, h⟩ := Option.ite_none_right_eq_some.1 h
    obtain ⟨hmain, rfl⟩ := goto_spec h
    exact .wait hjoined hmain
  | ctx err =>
    cases err with
    | none => exact goto_next h .checked
    | some e => exact goto_next h (.ctx e)
  | inspect running exitCode =>
    cases running with
    | true => exact goto_next h (.running exitCode)
    | false =>
      by_cases hcode : exitCode = 0
      · subst hcode
        exact goto_next h .exited
      · refine goto_next ?_ (.exitCode hcode)
        simpa [step, hcode] using h
  | inspectFails err => exact goto_next h (.inspectFails err)

section

omit [DecidableEq E]

variable {main main' : Main E}

theorem Goes.ne_waiting (h : Goes main a main') : main ≠ .waiting := by
  cases h <;> simp

theorem Goes.taken (h : Goes main a main') : a.taken = 0 := by
  cases h <;> rfl

theorem Goes.harmless (h : Goes main a main') : Harmless eof config s a := by
  cases h <;> trivial

/-- In front of the group, -/
theorem Goes.front (h : Goes main a main') (hpast : ¬ main.Past) :
    main' ≠ .waiting ∧ ¬ main'.Past := by
  cases h with
  | created | create | attach => exact ⟨by simp, id⟩
  | checked | ctx | running | exitCode | exited | inspectFails => exact absurd trivial hpast

/-- or behind. -/
theorem Goes.behind (h : Goes main a main') (hcreating : main ≠ .creating)
    (hattaching : main ≠ .attaching) : main' ≠ .creating ∧ main' ≠ .attaching := by
  cases h with
  | created | create => exact absurd rfl hcreating
  | attach => exact absurd rfl hattaching
  | checked | ctx | running | exitCode | exited | inspectFails => exact ⟨by simp, by simp⟩

end

omit [DecidableEq E] in
theorem Inv.congr {good' : Prop} (h : Inv eof r s good) (hiff : good ↔ good') :
    Inv eof r s good' := by
  rwa [← propext hiff]

omit [DecidableEq E] in
/-- `Exec` moves on. -/
theorem Inv.goes {main : Main E} (h : Inv eof r s good) (hgoes : Goes s.main a main) :
    Inv eof r { s with main := main } (good ∧ Harmless eof config s a) := by
  refine Inv.congr ?_ (and_iff_left hgoes.harmless).symm
  simp only [Inv] at h ⊢
  cases hstdin : s.stdin with
  | absent =>
    rw [hstdin] at h
    exact ⟨h.1, hgoes.front h.2.2⟩
  | copying c =>
    rw [hstdin] at h
    exact absurd h.2 hgoes.ne_waiting
  | ended c =>
    rw [hstdin] at h
    exact ⟨h.1, h.2.1, hgoes.behind h.2.2.1 h.2.2.2⟩

omit [DecidableEq E] in
/-- In front of `g.Go`, no input is copied. -/
theorem Inv.absent (h : Inv eof r s good) (hmain : s.main = .attaching) :
    s.stdin = .absent ∧ good := by
  simp only [Inv, hmain] at h
  cases hstdin : s.stdin with
  | absent =>
    rw [hstdin] at h
    exact ⟨rfl, h.1⟩
  | copying c =>
    rw [hstdin] at h
    cases h.2
  | ended c =>
    rw [hstdin] at h
    exact absurd rfl h.2.2.2

/-- **Every step keeps it.** -/
theorem Inv.step (hr : config.stdin = some r) (h : Inv eof r s good)
    (hs : step eof shortWrite config s a = some s') :
    Inv eof r s' (good ∧ Harmless eof config s a) := by
  cases step_next hs with
  | goes hgoes => exact h.goes hgoes
  | attach hmain =>
    have hattach : config.execConfig.attachStdin = true := by simp [Config.execConfig, hr]
    simp only [Inv, hattach, if_true]
    exact ⟨Copy.fits_initial.congr (iff_of_true trivial ⟨(h.absent hmain).2, trivial⟩), trivial⟩
  | @read r' c c' hr' hc hread =>
    cases hr.symm.trans hr'
    simp only [Inv, hc] at h ⊢
    refine ⟨(h.1.read hread).congr (and_congr_right fun _ => ?_), h.2⟩
    exact ⟨fun hh _ _ hr' hc' => by cases hr.symm.trans hr'; cases hc.symm.trans hc'; exact hh,
      fun hh => hh r c hr hc⟩
  | @write n err c c' hc hwrite =>
    simp only [Inv, hc] at h ⊢
    refine ⟨(h.1.write hwrite).congr (and_congr_right fun _ => ?_), h.2⟩
    exact ⟨fun hh _ hc' => by cases hc.symm.trans hc'; exact hh, fun hh => hh c hc⟩
  | @closeWrite c err cerr hc hpc =>
    simp only [Inv, hc] at h ⊢
    exact ⟨h.1.congr (by simp [Harmless]), ⟨err, hpc⟩, by simp [h.2]⟩
  | outputEnds => exact h.congr (and_true good).to_iff.symm
  | wait hjoined hmain =>
    simp only [Inv] at h ⊢
    cases hstdin : s.stdin with
    | absent =>
      rw [hstdin] at h
      exact absurd hmain h.2.1
    | copying c => exact absurd hstdin (hjoined.1 c)
    | ended c =>
      rw [hstdin] at h
      exact ⟨h.1.congr (and_true good).to_iff.symm, h.2.1, by simp⟩

/-- **It holds in every run**, whose steps have done no harm if it is a run of harmless ones. -/
theorem run_inv {as : List (Act E)} (hr : config.stdin = some r)
    (h : (exec eof shortWrite config).Run System.Any .initial as s) :
    Inv eof r s ((exec eof shortWrite config).Run (Harmless eof config) .initial as s) := by
  induction h with
  | nil => exact ⟨.nil, by simp [State.initial], id⟩
  | snoc hrun _ hs ih => exact (ih.step hr hs).congr (hrun.snoc_iff hs).symm

/-- **A success has delivered the input if and only if no step of its copy did harm.** -/
theorem exec_delivered_iff {as : List (Act E)} (hr : config.stdin = some r)
    (h : (exec eof shortWrite config).Run System.Any .initial as s)
    (hs : s.main = .returned none) :
    s.Delivered eof r ↔ (exec eof shortWrite config).Run (Harmless eof config) .initial as s := by
  have hinv := run_inv hr h
  simp only [Inv] at hinv
  cases hstdin : s.stdin with
  | absent =>
    rw [hstdin, hs] at hinv
    exact absurd trivial hinv.2.2
  | copying c =>
    rw [hstdin, hs] at hinv
    cases hinv.2
  | ended c =>
    rw [hstdin] at hinv
    obtain ⟨hfits, ⟨err, hpc⟩, -⟩ := hinv
    rw [← hfits.delivered_iff hpc]
    exact ⟨fun ⟨c', hc', hdelivered⟩ => by cases hstdin.symm.trans hc'; exact hdelivered,
      fun hdelivered => ⟨c, hstdin, hdelivered⟩⟩

/-! ## What the connection has taken -/

/-- What has been written to the connection. -/
def Stdin.written : Stdin E → List UInt8
  | .absent => []
  | .copying c | .ended c => c.written

/-- **A step** writes the bytes that the connection takes. -/
theorem step_written (h : Inv eof r s good)
    (hs : step eof shortWrite config s a = some s') :
    s'.stdin.written.length = s.stdin.written.length + a.taken ∧
      (Copy.Begins r s.stdin.written → Copy.Begins r s'.stdin.written) := by
  have hkeeps : s'.stdin.written = s.stdin.written → a.taken = 0 →
      s'.stdin.written.length = s.stdin.written.length + a.taken ∧
        (Copy.Begins r s.stdin.written → Copy.Begins r s'.stdin.written) :=
    fun hwritten htaken => by rw [hwritten, htaken]; exact ⟨rfl, id⟩
  cases step_next hs with
  | goes hgoes => exact hkeeps rfl hgoes.taken
  | outputEnds | wait => exact hkeeps rfl rfl
  | attach hmain =>
    refine hkeeps ?_ rfl
    rw [(h.absent hmain).1]
    dsimp only
    split <;> rfl
  | read _ hc hread =>
    refine hkeeps ?_ rfl
    rw [hc]
    exact Copy.read_written hread
  | closeWrite hc =>
    refine hkeeps ?_ rfl
    rw [hc]
    rfl
  | write hc hwrite =>
    simp only [Inv, hc] at h
    obtain ⟨hlength, hbegins⟩ := h.1.write_written hwrite
    rw [hc]
    exact ⟨hlength, fun _ => hbegins⟩

/-- **In a run**, the connection has been written as many bytes as it has taken, and the reader
begins with them. -/
theorem run_written {as : List (Act E)} (hr : config.stdin = some r)
    (h : (exec eof shortWrite config).Run System.Any .initial as s) :
    s.stdin.written.length = (as.map Act.taken).sum ∧ Copy.Begins r s.stdin.written := by
  induction h with
  | nil => exact ⟨rfl, 0, fun i hi => absurd hi (Nat.not_lt_zero i), List.nil_prefix⟩
  | snoc hrun _ hs ih =>
    obtain ⟨hlength, hbegins⟩ := step_written (run_inv hr hrun) hs
    refine ⟨?_, hbegins ih.2⟩
    rw [hlength, ih.1, List.map_append, List.sum_append]
    rfl

end

end Exec

end UAssign.Docker

import UAssign.Docker.Exec
import UAssign.Go.Decoder
import UAssign.Specbuild.Actions

/-!
# The commands of actions

`actionExec` and `actionWriteAppend` of `app/specbuild/actions.go`: what they have `dexec.Exec`
execute. With `ContentsBase64`, the input is what `base64.NewDecoder` makes of the contents: it may
end in an error behind some bytes, and `Exec` then succeeds if `cat` does, and it may come to an end
of contents that are not valid (`exec_delivers_input`).
-/

namespace UAssign.Specbuild

open Docker

section

variable {E : Type} [DecidableEq E] (eof shortWrite : E)

/-- `strings.NewReader`, whose `WriteTo` writes all at once. -/
def newReader (contents : List UInt8) : Copy.Reader E :=
  fun i => ⟨if i = 0 then contents else [], some eof⟩

/-- `gatedio.NewByteBuffer`, which takes all that is written to it. -/
def newByteBuffer : Copy.Writer E := fun _ _ => .takes

/-- The bytes of the contents. -/
def Action.bytes (ac : Action) : List UInt8 := ac.contents.toUTF8.data.toList

/-- `actionExec`. -/
def actionExec (ac : Action) : Config E :=
  { user := ac.user, cmd := ac.cmd, env := ac.env, workingDir := ac.workingDir,
    stdin := ac.stdin.map fun stdin => newReader eof stdin.toUTF8.data.toList
    stdout := some newByteBuffer, stderr := some newByteBuffer, tty := false }

/-- `actionWriteAppend`. -/
def actionWriteAppend (newDecoder : List UInt8 → Copy.Reader E) (ac : Action) : Config E :=
  let redir := if ac.action = "append" then ">>" else ">"
  { user := ac.user, cmd := ["sh", "-c", "exec cat " ++ redir ++ " " ++ ac.filename], env := [],
    workingDir := ac.workingDir,
    stdin := some (if ac.contentsBase64 then newDecoder ac.bytes else newReader eof ac.bytes)
    stdout := some newByteBuffer, stderr := some newByteBuffer, tty := false }

end

/-- **A success has delivered the input if and only if no step of its copy did harm.** If the input
is decoded, the contents were valid besides, unless the decoder takes them though they are not. -/
theorem exec_delivers_input {E : Type} [DecidableEq E] (eof shortWrite : E) (config : Config E)
    (r : Copy.Reader E) (hr : config.stdin = some r) (as : List (Exec.Act E)) (s : Exec.State E)
    (h : (Exec.exec eof shortWrite config).Run System.Any .initial as s)
    (hs : s.main = .returned none) :
    (s.Delivered eof r ↔
      (Exec.exec eof shortWrite config).Run (Exec.Harmless eof config) .initial as s) ∧
    ∀ (fault : Base64.Fault ↪ E) (ac : Action), fault .eof = eof →
      config = actionWriteAppend eof (Base64.newDecoder fault) ac → ac.contentsBase64 = true →
      (s.Delivered eof r ∧ Base64.decode ac.bytes ≠ none ↔
        (Exec.exec eof shortWrite config).Run (Exec.Harmless eof config) .initial as s ∧
          (Base64.Accepted ac.bytes → Base64.decode ac.bytes ≠ none)) := by
  have hiff := Exec.exec_delivered_iff hr h hs
  refine ⟨hiff, fun fault ac heof hconfig hbase64 => ?_⟩
  have hreader : Base64.newDecoder fault ac.bytes = r := by
    rw [hconfig] at hr
    simpa [actionWriteAppend, hbase64] using hr
  -- what has been delivered is what the decoder has come to the end of
  have haccepted : s.Delivered eof r → Base64.Accepted ac.bytes := by
    rintro ⟨c, -, hdelivered⟩
    have hends := hdelivered.ends
    rw [← hreader, ← heof] at hends
    exact Base64.accepted_iff.1 ⟨_, hends⟩
  constructor
  · rintro ⟨hdelivered, hvalid⟩
    exact ⟨hiff.1 hdelivered, fun _ => hvalid⟩
  · rintro ⟨hharmless, hvalid⟩
    have hdelivered := hiff.2 hharmless
    exact ⟨hdelivered, hvalid (haccepted hdelivered)⟩

/-- A write action with `ContentsBase64`. -/
def writeBase64 (contents : String) : Action :=
  { action := "write", user := "root", workingDir := "", cmd := [], env := [], stdin := none,
    contents := contents, contentsBase64 := true, filename := "/f", srcPath := "", packages := [],
    ldFlags := "", subactions := [] }

/-- The texts of the decoder's errors. -/
def faultText : Base64.Fault ↪ String where
  toFun
    | .eof => "EOF"
    | .unexpectedEOF => "unexpected EOF"
    | .corrupt => "illegal base64 data"
  inj' := by
    intro a b h
    revert h
    cases a <;> cases b <;> simp

/-- The run in which `cat` gets three bytes, and exits with code 0. -/
def catRun (err : Option String) : List (Exec.Act String) :=
  [.create none, .attach none, .read, .write 3 none, .read, .closeWrite err,
    .outputEnds .stdout none, .outputEnds .stderr none, .wait, .ctx none, .inspect false 0]

/-- A reader that yields `abc`, and then this error. -/
def abcThen (err : String) : Copy.Reader String := fun i =>
  match i with
  | 0 => ⟨[0x61, 0x62, 0x63], none⟩
  | _ + 1 => ⟨[], some err⟩

/-- What the decoder makes of a quantum, and of one with a character behind it. -/
theorem newDecoder_quantum {rest : List UInt8} (h : rest = [] ∨ rest = [0x21]) :
    Base64.newDecoder faultText (0x59 :: 0x57 :: 0x4A :: 0x6A :: rest) =
      abcThen (faultText (if rest = [] then .eof else .unexpectedEOF)) := by
  have hquantum : Base64.decodeQuanta [0x59, 0x57, 0x4A, 0x6A] = some [0x61, 0x62, 0x63] := by
    decide
  have hstream : Base64.stream [] (0x59 :: 0x57 :: 0x4A :: 0x6A :: rest) =
      ⟨[[0x61, 0x62, 0x63]], [], if rest = [] then .eof else .unexpectedEOF⟩ := by
    rcases h with rfl | rfl <;>
      simp [Base64.stream, Base64.whole, Base64.unbroken, Base64.bufferSize, Base64.Stream.cons,
        hquantum]
  funext i
  cases i with
  | zero => simp [Base64.newDecoder, hstream, abcThen]
  | succ i => simp [Base64.newDecoder, hstream, abcThen]

/-- `cat` gets the three bytes, and `Exec` returns nil. -/
theorem catRun_run (contents : String) (fault : Base64.Fault)
    (h : Base64.newDecoder faultText (writeBase64 contents).bytes = abcThen (faultText fault)) :
    ∃ s : Exec.State String,
      (Exec.exec "EOF" "short write" (actionWriteAppend "EOF" (Base64.newDecoder faultText)
        (writeBase64 contents))).Run System.Any .initial
          (catRun (if fault = .eof then none else some (faultText fault))) s ∧
      s.main = .returned none ∧ s.stdin.written = [0x61, 0x62, 0x63] := by
  have hconfig : actionWriteAppend "EOF" (Base64.newDecoder faultText) (writeBase64 contents) =
      actionWriteAppend "EOF" (fun _ => abcThen (faultText fault)) (writeBase64 contents) := by
    rw [← h]
    rfl
  rw [hconfig]
  cases fault <;> exact ⟨_, System.run_of_exec rfl, rfl, rfl⟩

/-- It holds of a write action with valid contents. -/
theorem exec_delivers_input_valid : ∃ s : Exec.State String,
    s.main = .returned none ∧
      let config := actionWriteAppend "EOF" (Base64.newDecoder faultText) (writeBase64 "YWJj")
      (s.Delivered "EOF" (Base64.newDecoder faultText (writeBase64 "YWJj").bytes) ∧
          Base64.decode (writeBase64 "YWJj").bytes ≠ none ↔
        (Exec.exec "EOF" "short write" config).Run (Exec.Harmless "EOF" config) .initial
            (catRun none) s ∧
          (Base64.Accepted (writeBase64 "YWJj").bytes →
            Base64.decode (writeBase64 "YWJj").bytes ≠ none)) := by
  obtain ⟨s, hrun, hs, -⟩ :=
    catRun_run "YWJj" .eof (newDecoder_quantum (.inl rfl))
  exact ⟨s, hs, (exec_delivers_input "EOF" "short write" _ _ rfl _ s hrun hs).2
    faultText _ rfl rfl rfl⟩

/-- **Contents that are not valid are written in part, and the action succeeds.** -/
theorem writeBase64_truncates : ∃ s : Exec.State String,
    Base64.decode (writeBase64 "YWJj!").bytes = none ∧
    (Exec.exec "EOF" "short write" (actionWriteAppend "EOF" (Base64.newDecoder faultText)
      (writeBase64 "YWJj!"))).Run System.Any .initial (catRun (some "unexpected EOF")) s ∧
    s.main = .returned none ∧
    ¬ s.Delivered "EOF" (Base64.newDecoder faultText (writeBase64 "YWJj!").bytes) := by
  have hbytes : (writeBase64 "YWJj!").bytes = [0x59, 0x57, 0x4A, 0x6A, 0x21] := rfl
  have hreader := newDecoder_quantum (.inr rfl)
  obtain ⟨s, hrun, hs, -⟩ := catRun_run "YWJj!" .unexpectedEOF hreader
  refine ⟨s, by rw [hbytes]; decide, hrun, hs, ?_⟩
  rintro ⟨c, -, hdelivered⟩
  have hends := hdelivered.ends
  have hfault : (abcThen "unexpected EOF").Ends [0x61, 0x62, 0x63] "unexpected EOF" := by
    refine ⟨1, fun i hi => ?_, rfl, rfl⟩
    obtain rfl : i = 0 := by omega
    rfl
  rw [hbytes, hreader] at hends
  exact absurd (hends.err_unique hfault) (by decide)

end UAssign.Specbuild

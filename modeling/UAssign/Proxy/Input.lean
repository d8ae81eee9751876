import UAssign.Go.Json
import UAssign.Proxy.Output

/-!
# The input pump

`proxyInputFunc` of `pkg/docker/proxy/proxy.go` decodes each message of the client into a slice of
arbitrary values and looks at its first elements. `wellFormed` says on which slices none of its
indices and type assertions fails; the pump survives a client exactly if every message it comes to
is well formed or no JSON array (`proxyInputFunc_survives_iff`).
-/

namespace UAssign.Proxy

open Bufio Json

/-! ## `[]interface{}` -/

/-- A value of type `interface{}` that `encoding/json` makes; `F` is `float64`. -/
inductive Any (F : Type) where
  | nil
  | bool (b : Bool)
  | float64 (x : F)
  | string (s : List UInt8)
  | slice (elems : List (Any F))
  | map (members : List (List UInt8 × Any F))

/-- What the pump uses of `float64`: `strconv.ParseFloat`, which fails out of range, and the
conversion to `uint`. -/
structure Float64 (F : Type) where
  parse : List UInt8 → Option F
  toUint : F → Nat

section

variable {F : Type} (float : Float64 F)

mutual

/-- A JSON value into an `interface{}`. -/
def decodeAny : Value → Option (Any F)
  | .null => some .nil
  | .bool b => some (.bool b)
  | .num lit => (float.parse lit).map .float64
  | .str s => some (.string s)
  | .arr elems => (decodeElems elems).map .slice
  | .obj members => (decodeMembers members).map .map

/-- The elements of an array. -/
def decodeElems : List Value → Option (List (Any F))
  | [] => some []
  | v :: vs =>
    match decodeAny v, decodeElems vs with
    | some x, some xs => some (x :: xs)
    | _, _ => none

/-- The members of an object. -/
def decodeMembers : List (List UInt8 × Value) → Option (List (List UInt8 × Any F))
  | [] => some []
  | (k, v) :: vs =>
    match decodeAny v, decodeMembers vs with
    | some x, some xs => some ((k, x) :: xs)
    | _, _ => none

end

/-- `json.Unmarshal` into a `[]interface{}`. Elements the slice had are overwritten; `null` makes it
`nil`; another value than an array, or a number out of range, is an error. -/
def unmarshalSlice (msg : List UInt8) : Option (List (Any F)) :=
  match parse msg with
  | some .null => some []
  | some (.arr elems) => decodeElems float elems
  | _ => none

end

/-! ## The pump -/

/-- What the pump does with a message. -/
inductive Effect (F : Type) where
  | write (bs : List UInt8)
  | resize (height width : Nat) (tries : Nat)
  | invalidHeight (x : Any F)
  | invalidWidth (x : Any F)
  | zeroSize
  | resizeFailed (height width : Nat)
  | unknownCommand (x : Any F)

/-- How the body of the loop ends: it goes on after an effect, returns an error after one, or
panics. -/
inductive Step (F : Type) where
  | next (e : Effect F)
  | stop (e : Effect F) (err : Err)
  | panic

/-- What the world answers: the error of the `n`-th message's write to the exec, and the errors of
the tries to resize it. -/
structure World where
  write : Nat → Option Err
  resize : Nat → Nat → Option Err

/-- `for i = 0; i < 5; i++`: the number of the try that succeeded. -/
def resizeTries (resize : Nat → Option Err) (i : Nat) : Nat → Option Nat
  | 0 => none
  | k + 1 => if resize i = none then some i else resizeTries resize (i + 1) k

section

variable {F : Type} (float : Float64 F) (w : World)

/-- The case `"set_size"`, behind the command. -/
def setSize (n : Nat) : List (Any F) → Step F
  | [] => .panic
  | .float64 hFloat :: rest =>
    match rest with
    | [] => .panic
    | .float64 wFloat :: _ =>
      let height := float.toUint hFloat
      let width := float.toUint wFloat
      if height = 0 ∧ width = 0 then .next .zeroSize
      else
        match resizeTries (w.resize n) 0 5 with
        | some i => .next (.resize height width i)
        | none => .next (.resizeFailed height width)
    | x :: _ => .next (.invalidWidth x)
  | x :: _ => .next (.invalidHeight x)

/-- The case `"stdin"`, behind the command. -/
def stdin (n : Nat) : List (Any F) → Step F
  | .string s :: _ =>
    match w.write n with
    | some err => .stop (.write s) err
    | none => .next (.write s)
  | _ => .panic

/-- The switch on `buf[0]` for the `n`-th message. -/
def proxyInputStep (n : Nat) : List (Any F) → Step F
  | [] => .panic
  | .string s :: rest =>
    if s = ascii "stdin" then stdin w n rest
    else if s = ascii "set_size" then setSize float w n rest
    else .next (.unknownCommand (.string s))
  | x :: _ => .next (.unknownCommand x)

/-- The effects of the pump, and how it ends. -/
structure Input (F : Type) where
  effects : List (Effect F)
  exit : Exit

/-- The loop of `proxyInputFunc` over the messages from the `n`-th on; behind the last one the
connection is closed. -/
def proxyInputLoop (n : Nat) : List (List UInt8) → Input F
  | [] => ⟨[], .returned .eof⟩
  | msg :: msgs =>
    match unmarshalSlice float msg with
    | none => ⟨[], .returned (.other "json")⟩
    | some buf =>
      match proxyInputStep float w n buf with
      | .panic => ⟨[], .panicked⟩
      | .stop e err => ⟨[e], .returned err⟩
      | .next e =>
        let rest := proxyInputLoop (n + 1) msgs
        ⟨e :: rest.effects, rest.exit⟩

/-- `proxyInputFunc`. -/
def proxyInputFunc (msgs : List (List UInt8)) : Input F := proxyInputLoop float w 0 msgs

end

/-! ## When the pump survives -/

/-- The slices on which no index and no type assertion of the pump fails. There is a command; behind
`stdin` there is a string; behind `set_size` there is something, and more where it is a number. -/
def wellFormed {F : Type} : List (Any F) → Bool
  | [] => false
  | .string s :: rest =>
    if s = ascii "stdin" then
      match rest with
      | .string _ :: _ => true
      | _ => false
    else if s = ascii "set_size" then
      match rest with
      | [] | [.float64 _] => false
      | _ => true
    else true
  | _ :: _ => true

/-- The command is `stdin`. -/
def isStdin {F : Type} : List (Any F) → Bool
  | .string s :: _ => s = ascii "stdin"
  | _ => false

section

variable {F : Type} (float : Float64 F) (w : World)

/-- The pump goes on after the `n`-th message: it is well formed, and if there is something to be
written, the write succeeds. -/
def Passes (n : Nat) (msg : List UInt8) : Prop :=
  ∃ buf, unmarshalSlice float msg = some buf ∧ wellFormed buf = true ∧
    (isStdin buf = true → w.write n = none)

variable {float w} {n : Nat} {buf : List (Any F)} {msg : List UInt8} {msgs : List (List UInt8)}

/-- The outcome a step of the pump must have on a slice. -/
def Outcome (w : World) (n : Nat) (buf : List (Any F)) : Step F → Prop
  | .panic => wellFormed buf = false
  | .stop _ err => wellFormed buf = true ∧ isStdin buf = true ∧ w.write n = some err
  | .next _ => wellFormed buf = true ∧ (isStdin buf = true → w.write n = none)

/-- The case `"stdin"`. -/
theorem stdin_outcome (rest : List (Any F)) :
    Outcome w n (.string (ascii "stdin") :: rest) (stdin w n rest) := by
  rcases rest with _ | ⟨x, rest⟩
  · rfl
  · cases x with
    | string s =>
      simp only [stdin]
      cases hw : w.write n with
      | none => exact ⟨rfl, fun _ => hw⟩
      | some err => exact ⟨rfl, rfl, hw⟩
    | _ => rfl

/-- The case `"set_size"`. -/
theorem setSize_outcome (rest : List (Any F)) :
    Outcome w n (.string (ascii "set_size") :: rest) (setSize float w n rest) := by
  have hno : isStdin (.string (ascii "set_size") :: rest) = true → w.write n = none :=
    fun h => by simp [isStdin, show ascii "set_size" ≠ ascii "stdin" by decide] at h
  rcases rest with _ | ⟨x, rest⟩
  · rfl
  · cases x with
    | float64 hFloat =>
      rcases rest with _ | ⟨y, rest⟩
      · rfl
      · cases y with
        | float64 wFloat =>
          simp only [setSize]
          split
          · exact ⟨rfl, hno⟩
          · split <;> exact ⟨rfl, hno⟩
        | _ => exact ⟨rfl, hno⟩
    | _ => exact ⟨rfl, hno⟩

/-- **The body of the loop** panics on the slices that are not well formed, and returns an error
when a write fails. -/
theorem proxyInputStep_outcome (buf : List (Any F)) :
    Outcome w n buf (proxyInputStep float w n buf) := by
  rcases buf with _ | ⟨x, rest⟩
  · rfl
  · cases x with
    | string s =>
      by_cases h₁ : s = ascii "stdin"
      · subst h₁
        exact stdin_outcome rest
      · by_cases h₂ : s = ascii "set_size"
        · subst h₂
          exact setSize_outcome rest
        · simp only [proxyInputStep, if_neg h₁, if_neg h₂]
          refine ⟨by simp only [wellFormed, if_neg h₁, if_neg h₂], fun h => ?_⟩
          exact absurd (of_decide_eq_true h) h₁
    | _ => exact ⟨rfl, nofun⟩

/-- The first message that is not well formed, if the pump comes to it. -/
def FirstBad (float : Float64 F) (w : World) (n : Nat) (msgs : List (List UInt8)) : Prop :=
  ∃ pre msg post buf, msgs = pre ++ msg :: post ∧
    (∀ i x, pre[i]? = some x → Passes float w (n + i) x) ∧
    unmarshalSlice float msg = some buf ∧ wellFormed buf = false

/-- Behind a message that passes, the pump comes to what it would come to without it. -/
theorem firstBad_cons (h : Passes float w n msg) :
    FirstBad float w n (msg :: msgs) ↔ FirstBad float w (n + 1) msgs := by
  refine ⟨?_, ?_⟩
  · rintro ⟨pre, bad, post, buf, hmsgs, hpre, hbuf, hbad⟩
    rcases pre with _ | ⟨x, pre⟩
    · obtain ⟨rfl, rfl⟩ := List.cons.inj hmsgs
      obtain ⟨buf', hbuf', hwf, -⟩ := h
      rw [hbuf] at hbuf'
      cases hbuf'
      rw [hbad] at hwf
      cases hwf
    · obtain ⟨rfl, rfl⟩ := List.cons.inj hmsgs
      refine ⟨pre, bad, post, buf, rfl, fun i x hx => ?_, hbuf, hbad⟩
      rw [Nat.add_assoc, Nat.add_comm 1 i]
      exact hpre (i + 1) x (by simpa using hx)
  · rintro ⟨pre, bad, post, buf, rfl, hpre, hbuf, hbad⟩
    refine ⟨msg :: pre, bad, post, buf, rfl, fun i x hx => ?_, hbuf, hbad⟩
    cases i with
    | zero => cases hx; exact h
    | succ i =>
      rw [Nat.add_comm i 1, ← Nat.add_assoc]
      exact hpre i x (by simpa using hx)

/-- If the first message does not pass, it is the bad one, or there is none. -/
theorem firstBad_of_not_passes (h : ¬ Passes float w n msg) :
    FirstBad float w n (msg :: msgs) ↔
      ∃ buf, unmarshalSlice float msg = some buf ∧ wellFormed buf = false := by
  refine ⟨?_, fun ⟨buf, hbuf, hbad⟩ => ⟨[], msg, msgs, buf, rfl, nofun, hbuf, hbad⟩⟩
  rintro ⟨pre, bad, post, buf, hmsgs, hpre, hbuf, hbad⟩
  rcases pre with _ | ⟨x, pre⟩
  · obtain ⟨rfl, rfl⟩ := List.cons.inj hmsgs
    exact ⟨buf, hbuf, hbad⟩
  · obtain ⟨rfl, rfl⟩ := List.cons.inj hmsgs
    exact (h (hpre 0 _ rfl)).elim

/-- The loop panics exactly at the first bad message. -/
theorem proxyInputLoop_panics :
    (proxyInputLoop float w n msgs).exit = .panicked ↔ FirstBad float w n msgs := by
  induction msgs generalizing n with
  | nil =>
    refine ⟨nofun, ?_⟩
    rintro ⟨pre, bad, post, buf, hmsgs, -⟩
    exact absurd hmsgs (by simp)
  | cons msg msgs ih =>
    rw [proxyInputLoop]
    cases hbuf : unmarshalSlice float msg with
    | none =>
      have hno : ¬ Passes float w n msg := by
        rintro ⟨buf, h, -⟩
        rw [hbuf] at h
        cases h
      rw [firstBad_of_not_passes hno, hbuf]
      exact ⟨nofun, fun ⟨_, h, _⟩ => nomatch h⟩
    | some buf =>
      have hout : Outcome w n buf (proxyInputStep float w n buf) := proxyInputStep_outcome buf
      simp only
      cases hstep : proxyInputStep float w n buf with
      | panic =>
        rw [hstep] at hout
        have hno : ¬ Passes float w n msg := by
          rintro ⟨buf', h, hwf, -⟩
          rw [hbuf] at h
          cases h
          exact absurd (hwf.symm.trans hout) nofun
        rw [firstBad_of_not_passes hno]
        exact ⟨fun _ => ⟨buf, hbuf, hout⟩, fun _ => rfl⟩
      | stop e err =>
        rw [hstep] at hout
        obtain ⟨hwf, hstdin, hw⟩ := hout
        have hno : ¬ Passes float w n msg := by
          rintro ⟨buf', h, -, hwrite⟩
          rw [hbuf] at h
          cases h
          rw [hwrite hstdin] at hw
          cases hw
        rw [firstBad_of_not_passes hno]
        refine ⟨nofun, fun ⟨buf', h, hbad⟩ => ?_⟩
        rw [hbuf] at h
        cases h
        exact absurd (hwf.symm.trans hbad) nofun
      | next e =>
        rw [hstep] at hout
        rw [firstBad_cons ⟨buf, hbuf, hout⟩]
        exact ih

end

/-- **The input pump survives** the messages of a client exactly if every message it comes to (all
those before it decode, are well formed and, if they are `stdin`, can be written) either does not
decode into a slice or decodes into one that is well formed. -/
theorem proxyInputFunc_survives_iff {F : Type} (float : Float64 F) (w : World)
    (msgs : List (List UInt8)) :
    (proxyInputFunc float w msgs).exit ≠ .panicked ↔
      ∀ pre msg post, msgs = pre ++ msg :: post →
        (∀ i x, pre[i]? = some x → Passes float w i x) →
          ∀ buf, unmarshalSlice float msg = some buf → wellFormed buf = true := by
  rw [proxyInputFunc, Ne, proxyInputLoop_panics]
  refine ⟨fun h pre msg post hmsgs hpre buf hbuf => ?_, ?_⟩
  · refine Decidable.byContradiction fun hbad => h ⟨pre, msg, post, buf, hmsgs, ?_, hbuf, ?_⟩
    · exact fun i x hx => by rw [Nat.zero_add]; exact hpre i x hx
    · exact Bool.eq_false_iff.2 hbad
  · rintro h ⟨pre, msg, post, buf, hmsgs, hpre, hbuf, hbad⟩
    refine absurd ((h pre msg post hmsgs (fun i x hx => ?_) buf hbuf).symm.trans hbad) nofun
    have := hpre i x hx
    rwa [Nat.zero_add] at this

/-- The message `[]` is enough to bring the pump down. -/
theorem proxyInputFunc_empty_array :
    ¬ ∀ (w : World) (msgs : List (List UInt8)),
      (proxyInputFunc (F := Nat) ⟨fun _ => some 0, id⟩ w msgs).exit ≠ .panicked :=
  fun h => h ⟨fun _ => none, fun _ _ => none⟩ [[0x5B, 0x5D]] rfl

end UAssign.Proxy

import UAssign.Js.Quote
import UAssign.Proxy.Input

/-!
# From the page to the exec

What the user types and how large the terminal is come to the page (`templates/container.qtpl`) as
events, which it sends as JSON: a string of UTF-16 code units, and two numbers. The input pump
writes the text of the strings, in UTF-8, and resizes the exec, in the order of the events
(`events_proxied`).
-/

namespace UAssign

namespace Proxy

open Bufio Json

/-! ## Events -/

/-- What happens on the page: `onVTKeystroke` or `sendString` with a string, and
`onTerminalResize`. -/
inductive Event where
  | keystroke (str : List UInt16)
  | resize (columns rows : Nat)
  deriving DecidableEq

/-- What the page sends for an event: `JSON.stringify` of an array. -/
def Event.message (wellFormed : Bool) : Event → List UInt8
  | .keystroke str => writeArray [quote (ascii "stdin"), quote (quoteJSONString wellFormed str)]
  | .resize columns rows => writeArray [quote (ascii "set_size"), decimal rows, decimal columns]

/-- The numbers that `float64` and JavaScript have in common with the integers. -/
def Event.Exact : Event → Prop
  | .keystroke _ => True
  | .resize columns rows => columns ≤ 2 ^ 53 ∧ rows ≤ 2 ^ 53

instance (e : Event) : Decidable e.Exact := by
  cases e <;> unfold Event.Exact <;> infer_instance

/-- `strconv.ParseFloat` and the conversion to `uint` are exact on integers of 53 bits. -/
def Float64.Exact {F : Type} (float : Float64 F) : Prop :=
  ∀ n ≤ 2 ^ 53, ∃ x, float.parse (decimal n) = some x ∧ float.toUint x = n

section

variable {F : Type} (float : Float64 F) (w : World)

/-- What an event does to the exec, as the `n`-th one. -/
def Event.effect (n : Nat) : Event → Effect F
  | .keystroke str => .write (toUtf8 str)
  | .resize columns rows =>
    if rows = 0 ∧ columns = 0 then .zeroSize
    else
      match resizeTries (w.resize n) 0 5 with
      | some i => .resize rows columns i
      | none => .resizeFailed rows columns

/-- The write of an event that fails, with its error. -/
def Event.failed (n : Nat) : Event → Option Err
  | .keystroke _ => w.write n
  | .resize _ _ => none

variable {float w} {n : Nat} {e : Event} {wellFormed : Bool}

/-- **One event**: the pump decodes its message, and does what the event says. -/
theorem proxyInputStep_event (hfloat : float.Exact) (he : e.Exact) :
    ∃ buf, unmarshalSlice float (e.message wellFormed) = some buf ∧
      proxyInputStep float w n buf =
        match e.failed w n with
        | some err => .stop (e.effect w n) err
        | none => .next (e.effect w n) := by
  cases e with
  | keystroke str =>
    have hparse := parse_writeArray (.cons (reads_safe (s := ascii "stdin") (by decide))
      (.cons (reads_quoteJSONString wellFormed str) .nil))
    refine ⟨[.string (ascii "stdin"), .string (toUtf8 str)], ?_, ?_⟩
    · simp only [unmarshalSlice, Event.message, hparse, decodeElems, decodeAny]
    · cases hwrite : w.write n <;>
        simp only [proxyInputStep, if_true, stdin, Event.failed, Event.effect, hwrite]
  | resize columns rows =>
    obtain ⟨x, hx, hxn⟩ := hfloat rows he.2
    obtain ⟨y, hy, hyn⟩ := hfloat columns he.1
    have hparse := parse_writeArray (.cons (reads_safe (s := ascii "set_size") (by decide))
      (.cons (reads_decimal rows) (.cons (reads_decimal columns) .nil)))
    refine ⟨[.string (ascii "set_size"), .float64 x, .float64 y], ?_, ?_⟩
    · rw [unmarshalSlice, Event.message, hparse]
      simp only [decodeElems, decodeAny, hx, hy, Option.map_some]
    · have hne : ascii "set_size" ≠ ascii "stdin" := by decide
      simp only [proxyInputStep, if_neg hne, if_true, setSize, hxn, hyn, Event.failed, Event.effect]
      split_ifs
      · rfl
      · cases resizeTries (w.resize n) 0 5 <;> rfl

/-- What the pump does with some events, the first of which is the `n`-th one: it comes to the end
of them and no write fails, or it returns the error of the first write that does. -/
def Proxied (w : World) (n : Nat) (events : List Event) (out : Input F) : Prop :=
  (out.effects = events.mapIdx (fun i e => e.effect w (n + i)) ∧ out.exit = .returned .eof ∧
    ∀ i (e : Event), events[i]? = some e → e.failed w (n + i) = none) ∨
  ∃ pre e post err, events = pre ++ e :: post ∧ e.failed w (n + pre.length) = some err ∧
    (∀ i (e' : Event), pre[i]? = some e' → e'.failed w (n + i) = none) ∧
    out.effects = (pre ++ [e]).mapIdx (fun i e => e.effect w (n + i)) ∧ out.exit = .returned err

/-- An event whose write succeeds, in front of others. -/
theorem Proxied.cons {events : List Event} {out : Input F} (hw : e.failed w n = none)
    (h : Proxied w (n + 1) events out) :
    Proxied w n (e :: events) ⟨e.effect w n :: out.effects, out.exit⟩ := by
  have hidx : ∀ i, n + 1 + i = n + (i + 1) := fun i => by omega
  have hall : ∀ {es : List Event},
      (∀ i (e' : Event), es[i]? = some e' → e'.failed w (n + 1 + i) = none) →
      ∀ i (e' : Event), (e :: es)[i]? = some e' → e'.failed w (n + i) = none := by
    intro es hes i e' he'
    cases i with
    | zero =>
      cases he'
      exact hw
    | succ i => exact hidx i ▸ hes i e' he'
  have heffects : ∀ {es : List Event},
      e.effect w n :: es.mapIdx (fun i e => e.effect w (n + 1 + i)) =
        (e :: es).mapIdx fun i e => e.effect (F := F) w (n + i) := by
    intro es
    simp only [List.mapIdx_cons, hidx, Nat.add_zero]
  rcases h with ⟨heff, hexit, hnone⟩ | ⟨pre, e', post, err, rfl, herr, hnone, heff, hexit⟩
  · exact .inl ⟨by rw [heff, heffects], hexit, hall hnone⟩
  · refine .inr ⟨e :: pre, e', post, err, rfl, ?_, hall hnone, ?_, hexit⟩
    · rw [List.length_cons, ← hidx]
      exact herr
    · rw [heff, heffects]
      rfl

/-- The loop of the pump over the messages of some events. -/
theorem proxyInputLoop_events (hfloat : float.Exact) (events : List Event)
    (he : ∀ e ∈ events, e.Exact) (n : Nat) :
    Proxied w n events (proxyInputLoop float w n (events.map (·.message wellFormed))) := by
  induction events generalizing n with
  | nil => exact .inl ⟨rfl, rfl, fun i e he => by cases he⟩
  | cons e events ih =>
    obtain ⟨he, hes⟩ := List.forall_mem_cons.1 he
    obtain ⟨buf, hbuf, hstep⟩ := @proxyInputStep_event F float w n e wellFormed hfloat he
    rw [List.map_cons, proxyInputLoop, hbuf]
    simp only [hstep]
    cases hw : e.failed w n with
    | none => exact (ih hes (n + 1)).cons hw
    | some err =>
      exact .inr ⟨[], e, events, err, rfl, hw, fun i e' he' => (by cases he'), rfl, rfl⟩

/-- **From the page to the exec.** Whatever the user types and however the terminal is resized, and
whatever version of `JSON.stringify` the page has, the pump decodes every message, and writes and
resizes exactly what the events say, in their order, to the end or up to the first write that
fails. -/
theorem events_proxied (hfloat : float.Exact) (w : World) (wellFormed : Bool) (events : List Event)
    (he : ∀ e ∈ events, e.Exact) :
    Proxied w 0 events (proxyInputFunc float w (events.map (·.message wellFormed))) :=
  proxyInputLoop_events hfloat events he 0

/-- The integers, for which `strconv.ParseFloat` reads the digits. -/
def integers : Float64 Nat :=
  ⟨fun lit => some (lit.foldl (fun a c => a * 10 + (c.toNat - 0x30)) 0), id⟩

theorem integers_exact : integers.Exact := by
  refine fun n _ => ⟨n, congrArg some ?_, rfl⟩
  clear * -
  have hdigit : ∀ k, k < 10 → (UInt8.ofNat (0x30 + k)).toNat - 0x30 = k := by
    intro k hk
    rw [UInt8.toNat_ofNat']
    omega
  fun_induction decimal n with
  | case1 n h => simp only [List.foldl_cons, List.foldl_nil, hdigit n h, Nat.zero_mul, Nat.zero_add]
  | case2 n h ih =>
    rw [List.foldl_append, ih]
    simp only [List.foldl_cons, List.foldl_nil, hdigit (n % 10) (Nat.mod_lt _ (by decide))]
    omega

/-- A key, half of a pair, and a terminal of 80 columns and 24 rows. -/
theorem events_proxied_three :
    (proxyInputFunc integers ⟨fun _ => none, fun _ _ => none⟩
      ([Event.keystroke [0x6C], .keystroke [0xD83D], .resize 80 24].map (·.message true))).effects =
      [.write [0x6C], .write [0xEF, 0xBF, 0xBD], .resize 24 80 0] := by
  rcases events_proxied integers_exact ⟨fun _ => none, fun _ _ => none⟩ true
      [.keystroke [0x6C], .keystroke [0xD83D], .resize 80 24] (by decide) with
    ⟨heff, -⟩ | ⟨pre, e, post, err, -, herr, -⟩
  · exact heff
  · cases e <;> cases herr

end

end UAssign.Proxy

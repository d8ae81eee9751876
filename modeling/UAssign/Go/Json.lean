import UAssign.Go.ScanRunes
import UAssign.Go.Base64

/-!
# `encoding/json`: reading a value

The scanner takes one byte at a time, as `scanner.go` does, with the stack of the arrays and objects
it is in; it builds the value on the way. `readValue` reads the next value of a stream, as a
`Decoder` does, and `parse` the only one of some data, as `Unmarshal` does. Strings are Go strings:
bytes, in which what is not UTF-8 and the lone halves of surrogate pairs have been replaced.
-/

namespace UAssign.Json

open Utf8 Bufio

/-- A JSON value. A number is its literal, an object its members in order. -/
inductive Value where
  | null
  | bool (b : Bool)
  | num (lit : List UInt8)
  | str (s : List UInt8)
  | arr (elems : List Value)
  | obj (members : List (List UInt8 × Value))

/-- The bytes of an ASCII literal. -/
def ascii (s : String) : List UInt8 := s.toList.map fun c => UInt8.ofNat c.toNat

/-! ## String literals -/

/-- The value of a hexadecimal digit. -/
def hexVal (c : UInt8) : Option Nat :=
  if 0x30 ≤ c ∧ c ≤ 0x39 then some (c.toNat - 0x30)
  else if 0x61 ≤ c ∧ c ≤ 0x66 then some (c.toNat - 0x61 + 10)
  else if 0x41 ≤ c ∧ c ≤ 0x46 then some (c.toNat - 0x41 + 10)
  else none

/-- `getu4`, after the `\u`: the code unit of four digits. -/
def getu4 (a b c d : UInt8) : Nat :=
  (hexVal a).getD 0 * 4096 + (hexVal b).getD 0 * 256 + (hexVal c).getD 0 * 16 + (hexVal d).getD 0

/-- `utf8.EncodeRune`. -/
def encodeRune (r : Nat) : List UInt8 := String.utf8EncodeChar (Char.ofNat r)

/-- The byte of a one-letter escape. -/
def escapeByte (c : UInt8) : UInt8 :=
  if c = 0x62 then 0x08
  else if c = 0x66 then 0x0C
  else if c = 0x6E then 0x0A
  else if c = 0x72 then 0x0D
  else if c = 0x74 then 0x09
  else c

/-- The first and the second half of a surrogate pair. -/
def isHigh (r : Nat) : Bool := 0xD800 ≤ r ∧ r < 0xDC00

@[inherit_doc isHigh]
def isLow (r : Nat) : Bool := 0xDC00 ≤ r ∧ r < 0xE000

/-- What is left of a first half that no second half follows. -/
def lone (high : Option Nat) : List UInt8 := if high.isSome then errorRune else []

/-- Reads the escapes of a string literal, with the first half of a pair that has just been read. -/
def unescape (high : Option Nat) : List UInt8 → List UInt8
  | 0x5C :: 0x75 :: a :: b :: c :: d :: rest =>
    let r := getu4 a b c d
    if isLow r then
      (match high with
        | some h => encodeRune ((h - 0xD800) * 1024 + (r - 0xDC00) + 0x10000)
        | none => errorRune) ++ unescape none rest
    else if isHigh r then lone high ++ unescape (some r) rest
    else lone high ++ encodeRune r ++ unescape none rest
  | 0x5C :: c :: rest => lone high ++ escapeByte c :: unescape none rest
  | c :: rest => lone high ++ c :: unescape none rest
  | [] => lone high

/-- `unquote`, of what stands between the quotation marks. -/
def unquote (raw : List UInt8) : List UInt8 := unescape none (sanitize raw)

/-! ## Number literals -/

/-- How far the scanner is in a number. -/
inductive NumState where
  | neg
  | zero
  | int
  | dot
  | frac
  | exp
  | expSign
  | expDigits
  deriving DecidableEq

/-- A decimal digit. -/
def isDigit (c : UInt8) : Bool := 0x30 ≤ c ∧ c ≤ 0x39

/-- `e` or `E`. -/
def isExp (c : UInt8) : Bool := c = 0x65 ∨ c = 0x45

/-- Where a number goes on with a byte, if it does. -/
def NumState.next (n : NumState) (c : UInt8) : Option NumState :=
  match n with
  | .neg => if c = 0x30 then some .zero else if isDigit c then some .int else none
  | .zero => if c = 0x2E then some .dot else if isExp c then some .exp else none
  | .int =>
    if isDigit c then some .int
    else if c = 0x2E then some .dot else if isExp c then some .exp else none
  | .dot => if isDigit c then some .frac else none
  | .frac => if isDigit c then some .frac else if isExp c then some .exp else none
  | .exp =>
    if c = 0x2B ∨ c = 0x2D then some .expSign else if isDigit c then some .expDigits else none
  | .expSign => if isDigit c then some .expDigits else none
  | .expDigits => if isDigit c then some .expDigits else none

/-- The number may end here. -/
def NumState.complete : NumState → Bool
  | .zero | .int | .frac | .expDigits => true
  | _ => false

/-! ## The scanner -/

/-- `isSpace`. -/
def isSpace (c : UInt8) : Bool := c = 0x20 ∨ c = 0x09 ∨ c = 0x0D ∨ c = 0x0A

/-- What the scanner is in the middle of: an object whose next key it reads (`parseObjectKey`), an
object whose value of `key` it reads (`parseObjectValue`), or an array (`parseArrayValue`). -/
inductive Frame where
  | key (members : List (List UInt8 × Value))
  | value (members : List (List UInt8 × Value)) (key : List UInt8)
  | elem (elems : List Value)

/-- The scanner's step function. `begin` is before a value, `beginString` before a key; both say
whether the array or object may end there. `endValue` holds the value or key just read, `lit` what
is left of `true`, `false` or `null`. -/
inductive Scan where
  | begin (orEmpty : Bool)
  | beginString (orEmpty : Bool)
  | inString (raw : List UInt8)
  | inStringEsc (raw : List UInt8)
  | inStringEscU (due : Nat) (raw : List UInt8)
  | lit (rest : List UInt8) (v : Value)
  | number (n : NumState) (raw : List UInt8)
  | endValue (v : Value)

/-- The state before a value, for a byte that is no space and ends no array. -/
def stateBeginValue (st : List Frame) (c : UInt8) : Option (Scan × List Frame) :=
  if c = 0x7B then some (.beginString true, .key [] :: st)
  else if c = 0x5B then some (.begin true, .elem [] :: st)
  else if c = 0x22 then some (.inString [], st)
  else if c = 0x2D then some (.number .neg [c], st)
  else if c = 0x30 then some (.number .zero [c], st)
  else if c = 0x74 then some (.lit (ascii "rue") (.bool true), st)
  else if c = 0x66 then some (.lit (ascii "alse") (.bool false), st)
  else if c = 0x6E then some (.lit (ascii "ull") .null, st)
  else if isDigit c then some (.number .int [c], st)
  else none

/-- The state after a value, inside an array or object. -/
def stateEndValue (v : Value) (st : List Frame) (c : UInt8) : Option (Scan × List Frame) :=
  if isSpace c then some (.endValue v, st)
  else
    match st, v with
    | .key ms :: st, .str k => if c = 0x3A then some (.begin false, .value ms k :: st) else none
    | .value ms k :: st, v =>
      if c = 0x2C then some (.beginString false, .key (ms ++ [(k, v)]) :: st)
      else if c = 0x7D then some (.endValue (.obj (ms ++ [(k, v)])), st)
      else none
    | .elem xs :: st, v =>
      if c = 0x2C then some (.begin false, .elem (xs ++ [v]) :: st)
      else if c = 0x5D then some (.endValue (.arr (xs ++ [v])), st)
      else none
    | _, _ => none

/-- One byte. -/
def Scan.step (sc : Scan) (st : List Frame) (c : UInt8) : Option (Scan × List Frame) :=
  match sc with
  | .begin orEmpty =>
    if isSpace c then some (.begin orEmpty, st)
    else
      match orEmpty, st with
      | true, .elem _ :: st' =>
        if c = 0x5D then some (.endValue (.arr []), st') else stateBeginValue st c
      | _, _ => stateBeginValue st c
  | .beginString orEmpty =>
    if isSpace c then some (.beginString orEmpty, st)
    else
      match orEmpty, st with
      | true, .key _ :: st' =>
        if c = 0x7D then some (.endValue (.obj []), st')
        else if c = 0x22 then some (.inString [], st) else none
      | _, _ => if c = 0x22 then some (.inString [], st) else none
  | .inString raw =>
    if c = 0x22 then some (.endValue (.str (unquote raw)), st)
    else if c = 0x5C then some (.inStringEsc (raw ++ [c]), st)
    else if c < 0x20 then none
    else some (.inString (raw ++ [c]), st)
  | .inStringEsc raw =>
    if c = 0x75 then some (.inStringEscU 3 (raw ++ [c]), st)
    else if c ∈ ascii "bfnrt\\/\"" then some (.inString (raw ++ [c]), st)
    else none
  | .inStringEscU due raw =>
    match hexVal c, due with
    | some _, 0 => some (.inString (raw ++ [c]), st)
    | some _, due + 1 => some (.inStringEscU due (raw ++ [c]), st)
    | none, _ => none
  | .lit [] _ => none
  | .lit [b] v => if c = b then some (.endValue v, st) else none
  | .lit (b :: rest) v => if c = b then some (.lit rest v, st) else none
  | .number n raw => (n.next c).map fun n' => (.number n' (raw ++ [c]), st)
  | .endValue v => stateEndValue v st c

/-- A number ends before a byte it does not go on with, or with the data. -/
def Scan.settle (sc : Scan) (c : Option UInt8) : Option Scan :=
  match sc with
  | .number n raw =>
    if (c.bind n.next).isSome then some sc
    else if n.complete then some (.endValue (.num raw)) else none
  | sc => some sc

/-- `Decoder.Decode`, from a state of the scanner on: the value, and what comes after it. -/
def read (sc : Scan) (st : List Frame) : List UInt8 → Option (Value × List UInt8)
  | [] =>
    match sc.settle none, st with
    | some (.endValue v), [] => some (v, [])
    | _, _ => none
  | c :: rest =>
    match sc.settle (some c), st with
    | some (.endValue v), [] => some (v, c :: rest)
    | some sc, st =>
      match sc.step st c with
      | some (sc', st') => read sc' st' rest
      | none => none
    | none, _ => none

/-- The next value of a stream. -/
def readValue (data : List UInt8) : Option (Value × List UInt8) := read (.begin false) [] data

/-- The value that the data is (`checkValid` and the decoder). -/
def parse (data : List UInt8) : Option Value :=
  match readValue data with
  | some (v, rest) => if rest.all isSpace then some v else none
  | none => none

/-- One byte of `read`, where the scanner is in no number and the value is not at its end. -/
theorem read_step {sc sc' : Scan} {st st' : List Frame} {c : UInt8} {rest : List UInt8}
    (h : sc.step st c = some (sc', st')) (hsc : sc.settle (some c) = some sc)
    (hend : ∀ v, sc = .endValue v → st ≠ []) : read sc st (c :: rest) = read sc' st' rest := by
  generalize hr : read sc' st' rest = r
  unfold read
  rw [hsc]
  split
  · next v heq =>
    cases heq
    exact (hend v rfl rfl).elim
  · next heq _ =>
    cases heq
    simp only [h, hr]
  · next heq => cases heq

/-! ## Writing objects of plain strings -/

/-- A string literal that needs no escapes. -/
def quote (s : List UInt8) : List UInt8 := 0x22 :: s ++ [0x22]

/-- The members of an object whose values are strings, with `sp` behind each separator. -/
def writeMembers (sp : List UInt8) : List (List UInt8 × List UInt8) → List UInt8
  | [] => []
  | [(k, v)] => quote k ++ 0x3A :: (sp ++ quote v)
  | (k, v) :: ms => quote k ++ 0x3A :: (sp ++ quote v) ++ 0x2C :: (sp ++ writeMembers sp ms)

/-- An object whose values are strings. -/
def writeObject (sp : List UInt8) (ms : List (List UInt8 × List UInt8)) : List UInt8 :=
  0x7B :: writeMembers sp ms ++ [0x7D]

section

open Base64 (Plain)

variable {s raw rest sp : List UInt8} {st : List Frame}

/-- ASCII text is valid. -/
theorem valid_plain (h : ∀ c ∈ s, Plain c) : Valid s := by
  induction s with
  | nil => exact .nil
  | cons c s ih =>
    obtain ⟨hc, hs⟩ := List.forall_mem_cons.1 h
    obtain ⟨d, hd⟩ := encodeChar_one hc.2.1
    exact (hd ▸ valid_encodeChar d : Valid [c]).append (ih hs)

/-- Plain text has no escapes. -/
theorem unescape_plain (h : ∀ c ∈ s, Plain c) : unescape none s = s := by
  induction s with
  | nil => rfl
  | cons c s ih =>
    obtain ⟨hc, hs⟩ := List.forall_mem_cons.1 h
    have hne := hc.2.2.2
    unfold unescape
    split
    · next h' => cases h'; exact (hne rfl).elim
    · next h' => cases h'; exact (hne rfl).elim
    · next h' => cases h'; rw [ih hs]; rfl
    · next h' => cases h'

/-- Plain text stands for itself. -/
theorem unquote_plain (h : ∀ c ∈ s, Plain c) : unquote s = s := by
  rw [unquote, sanitize_valid (valid_plain h), unescape_plain h]

/-- The scanner reads a plain string to its quotation mark. -/
theorem read_inString (h : ∀ c ∈ s, Plain c) :
    read (.inString raw) st (s ++ 0x22 :: rest) =
      read (.endValue (.str (unquote (raw ++ s)))) st rest := by
  induction s generalizing raw with
  | nil =>
    rw [List.nil_append, List.append_nil]
    exact read_step rfl rfl nofun
  | cons c s ih =>
    obtain ⟨hc, hs⟩ := List.forall_mem_cons.1 h
    obtain ⟨h₁, -, h₂, h₃⟩ := hc
    have h₁ : ¬ c < 0x20 := by simpa using h₁
    have hstep : (Scan.inString raw).step st c = some (.inString (raw ++ [c]), st) := by
      simp only [Scan.step, h₁, h₂, h₃, if_false]
    rw [List.cons_append, read_step hstep rfl nofun, ih hs, List.append_assoc]
    rfl

/-- The scanner reads a plain string behind its quotation mark. -/
theorem read_string (h : ∀ c ∈ s, Plain c) :
    read (.inString []) st (s ++ 0x22 :: rest) = read (.endValue (.str s)) st rest := by
  rw [read_inString h, List.nil_append, unquote_plain h]

/-- The scanner reads a plain string as a value. -/
theorem read_quote {e : Bool} (h : ∀ c ∈ s, Plain c) :
    read (.begin e) st (quote s ++ rest) = read (.endValue (.str s)) st rest := by
  have hq : quote s ++ rest = 0x22 :: (s ++ 0x22 :: rest) := by simp [quote]
  have hstep : (Scan.begin e).step st 0x22 = some (.inString [], st) := by
    cases e <;> rcases st with _ | ⟨_ | _ | _, st⟩ <;> rfl
  rw [hq, read_step hstep rfl nofun, read_string h]

/-- The scanner reads a plain string as a key. -/
theorem read_key {e : Bool} (h : ∀ c ∈ s, Plain c) :
    read (.beginString e) st (quote s ++ rest) = read (.endValue (.str s)) st rest := by
  have hq : quote s ++ rest = 0x22 :: (s ++ 0x22 :: rest) := by simp [quote]
  have hstep : (Scan.beginString e).step st 0x22 = some (.inString [], st) := by
    cases e <;> rcases st with _ | ⟨_ | _ | _, st⟩ <;> rfl
  rw [hq, read_step hstep rfl nofun, read_string h]

/-- Space before a value. -/
theorem read_begin_space (h : ∀ c ∈ sp, isSpace c = true) :
    read (.begin false) st (sp ++ rest) = read (.begin false) st rest := by
  induction sp with
  | nil => rfl
  | cons c sp ih =>
    obtain ⟨hc, hs⟩ := List.forall_mem_cons.1 h
    have hstep : (Scan.begin false).step st c = some (.begin false, st) := if_pos hc
    rw [List.cons_append, read_step hstep rfl nofun, ih hs]

/-- Space before a key. -/
theorem read_beginString_space (h : ∀ c ∈ sp, isSpace c = true) :
    read (.beginString false) st (sp ++ rest) = read (.beginString false) st rest := by
  induction sp with
  | nil => rfl
  | cons c sp ih =>
    obtain ⟨hc, hs⟩ := List.forall_mem_cons.1 h
    have hstep : (Scan.beginString false).step st c = some (.beginString false, st) := if_pos hc
    rw [List.cons_append, read_step hstep rfl nofun, ih hs]

/-- A member up to the end of its value. -/
theorem read_member {e : Bool} {ms : List (List UInt8 × Value)} {k v : List UInt8}
    (hsp : ∀ c ∈ sp, isSpace c = true) (hk : ∀ c ∈ k, Plain c) (hv : ∀ c ∈ v, Plain c) :
    read (.beginString e) (.key ms :: st) (quote k ++ 0x3A :: (sp ++ quote v) ++ rest) =
      read (.endValue (.str v)) (.value ms k :: st) rest := by
  have hcolon : read (.endValue (.str k)) (.key ms :: st) (0x3A :: (sp ++ quote v) ++ rest) =
      read (.begin false) (.value ms k :: st) ((sp ++ quote v) ++ rest) :=
    read_step rfl rfl nofun
  rw [List.append_assoc, read_key hk, hcolon, List.append_assoc, read_begin_space hsp,
    read_quote hv]

/-- The members of an object of plain strings. -/
theorem read_members {ms : List (List UInt8 × List UInt8)} {done : List (List UInt8 × Value)}
    {e : Bool} (hsp : ∀ c ∈ sp, isSpace c = true) (hne : ms ≠ [])
    (h : ∀ m ∈ ms, (∀ c ∈ m.1, Plain c) ∧ ∀ c ∈ m.2, Plain c) :
    read (.beginString e) (.key done :: st) (writeMembers sp ms ++ 0x7D :: rest) =
      read (.endValue (.obj (done ++ ms.map fun m => (m.1, .str m.2)))) st rest := by
  induction ms generalizing done e with
  | nil => exact (hne rfl).elim
  | cons m ms ih =>
    obtain ⟨k, v⟩ := m
    obtain ⟨⟨hk, hv⟩, hms⟩ := List.forall_mem_cons.1 h
    cases ms with
    | nil =>
      rw [writeMembers, read_member hsp hk hv]
      exact read_step rfl rfl nofun
    | cons m ms =>
      have hcomma : read (.endValue (.str v)) (.value done k :: st)
            (0x2C :: (sp ++ writeMembers sp (m :: ms)) ++ 0x7D :: rest) =
          read (.beginString false) (.key (done ++ [(k, .str v)]) :: st)
            (sp ++ writeMembers sp (m :: ms) ++ 0x7D :: rest) :=
        read_step rfl rfl nofun
      rw [writeMembers, List.append_assoc, read_member hsp hk hv, hcomma, List.append_assoc,
        read_beginString_space hsp, ih nofun hms, List.append_assoc]
      · rfl
      · nofun

/-- **Reading undoes writing**, for objects of plain strings, whatever comes behind. -/
theorem readValue_writeObject {ms : List (List UInt8 × List UInt8)}
    (hsp : ∀ c ∈ sp, isSpace c = true) (hne : ms ≠ [])
    (h : ∀ m ∈ ms, (∀ c ∈ m.1, Plain c) ∧ ∀ c ∈ m.2, Plain c) :
    readValue (writeObject sp ms ++ rest) =
      some (.obj (ms.map fun m => (m.1, .str m.2)), rest) := by
  have hopen : read (.begin false) [] (0x7B :: (writeMembers sp ms ++ 0x7D :: rest)) =
      read (.beginString true) [.key []] (writeMembers sp ms ++ 0x7D :: rest) :=
    read_step rfl rfl nofun
  have htext : writeObject sp ms ++ rest = 0x7B :: (writeMembers sp ms ++ 0x7D :: rest) := by
    simp [writeObject]
  rw [readValue, htext, hopen, read_members hsp hne h, List.nil_append]
  cases rest <;> rfl

/-- The same of the data as a whole. -/
theorem parse_writeObject {ms : List (List UInt8 × List UInt8)}
    (hsp : ∀ c ∈ sp, isSpace c = true) (hne : ms ≠ [])
    (h : ∀ m ∈ ms, (∀ c ∈ m.1, Plain c) ∧ ∀ c ∈ m.2, Plain c)
    (hrest : ∀ c ∈ rest, isSpace c = true) :
    parse (writeObject sp ms ++ rest) = some (.obj (ms.map fun m => (m.1, .str m.2))) := by
  rw [parse, readValue_writeObject hsp hne h]
  exact if_pos (List.all_eq_true.2 hrest)

end

end UAssign.Json

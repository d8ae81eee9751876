import UAssign.Js.Quote

/-!
# `JSON.stringify`: values

What a Go program reads (`Json.parse`) of the text that `JSON.stringify` writes for a value: the
value, without what JSON does not have (`exportViaJSON_eq`). `undefined` is left out of objects, and
`null` in arrays.
-/

namespace UAssign.Json

/-! ## Values -/

/-- A finite number, by its text, which is one of a JSON number. -/
structure Number where
  text : List UInt8
  reads : Reads text (.num text)

/-- The values that `JSON.stringify` is called with. A function is written as `undefined` is, and a
number that is not finite is `none`. -/
inductive Data where
  | undefined
  | null
  | bool (b : Bool)
  | number (n : Option Number)
  | string (us : List UInt16)
  | array (elems : List Data)
  | object (members : List (List UInt16 × Data))

/-- A boolean. -/
def writeBool (b : Bool) : List UInt8 := if b then ascii "true" else ascii "false"

mutual

/-- `SerializeJSONProperty`. -/
def stringify (wellFormed : Bool) : Data → Option (List UInt8)
  | .undefined => none
  | .null => some (ascii "null")
  | .bool b => some (writeBool b)
  | .number none => some (ascii "null")
  | .number (some n) => some n.text
  | .string us => some (quote (quoteJSONString wellFormed us))
  | .array elems => some (writeArray (stringifyElems wellFormed elems))
  | .object members => some (writeMap (stringifyMembers wellFormed members))

/-- `SerializeJSONArray`. -/
def stringifyElems (wellFormed : Bool) : List Data → List (List UInt8)
  | [] => []
  | x :: xs => (stringify wellFormed x).getD (ascii "null") :: stringifyElems wellFormed xs

/-- `SerializeJSONObject`. -/
def stringifyMembers (wellFormed : Bool) :
    List (List UInt16 × Data) → List (List UInt8 × List UInt8)
  | [] => []
  | (k, x) :: ms =>
    match stringify wellFormed x with
    | none => stringifyMembers wellFormed ms
    | some text => (quote (quoteJSONString wellFormed k), text) :: stringifyMembers wellFormed ms

end

mutual

/-- The JSON value of a value. -/
def Data.value : Data → Option Value
  | .undefined => none
  | .null => some .null
  | .bool b => some (.bool b)
  | .number none => some .null
  | .number (some n) => some (.num n.text)
  | .string us => some (.str (toUtf8 us))
  | .array elems => some (.arr (valueElems elems))
  | .object members => some (.obj (valueMembers members))

@[inherit_doc Data.value]
def valueElems : List Data → List Value
  | [] => []
  | x :: xs => x.value.getD .null :: valueElems xs

@[inherit_doc Data.value]
def valueMembers : List (List UInt16 × Data) → List (List UInt8 × Value)
  | [] => []
  | (k, x) :: ms =>
    match x.value with
    | none => valueMembers ms
    | some v => (toUtf8 k, v) :: valueMembers ms

end

/-! ## The round trip -/

mutual

/-- **What is written is read**: a value, -/
theorem stringify_reads (wellFormed : Bool) :
    (d : Data) → Option.Rel Reads (stringify wellFormed d) d.value
  | .undefined => .none
  | .null => .some reads_null
  | .bool true => .some reads_true
  | .bool false => .some reads_false
  | .number none => .some reads_null
  | .number (some n) => .some n.reads
  | .string us => .some (reads_quoteJSONString wellFormed us)
  | .array elems => .some (reads_array (stringifyElems_reads wellFormed elems))
  | .object members => .some (reads_map (stringifyMembers_reads wellFormed members))

/-- the elements of an array, -/
theorem stringifyElems_reads (wellFormed : Bool) : (xs : List Data) →
    List.Forall₂ Reads (stringifyElems wellFormed xs) (valueElems xs)
  | [] => .nil
  | x :: xs => by
    have hx := stringify_reads wellFormed x
    refine .cons ?_ (stringifyElems_reads wellFormed xs)
    generalize stringify wellFormed x = text at hx ⊢
    generalize x.value = v at hx ⊢
    cases hx with
    | some h => exact h
    | none => exact reads_null

/-- and the members of an object. -/
theorem stringifyMembers_reads (wellFormed : Bool) : (ms : List (List UInt16 × Data)) →
    List.Forall₂ ReadsMember (stringifyMembers wellFormed ms) (valueMembers ms)
  | [] => .nil
  | (k, x) :: ms => by
    have hx := stringify_reads wellFormed x
    have ih := stringifyMembers_reads wellFormed ms
    simp only [stringifyMembers, valueMembers]
    generalize stringify wellFormed x = text at hx ⊢
    generalize x.value = v at hx ⊢
    cases hx with
    | none => exact ih
    | some h =>
      have hname : toUtf8 k = unquote (quoteJSONString wellFormed k) :=
        (unquote_quoteJSONString wellFormed k).symm
      exact .cons ⟨⟨_, (body_quoteJSONString wellFormed k).1, rfl, hname⟩, h⟩ ih

end

/-- `Runtime.exportViaJSON`, up to the decoding: what `JSON.stringify` returns is made a string,
whatever it is. -/
def exportViaJSON (wellFormed : Bool) (d : Data) : Option Value :=
  parse ((stringify wellFormed d).getD (ascii "undefined"))

/-- **`Unmarshal` reads what `JSON.stringify` writes.** -/
theorem exportViaJSON_eq (wellFormed : Bool) (d : Data) :
    exportViaJSON wellFormed d = d.value := by
  have hd := stringify_reads wellFormed d
  unfold exportViaJSON
  generalize stringify wellFormed d = text at hd ⊢
  generalize d.value = v at hd ⊢
  cases hd with
  | none => rfl
  | some h => exact h.parse

end UAssign.Json

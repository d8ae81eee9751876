import UAssign.App.SpecRequest
import UAssign.Go.Struct
import UAssign.Js.Stringify
import UAssign.Specbuild.Actions

/-!
# What an assignment generates

`Generate` of `app/specbuild/generate.go`: the value that `generate` of an assignment's `index.js`
returns becomes a `GenerateOutput`, by way of JSON, since names are compared without regard to case.
`Unmarshal` takes the members of an object as they come; `outputOf` looks for the member of each
field. They are the same (`generate_eq`) unless an object has two members for one field.
-/

namespace UAssign.Specbuild

open Json

/-! ## Fields -/

/-- The fields of an `Action`. -/
inductive ActionField where
  | action
  | user
  | workingDir
  | cmd
  | env
  | stdin
  | contents
  | contentsBase64
  | filename
  | srcPath
  | packages
  | ldFlags
  | subactions
  deriving DecidableEq

/-- The fields of a `GenerateOutput`. -/
inductive OutputField where
  | imageName
  | dockerfile
  | init
  | postBuild
  | user
  | cmd
  | env
  | workingDir
  deriving DecidableEq

/-- The fields, in the order of the type. -/
def ActionField.all : List ActionField :=
  [.action, .user, .workingDir, .cmd, .env, .stdin, .contents, .contentsBase64, .filename, .srcPath,
    .packages, .ldFlags, .subactions]

@[inherit_doc ActionField.all]
def OutputField.all : List OutputField :=
  [.imageName, .dockerfile, .init, .postBuild, .user, .cmd, .env, .workingDir]

/-- The name of a field. -/
def ActionField.name : ActionField → List UInt8
  | .action => ascii "Action"
  | .user => ascii "User"
  | .workingDir => ascii "WorkingDir"
  | .cmd => ascii "Cmd"
  | .env => ascii "Env"
  | .stdin => ascii "Stdin"
  | .contents => ascii "Contents"
  | .contentsBase64 => ascii "ContentsBase64"
  | .filename => ascii "Filename"
  | .srcPath => ascii "SrcPath"
  | .packages => ascii "Packages"
  | .ldFlags => ascii "LDFlags"
  | .subactions => ascii "Subactions"

@[inherit_doc ActionField.name]
def OutputField.name : OutputField → List UInt8
  | .imageName => ascii "ImageName"
  | .dockerfile => ascii "Dockerfile"
  | .init => ascii "Init"
  | .postBuild => ascii "PostBuild"
  | .user => ascii "User"
  | .cmd => ascii "Cmd"
  | .env => ascii "Env"
  | .workingDir => ascii "WorkingDir"

/-- `foldFunc`, for a name without bytes that are no letters, or with a `K` or `S`. -/
def foldFunc (name : List UInt8) : List UInt8 → Bool :=
  if name.any fun b => b &&& 0xDF = 0x4B || b &&& 0xDF = 0x53 then
    SpecRequest.equalFoldRight name
  else SimpleCrypto.equalFold name

/-- The field that a member's name stands for: the one of that name, or else the first one of that
name in other cases. -/
def findField {F : Type} (name : F → List UInt8) (fields : List F) (key : List UInt8) : Option F :=
  (fields.find? fun f => name f = key).or (fields.find? fun f => foldFunc (name f) key)

/-- The field of an `Action`. -/
def ActionField.find : List UInt8 → Option ActionField := findField name all

/-- The field of a `GenerateOutput`. -/
def OutputField.find : List UInt8 → Option OutputField := findField name all

/-! ## `Unmarshal` -/

/-- A Go string that is UTF-8. -/
def text (s : List UInt8) : String := (String.fromUTF8? ⟨s.toArray⟩).getD ""

/-- A JSON value into a `string`; `null` leaves what is there. -/
def decodeString (old : String) : Value → Option String
  | .null => some old
  | .str s => some (text s)
  | _ => none

/-- A JSON value into a `bool`; `null` leaves what is there. -/
def decodeBool (old : Bool) : Value → Option Bool
  | .null => some old
  | .bool b => some b
  | _ => none

/-- A JSON value into a pointer; `null` is nil. -/
def decodePointer {α : Type} (decode : Value → Option α) : Value → Option (Option α)
  | .null => some none
  | v => (decode v).map some

/-- A JSON value into a `[]string`; `null` is nil. -/
def decodeStrings : Value → Option (List String)
  | .null => some []
  | .arr elems => elems.mapM (decodeString "")
  | _ => none

/-- `Action{}`. -/
def Action.zero : Action where
  action := ""
  user := ""
  workingDir := ""
  cmd := []
  env := []
  stdin := none
  contents := ""
  contentsBase64 := false
  filename := ""
  srcPath := ""
  packages := []
  ldFlags := ""
  subactions := []

/-- The type of a field. -/
abbrev ActionField.type : ActionField → Type
  | .cmd | .env | .packages => List String
  | .stdin => Option String
  | .contentsBase64 => Bool
  | .subactions => List Action
  | _ => String

/-- `Action`, with its fields. -/
def actionType : StructType ActionField Action where
  type := ActionField.type
  field
    | .action, ac => ac.action
    | .user, ac => ac.user
    | .workingDir, ac => ac.workingDir
    | .cmd, ac => ac.cmd
    | .env, ac => ac.env
    | .stdin, ac => ac.stdin
    | .contents, ac => ac.contents
    | .contentsBase64, ac => ac.contentsBase64
    | .filename, ac => ac.filename
    | .srcPath, ac => ac.srcPath
    | .packages, ac => ac.packages
    | .ldFlags, ac => ac.ldFlags
    | .subactions, ac => ac.subactions
  put
    | .action, ac, x => { ac with action := x }
    | .user, ac, x => { ac with user := x }
    | .workingDir, ac, x => { ac with workingDir := x }
    | .cmd, ac, x => { ac with cmd := x }
    | .env, ac, x => { ac with env := x }
    | .stdin, ac, x => { ac with stdin := x }
    | .contents, ac, x => { ac with contents := x }
    | .contentsBase64, ac, x => { ac with contentsBase64 := x }
    | .filename, ac, x => { ac with filename := x }
    | .srcPath, ac, x => { ac with srcPath := x }
    | .packages, ac, x => { ac with packages := x }
    | .ldFlags, ac, x => { ac with ldFlags := x }
    | .subactions, ac, x => { ac with subactions := x }
  assemble fields :=
    Action.mk <$> fields .action <*> fields .user <*> fields .workingDir <*> fields .cmd <*>
      fields .env <*> fields .stdin <*> fields .contents <*> fields .contentsBase64 <*>
      fields .filename <*> fields .srcPath <*> fields .packages <*> fields .ldFlags <*>
      fields .subactions
  field_put f a x := by cases f <;> rfl
  field_put_ne f g a x h := by cases f <;> cases g <;> first | rfl | exact absurd rfl h
  assemble_field a := by cases a; rfl
  assemble_none fields f h := by
    cases f <;> simp only [h, map_none, none_seq, seq_none]

/-- A member's value, and what it is as a list of actions. -/
structure Member where
  value : Value
  actions : Option (List Action)

/-- A member into a field of an action. -/
def ActionField.decode :
    (f : ActionField) → actionType.type f → Member → Option (actionType.type f)
  | .action, old, m => decodeString old m.value
  | .user, old, m => decodeString old m.value
  | .workingDir, old, m => decodeString old m.value
  | .cmd, _, m => decodeStrings m.value
  | .env, _, m => decodeStrings m.value
  | .stdin, _, m => decodePointer (decodeString "") m.value
  | .contents, old, m => decodeString old m.value
  | .contentsBase64, old, m => decodeBool old m.value
  | .filename, old, m => decodeString old m.value
  | .srcPath, old, m => decodeString old m.value
  | .packages, _, m => decodeStrings m.value
  | .ldFlags, old, m => decodeString old m.value
  | .subactions, _, m => m.actions

mutual

/-- A JSON value into an `[]Action`; `null` is nil. -/
def decodeActions : Value → Option (List Action)
  | .null => some []
  | .arr elems => decodeActionElems elems
  | _ => none

@[inherit_doc decodeActions]
def decodeActionElems : List Value → Option (List Action)
  | [] => some []
  | v :: vs =>
    (decodeAction v).bind fun ac => (decodeActionElems vs).map fun acs => ac :: acs

/-- A JSON value into a new `Action`. -/
def decodeAction : Value → Option Action
  | .null => some .zero
  | .obj members => decodeActionMembers .zero members
  | _ => none

/-- The members of an object into an `Action`. -/
def decodeActionMembers (ac : Action) : List (List UInt8 × Value) → Option Action
  | [] => some ac
  | (key, v) :: members =>
    match ActionField.find key with
    | none => decodeActionMembers ac members
    | some f =>
      (actionType.set ActionField.decode ac f ⟨v, decodeActions v⟩).bind fun ac =>
        decodeActionMembers ac members

end

/-- The members with what they are as lists of actions. -/
def withActions (members : List (List UInt8 × Value)) : List (List UInt8 × Member) :=
  members.map fun m => (m.1, ⟨m.2, decodeActions m.2⟩)

/-- `GenerateOutput`. -/
structure GenerateOutput where
  imageName : String
  dockerfile : String
  init : Option Bool
  postBuild : List Action
  user : String
  cmd : List String
  env : List String
  workingDir : String

/-- `GenerateOutput{}`. -/
def GenerateOutput.zero : GenerateOutput where
  imageName := ""
  dockerfile := ""
  init := none
  postBuild := []
  user := ""
  cmd := []
  env := []
  workingDir := ""

/-- The type of a field. -/
abbrev OutputField.type : OutputField → Type
  | .init => Option Bool
  | .postBuild => List Action
  | .cmd | .env => List String
  | _ => String

/-- `GenerateOutput`, with its fields. -/
def outputType : StructType OutputField GenerateOutput where
  type := OutputField.type
  field
    | .imageName, out => out.imageName
    | .dockerfile, out => out.dockerfile
    | .init, out => out.init
    | .postBuild, out => out.postBuild
    | .user, out => out.user
    | .cmd, out => out.cmd
    | .env, out => out.env
    | .workingDir, out => out.workingDir
  put
    | .imageName, out, x => { out with imageName := x }
    | .dockerfile, out, x => { out with dockerfile := x }
    | .init, out, x => { out with init := x }
    | .postBuild, out, x => { out with postBuild := x }
    | .user, out, x => { out with user := x }
    | .cmd, out, x => { out with cmd := x }
    | .env, out, x => { out with env := x }
    | .workingDir, out, x => { out with workingDir := x }
  assemble fields :=
    GenerateOutput.mk <$> fields .imageName <*> fields .dockerfile <*> fields .init <*>
      fields .postBuild <*> fields .user <*> fields .cmd <*> fields .env <*> fields .workingDir
  field_put f a x := by cases f <;> rfl
  field_put_ne f g a x h := by cases f <;> cases g <;> first | rfl | exact absurd rfl h
  assemble_field a := rfl
  assemble_none fields f h := by
    cases f <;> simp only [h, map_none, none_seq, seq_none]

/-- A member into a field of an output. -/
def OutputField.decode :
    (f : OutputField) → outputType.type f → Member → Option (outputType.type f)
  | .imageName, old, m => decodeString old m.value
  | .dockerfile, old, m => decodeString old m.value
  | .init, _, m => decodePointer (decodeBool false) m.value
  | .postBuild, _, m => m.actions
  | .user, old, m => decodeString old m.value
  | .cmd, _, m => decodeStrings m.value
  | .env, _, m => decodeStrings m.value
  | .workingDir, old, m => decodeString old m.value

/-- A JSON value into a new output. -/
def decodeOutput : Value → Option GenerateOutput
  | .null => some .zero
  | .obj members =>
    outputType.decodeMembers OutputField.decode OutputField.find .zero (withActions members)
  | _ => none

/-! ## `Generate` -/

/-- What `os.Stat` says of `index.js`. -/
inductive Stat where
  | found
  | notExist
  | failed (msg : String)

/-- How `Generate` fails. -/
inductive GenerateErr where
  | noJS
  | stat (msg : String)
  | javascript (msg : String)
  | unmarshal
  deriving DecidableEq

/-- An assignment: its `index.js`, and what the engine makes of a call of `generate`. -/
structure Assignment (J : Type) where
  stat : Stat
  wellFormed : Bool
  run : J → Except String Data

/-- `Generate`. -/
def generate {J : Type} (assignment : Assignment J) (specData : J) :
    Except GenerateErr GenerateOutput :=
  match assignment.stat with
  | .notExist => .error .noJS
  | .failed msg => .error (.stat msg)
  | .found =>
    match assignment.run specData with
    | .error msg => .error (.javascript msg)
    | .ok d =>
      match (exportViaJSON assignment.wellFormed d).bind decodeOutput with
      | none => .error .unmarshal
      | some out => .ok { out with init := some (out.init.getD true) }

/-! ## Field by field -/

mutual

/-- The actions of a value, each field of each from its member. -/
def actionsOf : Value → Option (List Action)
  | .null => some []
  | .arr elems => actionElemsOf elems
  | _ => none

@[inherit_doc actionsOf]
def actionElemsOf : List Value → Option (List Action)
  | [] => some []
  | v :: vs => (actionOf v).bind fun ac => (actionElemsOf vs).map fun acs => ac :: acs

@[inherit_doc actionsOf]
def actionOf : Value → Option Action
  | .null => some .zero
  | .obj members => actionType.ofFields ActionField.decode
    (fun f => StructType.lookup ActionField.find f (membersOf members)) .zero
  | _ => none

@[inherit_doc actionsOf]
def membersOf : List (List UInt8 × Value) → List (List UInt8 × Member)
  | [] => []
  | (key, v) :: members => (key, ⟨v, actionsOf v⟩) :: membersOf members

end

/-- The output of a value, each field from its member. -/
def outputOf : Value → Option GenerateOutput
  | .null => some .zero
  | .obj members => outputType.ofFields OutputField.decode
    (fun f => StructType.lookup OutputField.find f (membersOf members)) .zero
  | _ => none

mutual

/-- No object has two members for one field of an action. -/
def Distinct : Value → Prop
  | .arr elems => DistinctElems elems
  | .obj members =>
    (members.filterMap fun m => ActionField.find m.1).Nodup ∧ DistinctMembers members
  | _ => True

@[inherit_doc Distinct]
def DistinctElems : List Value → Prop
  | [] => True
  | v :: vs => Distinct v ∧ DistinctElems vs

@[inherit_doc Distinct]
def DistinctMembers : List (List UInt8 × Value) → Prop
  | [] => True
  | (_, v) :: members => Distinct v ∧ DistinctMembers members

end

/-- The same of an output, and of the actions in it. -/
def DistinctOutput : Value → Prop
  | .obj members =>
    (members.filterMap fun m => OutputField.find m.1).Nodup ∧ DistinctMembers members
  | _ => True

section

variable {members : List (List UInt8 × Value)} {ac : Action}

/-- The members of an action are decoded like those of any struct. -/
theorem decodeActionMembers_eq : decodeActionMembers ac members =
    actionType.decodeMembers ActionField.decode ActionField.find ac (withActions members) := by
  induction members generalizing ac with
  | nil => rfl
  | cons m members ih =>
    obtain ⟨key, v⟩ := m
    rw [decodeActionMembers, withActions, List.map_cons, StructType.decodeMembers]
    cases ActionField.find key with
    | none => exact ih
    | some f => exact congrArg (Option.bind _) (funext fun ac => ih)

/-- The fields that members stand for. -/
theorem filterMap_withActions {F : Type} (find : List UInt8 → Option F) :
    (withActions members).filterMap (fun m => find m.1) =
      members.filterMap fun m => find m.1 := by
  rw [withActions, List.filterMap_map]
  rfl

mutual

/-- **Taken as they come, or looked for**: the actions of a value, -/
theorem decodeActions_eq : (v : Value) → Distinct v → decodeActions v = actionsOf v
  | .null, _ => rfl
  | .bool _, _ => rfl
  | .num _, _ => rfl
  | .str _, _ => rfl
  | .obj _, _ => rfl
  | .arr elems, h => decodeActionElems_eq elems h

/-- the elements of an array, -/
theorem decodeActionElems_eq :
    (vs : List Value) → DistinctElems vs → decodeActionElems vs = actionElemsOf vs
  | [], _ => rfl
  | v :: vs, ⟨hv, hvs⟩ => by
    rw [decodeActionElems, actionElemsOf, decodeAction_eq v hv, decodeActionElems_eq vs hvs]

/-- an action -/
theorem decodeAction_eq : (v : Value) → Distinct v → decodeAction v = actionOf v
  | .null, _ => rfl
  | .bool _, _ => rfl
  | .num _, _ => rfl
  | .str _, _ => rfl
  | .arr _, _ => rfl
  | .obj members, ⟨hnodup, hmembers⟩ => by
    rw [← filterMap_withActions] at hnodup
    rw [decodeAction, actionOf, decodeActionMembers_eq, StructType.decodeMembers_eq hnodup,
      withActions_eq members hmembers]

/-- and the members of an object. -/
theorem withActions_eq : (members : List (List UInt8 × Value)) → DistinctMembers members →
    withActions members = membersOf members
  | [], _ => rfl
  | (key, v) :: members, ⟨hv, hmembers⟩ => by
    have ih := withActions_eq members hmembers
    rw [withActions] at ih ⊢
    rw [List.map_cons, membersOf, ih, decodeActions_eq v hv]

end

/-- The same of an output. -/
theorem decodeOutput_eq {v : Value} (h : DistinctOutput v) : decodeOutput v = outputOf v := by
  cases v with
  | obj members =>
    obtain ⟨hnodup, hmembers⟩ := h
    rw [← filterMap_withActions] at hnodup
    rw [decodeOutput, outputOf, StructType.decodeMembers_eq hnodup, withActions_eq members hmembers]
  | _ => rfl

/-- **What `Generate` returns is what the assignment's `generate` has returned**, each field from
the member of its name in any case, wherever it stands; `Init` is true unless there is one. If a
member is not of the type of its field, or there is no value, that is an error. -/
theorem generate_eq {J : Type} {assignment : Assignment J} {specData : J} {d : Data}
    (hstat : assignment.stat = .found) (hrun : assignment.run specData = .ok d)
    (hdistinct : ∀ v, d.value = some v → DistinctOutput v) :
    generate assignment specData = match d.value.bind outputOf with
      | none => .error .unmarshal
      | some out => .ok { out with init := some (out.init.getD true) } := by
  have hdecode : d.value.bind decodeOutput = d.value.bind outputOf := by
    cases hv : d.value with
    | none => rfl
    | some v => exact decodeOutput_eq (hdistinct v hv)
  rw [← hdecode]
  unfold generate
  simp only [hstat, hrun, exportViaJSON_eq]

end

/-- The code units of an ASCII string. -/
def units (s : String) : List UInt16 := s.toList.map fun c => UInt16.ofNat c.toNat

/-- A value of `generate`, with names in other cases and one that stands for nothing. -/
def shellOutput : Data :=
  .object [(units "cmd", .array [.string (units "sh"), .undefined]), (units "hint", .number none),
    (units "IMAGENAME", .string (units "alpine")), (units "env", .undefined)]

/-- An assignment that returns it. -/
def shellAssignment : Assignment Unit := ⟨.found, false, fun _ => .ok shellOutput⟩

/-- Its members stand for different fields. -/
theorem distinct_shellOutput : ∀ v, shellOutput.value = some v → DistinctOutput v := by
  rintro _ ⟨⟩
  exact ⟨by decide, ⟨trivial, trivial, trivial⟩, trivial, trivial, trivial⟩

theorem generate_eq_shell : generate shellAssignment () =
    match shellOutput.value.bind outputOf with
    | none => .error .unmarshal
    | some out => .ok { out with init := some (out.init.getD true) } :=
  generate_eq rfl rfl distinct_shellOutput

end UAssign.Specbuild

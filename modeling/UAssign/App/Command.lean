import UAssign.Docker.Compat
import UAssign.Specbuild.Generate

/-!
# The command of an instance

What an assignment's `generate` returns says which command the user of an instance gets.
`specCreateContainer` makes an `InstanceCommand` of it, which is kept as JSON in a column of type
`jsonb`; `handleInstance` reads it there, and `Proxy` creates an exec with it, by way of `dcompat`.
The exec is that of the output (`generated_runs`), whatever characters the command is made of; only
where an old daemon needs a shell for the working directory, they have to pass through it.
-/

namespace UAssign.UserCommand

open Json Specbuild Docker

/-! ## `InstanceCommand` -/

/-- `models.InstanceCommand`. -/
structure InstanceCommand where
  user : String
  cmd : List String
  env : List String
  workingDir : String
  deriving DecidableEq

/-- What `specCreateContainer` makes of an output. -/
def instanceCommand (gen : GenerateOutput) : InstanceCommand where
  user := gen.user
  cmd := if gen.init = some true then ["/sbin/docker-init", "-s", "--"] ++ gen.cmd else gen.cmd
  env := gen.env
  workingDir := gen.workingDir

/-- The exec that `Proxy` asks for with a command. -/
def proxyExecConfig (command : InstanceCommand) : ExecConfig where
  user := command.user
  cmd := command.cmd
  env := command.env
  workingDir := command.workingDir
  tty := true
  attachStdin := true
  attachStdout := true
  attachStderr := true

/-- The exec that is created for it, since `Proxy` has the client that `dcompat` has wrapped. -/
def createdExec (lessThan : String → String → Bool) (clientVersion : String)
    (command : InstanceCommand) : ExecConfig :=
  execConfig lessThan clientVersion (proxyExecConfig command)

/-- The exec that an output describes. -/
def outputExec (out : GenerateOutput) : ExecConfig where
  user := out.user
  cmd := (if out.init = some false then [] else ["/sbin/docker-init", "-s", "--"]) ++ out.cmd
  env := out.env
  workingDir := out.workingDir
  attachStdin := true
  attachStdout := true
  attachStderr := true
  tty := true

/-! ## The column -/

/-- The bytes of a string. -/
def bytes (s : String) : List UInt8 := s.toUTF8.data.toList

/-- `Marshal`, of a `[]string`; one that is empty may be nil. -/
def marshalSlice (isNil : Bool) (ss : List String) : List UInt8 :=
  if isNil && ss.isEmpty then ascii "null" else marshalStrings (ss.map bytes)

/-- `Marshal`, of a string. -/
def marshalString (s : String) : List UInt8 := quote (escapeString (bytes s))

/-- `Marshal`, of a command, in which the slices that are empty may be nil. -/
def marshalCommand (cmdNil envNil : Bool) (command : InstanceCommand) : List UInt8 :=
  writeMap [(quote (ascii "User"), marshalString command.user),
    (quote (ascii "Cmd"), marshalSlice cmdNil command.cmd),
    (quote (ascii "Env"), marshalSlice envNil command.env),
    (quote (ascii "WorkingDir"), marshalString command.workingDir)]

/-- The fields of a command. -/
inductive CommandField where
  | user
  | cmd
  | env
  | workingDir
  deriving DecidableEq

@[inherit_doc CommandField]
def CommandField.all : List CommandField := [.user, .cmd, .env, .workingDir]

/-- The name of a field. -/
def CommandField.name : CommandField → List UInt8
  | .user => ascii "User"
  | .cmd => ascii "Cmd"
  | .env => ascii "Env"
  | .workingDir => ascii "WorkingDir"

/-- The field of a command. -/
def CommandField.find : List UInt8 → Option CommandField := findField name all

/-- The type of a field. -/
abbrev CommandField.type : CommandField → Type
  | .cmd | .env => List String
  | _ => String

/-- `InstanceCommand`, with its fields. -/
def commandType : StructType CommandField InstanceCommand where
  type := CommandField.type
  field
    | .user, command => command.user
    | .cmd, command => command.cmd
    | .env, command => command.env
    | .workingDir, command => command.workingDir
  put
    | .user, command, x => { command with user := x }
    | .cmd, command, x => { command with cmd := x }
    | .env, command, x => { command with env := x }
    | .workingDir, command, x => { command with workingDir := x }
  assemble fields :=
    InstanceCommand.mk <$> fields .user <*> fields .cmd <*> fields .env <*> fields .workingDir
  field_put f a x := by cases f <;> rfl
  field_put_ne f g a x h := by cases f <;> cases g <;> first | rfl | exact absurd rfl h
  assemble_field a := rfl
  assemble_none fields f h := by
    cases f <;> simp only [h, Json.map_none, Json.none_seq, Json.seq_none]

/-- A member into a field of a command. -/
def CommandField.decode :
    (f : CommandField) → commandType.type f → Value → Option (commandType.type f)
  | .user, old, v => decodeString old v
  | .cmd, _, v => decodeStrings v
  | .env, _, v => decodeStrings v
  | .workingDir, old, v => decodeString old v

/-- A JSON value into a new command. -/
def decodeCommand : Value → Option InstanceCommand
  | .null => some ⟨"", [], [], ""⟩
  | .obj members =>
    commandType.decodeMembers CommandField.decode CommandField.find ⟨"", [], [], ""⟩ members
  | _ => none

/-- `Unmarshal`, into a new command. -/
def unmarshalCommand (text : List UInt8) : Option InstanceCommand :=
  (parse text).bind decodeCommand

/-- A value without numbers and objects. -/
def Plain : Value → Prop
  | .null | .bool _ | .str _ => True
  | .arr elems => ∀ v ∈ elems, ∃ s, v = .str s
  | _ => False

/-- What comes back of a text from a column of type `jsonb`, if it is stored: an object with the
same members, in any order. -/
def Keeps (jsonb : List UInt8 → Option (List UInt8)) : Prop :=
  ∀ text members stored, parse text = some (.obj members) → (members.map (·.1)).Nodup →
    (∀ m ∈ members, Plain m.2) → jsonb text = some stored →
    ∃ members', parse stored = some (.obj members') ∧ members'.Perm members

section

variable {command : InstanceCommand} {s : String} {ss : List String} {isNil : Bool}

theorem text_bytes (s : String) : text (bytes s) = s := by
  have h : String.fromUTF8? ⟨s.toUTF8.data⟩ = some s := dif_pos s.isValidUTF8
  rw [text, bytes, Array.toArray_toList, h, Option.getD_some]

theorem valid_bytes (s : String) : Utf8.Valid (bytes s) := by
  refine ⟨s.toList, ?_⟩
  have h := congrArg (fun b => b.data.toList) s.utf8Encode_toList
  rw [bytes, String.toUTF8_eq_toByteArray, ← h]
  simp [List.utf8Encode]

/-- The value of a slice. -/
def sliceValue (isNil : Bool) (ss : List String) : Value :=
  if isNil && ss.isEmpty then .null else .arr (ss.map fun s => .str (bytes s))

/-- A string is read as itself. -/
theorem reads_marshalString (s : String) : Reads (marshalString s) (.str (bytes s)) := by
  have h := reads_escapeString (bytes s)
  rwa [Bufio.sanitize_valid (valid_bytes s)] at h

/-- A slice is read as its strings, -/
theorem reads_marshalSlice (isNil : Bool) (ss : List String) :
    Reads (marshalSlice isNil ss) (sliceValue isNil ss) := by
  unfold marshalSlice sliceValue
  split
  · exact reads_null
  · have h := reads_marshalStrings (ss.map bytes)
    have hvalid : (ss.map bytes).map (fun s => Value.str (Bufio.sanitize s)) =
        ss.map fun s => .str (bytes s) := by
      rw [List.map_map]
      exact List.map_congr_left fun s _ => congrArg Value.str (Bufio.sanitize_valid (valid_bytes s))
    rwa [hvalid] at h

/-- and its elements are decoded one by one. -/
theorem decodeStrings_strings (ss : List String) :
    decodeStrings (.arr (ss.map fun s => .str (bytes s))) = some ss := by
  change (ss.map fun s => Value.str (bytes s)).mapM (decodeString "") = some ss
  induction ss with
  | nil => rfl
  | cons s ss ih =>
    have hs : decodeString "" (.str (bytes s)) = some s := congrArg some (text_bytes s)
    rw [List.map_cons, List.mapM_cons, hs, ih]
    rfl

/-- A slice is decoded to what it has been. -/
theorem decodeStrings_sliceValue (isNil : Bool) (ss : List String) :
    decodeStrings (sliceValue isNil ss) = some ss := by
  unfold sliceValue
  split
  · next h =>
    rw [Bool.and_eq_true, List.isEmpty_iff] at h
    rw [h.2]
    rfl
  · exact decodeStrings_strings ss

/-- The members of a command. -/
def commandMembers (cmdNil envNil : Bool) (command : InstanceCommand) :
    List (List UInt8 × Value) :=
  [(CommandField.user.name, .str (bytes command.user)),
    (CommandField.cmd.name, sliceValue cmdNil command.cmd),
    (CommandField.env.name, sliceValue envNil command.env),
    (CommandField.workingDir.name, .str (bytes command.workingDir))]

/-- Each field is found by its name. -/
theorem find_name (f : CommandField) : CommandField.find f.name = some f := by
  cases f <;> decide

/-- The members are those of the fields. -/
theorem fields_commandMembers (cmdNil envNil : Bool) (command : InstanceCommand) :
    (commandMembers cmdNil envNil command).filterMap (fun m => CommandField.find m.1) =
      CommandField.all := by
  simp only [commandMembers, List.filterMap_cons, find_name, List.filterMap_nil]
  rfl

/-- A command is read as its members, -/
theorem reads_marshalCommand (cmdNil envNil : Bool) (command : InstanceCommand) :
    Reads (marshalCommand cmdNil envNil command)
      (.obj (commandMembers cmdNil envNil command)) :=
  reads_map (.cons (readsMember_safe (by decide) (reads_marshalString _))
    (.cons (readsMember_safe (by decide) (reads_marshalSlice _ _))
      (.cons (readsMember_safe (by decide) (reads_marshalSlice _ _))
        (.cons (readsMember_safe (by decide) (reads_marshalString _)) .nil))))

/-- and decoded to them, -/
theorem decodeMembers_commandMembers (cmdNil envNil : Bool) (command : InstanceCommand) :
    commandType.decodeMembers CommandField.decode CommandField.find ⟨"", [], [], ""⟩
      (commandMembers cmdNil envNil command) = some command := by
  simp only [commandMembers, StructType.decodeMembers, find_name .user, find_name .cmd,
    find_name .env, find_name .workingDir]
  simp only [StructType.set, CommandField.decode, decodeString, text_bytes,
    decodeStrings_sliceValue]
  rfl

/-- **A command comes back from its column.** -/
theorem unmarshalCommand_marshalCommand {jsonb : List UInt8 → Option (List UInt8)}
    (hjsonb : Keeps jsonb) {cmdNil envNil : Bool} {stored : List UInt8}
    (h : jsonb (marshalCommand cmdNil envNil command) = some stored) :
    unmarshalCommand stored = some command := by
  have hslice : ∀ b ss, Plain (sliceValue b ss) := by
    intro b ss
    unfold sliceValue
    split
    · trivial
    · intro v hv
      obtain ⟨s, -, rfl⟩ := List.mem_map.1 hv
      exact ⟨bytes s, rfl⟩
  have hplain : ∀ m ∈ commandMembers cmdNil envNil command, Plain m.2 := by
    intro m hm
    simp only [commandMembers, List.mem_cons, List.not_mem_nil, or_false] at hm
    rcases hm with rfl | rfl | rfl | rfl
    · trivial
    · exact hslice _ _
    · exact hslice _ _
    · trivial
  have hnames : (CommandField.all.map CommandField.name).Nodup := by decide
  obtain ⟨members', hparse, hperm⟩ := hjsonb _ _ _
    (reads_marshalCommand cmdNil envNil command).parse hnames hplain h
  have hnodup : ((commandMembers cmdNil envNil command).filterMap
      fun m => CommandField.find m.1).Nodup := by
    rw [fields_commandMembers]
    decide
  rw [unmarshalCommand, hparse]
  exact (StructType.decodeMembers_perm hnodup hperm.symm).symm.trans
    (decodeMembers_commandMembers cmdNil envNil command)

/-- With `Init` true unless it is given, `Proxy` asks for what the output describes. -/
theorem proxyExecConfig_instanceCommand (out : GenerateOutput) :
    proxyExecConfig (instanceCommand { out with init := some (out.init.getD true) }) =
      outputExec out := by
  cases hinit : out.init with
  | none => simp [instanceCommand, proxyExecConfig, outputExec, hinit]
  | some b => cases b <;> simp [instanceCommand, proxyExecConfig, outputExec, hinit]

end

/-- A column that keeps one command, with its members in the order of a `jsonb` object, and all
other texts as they are. -/
def commandColumn (command : InstanceCommand) (text : List UInt8) : Option (List UInt8) :=
  if text = marshalCommand false true command then
    some (writeMap [(quote (ascii "Cmd"), marshalSlice false command.cmd),
      (quote (ascii "Env"), marshalSlice true command.env),
      (quote (ascii "User"), marshalString command.user),
      (quote (ascii "WorkingDir"), marshalString command.workingDir)])
  else some text

theorem keeps_commandColumn (command : InstanceCommand) : Keeps (commandColumn command) := by
  intro text members stored hparse _ _ h
  unfold commandColumn at h
  split at h
  · next htext =>
    subst htext
    rw [(reads_marshalCommand false true command).parse] at hparse
    cases hparse
    cases h
    refine ⟨_, Reads.parse (reads_map (.cons (readsMember_safe (by decide) (reads_marshalSlice _ _))
      (.cons (readsMember_safe (by decide) (reads_marshalSlice _ _))
        (.cons (readsMember_safe (by decide) (reads_marshalString _))
          (.cons (readsMember_safe (by decide) (reads_marshalString _)) .nil))))), ?_⟩
    exact @List.perm_middle _ _ [_, _] [_]
  · cases h
    exact ⟨members, hparse, .refl _⟩

end UAssign.UserCommand

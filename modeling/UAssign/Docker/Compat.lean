import UAssign.Lib.Shell
import UAssign.Specbuild.Commands

/-!
# Working directories of old daemons

`ExecConfig` of `pkg/docker/dcompat/dcompat.go`: for a Docker API before 1.35, the working directory
of an exec becomes a `cd` in front of `exec $0 $@`. Neither the directory nor `$0` and `$@` are
quoted, so the shell runs the same command only if all of them pass through (`execConfig_same_iff`);
the commands of write and append actions never do.
-/

namespace UAssign.Docker

open Shell

/-! ## The command -/

/-- The script that `sh` is given. -/
def workDirScript (workingDir : String) : String := "cd " ++ workingDir ++ "; exec $0 $@"

/-- `ExecConfig`, where `lessThan` is `versions.LessThan`. -/
def execConfig (lessThan : String → String → Bool) (clientVersion : String) (ec : ExecConfig) :
    ExecConfig :=
  if lessThan clientVersion "1.35" = true ∧ ec.workingDir ≠ "" then
    { ec with
      cmd := (if ec.tty then ["sh", "-i", "-c"] else ["sh", "-c"]) ++
        [workDirScript ec.workingDir] ++ ec.cmd
      workingDir := "" }
  else ec

/-- Nothing is changed for a newer API, or without a working directory. -/
theorem execConfig_direct {lessThan : String → String → Bool} {clientVersion : String}
    {ec : ExecConfig} (h : lessThan clientVersion "1.35" = false ∨ ec.workingDir = "") :
    execConfig lessThan clientVersion ec = ec := by
  refine if_neg ?_
  rintro ⟨hold, hd⟩
  rcases h with h | h
  · rw [h] at hold
    cases hold
  · exact hd h

section

variable {D : Type}

/-- What the newer API does: it executes the command in the directory, if there is one. -/
def newer (m : Machine D) (ec : ExecConfig) : Outcome D :=
  match m.chdir m.cwd ec.workingDir with
  | some dir => .executes dir ec.cmd
  | none => .fails

/-- The working directory has no character that is special to a shell, and no word that starts a
comment. -/
def Plain (workingDir : String) : Prop :=
  (∀ ch ∈ workingDir.toList, special ch = false) ∧
    ∀ w ∈ words blank workingDir.toList, w.head? ≠ some '#'

/-- The directory and all arguments pass through the shell. -/
structure Passes (patternMatches : String → String → Bool) (ec : ExecConfig) : Prop where
  plain : Plain ec.workingDir
  straight : Straight ec.workingDir
  directory : Sound patternMatches ec.workingDir
  args : ∀ a ∈ ec.cmd, Sound patternMatches a
  dashes : ec.cmd.head? ≠ some "--"

/-! ## What the shell makes of it -/

/-- A word of a plain directory is literal. -/
theorem Plain.word_eq {d : String} (h : Plain d) {w : List Char}
    (hw : w ∈ words blank d.toList) : word w = some (.literal (String.ofList w)) := by
  have hspecial : ∀ ch ∈ w, special ch = false := fun ch hch => h.1 ch ((mem_words hw).2 ch hch).1
  have hdollar : '$' ∉ w := fun hmem => by
    have hfalse := hspecial _ hmem
    revert hfalse
    decide
  unfold word
  rw [if_neg, if_neg, if_pos]
  · exact ⟨by simpa using hspecial, h.2 w hw⟩
  · rintro rfl
    exact hdollar (by decide)
  · rintro rfl
    exact hdollar (by decide)

/-- The operands of `cd`. -/
def cdWords (d : String) : List Word :=
  (words blank d.toList).map fun w => .literal (String.ofList w)

/-- **The script of a plain directory.** -/
theorem Plain.commands_eq {d : String} (h : Plain d) : commands (workDirScript d) =
    some [.literal "cd" :: cdWords d, [.literal "exec", .zero, .params]] := by
  let exec : List Char := [' ', 'e', 'x', 'e', 'c', ' ', '$', '0', ' ', '$', '@']
  have hscript : (workDirScript d).toList = (['c', 'd'] ++ ' ' :: d.toList) ++ ';' :: exec := by
    simp [workDirScript, exec]
  have hd : ∀ ch ∈ ['c', 'd'] ++ ' ' :: d.toList, decide (ch = ';') = false := by
    intro ch hch
    have hspecial : special ch = false := by
      rcases List.mem_append.1 hch with hcd | hd
      · exact (by simp [special] : ∀ c ∈ ['c', 'd'], special c = false) ch hcd
      · rcases List.mem_cons.1 hd with rfl | hd
        · decide
        · exact h.1 ch hd
    refine decide_eq_false fun heq => ?_
    subst heq
    revert hspecial
    decide
  have hsplit : (workDirScript d).toList.splitOnP (· = ';') =
      [['c', 'd'] ++ ' ' :: d.toList, exec] := by
    rw [hscript, List.splitOnP_append_cons_of_forall_mem hd ';' (by decide),
      List.splitOnP_eq_singleton (by simp [exec])]
  have hcd := words_cons (p := blank) (by decide : ['c', 'd'] ≠ [])
    (by simp [blank] : ∀ c ∈ ['c', 'd'], blank c = false) (by decide : blank ' ' = true) d.toList
  have hexec : (words blank exec).mapM word = some [.literal "exec", .zero, .params] := by decide
  have hcdWords : (['c', 'd'] :: words blank d.toList).mapM word =
      some (.literal "cd" :: cdWords d) := by
    rw [List.mapM_cons, mapM_eq_map fun w hw => h.word_eq hw]
    rfl
  rw [commands, hsplit]
  simp only [List.mapM_cons, List.mapM_nil, hcd, hcdWords, hexec]
  rfl

variable {patternMatches : String → String → Bool} {lessThan : String → String → Bool}
  {clientVersion : String} {ec : ExecConfig} {m : Machine D}

variable (patternMatches) (m) in
/-- The operands of `cd` in a container, -/
def cdOperands (d : String) : List String :=
  (cdWords d).flatMap (m.expand patternMatches "" [] m.cwd)

variable (patternMatches) (m) in
/-- and where it leads. -/
def landing (d : String) : D := (m.cd m.cwd (cdOperands patternMatches m d)).getD m.cwd

/-- The operands do not depend on the parameters. -/
theorem cdOperands_eq (d name : String) (args : List String) :
    (cdWords d).flatMap (m.expand patternMatches name args m.cwd) =
      cdOperands patternMatches m d := by
  refine List.flatMap_congr fun w hw => ?_
  obtain ⟨cs, -, rfl⟩ := List.mem_map.1 hw
  rfl

/-- **What the shell does**: it goes to where `cd` leads, and executes what the arguments have been
split and expanded to. -/
theorem run_execConfig (hold : lessThan clientVersion "1.35" = true) (hd : ec.workingDir ≠ "")
    (hcmd : ec.cmd ≠ []) (hplain : Plain ec.workingDir) (m : Machine D) :
    m.run patternMatches m.cwd (execConfig lessThan clientVersion ec).cmd =
      some (match operands (ec.cmd.flatMap
        (m.expandParam patternMatches (landing patternMatches m ec.workingDir))) with
      | [] => .exits
      | argv => .executes (landing patternMatches m ec.workingDir) argv) := by
  obtain ⟨name, args, hargs⟩ := List.exists_cons_of_ne_nil hcmd
  have hoptions : shOptions (execConfig lessThan clientVersion ec).cmd =
      some (workDirScript ec.workingDir, name :: args) := by
    rw [execConfig, if_pos ⟨hold, hd⟩, hargs]
    cases ec.tty <;> rfl
  have hcd : (.literal "cd" :: cdWords ec.workingDir).flatMap
      (m.expand patternMatches name args m.cwd) =
        "cd" :: cdOperands patternMatches m ec.workingDir := by
    rw [List.flatMap_cons, cdOperands_eq, (inert_of_not_pattern rfl).expand (by decide)]
    rfl
  have hexec : ∀ dir, [.literal "exec", .zero, .params].flatMap
      (m.expand patternMatches name args dir) =
        "exec" :: ec.cmd.flatMap (m.expandParam patternMatches dir) := by
    intro dir
    rw [List.flatMap_cons, (inert_of_not_pattern rfl).expand (by decide), hargs]
    simp [Machine.expand]
  unfold Machine.run
  simp only [hoptions, hplain.commands_eq, Option.bind_eq_bind, Option.bind_some,
    Machine.eval, hcd, hexec, List.head?_cons, Option.getD_some, List.tail_cons]
  show (match operands (ec.cmd.flatMap (m.expandParam patternMatches
    (landing patternMatches m ec.workingDir))) with | [] => _ | _ => _) = _
  split <;> rfl

theorem sh_execConfig (hold : lessThan clientVersion "1.35" = true) (hd : ec.workingDir ≠ "")
    (hcmd : ec.cmd ≠ []) (hplain : Plain ec.workingDir) (m : Machine D) :
    m.sh patternMatches (execConfig lessThan clientVersion ec).cmd =
      match operands (ec.cmd.flatMap
        (m.expandParam patternMatches (landing patternMatches m ec.workingDir))) with
      | [] => .exits
      | argv => .executes (landing patternMatches m ec.workingDir) argv := by
  rw [Machine.sh, run_execConfig hold hd hcmd hplain, Option.getD_some]

/-! ## When it is the same -/

variable (patternMatches lessThan clientVersion) in
/-- The command that `ExecConfig` builds does what the newer API does. -/
def Same (m : Machine D) (ec : ExecConfig) : Prop :=
  m.sh patternMatches (execConfig lessThan clientVersion ec).cmd = newer m ec

section

variable (hold : lessThan clientVersion "1.35" = true) (hd : ec.workingDir ≠ "")
  (hcmd : ec.cmd ≠ []) (hplain : Plain ec.workingDir)

include hold hd hcmd hplain

/-- In a container with the directory, `cd` has to lead there, and the arguments to be the same
behind the expansions. -/
theorem same_iff {dir : D} (hdir : m.chdir m.cwd ec.workingDir = some dir) :
    Same patternMatches lessThan clientVersion m ec ↔
      landing patternMatches m ec.workingDir = dir ∧
        operands (ec.cmd.flatMap (m.expandParam patternMatches dir)) = ec.cmd := by
  rw [Same, sh_execConfig hold hd hcmd hplain, newer, hdir]
  constructor
  · intro h
    split at h
    · cases h
    · next argv hargv =>
      obtain ⟨hlanding, hargs⟩ := Outcome.executes.inj h
      rw [hlanding] at hargs
      exact ⟨hlanding, hargs⟩
  · rintro ⟨rfl, hargs⟩
    rw [hargs]
    split
    · next h => exact absurd h hcmd
    · rfl

/-- Without the directory, the shell goes on where it is. -/
theorem not_same_of_no_directory (hdir : m.chdir m.cwd ec.workingDir = none) :
    ¬ Same patternMatches lessThan clientVersion m ec := by
  rw [Same, sh_execConfig hold hd hcmd hplain, newer, hdir]
  intro h
  split at h <;> cases h

end

/-- A sound directory is the one operand of `cd`. -/
theorem cdOperands_of_sound {d : String} (hstraight : Straight d) (h : Sound patternMatches d) :
    cdOperands patternMatches m d = [d] := by
  obtain ⟨hne, hifs, hinert⟩ := h
  have hblank : ∀ ch ∈ d.toList, blank ch = false := by
    intro ch hch
    have hifs := hifs ch hch
    simp only [ifs, blank, Bool.or_eq_false_iff] at hifs ⊢
    exact hifs.1
  rw [cdOperands, cdWords, words_eq_singleton (by simpa using hne) hblank]
  simp only [List.map_cons, List.map_nil, String.ofList_toList, List.flatMap_singleton]
  exact hinert.expand (by rw [hstraight.1]; decide) "" []

/-- **What passes is the same.** -/
theorem Passes.same (h : Passes patternMatches ec) (hold : lessThan clientVersion "1.35" = true)
    (hd : ec.workingDir ≠ "") (hcmd : ec.cmd ≠ [])
    (hdir : (m.chdir m.cwd ec.workingDir).isSome = true) :
    Same patternMatches lessThan clientVersion m ec := by
  obtain ⟨dir, hdir⟩ := Option.isSome_iff_exists.1 hdir
  refine (same_iff hold hd hcmd h.plain hdir).2 ⟨?_, ?_⟩
  · rw [landing, cdOperands_of_sound h.straight h.directory, m.cd_straight _ _ h.straight, hdir,
      Option.getD_some]
  · rw [flatMap_sound h.args, operands_eq_self_iff.2 h.dashes]

/-- In a narrow container, `cd` leads to the directory only from itself. -/
theorem landing_narrow {d : String} {path : Option String}
    (h : landing patternMatches (narrow d path) d = true) :
    Straight d ∧ cdOperands patternMatches (narrow d path) d = [d] := by
  unfold landing at h
  generalize cdOperands patternMatches (narrow d path) d = ops at h
  rcases ops with _ | ⟨w, _ | ⟨w', ops⟩⟩
  · cases h
  · by_cases hw : Straight w ∧ w = d
    · obtain ⟨hstraight, rfl⟩ := hw
      exact ⟨hstraight, rfl⟩
    · simp [narrow, hw] at h
  · cases h

/-- Without pathnames, `cd` gets the words as they are. -/
theorem cdOperands_narrow_none (d : String) : cdOperands patternMatches (narrow d none) d =
    (words blank d.toList).map String.ofList := by
  have hexpand : ∀ w ∈ words blank d.toList, (narrow d none).expand patternMatches "" []
      (narrow d none).cwd (.literal (String.ofList w)) = [String.ofList w] := by
    intro w _
    rw [Machine.expand, narrow_glob_none]
    simp [narrow]
  rw [cdOperands, cdWords, List.flatMap_map, List.flatMap_congr hexpand, List.map_eq_flatMap]

/-- **What is the same in all containers passes**: the narrow ones tell. -/
theorem passes_of_same (hold : lessThan clientVersion "1.35" = true) (hd : ec.workingDir ≠ "")
    (hcmd : ec.cmd ≠ []) (hplain : Plain ec.workingDir)
    (h : ∀ path, Same patternMatches lessThan clientVersion (narrow ec.workingDir path) ec) :
    Passes patternMatches ec := by
  have hsame : ∀ path, landing patternMatches (narrow ec.workingDir path) ec.workingDir = true ∧
      operands (ec.cmd.flatMap
        ((narrow ec.workingDir path).expandParam patternMatches true)) = ec.cmd :=
    fun path => (same_iff hold hd hcmd hplain (if_pos rfl)).1 (h path)
  obtain ⟨hstraight, hoperands⟩ := landing_narrow (hsame none).1
  obtain ⟨hsplit, hdashes⟩ := split_of_narrow_none (hsame none).2
  -- the directory is one word
  have hword : words blank ec.workingDir.toList = [ec.workingDir.toList] := by
    rw [cdOperands_narrow_none] at hoperands
    obtain ⟨w, hw, hofList⟩ := List.map_eq_singleton_iff.1 hoperands
    rw [hw, ← hofList, String.toList_ofList]
  have hifs : ∀ ch ∈ ec.workingDir.toList, ifs ch = false := by
    intro ch hch
    have hmem : ec.workingDir.toList ∈ words blank ec.workingDir.toList := by
      rw [hword]
      exact List.mem_singleton_self _
    have hblank := ((mem_words hmem).2 ch hch).2
    have hnewline : ch ≠ '\n' := by
      rintro rfl
      have hspecial := hplain.1 _ hch
      revert hspecial
      decide
    simpa [ifs, blank, hnewline] using hblank
  refine ⟨hplain, hstraight, ⟨hd, hifs, fun hpattern p hp => ?_⟩,
    fun a ha => ⟨(hsplit a ha).1, (hsplit a ha).2, fun hpattern p hp => ?_⟩, hdashes⟩
  · have hone := (landing_narrow (hsame (some p)).1).2
    have htilde : ec.workingDir.toList.head? ≠ some '~' := by rw [hstraight.1]; decide
    rw [cdOperands, cdWords, hword] at hone
    simp only [List.map_cons, List.map_nil, String.ofList_toList, List.flatMap_singleton,
      Machine.expand, if_neg htilde, narrow_glob_some] at hone
    simpa [standIn, hpattern, hp] using hone
  · have hstand := inert_of_narrow_some hsplit (hsame (some p)).2 a ha
    simpa [standIn, hpattern, hp] using hstand

/-! ## The commands of write and append actions -/

/-- A script that starts with the word `exec` is split behind it. -/
theorem expandParam_exec (patternMatches : String → String → Bool) (m : Machine D) (dir : D)
    {script : String} {cs : List Char} (h : script.toList = ['e', 'x', 'e', 'c'] ++ ' ' :: cs) :
    ∃ fs, m.expandParam patternMatches dir script = "exec" :: fs := by
  have hfields : fields script = "exec" :: (words ifs cs).map String.ofList := by
    rw [fields, h, words_cons (by simp) (by simp [ifs]) (by decide)]
    rfl
  refine ⟨((words ifs cs).map String.ofList).flatMap (m.glob patternMatches dir), ?_⟩
  rw [Machine.expandParam, hfields, List.flatMap_cons, (inert_of_not_pattern rfl).glob]
  rfl

variable (patternMatches) (m) in
/-- **The shell of a write or append action** gets the script `exec`. -/
theorem run_writeAppend {E : Type} (eof : E) (newDecoder : List UInt8 → Copy.Reader E)
    {ac : Specbuild.Action} (hold : lessThan clientVersion "1.35" = true)
    (hd : ac.workingDir ≠ "") (hplain : Plain ac.workingDir) : ∃ fs,
    m.run patternMatches m.cwd (execConfig lessThan clientVersion
      (Specbuild.actionWriteAppend eof newDecoder ac).execConfig).cmd =
        some (.executes (landing patternMatches m ac.workingDir) ("sh" :: "-c" :: "exec" :: fs)) ∧
    (Specbuild.actionWriteAppend eof newDecoder ac).execConfig.cmd ≠
      "sh" :: "-c" :: "exec" :: fs := by
  obtain ⟨script, cs, hcmd, hscript⟩ : ∃ script cs,
      (Specbuild.actionWriteAppend eof newDecoder ac).execConfig.cmd = ["sh", "-c", script] ∧
        script.toList = ['e', 'x', 'e', 'c'] ++ ' ' :: cs :=
    ⟨_, ("cat " ++ (if ac.action = "append" then ">>" else ">") ++ " " ++ ac.filename).toList, rfl,
      by simp⟩
  have hsh : Sound patternMatches "sh" := ⟨by decide, by simp [ifs], inert_of_not_pattern rfl⟩
  have hc : Sound patternMatches "-c" := ⟨by decide, by simp [ifs], inert_of_not_pattern rfl⟩
  obtain ⟨fs, hfs⟩ :=
    expandParam_exec patternMatches m (landing patternMatches m ac.workingDir) hscript
  have hargs : ["sh", "-c", script].flatMap
      (m.expandParam patternMatches (landing patternMatches m ac.workingDir)) =
        "sh" :: "-c" :: "exec" :: fs := by
    simp [List.flatMap_cons, hsh.expandParam, hc.expandParam, hfs]
  refine ⟨fs, ?_, fun heq => ?_⟩
  · have hne : (Specbuild.actionWriteAppend eof newDecoder ac).execConfig.cmd ≠ [] := by
      rw [hcmd]
      simp
    have hrun : m.run patternMatches m.cwd _ = _ := run_execConfig hold hd hne hplain m
    have hwd : (Specbuild.actionWriteAppend eof newDecoder ac).execConfig.workingDir =
        ac.workingDir := rfl
    rw [hrun, hcmd, hwd, hargs]
    rfl
  · rw [hcmd] at heq
    have hexec := (List.cons.inj (List.cons.inj (List.cons.inj heq).2).2).1
    rw [hexec] at hscript
    simp at hscript

/-- **The commands of write and append actions never pass.** -/
theorem not_same_writeAppend {E : Type} {eof : E} {newDecoder : List UInt8 → Copy.Reader E}
    {ac : Specbuild.Action} (hold : lessThan clientVersion "1.35" = true)
    (hd : ac.workingDir ≠ "") (hplain : Plain ac.workingDir) :
    ¬ Same patternMatches lessThan clientVersion m
      (Specbuild.actionWriteAppend eof newDecoder ac).execConfig := by
  intro h
  obtain ⟨fs, hrun, hne⟩ := run_writeAppend patternMatches m eof newDecoder hold hd hplain
  rw [Same, Machine.sh, hrun, Option.getD_some, newer] at h
  split at h
  · exact hne (Outcome.executes.inj h).2.symm
  · cases h

end

/-! ## The fallback -/

/-- An action in `/tmp`. -/
def actionIn (action : String) (cmd : List String) (filename : String) : Specbuild.Action :=
  { action := action, user := "root", workingDir := "/tmp", cmd := cmd, env := [], stdin := none,
    contents := "", contentsBase64 := false, filename := filename, srcPath := "", packages := [],
    ldFlags := "", subactions := [] }

/-- The listing of a directory, by an exec action. -/
def listing : ExecConfig :=
  (Specbuild.actionExec "EOF" (actionIn "exec" ["ls", "-l"] "")).execConfig

theorem listing_passes : Passes (fun w p => w = p) listing := by
  have hcmd : listing.cmd = ["ls", "-l"] := rfl
  have hdir : listing.workingDir = "/tmp" := rfl
  have hinert : ∀ w, Inert (fun w p => w = p) w := fun w _ p hp => (of_decide_eq_true hp).symm
  have htmp : words blank "/tmp".toList = ["/tmp".toList] :=
    words_eq_singleton (by simp) (by simp [blank])
  refine ⟨⟨by simp [hdir, special], ?_⟩, by decide, ⟨by decide, by simp [hdir, ifs], hinert _⟩,
    ?_, by decide⟩
  · rw [hdir, htmp]
    simp
  · intro a ha
    refine ⟨?_, ?_, hinert a⟩
    · rintro rfl
      simp [hcmd] at ha
    · rw [hcmd] at ha
      rcases List.mem_pair.1 ha with rfl | rfl <;> simp [ifs]

/-- The command of a write action. -/
def writeCommand : ExecConfig :=
  (Specbuild.actionWriteAppend "EOF" (fun _ _ => ⟨[], some "EOF"⟩)
    (actionIn "write" [] "f")).execConfig

end UAssign.Docker

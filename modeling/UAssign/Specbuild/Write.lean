import UAssign.Docker.Compat
import UAssign.Lib.Redirect

/-!
# Write and append actions

`actionWriteAppend` of `app/specbuild/actions.go` puts the filename behind `exec cat >` as it is,
and has `sh` run this. The file is written only if no other shell has to go to the working directory
first, and the name is one plain word, and it holds the contents only if all of them have come
through `Exec` (`writeAppend_iff`).
-/

namespace UAssign.Specbuild

open Docker Shell

/-! ## What an action does -/

/-- The name is one word to the shell, which does not expand it. -/
structure PlainName (name : String) : Prop where
  ne_nil : name ≠ ""
  chars : ∀ c ∈ name.toList, special c = false ∧ blank c = false
  comment : name.toList.head? ≠ some '#'
  tilde : name.toList.head? ≠ some '~'

/-- The contents, decoded if they are in base64. -/
def Action.data (ac : Action) : Option (List UInt8) :=
  if ac.contentsBase64 then Base64.decode ac.bytes else some ac.bytes

/-- How the file is opened. -/
def Action.redir (ac : Action) : Redir := if ac.action = "append" then .append else .truncate

section

variable {E D L : Type} [DecidableEq L] (patternMatches lessThan : String → String → Bool)
  (clientVersion : String)

/-- The working directory of an exec, which is that of the container unless the exec names one. -/
def execDir (m : Container D L) (workingDir : String) : Option D :=
  if workingDir = "" then some m.cwd else m.chdir m.cwd workingDir

/-- What comes of the command of a config in a container, with this input: the exec is created
through `dcompat`, and its command is run in the working directory, if there is one. -/
def performs (m : Container D L) (config : Config E) (stdin : List UInt8) : Option (Effect L) :=
  let ec := Docker.execConfig lessThan clientVersion config.execConfig
  match execDir m ec.workingDir with
  | none => some ⟨false, m.files, [], []⟩
  | some dir => m.executes dir patternMatches stdin ec.cmd

/-- The client needs no shell for the working directory of the action. -/
def Direct (ac : Action) : Prop := lessThan clientVersion "1.35" = false ∨ ac.workingDir = ""

/-- What the action says: the file at the path holds the data, behind what it held before if they
are appended; nothing else is changed or read, and nothing but `cat` is run. -/
def Writes (m : Container D L) (ac : Action) (eff : Effect L) : Prop :=
  ∃ data dir l, ac.data = some data ∧ execDir m ac.workingDir = some dir ∧
    m.locate dir ac.filename = some l ∧
    eff.files = Function.update m.files l
      (some ((if ac.action = "append" then (m.files l).getD [] else []) ++ data)) ∧
    eff.reads = [] ∧ eff.ran = [["cat"]]

end

/-! ## The command -/

section

variable {E D L : Type} [DecidableEq L] {patternMatches lessThan : String → String → Bool}
  {clientVersion : String} {eof : E} {newDecoder : List UInt8 → Copy.Reader E} {ac : Action}
  {m : Container D L} {stdin : List UInt8} {name : String}

/-- A plain name is the only word. -/
theorem PlainName.words (h : PlainName name) : lineWords name.toList = [name.toList] := by
  have hline : firstLine name.toList = name.toList := by
    unfold firstLine
    refine List.takeWhile_eq_self_iff.2 fun c hc => ?_
    have hspecial := (h.chars c hc).1
    refine decide_eq_true fun heq => ?_
    subst heq
    revert hspecial
    decide
  have hne : name.toList ≠ [] := by simpa using h.ne_nil
  unfold lineWords
  rw [hline, words_eq_singleton hne fun c hc => (h.chars c hc).2,
    List.takeWhile_cons_of_pos (by simpa using h.comment), List.takeWhile_nil]

theorem PlainName.literal (h : PlainName name) : Literal name := by
  intro w hw c hc
  rw [h.words, List.mem_singleton] at hw
  exact (h.chars c (hw ▸ hc)).1

/-- A name that is the only word is plain, but for a tilde. -/
theorem plainName_of_words (hliteral : Literal name)
    (hwords : lineWords name.toList = [name.toList]) (htilde : name.toList.head? ≠ some '~') :
    PlainName name := by
  have hmem : name.toList ∈ lineWords name.toList := by
    rw [hwords]
    exact List.mem_singleton_self _
  obtain ⟨hne, hchars⟩ := mem_words (List.takeWhile_subset _ hmem)
  refine ⟨by simpa using hne, fun c hc => ⟨hliteral _ hmem c hc, (hchars c hc).2⟩, ?_, htilde⟩
  exact head_of_mem_lineWords hmem

omit [DecidableEq L] in
theorem former_redir (l : L) :
    m.former l ac.redir = if ac.action = "append" then (m.files l).getD [] else [] := by
  unfold Action.redir
  split <;> rfl

/-- The script is not only `exec`. -/
theorem script_ne_exec (redir name : String) : "exec cat " ++ redir ++ " " ++ name ≠ "exec" := by
  intro heq
  have hlength := congrArg String.length heq
  simp only [String.length_append] at hlength
  have hfront : "exec cat ".length = 9 := by decide
  have hexec : "exec".length = 4 := by decide
  omega

theorem workDirScript_ne_exec (workingDir : String) : workDirScript workingDir ≠ "exec" := by
  intro heq
  have hlength := congrArg String.length heq
  simp only [workDirScript, String.length_append] at hlength
  have hback : "; exec $0 $@".length = 12 := by decide
  have hexec : "exec".length = 4 := by decide
  omega

/-- **What comes of the command** of a write or append action. -/
theorem performs_eq (hdirect : Direct lessThan clientVersion ac) (hliteral : Literal ac.filename) :
    performs patternMatches lessThan clientVersion m (actionWriteAppend eof newDecoder ac) stdin =
      match execDir m ac.workingDir with
      | none => some ⟨false, m.files, [], []⟩
      | some dir =>
        match (lineWords ac.filename.toList).map String.ofList with
        | [] => some ⟨false, m.files, [], []⟩
        | target :: ops =>
          match m.locate dir (m.expandTilde target) with
          | none => some ⟨false, m.files, [], []⟩
          | some l =>
            let former := if ac.action = "append" then (m.files l).getD [] else []
            let argv := ops.flatMap fun w => m.glob patternMatches dir (m.expandTilde w)
            let o := m.cat dir (Function.update m.files l (some former)) l argv stdin
            some ⟨o.ok, Function.update m.files l (some (former ++ o.output)), o.reads,
              ["cat" :: argv]⟩ := by
  have hscript : ("exec cat " ++ (if ac.action = "append" then ">>" else ">") ++ " " ++
      ac.filename).toList = ['e', 'x', 'e', 'c'] ++ ' ' :: (['c', 'a', 't'] ++ ' ' ::
        (ac.redir.operator ++ ' ' :: ac.filename.toList)) := by
    unfold Action.redir
    split <;> simp [Redir.operator]
  have hec : Docker.execConfig lessThan clientVersion
      (actionWriteAppend eof newDecoder ac).execConfig =
        (actionWriteAppend eof newDecoder ac).execConfig := execConfig_direct hdirect
  have hwd : (actionWriteAppend eof newDecoder ac).execConfig.workingDir = ac.workingDir := rfl
  have hexecutes : ∀ dir eff, m.shell dir patternMatches stdin ("exec cat " ++
      (if ac.action = "append" then ">>" else ">") ++ " " ++ ac.filename) = some eff →
      m.executes dir patternMatches stdin
        (actionWriteAppend eof newDecoder ac).execConfig.cmd = some eff :=
    fun dir eff heff => executes_script (script_ne_exec _ _) heff
  simp only [Container.shell, redirected_cat hliteral hscript] at hexecutes
  simp only [performs, hec, hwd]
  cases execDir m ac.workingDir with
  | none => rfl
  | some dir =>
    dsimp only
    have hdir := hexecutes dir
    cases hwords : (lineWords ac.filename.toList).map String.ofList with
    | nil =>
      rw [hwords] at hdir
      exact hdir _ rfl
    | cons target ops =>
      rw [hwords] at hdir
      dsimp only at hdir ⊢
      cases hl : m.locate dir (m.expandTilde target) with
      | none =>
        rw [hl] at hdir
        exact hdir _ rfl
      | some l =>
        rw [hl] at hdir
        refine hdir _ ?_
        dsimp only
        rw [former_redir, List.nil_append]

/-- With a plain name, the file takes the input. -/
theorem performs_plain (hdirect : Direct lessThan clientVersion ac)
    (hname : PlainName ac.filename) :
    performs patternMatches lessThan clientVersion m (actionWriteAppend eof newDecoder ac) stdin =
      match execDir m ac.workingDir with
      | none => some ⟨false, m.files, [], []⟩
      | some dir =>
        match m.locate dir ac.filename with
        | none => some ⟨false, m.files, [], []⟩
        | some l => some ⟨true, Function.update m.files l
            (some ((if ac.action = "append" then (m.files l).getD [] else []) ++ stdin)), [],
            [["cat"]]⟩ := by
  have hpath : m.expandTilde ac.filename = ac.filename := if_neg hname.tilde
  rw [performs_eq hdirect hname.literal, hname.words, List.map_singleton, String.ofList_toList]
  cases execDir m ac.workingDir with
  | none => rfl
  | some dir =>
    dsimp only
    rw [hpath]
    cases m.locate dir ac.filename with
    | none => rfl
    | some l => rfl

end

/-! ## Names that are not plain -/

/-- A container whose files all hold the same, and where every path leads to a file of its own. -/
def uniform (data : Option (List UInt8)) : Container Unit String where
  cwd := ()
  chdir _ _ := some ()
  cd _ _ := some ()
  paths _ := []
  tilde _ := "/home"
  rest _ := .fails
  cd_straight _ _ _ := rfl
  nodup _ := List.nodup_nil
  locate _ path := some path
  files _ := data
  catOptions _ _ := ⟨[], [], true⟩

section

variable {E : Type} {patternMatches lessThan : String → String → Bool} {clientVersion : String}
  {eof : E} {newDecoder : List UInt8 → Copy.Reader E} {ac : Action} {stdin : List UInt8}

/-- `cat` succeeds on empty files. -/
theorem cat_uniform (target : String) (args : List String) :
    ((uniform (some [])).cat () (fun _ => some []) target args stdin).ok = true := by
  have hoperands : ∀ ops stdin,
      ((uniform (some [])).catOperands () (fun _ => some []) target ops stdin).ok = true := by
    intro ops
    induction ops with
    | nil => exact fun _ => rfl
    | cons op ops ih =>
      intro stdin
      unfold Container.catOperands
      split
      · exact ih []
      · simpa [uniform] using ih stdin
  unfold Container.cat
  split
  · rfl
  · split
    · rfl
    · exact hoperands args stdin

/-- Whatever the container is, if the command succeeds, it has done what the action says. -/
def Faithful (patternMatches lessThan : String → String → Bool) (clientVersion : String)
    (config : Config E) (ac : Action) (stdin : List UInt8) : Prop :=
  ∀ (D L : Type) [DecidableEq L] (m : Container D L) (eff : Effect L),
    performs patternMatches lessThan clientVersion m config stdin = some eff → eff.ok = true →
      Writes m ac eff

theorem execDir_uniform (data : Option (List UInt8)) (workingDir : String) :
    execDir (uniform data) workingDir = some () := by
  unfold execDir
  split <;> rfl

variable (patternMatches eof newDecoder stdin) in
/-- What comes of the command, in a container whose files are empty or do not exist. -/
theorem performs_uniform (hdirect : Direct lessThan clientVersion ac)
    (data : Option (List UInt8)) {w : List Char} {ws : List (List Char)}
    (hempty : data.getD [] = []) (hliteral : Literal ac.filename)
    (hwords : lineWords ac.filename.toList = w :: ws) :
    ∃ argv, (ws ≠ [] → argv ≠ []) ∧ (ws = [] → argv = []) ∧
      performs patternMatches lessThan clientVersion (uniform data)
          (actionWriteAppend eof newDecoder ac) stdin =
        (let target := (uniform data).expandTilde (String.ofList w)
        let o := (uniform data).cat () (Function.update (fun _ => data) target (some [])) target
          argv stdin
        some ⟨o.ok, Function.update (fun _ => data) target (some o.output), o.reads,
          ["cat" :: argv]⟩) := by
  refine ⟨(ws.map String.ofList).flatMap fun v => (uniform data).glob patternMatches ()
    ((uniform data).expandTilde v), fun hws => ?_, fun hws => by rw [hws]; rfl, ?_⟩
  · obtain ⟨w', ws, rfl⟩ := List.exists_cons_of_ne_nil hws
    have hglob : ∀ v, (uniform data).glob patternMatches () v = [v] := by
      intro v
      unfold Machine.glob
      split <;> rfl
    simp [hglob]
  · have hformer : (if ac.action = "append" then data.getD [] else []) = [] := by
      rw [hempty, ite_self]
    have hlocate : ∀ path, (uniform data).locate () path = some path := fun _ => rfl
    have hfiles : (uniform data).files = fun _ => data := rfl
    rw [performs_eq hdirect hliteral, execDir_uniform, hwords]
    simp only [List.map_cons, hlocate, hfiles, hformer, List.nil_append]

/-- With one word, the file at it holds the input. -/
theorem faithful_word (hdirect : Direct lessThan clientVersion ac) {w : List Char}
    (hliteral : Literal ac.filename) (hwords : lineWords ac.filename.toList = [w])
    (h : Faithful patternMatches lessThan clientVersion (actionWriteAppend eof newDecoder ac) ac
      stdin) :
    ac.filename = (uniform none).expandTilde (String.ofList w) ∧ ac.data = some stdin := by
  obtain ⟨argv, -, hargv, heff⟩ :=
    performs_uniform patternMatches eof newDecoder stdin hdirect none rfl hliteral hwords
  rw [hargv rfl] at heff
  obtain ⟨data, dir, l, hdata, -, hl, hfiles, -⟩ := h _ _ _ _ heff rfl
  obtain rfl : ac.filename = l := Option.some.inj hl
  have hfile : Function.update (fun _ => none)
      ((uniform none).expandTilde (String.ofList w)) (some stdin) ac.filename = some data := by
    refine (congrFun hfiles ac.filename).trans ?_
    rw [Function.update_self]
    by_cases happend : ac.action = "append" <;> simp [happend, uniform]
  by_cases htarget : ac.filename = (uniform none).expandTilde (String.ofList w)
  · rw [← htarget, Function.update_self] at hfile
    exact ⟨htarget, hdata.trans hfile.symm⟩
  · rw [Function.update_of_ne htarget] at hfile
    cases hfile

variable (patternMatches eof newDecoder stdin) in
/-- With more words, `cat` has arguments. -/
theorem performs_words (hdirect : Direct lessThan clientVersion ac) {w w' : List Char}
    {ws : List (List Char)} (hliteral : Literal ac.filename)
    (hwords : lineWords ac.filename.toList = w :: w' :: ws) :
    ∃ eff, performs patternMatches lessThan clientVersion (uniform (some []))
      (actionWriteAppend eof newDecoder ac) stdin = some eff ∧ eff.ok = true ∧
        ¬ Writes (uniform (some [])) ac eff := by
  obtain ⟨argv, hargv, -, heff⟩ :=
    performs_uniform patternMatches eof newDecoder stdin hdirect (some []) rfl hliteral hwords
  have hsame : ∀ path, Function.update (fun _ : String => some ([] : List UInt8)) path (some []) =
      fun _ => some [] := fun path => Function.update_eq_self path _
  dsimp only at heff
  rw [hsame] at heff
  refine ⟨_, heff, cat_uniform _ argv, ?_⟩
  rintro ⟨-, -, -, -, -, -, -, -, hran⟩
  exact hargv (by simp) (by simpa using hran)

/-- **Behind a name that is not plain**, another file is written, or other files are read. -/
theorem plain_of_faithful (hdirect : Direct lessThan clientVersion ac)
    (hliteral : Literal ac.filename)
    (h : Faithful patternMatches lessThan clientVersion (actionWriteAppend eof newDecoder ac) ac
      stdin) :
    lineWords ac.filename.toList = [] ∨ PlainName ac.filename ∧ ac.data = some stdin := by
  cases hwords : lineWords ac.filename.toList with
  | nil => exact .inl rfl
  | cons w ws =>
    right
    cases ws with
    | nil =>
      obtain ⟨hpath, hdata⟩ := faithful_word hdirect hliteral hwords h
      have hw : w ∈ words blank (firstLine ac.filename.toList) := by
        have hmem : w ∈ lineWords ac.filename.toList := by
          rw [hwords]
          exact List.mem_singleton_self w
        exact List.takeWhile_subset _ hmem
      have htilde : w.head? ≠ some '~' := by
        intro htilde
        have hmem : '~' ∈ w := List.mem_of_mem_head? htilde
        have hname := List.takeWhile_subset _ ((mem_words hw).2 _ hmem).1
        have hhome : (uniform none).expandTilde (String.ofList w) = "/home" :=
          if_pos (by rwa [String.toList_ofList])
        rw [hpath, hhome] at hname
        revert hname
        decide
      have hself : ac.filename.toList = w := by
        have hplain : (uniform none).expandTilde (String.ofList w) = String.ofList w :=
          if_neg (by rwa [String.toList_ofList])
        rw [hpath, hplain, String.toList_ofList]
      exact ⟨plainName_of_words hliteral (by rw [hwords, hself]) (by rwa [hself]), hdata⟩
    | cons w' ws =>
      obtain ⟨eff, heff, hok, hnot⟩ :=
        performs_words patternMatches eof newDecoder stdin hdirect hliteral hwords
      exact absurd (h _ _ _ _ heff hok) hnot

/-- **Behind a shell that goes to the working directory**, nothing is written: the other shell only
gets the script `exec`, and succeeds. -/
theorem not_faithful_of_not_direct (hdirect : ¬ Direct lessThan clientVersion ac)
    (hplain : Plain ac.workingDir) : ¬ Faithful patternMatches lessThan clientVersion
      (actionWriteAppend eof newDecoder ac) ac stdin := by
  obtain ⟨hold, hd⟩ := not_or.1 hdirect
  have hold := Bool.eq_true_of_not_eq_false hold
  intro h
  obtain ⟨fs, hrun, -⟩ :=
    run_writeAppend patternMatches (uniform none).toMachine eof newDecoder hold hd hplain
  have hec : Docker.execConfig lessThan clientVersion
      (actionWriteAppend eof newDecoder ac).execConfig =
        { (actionWriteAppend eof newDecoder ac).execConfig with
          cmd := "sh" :: "-c" :: workDirScript ac.workingDir ::
            (actionWriteAppend eof newDecoder ac).cmd
          workingDir := "" } := if_pos ⟨hold, hd⟩
  have heff : performs patternMatches lessThan clientVersion (uniform none)
      (actionWriteAppend eof newDecoder ac) stdin = some ⟨true, fun _ => none, [], []⟩ := by
    rw [hec] at hrun
    simp only [performs, hec, execDir, if_true]
    exact executes_behind (workDirScript_ne_exec _) hrun
  obtain ⟨-, -, -, -, -, -, -, -, hran⟩ := h _ _ _ _ heff rfl
  cases hran

end

/-! ## Write and append -/

section

variable {E : Type} [DecidableEq E] {eof shortWrite : E} {newDecoder : List UInt8 → Copy.Reader E}
  {fault : Base64.Fault → E} {ac : Action} {as : List (Exec.Act E)} {s : Exec.State E}
  {lessThan : String → String → Bool} {clientVersion : String}

omit [DecidableEq E] in
/-- With a plain name, the file holds what has been written to the connection. -/
theorem PlainName.faithful (hname : PlainName ac.filename)
    (hdirect : Direct lessThan clientVersion ac) {stdin : List UInt8}
    (hdata : ac.data = some stdin) (patternMatches : String → String → Bool) :
    Faithful patternMatches lessThan clientVersion (actionWriteAppend eof newDecoder ac) ac
      stdin := by
  intro D L _ m eff heff hok
  rw [performs_plain hdirect hname] at heff
  cases hdir : execDir m ac.workingDir with
  | none =>
    rw [hdir] at heff
    cases heff
    cases hok
  | some dir =>
    rw [hdir] at heff
    dsimp only at heff
    cases hl : m.locate dir ac.filename with
    | none =>
      rw [hl] at heff
      cases heff
      cases hok
    | some l =>
      rw [hl] at heff
      cases heff
      exact ⟨stdin, dir, l, hdata, hdir, hl, rfl, rfl, rfl⟩

omit [DecidableEq E] in
/-- Without a word, the command is a syntax error. -/
theorem faithful_nil (hdirect : Direct lessThan clientVersion ac)
    (hwords : lineWords ac.filename.toList = []) {stdin : List UInt8}
    (patternMatches : String → String → Bool) :
    Faithful patternMatches lessThan clientVersion (actionWriteAppend eof newDecoder ac) ac
      stdin := by
  intro D L _ m eff heff hok
  have hliteral : Literal ac.filename := by
    intro w hw
    rw [hwords] at hw
    cases hw
  rw [performs_eq hdirect hliteral, hwords] at heff
  cases hdir : execDir m ac.workingDir with
  | none =>
    rw [hdir] at heff
    cases heff
    cases hok
  | some dir =>
    rw [hdir] at heff
    cases heff
    cases hok

/-- The connection has been written the data if and only if it has taken as many bytes. -/
theorem written_iff (h : (Exec.exec (fault .eof) shortWrite (actionWriteAppend (fault .eof)
      (Base64.newDecoder fault) ac)).Run System.Any .initial as s) :
    ac.data = some s.stdin.written ↔
      ∃ data, ac.data = some data ∧ (as.map Exec.Act.taken).sum = data.length := by
  obtain ⟨hlength, hbegins⟩ := Exec.run_written rfl h
  constructor
  · exact fun hdata => ⟨_, hdata, hlength.symm⟩
  · rintro ⟨data, hdata, hsum⟩
    have hprefix : s.stdin.written <+: data := by
      unfold Action.data at hdata
      split at hdata
      · next hbase64 =>
        rw [if_pos hbase64] at hbegins
        exact hbegins.prefix (Base64.newDecoder_ends hdata)
      · next hbase64 =>
        cases hdata
        rw [if_neg hbase64] at hbegins
        refine hbegins.prefix ⟨0, fun i hi => absurd hi (Nat.not_lt_zero i), rfl, ?_⟩
        simp [Copy.Reader.upTo, newReader]
    rw [hdata, hprefix.eq_of_length (hlength.trans hsum)]

/-- **Write and append do what they say if the client needs no shell for the working directory, the
name is plain, and the connection takes all of the data**, or if there is no word. A name whose words
can be read is written in no other case, if the working directory is plain. This holds in all states
of a run, and so where `Exec` has succeeded. -/
theorem writeAppend_iff {E : Type} [DecidableEq E]
    (patternMatches lessThan : String → String → Bool) (clientVersion : String)
    (fault : Base64.Fault → E) (shortWrite : E) (ac : Action) (as : List (Exec.Act E))
    (s : Exec.State E) (h : (Exec.exec (fault .eof) shortWrite (actionWriteAppend (fault .eof)
      (Base64.newDecoder fault) ac)).Run System.Any .initial as s) :
    (Direct lessThan clientVersion ac ∧ (lineWords ac.filename.toList = [] ∨
        PlainName ac.filename ∧
          ∃ data, ac.data = some data ∧ (as.map Exec.Act.taken).sum = data.length) →
      Faithful patternMatches lessThan clientVersion
        (actionWriteAppend (fault .eof) (Base64.newDecoder fault) ac) ac s.stdin.written) ∧
    (Literal ac.filename → Direct lessThan clientVersion ac ∨ Plain ac.workingDir →
      Faithful patternMatches lessThan clientVersion
        (actionWriteAppend (fault .eof) (Base64.newDecoder fault) ac) ac s.stdin.written →
      Direct lessThan clientVersion ac ∧ (lineWords ac.filename.toList = [] ∨
        PlainName ac.filename ∧
          ∃ data, ac.data = some data ∧ (as.map Exec.Act.taken).sum = data.length)) := by
  rw [← written_iff h]
  constructor
  · rintro ⟨hdirect, hwords | ⟨hname, hdata⟩⟩
    · exact faithful_nil hdirect hwords patternMatches
    · exact hname.faithful hdirect hdata patternMatches
  · intro hliteral hdirectory hfaithful
    have hdirect : Direct lessThan clientVersion ac := by
      rcases hdirectory with hdirect | hplain
      · exact hdirect
      · by_contra hnot
        exact not_faithful_of_not_direct hnot hplain hfaithful
    exact ⟨hdirect, plain_of_faithful hdirect hliteral hfaithful⟩

/-- It holds of a write action with valid contents. -/
theorem writeAppend_iff_valid : ∃ s : Exec.State String,
    (Exec.exec "EOF" "short write" (actionWriteAppend "EOF" (Base64.newDecoder faultText)
      (writeBase64 "YWJj"))).Run System.Any .initial (catRun none) s ∧
    s.main = .returned none ∧
    Faithful (fun _ _ => false) (fun v w => v < w) "1.34" (actionWriteAppend "EOF"
      (Base64.newDecoder faultText) (writeBase64 "YWJj")) (writeBase64 "YWJj")
        s.stdin.written := by
  have hbytes : (writeBase64 "YWJj").bytes = [0x59, 0x57, 0x4A, 0x6A] := rfl
  have hdecode : Base64.decode (writeBase64 "YWJj").bytes = some [0x61, 0x62, 0x63] := by
    rw [hbytes]
    decide
  have hname : PlainName (writeBase64 "YWJj").filename := by
    have hlist : (writeBase64 "YWJj").filename.toList = ['/', 'f'] := rfl
    refine ⟨by decide, ?_, ?_, ?_⟩ <;> rw [hlist] <;> simp [special, blank]
  obtain ⟨s, hrun, hs, -⟩ :=
    catRun_run "YWJj" .eof (newDecoder_quantum (.inl rfl))
  exact ⟨s, hrun, hs, (writeAppend_iff (fun _ _ => false) (fun v w => v < w) "1.34" faultText
    "short write" _ _ s hrun).1 ⟨.inr rfl, .inr ⟨hname, _, hdecode, rfl⟩⟩⟩

/-- A write action to the name `a b`. -/
def writeWords : Action :=
  { action := "write", user := "root", workingDir := "", cmd := [], env := [], stdin := none,
    contents := "abc", contentsBase64 := false, filename := "a b", srcPath := "", packages := [],
    ldFlags := "", subactions := [] }

/-- **A name with a blank is two words**: `cat` is given the second as a file to read, and the
action succeeds. -/
theorem writeWords_reads : ∃ (s : Exec.State String) (eff : Effect String),
    (Exec.exec "EOF" "short write" (actionWriteAppend "EOF" (Base64.newDecoder faultText)
      writeWords)).Run System.Any .initial
        [.create none, .attach none, .read, .write 3 none, .closeWrite none,
          .outputEnds .stdout none, .outputEnds .stderr none, .wait, .ctx none, .inspect false 0]
        s ∧
    s.main = .returned none ∧
    performs (fun _ _ => false) (fun _ _ => false) "1.35" (uniform (some []))
      (actionWriteAppend "EOF" (Base64.newDecoder faultText) writeWords) s.stdin.written =
        some eff ∧
    eff.ok = true ∧ ¬ Writes (uniform (some [])) writeWords eff := by
  have hlist : writeWords.filename.toList = ['a', ' ', 'b'] := rfl
  have hwords : lineWords writeWords.filename.toList = [['a'], ['b']] := by
    rw [hlist]
    decide
  have hliteral : Literal writeWords.filename := by
    unfold Literal
    rw [hwords]
    simp [special]
  exact ⟨_, _, System.run_of_exec rfl, rfl, (performs_words (fun _ _ => false) "EOF"
    (Base64.newDecoder faultText) [0x61, 0x62, 0x63] (.inr rfl) hliteral hwords).choose_spec⟩

end

end UAssign.Specbuild

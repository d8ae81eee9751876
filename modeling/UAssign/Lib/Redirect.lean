import UAssign.Lib.Shell

/-!
# Redirected commands

A POSIX `sh` on scripts whose first line is `exec cat` with literal words and a redirection of the
output, where another shell may have gone to the directory. Behind the operator, the first word is
the file, unless a comment comes before it, and the others are arguments of `cat`. Without a file, the
script is an error; where there is one that can be opened, `cat` takes the shell's place, so that no
further line is read.
-/

namespace UAssign.Shell

/-! ## Scripts -/

/-- How a file is opened for an output. -/
inductive Redir where
  | truncate
  | append
  deriving DecidableEq

/-- The operator. -/
def Redir.operator : Redir → List Char
  | .truncate => ['>']
  | .append => ['>', '>']

/-- The first line of a script. -/
def firstLine (cs : List Char) : List Char := cs.takeWhile (· ≠ '\n')

/-- The words of the first line, up to a comment. -/
def lineWords (cs : List Char) : List (List Char) :=
  (words blank (firstLine cs)).takeWhile fun w => w.head? ≠ some '#'

/-- A word is literal if none of its characters is special, and it starts no comment. -/
def literal (w : List Char) : Option String :=
  if w.all (fun c => !special c) ∧ w.head? ≠ some '#' then some (String.ofList w) else none

/-- A command, how its output is redirected, and the words behind the operator. -/
def redirected (script : String) : Option (List String × Redir × List String) :=
  let ws := lineWords script.toList
  let front := ws.takeWhile fun w => w ≠ Redir.truncate.operator ∧ w ≠ Redir.append.operator
  match ws.drop front.length with
  | [] => none
  | op :: back => do
    let front ← front.mapM literal
    let back ← back.mapM literal
    pure (front, if op = Redir.truncate.operator then .truncate else .append, back)

/-! ## Containers -/

/-- What a command puts out, the files it has read, and whether it succeeds. -/
structure Output (L : Type) where
  output : List UInt8
  reads : List L
  ok : Bool

/-- A machine with files: where a path leads that is opened, what is in the files, and what `cat`
does with options. -/
structure Container (D L : Type) extends Machine D where
  locate : D → String → Option L
  files : L → Option (List UInt8)
  catOptions : List String → List UInt8 → Output L

/-- What a script comes to: whether it succeeds, the files behind it, those that have been read, and
the commands that have been run. -/
structure Effect (L : Type) where
  ok : Bool
  files : L → Option (List UInt8)
  reads : List L
  ran : List (List String)

section

variable {D L : Type} [DecidableEq L] (c : Container D L) (dir : D)

/-- Tilde expansion. -/
def Container.expandTilde (w : String) : String :=
  if w.toList.head? = some '~' then c.tilde w else w

/-- The operands of `cat`; `-` is the input. The file that it writes to is no operand, unless it is
empty. -/
def Container.catOperands (files : L → Option (List UInt8)) (target : L) :
    List String → List UInt8 → Output L
  | [], _ => ⟨[], [], true⟩
  | op :: ops, stdin =>
    if op = "-" then
      let rest := Container.catOperands files target ops []
      { rest with output := stdin ++ rest.output }
    else
      let rest := Container.catOperands files target ops stdin
      match (c.locate dir op).bind fun l => (files l).map fun data => (l, data) with
      | some (l, data) =>
        if l = target ∧ data ≠ [] then { rest with ok := false }
        else { rest with output := data ++ rest.output, reads := l :: rest.reads }
      | none => { rest with ok := false }

/-- `cat`. -/
def Container.cat (files : L → Option (List UInt8)) (target : L) (args : List String)
    (stdin : List UInt8) : Output L :=
  if args = [] then ⟨stdin, [], true⟩
  else if args.any fun a => a.toList.head? = some '-' ∧ a ≠ "-" then c.catOptions args stdin
  else c.catOperands dir files target args stdin

/-- What a file holds that has been opened. -/
def Container.former (l : L) : Redir → List UInt8
  | .truncate => []
  | .append => (c.files l).getD []

/-- `sh -c`, on a script of this fragment, with this input. -/
def Container.shell (patternMatches : String → String → Bool) (stdin : List UInt8)
    (script : String) : Option (Effect L) :=
  match redirected script with
  | some ("exec" :: "cat" :: args, mode, back) =>
    match back with
    -- a syntax error
    | [] => some ⟨false, c.files, [], []⟩
    | target :: ops =>
      match c.locate dir (c.expandTilde target) with
      | none => some ⟨false, c.files, [], []⟩
      | some l =>
        let former := c.former l mode
        let argv := (args ++ ops).flatMap fun w => c.glob patternMatches dir (c.expandTilde w)
        let o := c.cat dir (Function.update c.files l (some former)) l argv stdin
        some ⟨o.ok, Function.update c.files l (some (former ++ o.output)), o.reads,
          ["cat" :: argv]⟩
  | _ => none

/-- What comes of `sh` in a directory: `exec` without a command does nothing. Other commands than
`sh` are left open. -/
def Container.command (patternMatches : String → String → Bool) (stdin : List UInt8) :
    List String → Option (Effect L)
  | "sh" :: "-c" :: "exec" :: _ => some ⟨true, c.files, [], []⟩
  | ["sh", "-c", script] => c.shell dir patternMatches stdin script
  | _ => none

/-- What comes of a command in a directory, in front of which there may be a shell that goes to
another directory. -/
def Container.executes (patternMatches : String → String → Bool) (stdin : List UInt8)
    (argv : List String) : Option (Effect L) :=
  match c.command dir patternMatches stdin argv, c.run patternMatches dir argv with
  | some eff, _ => some eff
  | none, some (.executes dir argv) => c.command dir patternMatches stdin argv
  | none, _ => none

end

/-! ## Reading the script -/

section

variable {mode : Redir} {name : String} {w : List Char}

/-- The words of a name that can be read: none of them has a special character. -/
def Literal (name : String) : Prop := ∀ w ∈ lineWords name.toList, ∀ c ∈ w, special c = false

theorem literal_eq (hspecial : ∀ c ∈ w, special c = false) (hcomment : w.head? ≠ some '#') :
    literal w = some (String.ofList w) := by
  unfold literal
  rw [if_pos ⟨by simpa using hspecial, hcomment⟩]

theorem head_of_mem_lineWords {cs : List Char} (hw : w ∈ lineWords cs) : w.head? ≠ some '#' := by
  simpa using List.mem_takeWhile_imp hw

/-- A word in front of the words of a line. -/
theorem lineWords_cons (hne : w ≠ []) (h : ∀ c ∈ w, blank c = false ∧ c ≠ '\n')
    (hcomment : w.head? ≠ some '#') (cs : List Char) :
    lineWords (w ++ ' ' :: cs) = w :: lineWords cs := by
  have hline : firstLine (w ++ ' ' :: cs) = w ++ ' ' :: firstLine cs := by
    unfold firstLine
    rw [List.takeWhile_append_of_pos fun c hc => by simpa using (h c hc).2,
      List.takeWhile_cons_of_pos (by decide)]
  unfold lineWords
  rw [hline, words_cons hne (fun c hc => (h c hc).1) (by decide),
    List.takeWhile_cons_of_pos (by simpa using hcomment)]

/-- **The script of a redirected `cat`.** -/
theorem redirected_cat (hname : Literal name) {script : String}
    (hscript : script.toList = ['e', 'x', 'e', 'c'] ++ ' ' :: (['c', 'a', 't'] ++ ' ' ::
      (mode.operator ++ ' ' :: name.toList))) : redirected script =
    some (["exec", "cat"], mode, (lineWords name.toList).map String.ofList) := by
  have hwords : lineWords script.toList = ['e', 'x', 'e', 'c'] :: ['c', 'a', 't'] ::
      mode.operator :: lineWords name.toList := by
    rw [hscript, lineWords_cons (by decide) (by simp [blank]) (by decide),
      lineWords_cons (by decide) (by simp [blank]) (by decide),
      lineWords_cons (by cases mode <;> decide) ?_ (by cases mode <;> decide)]
    cases mode <;> simp [Redir.operator, blank]
  have hback : (lineWords name.toList).mapM literal =
      some ((lineWords name.toList).map String.ofList) :=
    mapM_eq_map fun w hw => literal_eq (hname w hw) (head_of_mem_lineWords hw)
  have hexec : literal ['e', 'x', 'e', 'c'] = some "exec" := by decide
  have hcat : literal ['c', 'a', 't'] = some "cat" := by decide
  unfold redirected
  rw [hwords]
  cases mode <;> simp [Redir.operator, hback, hexec, hcat]

end

/-! ## Commands -/

section

variable {D L : Type} [DecidableEq L] {c : Container D L} {dir : D}
  {patternMatches : String → String → Bool} {stdin : List UInt8} {script : String} {eff : Effect L}

/-- A script other than `exec`. -/
theorem command_script (h : script ≠ "exec") :
    c.command dir patternMatches stdin ["sh", "-c", script] =
      c.shell dir patternMatches stdin script := by
  unfold Container.command
  split
  · next heq => exact absurd (List.cons.inj (List.cons.inj (List.cons.inj heq).2).2).1 h
  · next heq =>
    cases heq
    rfl
  · next hne => exact absurd rfl (hne script)

theorem executes_script (h : script ≠ "exec")
    (heff : c.shell dir patternMatches stdin script = some eff) :
    c.executes dir patternMatches stdin ["sh", "-c", script] = some eff := by
  rw [Container.executes, command_script h, heff]

/-- A shell with arguments, which executes them in another directory. -/
theorem executes_behind {dir' : D} {arg : String} {args argv : List String} (h : script ≠ "exec")
    (hrun : c.run patternMatches dir ("sh" :: "-c" :: script :: arg :: args) =
      some (.executes dir' argv)) :
    c.executes dir patternMatches stdin ("sh" :: "-c" :: script :: arg :: args) =
      c.command dir' patternMatches stdin argv := by
  have hcommand : c.command dir patternMatches stdin ("sh" :: "-c" :: script :: arg :: args) =
      none := by
    unfold Container.command
    split
    · next heq => exact absurd (List.cons.inj (List.cons.inj (List.cons.inj heq).2).2).1 h
    · next heq => cases heq
    · rfl
  rw [Container.executes, hcommand, hrun]

end

end UAssign.Shell

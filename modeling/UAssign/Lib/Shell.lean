import Mathlib

/-!
# A fragment of the shell

A POSIX `sh` with the default `IFS` on scripts that are sequences of `cd` and `exec`, whose words
are literal or one of `$0` and `$@`, without quotes: words are recognised, expanded, split into
fields and matched against pathnames. What a shell makes of all other scripts is left open
(`Machine.rest`). An argument passes through the expansion of an unquoted parameter unchanged if
it is `Sound`.
-/

namespace UAssign.Shell

/-! ## Words -/

/-- The nonempty pieces between separators. -/
def words (p : Char → Bool) (cs : List Char) : List (List Char) :=
  (cs.splitOnP p).filter (· ≠ [])

section

variable {p : Char → Bool} {cs cs' w : List Char}

/-- A separator ends a word. -/
theorem words_append_cons {c : Char} (hc : p c = true) (cs cs' : List Char) :
    words p (cs ++ c :: cs') = words p cs ++ words p cs' := by
  simp [words, List.splitOnP_append_cons cs cs' hc]

/-- Without separators, there is one word. -/
theorem words_eq_singleton (hne : cs ≠ []) (h : ∀ c ∈ cs, p c = false) : words p cs = [cs] := by
  simp [words, List.splitOnP_eq_singleton h, hne]

/-- A word in front of a separator. -/
theorem words_cons {c : Char} (hne : cs ≠ []) (h : ∀ c ∈ cs, p c = false) (hc : p c = true)
    (cs' : List Char) : words p (cs ++ c :: cs') = cs :: words p cs' := by
  rw [words_append_cons hc, words_eq_singleton hne h, List.singleton_append]

/-- What a piece is made of. -/
theorem mem_splitOnP (h : w ∈ cs.splitOnP p) : ∀ c ∈ w, c ∈ cs ∧ p c = false := by
  induction cs generalizing w with
  | nil =>
    rw [List.splitOnP_nil, List.mem_singleton] at h
    subst h
    exact fun c hc => absurd hc (List.not_mem_nil)
  | cons c cs ih =>
    have htail : ∀ v ∈ cs.splitOnP p, ∀ d ∈ v, d ∈ c :: cs ∧ p d = false := fun v hv d hd =>
      ⟨List.mem_cons_of_mem _ (ih hv d hd).1, (ih hv d hd).2⟩
    rw [List.splitOnP_cons_eq_if_modifyHead] at h
    split at h
    · rcases List.mem_cons.1 h with rfl | h
      · exact fun d hd => absurd hd (List.not_mem_nil)
      · exact htail w h
    · next hc =>
      obtain ⟨v, vs, hvs⟩ := List.exists_cons_of_ne_nil (List.splitOnP_ne_nil p cs)
      rw [hvs, List.modifyHead_cons] at h
      rcases List.mem_cons.1 h with rfl | h
      · intro d hd
        rcases List.mem_cons.1 hd with rfl | hd
        · exact ⟨List.mem_cons_self, by simpa using hc⟩
        · exact htail v (by rw [hvs]; exact List.mem_cons_self) d hd
      · exact htail w (by rw [hvs]; exact List.mem_cons_of_mem _ h)

/-- What a word is made of. -/
theorem mem_words (h : w ∈ words p cs) : w ≠ [] ∧ ∀ c ∈ w, c ∈ cs ∧ p c = false := by
  obtain ⟨h, hne⟩ := List.mem_filter.1 h
  exact ⟨by simpa using hne, mem_splitOnP h⟩

end

/-! ## Scripts -/

/-- What separates the words of a script, -/
def blank (c : Char) : Bool := c = ' ' || c = '\t'

/-- the fields of an expansion, the default `IFS`, -/
def ifs (c : Char) : Bool := c = ' ' || c = '\t' || c = '\n'

/-- and the characters that have a meaning outside of words, or start an expansion or a quotation:
the last ones are the backslash, the backquote and the quotes. -/
def special (c : Char) : Bool :=
  [';', '&', '|', '<', '>', '(', ')', '\n', '$', '\x5C', '\x60', '\x22', '\x27'].contains c

/-- A word of the fragment. -/
inductive Word where
  | literal (s : String)
  | zero
  | params
  deriving DecidableEq

/-- A word is literal if none of its characters is special, and it starts no comment. -/
def word (cs : List Char) : Option Word :=
  if cs = ['$', '0'] then some .zero
  else if cs = ['$', '@'] then some .params
  else if cs.all (fun c => !special c) ∧ cs.head? ≠ some '#' then some (.literal (String.ofList cs))
  else none

theorem mapM_eq_map {α β : Type} {f : α → Option β} {g : α → β} {l : List α}
    (h : ∀ a ∈ l, f a = some (g a)) : l.mapM f = some (l.map g) := by
  induction l with
  | nil => rfl
  | cons a l ih =>
    rw [List.mapM_cons, h a List.mem_cons_self, ih fun b hb => h b (List.mem_cons_of_mem _ hb)]
    rfl

/-- The commands of a script, if it is in the fragment. -/
def commands (script : String) : Option (List (List Word)) :=
  (script.toList.splitOnP (· = ';')).mapM fun cmd => (words blank cmd).mapM word

/-! ## Machines -/

/-- What a process comes to: it executes arguments in a directory, exits, or fails. -/
inductive Outcome (D : Type) where
  | executes (dir : D) (argv : List String)
  | exits
  | fails
  deriving DecidableEq

/-- A path from the root, in which no name is followed by `..`. -/
def Straight (w : String) : Prop :=
  w.toList.head? = some '/' ∧
    ['.', '.'] ∉ ((words (· = '/') w.toList).filter (· ≠ ['.'])).dropWhile (· = ['.', '.'])

/-- What a shell runs in, with directories in `D`: where it starts, where `chdir` and `cd` lead,
what pathnames there are in the order of the locale, and what `~` stands for; and what a shell does
outside of the fragment. `cd` goes along the path that it is given, where a `..` leads back to the
directory before the name; but for that, it goes where `chdir` does. -/
structure Machine (D : Type) where
  cwd : D
  chdir : D → String → Option D
  cd : D → List String → Option D
  paths : D → List String
  tilde : String → String
  rest : List String → Outcome D
  cd_straight : ∀ dir w, Straight w → cd dir [w] = chdir dir w
  nodup : ∀ dir, (paths dir).Nodup

/-- It has a character that makes it a pattern. -/
def pattern (w : String) : Bool := w.toList.any fun c => c = '*' || c = '?' || c = '['

/-- The fields that the value of an unquoted parameter is split into. -/
def fields (s : String) : List String := (words ifs s.toList).map String.ofList

/-- The arguments of `exec`, which has no options: a first `--` is discarded. -/
def operands : List String → List String
  | [] => []
  | a :: args => if a = "--" then args else a :: args

section

variable {D : Type} (patternMatches : String → String → Bool) (m : Machine D)

/-- Pathname expansion. -/
def Machine.glob (dir : D) (w : String) : List String :=
  if pattern w then
    match (m.paths dir).filter (patternMatches w) with
    | [] => [w]
    | ps => ps
  else [w]

/-- The expansion of an unquoted parameter. -/
def Machine.expandParam (dir : D) (s : String) : List String :=
  (fields s).flatMap (m.glob patternMatches dir)

/-- The expansion of a word, where `name` is `$0` and `args` are the positional parameters. -/
def Machine.expand (name : String) (args : List String) (dir : D) : Word → List String
  | .literal s => m.glob patternMatches dir (if s.toList.head? = some '~' then m.tilde s else s)
  | .zero => m.expandParam patternMatches dir name
  | .params => args.flatMap (m.expandParam patternMatches dir)

/-- A shell goes through its commands, in a directory. A `cd` that fails leaves it where it is. -/
def Machine.eval (name : String) (args : List String) (dir : D) :
    List (List Word) → Option (Outcome D)
  | [] => some .exits
  | cmd :: cmds =>
    match cmd.flatMap (m.expand patternMatches name args dir) with
    | "cd" :: ops => Machine.eval name args ((m.cd dir ops).getD dir) cmds
    | "exec" :: argv =>
      match operands argv with
      | [] => Machine.eval name args dir cmds
      | argv => some (.executes dir argv)
    | _ => none

/-- The options of `sh` that are known: the script behind `-c`, and its arguments. -/
def shOptions : List String → Option (String × List String)
  | "sh" :: "-i" :: "-c" :: script :: args => some (script, args)
  | "sh" :: "-c" :: script :: args => some (script, args)
  | _ => none

/-- `sh` in a directory, on a script of the fragment. -/
def Machine.run (dir : D) (argv : List String) : Option (Outcome D) := do
  let (script, args) ← shOptions argv
  let cmds ← commands script
  m.eval patternMatches (args.head?.getD "sh") args.tail dir cmds

/-- `sh`. -/
def Machine.sh (argv : List String) : Outcome D :=
  (m.run patternMatches m.cwd argv).getD (m.rest argv)

end

/-! ## Arguments that pass through -/

section

variable {D : Type} {patternMatches : String → String → Bool} {m : Machine D} {dir : D}

/-- No pathname but itself is matched. -/
def Inert (patternMatches : String → String → Bool) (w : String) : Prop :=
  pattern w = true → ∀ p, patternMatches w p = true → p = w

/-- It is nonempty, there is no blank in it, and it is inert. -/
def Sound (patternMatches : String → String → Bool) (w : String) : Prop :=
  w ≠ "" ∧ (∀ c ∈ w.toList, ifs c = false) ∧ Inert patternMatches w

theorem Inert.glob {w : String} (h : Inert patternMatches w) :
    m.glob patternMatches dir w = [w] := by
  unfold Machine.glob
  split
  · next hpattern =>
    have hall : ∀ p ∈ (m.paths dir).filter (patternMatches w), p = w := fun p hp =>
      h hpattern p (List.mem_filter.1 hp).2
    have hlength : ((m.paths dir).filter (patternMatches w)).length ≤ 1 := by
      have hnodup := (m.nodup dir).filter (patternMatches w)
      rw [List.eq_replicate_of_mem hall] at hnodup
      exact List.nodup_replicate.1 hnodup
    split
    · rfl
    · next ps hne =>
      obtain ⟨p, hp⟩ : ∃ p, (m.paths dir).filter (patternMatches w) = [p] :=
        List.length_eq_one_iff.1 (Nat.le_antisymm hlength (List.length_pos_iff.2 hne))
      rw [hp, hall p (by rw [hp]; exact List.mem_singleton_self p)]
  · rfl

/-- A literal word that is inert, and does not start with `~`, stands for itself. -/
theorem Inert.expand {s : String} (h : Inert patternMatches s) (htilde : s.toList.head? ≠ some '~')
    (name : String) (args : List String) :
    m.expand patternMatches name args dir (.literal s) = [s] := by
  rw [Machine.expand, if_neg htilde, h.glob]

/-- Without patterns, a word is inert. -/
theorem inert_of_not_pattern {w : String} (h : pattern w = false) : Inert patternMatches w := by
  intro hpattern
  rw [h] at hpattern
  cases hpattern

theorem fields_eq_singleton {s : String} (hne : s ≠ "") (h : ∀ c ∈ s.toList, ifs c = false) :
    fields s = [s] := by
  have hne : s.toList ≠ [] := by simpa using hne
  rw [fields, words_eq_singleton hne h, List.map_singleton, String.ofList_toList]

theorem mem_fields {s f : String} (h : f ∈ fields s) :
    f ≠ "" ∧ ∀ c ∈ f.toList, ifs c = false := by
  obtain ⟨w, hw, rfl⟩ := List.mem_map.1 h
  obtain ⟨hne, hw⟩ := mem_words hw
  refine ⟨by simpa using hne, fun c hc => (hw c ?_).2⟩
  rwa [String.toList_ofList] at hc

/-- **A sound argument passes through.** -/
theorem Sound.expandParam {s : String} (h : Sound patternMatches s) :
    m.expandParam patternMatches dir s = [s] := by
  obtain ⟨hne, hifs, hinert⟩ := h
  rw [Machine.expandParam, fields_eq_singleton hne hifs, List.flatMap_singleton, hinert.glob]

theorem flatMap_sound {args : List String} (h : ∀ s ∈ args, Sound patternMatches s) :
    args.flatMap (m.expandParam patternMatches dir) = args := by
  induction args with
  | nil => rfl
  | cons s args ih =>
    rw [List.flatMap_cons, (h s List.mem_cons_self).expandParam,
      ih fun s hs => h s (List.mem_cons_of_mem _ hs)]
    rfl

/-- `exec` takes arguments as they are, unless the first is `--`. -/
theorem operands_eq_self_iff {args : List String} :
    operands args = args ↔ args.head? ≠ some "--" := by
  cases args with
  | nil => simp [operands]
  | cons a args => by_cases ha : a = "--" <;> simp [operands, ha]

theorem operands_eq_or_length_lt (args : List String) :
    operands args = args ∨ (operands args).length < args.length := by
  cases args with
  | nil => exact .inl rfl
  | cons a args => by_cases ha : a = "--" <;> simp [operands, ha]

theorem mem_of_mem_operands {args : List String} {a : String} (h : a ∈ operands args) :
    a ∈ args := by
  cases args with
  | nil => exact h
  | cons b args =>
    simp only [operands] at h
    split at h
    · exact List.mem_cons_of_mem _ h
    · exact h

end

/-! ## Arguments that do not pass through -/

section

variable {patternMatches : String → String → Bool} {d p : String} {dir : Bool} {args : List String}

instance (w : String) : Decidable (Straight w) :=
  inferInstanceAs (Decidable (_ ∧ _))

/-- A machine with one other directory `d`, and at most one pathname. -/
def narrow (d : String) (path : Option String) : Machine Bool where
  cwd := false
  chdir _ w := if w = d then some true else none
  cd _ ops :=
    match ops with
    | [w] => if Straight w ∧ w = d then some true else none
    | _ => none
  paths _ := path.toList
  tilde := id
  rest _ := .fails
  cd_straight dir w hw := by simp [hw]
  nodup dir := by cases path <;> simp

/-- What a word stands for, if `p` is the only pathname. -/
def standIn (patternMatches : String → String → Bool) (p w : String) : String :=
  if pattern w = true ∧ patternMatches w p = true then p else w

theorem narrow_glob_none (w : String) : (narrow d none).glob patternMatches dir w = [w] := by
  simp [Machine.glob, narrow]

theorem narrow_glob_some (w : String) :
    (narrow d (some p)).glob patternMatches dir w = [standIn patternMatches p w] := by
  unfold Machine.glob standIn
  cases pattern w with
  | false => simp
  | true => cases hp : patternMatches w p <;> simp [narrow, hp]

/-- Without pathnames, arguments that come through are nonempty and have no blanks, and the first is
not `--`. -/
theorem split_of_narrow_none
    (h : operands (args.flatMap ((narrow d none).expandParam patternMatches dir)) = args) :
    (∀ a ∈ args, a ≠ "" ∧ ∀ c ∈ a.toList, ifs c = false) ∧ args.head? ≠ some "--" := by
  have hexpand : (narrow d none).expandParam patternMatches dir = fields := by
    funext s
    rw [Machine.expandParam, List.flatMap_congr fun w _ => narrow_glob_none w]
    simp
  rw [hexpand] at h
  have hargs : ∀ a ∈ args, a ≠ "" ∧ ∀ c ∈ a.toList, ifs c = false := by
    intro a ha
    rw [← h] at ha
    obtain ⟨s, -, hs⟩ := List.mem_flatMap.1 (mem_of_mem_operands ha)
    exact mem_fields hs
  have hsame : args.flatMap fields = args := by
    rw [List.flatMap_congr fun a ha => fields_eq_singleton (hargs a ha).1 (hargs a ha).2]
    simp
  rw [hsame] at h
  exact ⟨hargs, operands_eq_self_iff.1 h⟩

/-- With one pathname, arguments that come through do not match it, unless they are it. -/
theorem inert_of_narrow_some (hargs : ∀ a ∈ args, a ≠ "" ∧ ∀ c ∈ a.toList, ifs c = false)
    (h : operands (args.flatMap ((narrow d (some p)).expandParam patternMatches dir)) = args) :
    ∀ a ∈ args, standIn patternMatches p a = a := by
  have hmap : args.flatMap ((narrow d (some p)).expandParam patternMatches dir) =
      args.map (standIn patternMatches p) := by
    have hone : ∀ a ∈ args, (narrow d (some p)).expandParam patternMatches dir a =
        [standIn patternMatches p a] := by
      intro a ha
      rw [Machine.expandParam, fields_eq_singleton (hargs a ha).1 (hargs a ha).2,
        List.flatMap_singleton, narrow_glob_some]
    rw [List.flatMap_congr hone, List.map_eq_flatMap]
  rw [hmap] at h
  rcases operands_eq_or_length_lt (args.map (standIn patternMatches p)) with hsame | hlt
  · rw [hsame] at h
    exact List.map_inj_left.1 (h.trans (List.map_id args).symm)
  · rw [h, List.length_map] at hlt
    exact absurd hlt (Nat.lt_irrefl _)

end

end UAssign.Shell

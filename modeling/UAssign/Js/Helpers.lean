import UAssign.Go.Path

/-!
# Modules and files of an assignment

`pkg/js/helpers.go`: the loaders clean the name that a script gives, refuse it if it is absolute or
begins with `../`, and otherwise try it below each of their base directories. The name `..` passes
this check, and `.js` is appended to the joined path, which for the name `.` is the base directory's
own. `paths_contained_iff` says for which bases these two names do no harm.

A Go string is the list of its bytes. `filepath.FromSlash` does nothing where the separator is a
slash.
-/

namespace UAssign.Js

open Filepath

/-! ## The loaders -/

/-- The errors of the loaders; `errNotExist` is `os.ErrNotExist`. -/
inductive Error where
  | errPathEscapes
  | errNotExist
  deriving DecidableEq

/-- What a call of a loader does: the files that it tries to read, in order, and what it returns. -/
structure Lookup where
  reads : List (List UInt8)
  result : Except Error (List UInt8)

/-- Some reads that have failed, and what comes then. -/
def Lookup.after (reads : List (List UInt8)) (l : Lookup) : Lookup :=
  { l with reads := reads ++ l.reads }

/-- The check of a cleaned name. -/
def escapes (name : List UInt8) : Bool := isAbs name || [dot, dot, slash].isPrefixOf name

/-- `.js`. -/
def js : List UInt8 := [dot, 106, 115]

section

variable (readFile : List UInt8 → Option (List UInt8))

/-- The loop of `PathsModuleLoader`. -/
def loadModule (name : List UInt8) : List (List UInt8) → Lookup
  | [] => ⟨[], .error .errNotExist⟩
  | base :: paths =>
    let p := join [base, name]
    match readFile p with
    | some buf => ⟨[p], .ok buf⟩
    | none =>
      match readFile (p ++ js) with
      | some buf => ⟨[p, p ++ js], .ok buf⟩
      | none => (loadModule name paths).after [p, p ++ js]

/-- `PathsModuleLoader`. -/
def pathsModuleLoader (paths : List (List UInt8)) (name : List UInt8) : Lookup :=
  let name := clean name
  if escapes name then ⟨[], .error .errPathEscapes⟩ else loadModule readFile name paths

/-- The loop of `PathsFileReader`. -/
def loadFile (filename : List UInt8) : List (List UInt8) → Lookup
  | [] => ⟨[], .error .errNotExist⟩
  | base :: paths =>
    let p := join [base, filename]
    match readFile p with
    | some buf => ⟨[p], .ok buf⟩
    | none => (loadFile filename paths).after [p]

/-- `PathsFileReader`. -/
def pathsFileReader (paths : List (List UInt8)) (filename : List UInt8) : Lookup :=
  let filename := clean filename
  if escapes filename then ⟨[], .error .errPathEscapes⟩ else loadFile readFile filename paths

end

/-! ## What they should do -/

/-- One of the base directories, or below one. -/
def Inside (paths : List (List UInt8)) (p : List UInt8) : Prop := ∃ base ∈ paths, Below base p

/-- What `PathsModuleLoader` may come to read for a name, -/
def modulePaths (paths : List (List UInt8)) (name : List UInt8) : List (List UInt8) :=
  paths.flatMap fun base => [join [base, clean name], join [base, clean name] ++ js]

/-- and `PathsFileReader`. -/
def filePaths (paths : List (List UInt8)) (filename : List UInt8) : List (List UInt8) :=
  paths.map fun base => join [base, clean filename]

/-- On every file system, a loader only tries paths inside; a name that leads to others is refused
without a read. -/
def Contained (loader : (List UInt8 → Option (List UInt8)) → Lookup)
    (paths candidates : List (List UInt8)) : Prop :=
  ∀ readFile : List UInt8 → Option (List UInt8),
    (∀ p ∈ (loader readFile).reads, Inside paths p) ∧
    ((∃ p ∈ candidates, ¬ Inside paths p) → loader readFile = ⟨[], .error .errPathEscapes⟩)

/-- All of the bases are absolute, and the root is one of them, if there are any. -/
def UnderRoot (paths : List (List UInt8)) : Prop :=
  (∀ base ∈ paths, isAbs base = true) ∧ (paths = [] ∨ ∃ base ∈ paths, clean base = [slash])

/-- If a base is absolute, the root is one of the bases; if one is relative and begins with some
`..` in a row, `.` and all shorter rows of `..` are among the bases, and so is this one. -/
def Stepped (paths : List (List UInt8)) : Prop :=
  ∀ base ∈ paths,
    (isAbs base = true → ∃ b ∈ paths, clean b = [slash]) ∧
    (isAbs base = false → ∀ j ≤ (parts base).ups, ∃ b ∈ paths, clean b = render false ⟨j, []⟩)

/-! ## What they read -/

section

variable {readFile : List UInt8 → Option (List UInt8)} {name p b base : List UInt8}
  {paths : List (List UInt8)}

theorem loadModule_reads (hp : p ∈ (loadModule readFile name paths).reads) :
    ∃ base ∈ paths, p = join [base, name] ∨ p = join [base, name] ++ js := by
  induction paths with
  | nil => cases hp
  | cons base paths ih =>
    unfold loadModule at hp
    simp only at hp
    split at hp
    · exact ⟨base, List.mem_cons_self .., .inl (List.mem_singleton.1 hp)⟩
    · split at hp
      · exact ⟨base, List.mem_cons_self .., by simpa using hp⟩
      · rcases List.mem_append.1 hp with hp | hp
        · exact ⟨base, List.mem_cons_self .., by simpa using hp⟩
        · obtain ⟨b, hb, hp⟩ := ih hp
          exact ⟨b, List.mem_cons_of_mem _ hb, hp⟩

theorem loadFile_reads (hp : p ∈ (loadFile readFile name paths).reads) :
    ∃ base ∈ paths, p = join [base, name] := by
  induction paths with
  | nil => cases hp
  | cons base paths ih =>
    unfold loadFile at hp
    simp only at hp
    split at hp
    · exact ⟨base, List.mem_cons_self .., List.mem_singleton.1 hp⟩
    · rcases List.mem_append.1 hp with hp | hp
      · exact ⟨base, List.mem_cons_self .., List.mem_singleton.1 hp⟩
      · obtain ⟨b, hb, hp⟩ := ih hp
        exact ⟨b, List.mem_cons_of_mem _ hb, hp⟩

/-- Where there are no files, all paths are tried. -/
theorem loadModule_reads_all :
    (loadModule (fun _ => none) name paths).reads =
      paths.flatMap fun base => [join [base, name], join [base, name] ++ js] := by
  induction paths with
  | nil => rfl
  | cons base paths ih =>
    rw [List.flatMap_cons, ← ih]
    rfl

theorem loadFile_reads_all :
    (loadFile (fun _ => none) name paths).reads = paths.map fun base => join [base, name] := by
  induction paths with
  | nil => rfl
  | cons base paths ih =>
    rw [List.map_cons, ← ih]
    rfl

/-- A loader that refuses some names, and tries all candidates of the others. -/
theorem contained_iff (loader : (List UInt8 → Option (List UInt8)) → Lookup)
    {candidates : List (List UInt8)} (refused : Bool)
    (hrefused : refused = true → ∀ readFile, loader readFile = ⟨[], .error .errPathEscapes⟩)
    (hreads : ∀ readFile, ∀ p ∈ (loader readFile).reads, p ∈ candidates)
    (hall : refused = false → ∃ readFile, (loader readFile).reads = candidates) :
    Contained loader paths candidates ↔
      (refused = false → ∀ p ∈ candidates, Inside paths p) := by
  constructor
  · intro h hr p hp
    obtain ⟨readFile, hreads⟩ := hall hr
    exact (h readFile).1 p (hreads ▸ hp)
  · intro h readFile
    cases hr : refused with
    | true =>
      rw [hrefused hr readFile]
      exact ⟨fun p hp => (by cases hp), fun _ => rfl⟩
    | false =>
      refine ⟨fun p hp => h hr p (hreads readFile p hp), fun ⟨p, hp, hout⟩ => ?_⟩
      exact absurd (h hr p hp) hout

end

/-! ## Where the paths lie -/

section

variable {name p b base : List UInt8} {paths : List (List UInt8)}

theorem js_isExt : IsExt js := by
  intro e he
  have hs : slash ∉ js := by decide
  refine ⟨by simp [js], fun h => ?_, fun h => ?_, by simp [he, hs]⟩
  · have := congrArg List.length h
    simp [js] at this
  · have := congrArg List.length h
    simp [js, dotdot] at this

/-- What cleans to the root. -/
theorem parts_of_root (h : clean b = [slash]) : isAbs b = true ∧ parts b = ⟨0, []⟩ := by
  rw [← isAbs_clean, ← parts_clean, h]
  decide

/-- Everything absolute is below the root. -/
theorem below_root (h : clean b = [slash]) (hp : isAbs p = true) : Below b p := by
  obtain ⟨habs, hb⟩ := parts_of_root h
  refine ⟨by rw [hp, habs], ?_, ?_⟩
  · rw [hb, parts_ordered.ups hp]
  · rw [hb]
    exact List.nil_prefix

/-- What cleans to some `..`. -/
theorem parts_of_ups {j : Nat} (h : clean b = render false ⟨j, []⟩) :
    isAbs b = false ∧ parts b = ⟨j, []⟩ := by
  have hord : (⟨j, []⟩ : Parts UInt8).Ordered false :=
    ⟨fun e he => (by cases he), fun h => by cases h⟩
  rw [← isAbs_clean, ← parts_clean, h]
  exact ⟨hord.isAbs_render, hord.parts_render⟩

/-- A cleaned name that passes the check: it has no `..` in it, or is `..`. -/
theorem parts_of_not_escapes (h : escapes (clean name) = false) :
    isAbs name = false ∧ ((parts name).ups = 0 ∨ parts name = ⟨1, []⟩) := by
  obtain ⟨habs, hprefix⟩ := Bool.or_eq_false_iff.1 h
  rw [isAbs_clean] at habs
  refine ⟨habs, ?_⟩
  unfold clean at hprefix
  rw [habs] at hprefix
  generalize parts name = l at hprefix ⊢
  obtain ⟨ups, names⟩ := l
  cases ups with
  | zero => exact .inl rfl
  | succ k =>
    refine .inr ?_
    cases hrest : List.replicate k dotdot ++ names with
    | nil =>
      obtain ⟨hk, rfl⟩ := List.append_eq_nil_iff.1 hrest
      obtain rfl : k = 0 := by simpa using hk
      rfl
    | cons e es =>
      have hes : (⟨k + 1, names⟩ : Parts UInt8).elements = dotdot :: e :: es := by
        rw [← hrest]
        rfl
      simp [render, hes, dotdot, List.intercalate_cons_cons, List.isPrefixOf] at hprefix

/-- `.` is the only cleaned name with nothing in it. -/
theorem clean_eq_dot_iff (habs : isAbs name = false) :
    clean name = [dot] ↔ parts name = ⟨0, []⟩ := by
  constructor
  · intro h
    rw [← parts_clean, h]
    decide
  · intro h
    rw [clean, habs, h]
    rfl

/-- The joined path for a name that passes the check. -/
theorem join_parts (habs : isAbs name = false) (base : List UInt8) :
    ∃ q, join [base, clean name] = clean q ∧ isAbs q = isAbs base ∧
      parts q = (parts name).elements.foldl (Parts.push (isAbs base)) (parts base) := by
  obtain ⟨q, hq, hqabs, hparts⟩ := join_pair base clean_ne_nil (by rwa [isAbs_clean])
  rw [elements_clean] at hparts
  exact ⟨q, hq, hqabs, hparts⟩

/-- A name without `..` leads below the base; -/
theorem join_below (habs : isAbs name = false) (hups : (parts name).ups = 0) (base : List UInt8) :
    Below base (join [base, clean name]) := by
  obtain ⟨q, hq, hqabs, hparts⟩ := join_parts habs base
  have hes : (parts name).elements = (parts name).names := by simp [Parts.elements, hups]
  rw [hes, Parts.foldl_push_names parts_ordered.name] at hparts
  rw [hq]
  refine ⟨by rw [isAbs_clean, hqabs], ?_, ?_⟩
  · rw [parts_clean, hparts]
  · rw [parts_clean, hparts]
    exact List.prefix_append ..

/-- with `.js` as well, unless it is `.`. -/
theorem join_js_below (habs : isAbs name = false) (hups : (parts name).ups = 0)
    (hname : (parts name).names ≠ []) (base : List UInt8) :
    Below base (join [base, clean name] ++ js) := by
  obtain ⟨q, hq, hqabs, hparts⟩ := join_parts habs base
  have hes : (parts name).elements = (parts name).names := by simp [Parts.elements, hups]
  rw [hes, Parts.foldl_push_names parts_ordered.name] at hparts
  obtain ⟨ns, e, hlast⟩ : ∃ ns e, (parts name).names = ns ++ [e] :=
    ⟨_, _, (List.dropLast_concat_getLast hname).symm⟩
  have hord : (parts q).Ordered (isAbs q) := parts_ordered
  rw [hparts, hlast, ← List.append_assoc] at hord
  obtain ⟨habs', hparts'⟩ := parts_append_of_names js_isExt hord
  rw [hq, clean, hparts, hlast, ← List.append_assoc]
  refine ⟨by rw [habs', hqabs], by rw [hparts'], ?_⟩
  rw [hparts', List.append_assoc]
  exact List.prefix_append ..

/-- For `.` it is the base itself that is tried. -/
theorem join_dot (habs : isAbs name = false) (hname : parts name = ⟨0, []⟩) (base : List UInt8) :
    join [base, clean name] = clean base := by
  obtain ⟨q, hq, hqabs, hparts⟩ := join_parts habs base
  have hq' : parts q = parts base := by
    rw [hparts, hname]
    rfl
  rw [hq, clean, hqabs, hq', clean]

/-! ## The name `..` -/

/-- The parent of a directory: of an absolute one but the root, and of a relative one. -/
theorem join_dotdot (habs : isAbs name = false) (hname : parts name = ⟨1, []⟩)
    (base : List UInt8) :
    isAbs (join [base, clean name]) = isAbs base ∧
      parts (join [base, clean name]) = (parts base).push (isAbs base) dotdot := by
  obtain ⟨q, hq, hqabs, hparts⟩ := join_parts habs base
  rw [hq, isAbs_clean, parts_clean, hparts, hname]
  exact ⟨hqabs, rfl⟩

/-- The parent's parts. -/
theorem push_dotdot {l : Parts UInt8} {rooted : Bool} :
    l.push rooted dotdot =
      if l.names = [] then if rooted then l else ⟨l.ups + 1, []⟩
      else ⟨l.ups, l.names.dropLast⟩ := by
  obtain ⟨ups, names⟩ := l
  cases names <;> simp [Parts.push]

/-- The parents of the bases are inside. -/
def ParentsInside (paths : List (List UInt8)) : Prop :=
  ∀ base ∈ paths, ∃ b ∈ paths, isAbs base = isAbs b ∧
    ((parts base).push (isAbs base) dotdot).ups = (parts b).ups ∧
    (parts b).names <+: ((parts base).push (isAbs base) dotdot).names

/-- Then none of the bases is relative: one that begins with the most `..`, and has the fewest names
behind them, would have its parent outside. -/
theorem ParentsInside.isAbs (h : ParentsInside paths) {base : List UInt8} (hbase : base ∈ paths) :
    isAbs base = true := by
  cases habs : Filepath.isAbs base with
  | true => rfl
  | false =>
    obtain ⟨b, hb, hbabs, hups, hnames⟩ := h base hbase
    have hmax : ∀ p ∈ paths, (parts p).ups ≤ (paths.map fun p => (parts p).ups).sum :=
      fun p hp => List.single_le_sum (by simp) _ (List.mem_map_of_mem hp)
    rw [push_dotdot, habs] at hups hnames
    have hlt : (paths.map fun p => (parts p).ups).sum - (parts b).ups <
          (paths.map fun p => (parts p).ups).sum - (parts base).ups ∨
        (parts b).ups = (parts base).ups ∧
          (parts b).names.length < (parts base).names.length := by
      by_cases hnil : (parts base).names = []
      · have hu : (parts b).ups = (parts base).ups + 1 := by simpa [hnil] using hups.symm
        have := hmax b hb
        omega
      · rw [if_neg hnil] at hups hnames
        have hlen := hnames.length_le
        have hpos : 0 < (parts base).names.length := List.length_pos_of_ne_nil hnil
        simp only [List.length_dropLast] at hlen
        have hu : (parts b).ups = (parts base).ups := hups.symm
        omega
    have := h.isAbs hb
    rw [← hbabs, habs] at this
    cases this
termination_by ((paths.map fun p => (parts p).ups).sum - (parts base).ups,
  (parts base).names.length)
decreasing_by
  rcases hlt with hlt | ⟨heq, hlt⟩
  · exact Prod.Lex.left _ _ hlt
  · rw [heq]
    exact Prod.Lex.right _ hlt

/-- What cleans to the root, by its parts. -/
theorem clean_of_root (habs : isAbs base = true) (hnames : (parts base).names = []) :
    clean base = [slash] := by
  have hups : (parts base).ups = 0 := parts_ordered.ups habs
  simp [clean, habs, render, Parts.elements, hups, hnames]

/-- And the root is one of them: one with the fewest names would have its parent outside. -/
theorem ParentsInside.root (h : ParentsInside paths) {base : List UInt8} (hbase : base ∈ paths) :
    ∃ b ∈ paths, clean b = [slash] := by
  have habs := h.isAbs hbase
  by_cases hnil : (parts base).names = []
  · exact ⟨base, hbase, clean_of_root habs hnil⟩
  · obtain ⟨b, hb, -, -, hnames⟩ := h base hbase
    rw [push_dotdot, if_neg hnil] at hnames
    have hlen := hnames.length_le
    have hpos : 0 < (parts base).names.length := List.length_pos_of_ne_nil hnil
    simp only [List.length_dropLast] at hlen
    have : (parts b).names.length < (parts base).names.length := by omega
    exact h.root hb
termination_by (parts base).names.length

/-- **When `..` stays inside.** -/
theorem parents_inside_iff (habs : isAbs name = false) (hname : parts name = ⟨1, []⟩) :
    (∀ base ∈ paths, Inside paths (join [base, clean name])) ↔ UnderRoot paths := by
  constructor
  · intro h
    have hparents : ParentsInside paths := by
      intro base hbase
      obtain ⟨b, hb, hbelow⟩ := h base hbase
      obtain ⟨hjabs, hjparts⟩ := join_dotdot habs hname base
      unfold Below at hbelow
      rw [hjabs, hjparts] at hbelow
      exact ⟨b, hb, hbelow⟩
    refine ⟨fun base hbase => hparents.isAbs hbase, ?_⟩
    cases paths with
    | nil => exact .inl rfl
    | cons base paths => exact .inr (hparents.root (List.mem_cons_self ..))
  · rintro ⟨hall, hroot⟩ base hbase
    rcases hroot with rfl | ⟨b, hb, hclean⟩
    · cases hbase
    · refine ⟨b, hb, below_root hclean ?_⟩
      rw [(join_dotdot habs hname base).1, hall base hbase]

/-! ## The name `.` -/

/-- A base with `.js` behind it. -/
theorem sibling_parts (base : List UInt8) :
    isAbs (clean base ++ js) = isAbs base ∧
      (∀ ns e, (parts base).names = ns ++ [e] →
        parts (clean base ++ js) = ⟨(parts base).ups, ns ++ [e ++ js]⟩) ∧
      (∀ k, (parts base).names = [] → (parts base).ups = k + 1 →
        (parts (clean base ++ js)).ups = k ∧ (parts (clean base ++ js)).names.length = 1) ∧
      ((parts base).names = [] → (parts base).ups = 0 → (parts (clean base ++ js)).ups = 0) := by
  have hord : (parts base).Ordered (isAbs base) := parts_ordered
  unfold clean
  generalize parts base = l at hord ⊢
  generalize isAbs base = rooted at hord ⊢
  obtain ⟨ups, names⟩ := l
  rcases List.eq_nil_or_concat names with rfl | ⟨ns, e, rfl⟩
  · cases ups with
    | zero =>
      obtain ⟨habs, hparts⟩ := parts_append_of_nil rooted js_isExt
      refine ⟨habs, fun ns e h => ?_, fun k _ h => ?_, fun _ _ => ?_⟩
      · simp at h
      · simp at h
      · rw [hparts]
    | succ k =>
      obtain rfl : rooted = false := by
        cases rooted with
        | true => exact absurd (hord.ups rfl) (by simp)
        | false => rfl
      obtain ⟨habs, hparts⟩ := parts_append_of_ups (k := k) js_isExt
      refine ⟨habs, fun ns e h => ?_, fun k' _ h => ?_, fun _ h => ?_⟩
      · simp at h
      · obtain rfl : k = k' := by simpa using h
        rw [hparts]
        exact ⟨rfl, rfl⟩
      · simp at h
  · rw [List.concat_eq_append] at hord ⊢
    obtain ⟨habs, hparts⟩ := parts_append_of_names js_isExt hord
    refine ⟨habs, fun ns' e' h => ?_, fun k h => ?_, fun h => ?_⟩
    · obtain ⟨rfl, he⟩ := List.append_inj' h rfl
      obtain rfl : e = e' := by simpa using he
      exact hparts
    · simp at h
    · simp at h

/-- The parts of a path that is above what they are `.js`'s. -/
theorem names_of_prefix {ns : List (List UInt8)} {e : List UInt8} {l : Parts UInt8}
    (h : l.names <+: ns ++ [e ++ js]) :
    l.names.length ≤ ns.length ∨
      l.names.length = ns.length + 1 ∧ (l.names.getLastD []).length = e.length + 3 := by
  have hlen := h.length_le
  rw [List.length_append, List.length_singleton] at hlen
  rcases Nat.lt_or_ge l.names.length (ns.length + 1) with hlt | hge
  · exact .inl (Nat.le_of_lt_succ hlt)
  · have heq : l.names = ns ++ [e ++ js] := h.eq_of_length (by simp; omega)
    refine .inr ⟨by simp [heq], ?_⟩
    rw [heq]
    simp [js]

/-- If the bases with `.js` behind them are inside, the bases are stepped: of those with as many
names as this one, one with the longest last name would have its sibling outside. -/
theorem stepped_of_siblings (h : ∀ base ∈ paths, Inside paths (clean base ++ js))
    {base : List UInt8} (hbase : base ∈ paths) :
    (isAbs base = true → ∃ b ∈ paths, clean b = [slash]) ∧
    (isAbs base = false → ∀ j ≤ (parts base).ups, ∃ b ∈ paths, clean b = render false ⟨j, []⟩) := by
  obtain ⟨b, hb, hbabs, hbups, hbnames⟩ := h base hbase
  obtain ⟨habs, hsnames, hsups, hsnil⟩ := sibling_parts base
  rw [habs] at hbabs
  have hmax : ∀ p ∈ paths, ((parts p).names.getLastD []).length ≤
      (paths.map fun p => ((parts p).names.getLastD []).length).sum :=
    fun p hp => List.single_le_sum (by simp) _ (List.mem_map_of_mem hp)
  rcases List.eq_nil_or_concat (parts base).names with hnil | ⟨ns, e, hns⟩
  · -- nothing but `..`: the base is one of the steps itself
    have hself : isAbs base = false → clean base = render false ⟨(parts base).ups, []⟩ := by
      intro hrel
      rw [clean, hrel, ← hnil]
    cases hups : (parts base).ups with
    | zero =>
      refine ⟨fun hroot => ⟨base, hbase, clean_of_root hroot hnil⟩, fun hrel j hj => ?_⟩
      obtain rfl : j = 0 := Nat.le_zero.1 hj
      exact ⟨base, hbase, by rw [hself hrel, hups]⟩
    | succ k =>
      have hk : (parts b).ups = k := by rw [← hbups, (hsups k hnil hups).1]
      have hlt : (parts b).ups < (parts base).ups := by omega
      refine ⟨fun hroot => ?_, fun hrel j hj => ?_⟩
      · have := parts_ordered.ups hroot
        omega
      · rcases Nat.lt_or_ge k j with hkj | hkj
        · obtain rfl : j = k + 1 := by omega
          exact ⟨base, hbase, by rw [hself hrel, hups]⟩
        · exact (stepped_of_siblings h hb).2 (by rw [← hbabs, hrel]) j (by omega)
  · rw [List.concat_eq_append] at hns
    have hsparts := hsnames ns e hns
    rw [hsparts] at hbups hbnames
    have hlt : (parts b).names.length < (parts base).names.length ∨
        (parts b).names.length = (parts base).names.length ∧
        (paths.map fun p => ((parts p).names.getLastD []).length).sum -
            ((parts b).names.getLastD []).length <
          (paths.map fun p => ((parts p).names.getLastD []).length).sum -
            ((parts base).names.getLastD []).length := by
      have hlast : ((parts base).names.getLastD []).length = e.length := by rw [hns]; simp
      have hlen : (parts base).names.length = ns.length + 1 := by rw [hns]; simp
      have := hmax b hb
      rcases names_of_prefix hbnames with hle | ⟨heq, hlonger⟩
      · omega
      · omega
    have hu : (parts b).ups = (parts base).ups := hbups.symm
    have hih := stepped_of_siblings h hb
    rw [← hbabs, hu] at hih
    exact hih
termination_by ((parts base).ups, (parts base).names.length,
  (paths.map fun p => ((parts p).names.getLastD []).length).sum -
    ((parts base).names.getLastD []).length)
decreasing_by
  · exact Prod.Lex.left _ _ hlt
  · rw [hu]
    rcases hlt with hlt | ⟨heq, hlt⟩
    · exact Prod.Lex.right _ (Prod.Lex.left _ _ hlt)
    · rw [heq]
      exact Prod.Lex.right _ (Prod.Lex.right _ hlt)

/-- **When the bases with `.js` behind them are inside.** -/
theorem siblings_inside_iff :
    (∀ base ∈ paths, Inside paths (clean base ++ js)) ↔ Stepped paths := by
  constructor
  · exact fun h base hbase => stepped_of_siblings h hbase
  · intro h base hbase
    obtain ⟨habs, hsnames, hsups, hsnil⟩ := sibling_parts base
    cases hroot : isAbs base with
    | true =>
      obtain ⟨b, hb, hclean⟩ := (h base hbase).1 hroot
      exact ⟨b, hb, below_root hclean (by rw [habs, hroot])⟩
    | false =>
      have hle : (parts (clean base ++ js)).ups ≤ (parts base).ups := by
        rcases List.eq_nil_or_concat (parts base).names with hnil | ⟨ns, e, hns⟩
        · cases hups : (parts base).ups with
          | zero => rw [hsnil hnil hups]
          | succ k =>
            rw [(hsups k hnil hups).1]
            exact Nat.le_succ k
        · rw [hsnames ns e (by rw [hns, List.concat_eq_append])]
      obtain ⟨b, hb, hclean⟩ := (h base hbase).2 hroot _ hle
      obtain ⟨hbabs, hbparts⟩ := parts_of_ups hclean
      refine ⟨b, hb, by rw [habs, hroot, hbabs], by rw [hbparts], ?_⟩
      rw [hbparts]
      exact List.nil_prefix

/-! ## The result -/

theorem clean_eq_dotdot_iff (habs : isAbs name = false) :
    clean name = dotdot ↔ parts name = ⟨1, []⟩ := by
  constructor
  · intro h
    rw [← parts_clean, h]
    decide
  · intro h
    rw [clean, habs, h]
    rfl

/-- The names that are refused are neither `..` nor `.`. -/
theorem ne_of_escapes (h : escapes (clean name) = true) :
    clean name ≠ dotdot ∧ clean name ≠ [dot] := by
  constructor
  · intro heq
    rw [heq] at h
    revert h
    decide
  · intro heq
    rw [heq] at h
    revert h
    decide

/-- The candidates of a name that is not refused are inside, but for those of `..` and `.`. -/
theorem modulePaths_inside_iff (h : escapes (clean name) = false) :
    (∀ p ∈ modulePaths paths name, Inside paths p) ↔
      (clean name = dotdot → UnderRoot paths) ∧ (clean name = [dot] → Stepped paths) := by
  obtain ⟨habs, hname⟩ := parts_of_not_escapes h
  have hmem : (∀ p ∈ modulePaths paths name, Inside paths p) ↔ ∀ base ∈ paths,
      Inside paths (join [base, clean name]) ∧ Inside paths (join [base, clean name] ++ js) := by
    simp only [modulePaths, List.mem_flatMap, List.mem_cons, List.not_mem_nil, or_false]
    refine ⟨fun h base hbase => ⟨h _ ⟨base, hbase, .inl rfl⟩, h _ ⟨base, hbase, .inr rfl⟩⟩, ?_⟩
    rintro h p ⟨base, hbase, rfl | rfl⟩
    · exact (h base hbase).1
    · exact (h base hbase).2
  rw [hmem, clean_eq_dotdot_iff habs, clean_eq_dot_iff habs]
  by_cases hdd : parts name = ⟨1, []⟩
  · have hdot : parts name ≠ ⟨0, []⟩ := by simp [hdd]
    constructor
    · intro hin
      have := (parents_inside_iff habs hdd).1 fun base hbase => (hin base hbase).1
      exact ⟨fun _ => this, fun h => absurd h hdot⟩
    · rintro ⟨hroot, -⟩ base hbase
      refine ⟨(parents_inside_iff habs hdd).2 (hroot hdd) base hbase, ?_⟩
      obtain ⟨hall, rfl | ⟨b, hb, hclean⟩⟩ := hroot hdd
      · cases hbase
      · refine ⟨b, hb, below_root hclean ?_⟩
        obtain ⟨q, hq, hqabs, -⟩ := join_parts habs base
        rw [hq, (sibling_parts q).1, hqabs, hall base hbase]
  · have hups : (parts name).ups = 0 := hname.resolve_right hdd
    by_cases hdot : parts name = ⟨0, []⟩
    · have hbelow : ∀ base ∈ paths, Inside paths (join [base, clean name]) :=
        fun base hbase => ⟨base, hbase, join_below habs hups base⟩
      constructor
      · intro hin
        refine ⟨fun h => absurd h hdd, fun _ => siblings_inside_iff.1 fun base hbase => ?_⟩
        rw [← join_dot habs hdot base]
        exact (hin base hbase).2
      · rintro ⟨-, hstepped⟩ base hbase
        refine ⟨hbelow base hbase, ?_⟩
        rw [join_dot habs hdot base]
        exact siblings_inside_iff.2 (hstepped hdot) base hbase
    · have hnames : (parts name).names ≠ [] := by
        intro hnil
        apply hdot
        rw [← hups, ← hnil]
      refine ⟨fun _ => ⟨fun h => absurd h hdd, fun h => absurd h hdot⟩, fun _ base hbase => ?_⟩
      exact ⟨⟨base, hbase, join_below habs hups base⟩,
        ⟨base, hbase, join_js_below habs hups hnames base⟩⟩

@[inherit_doc modulePaths_inside_iff]
theorem filePaths_inside_iff (h : escapes (clean name) = false) :
    (∀ p ∈ filePaths paths name, Inside paths p) ↔ (clean name = dotdot → UnderRoot paths) := by
  obtain ⟨habs, hname⟩ := parts_of_not_escapes h
  have hmem : (∀ p ∈ filePaths paths name, Inside paths p) ↔
      ∀ base ∈ paths, Inside paths (join [base, clean name]) := by
    simp [filePaths]
  rw [hmem, clean_eq_dotdot_iff habs]
  by_cases hdd : parts name = ⟨1, []⟩
  · rw [parents_inside_iff habs hdd]
    exact ⟨fun h _ => h, fun h => h hdd⟩
  · have hups : (parts name).ups = 0 := hname.resolve_right hdd
    exact ⟨fun _ h => absurd h hdd, fun _ base hbase => ⟨base, hbase, join_below habs hups base⟩⟩

/-- **When the loaders stay inside**: a module loader does, but for the names `..` and `.`, and a
file reader but for `..`; with these, if the bases are such that nothing is outside. -/
theorem paths_contained_iff (paths : List (List UInt8)) (name : List UInt8) :
    (Contained (fun readFile => pathsModuleLoader readFile paths name) paths
        (modulePaths paths name) ↔
      (clean name = dotdot → UnderRoot paths) ∧ (clean name = [dot] → Stepped paths)) ∧
    (Contained (fun readFile => pathsFileReader readFile paths name) paths
        (filePaths paths name) ↔
      (clean name = dotdot → UnderRoot paths)) := by
  constructor
  · refine (contained_iff (fun readFile => pathsModuleLoader readFile paths name)
      (escapes (clean name)) (fun h readFile => if_pos h) (fun readFile p hp => ?_)
      fun h => ⟨fun _ => none, ?_⟩).trans ?_
    · unfold pathsModuleLoader at hp
      dsimp only at hp
      split at hp
      · cases hp
      · obtain ⟨base, hbase, hp⟩ := loadModule_reads hp
        exact List.mem_flatMap.2 ⟨base, hbase, by simpa using hp⟩
    · simp only [pathsModuleLoader, h]
      exact loadModule_reads_all
    · cases h : escapes (clean name) with
      | false => simpa using modulePaths_inside_iff h
      | true =>
        obtain ⟨hdd, hdot⟩ := ne_of_escapes h
        simp [hdd, hdot]
  · refine (contained_iff (fun readFile => pathsFileReader readFile paths name)
      (escapes (clean name)) (fun h readFile => if_pos h) (fun readFile p hp => ?_)
      fun h => ⟨fun _ => none, ?_⟩).trans ?_
    · unfold pathsFileReader at hp
      dsimp only at hp
      split at hp
      · cases hp
      · obtain ⟨base, hbase, rfl⟩ := loadFile_reads hp
        exact List.mem_map_of_mem hbase
    · simp only [pathsFileReader, h]
      exact loadFile_reads_all
    · cases h : escapes (clean name) with
      | false => simpa using filePaths_inside_iff h
      | true => simp [(ne_of_escapes h).1]

/-- With the base `/a/b`, the file reader tries `/a` for `..`, and the module loader `/a/b.js` for
`.`. -/
theorem paths_escape :
    ¬ Contained (fun readFile => pathsFileReader readFile [[slash, 97, slash, 98]] dotdot)
        [[slash, 97, slash, 98]] (filePaths [[slash, 97, slash, 98]] dotdot) ∧
      ¬ Contained (fun readFile => pathsModuleLoader readFile [[slash, 97, slash, 98]] [dot])
        [[slash, 97, slash, 98]] (modulePaths [[slash, 97, slash, 98]] [dot]) := by
  constructor
  · intro h
    obtain ⟨base, hbase, hbelow⟩ := (h fun _ => none).1 [slash, 97] (by decide)
    obtain rfl := List.mem_singleton.1 hbase
    revert hbelow
    decide
  · intro h
    obtain ⟨base, hbase, hbelow⟩ := (h fun _ => none).1 ([slash, 97, slash, 98] ++ js) (by decide)
    obtain rfl := List.mem_singleton.1 hbase
    revert hbelow
    decide

end

end UAssign.Js

import Mathlib

/-!
# Slash-separated paths

Go's package `path`, and `path/filepath` where the separator is a slash. A path is cleaned element
by element: what is left are some `..`, unless the path is absolute, and then names (`parts`).
Cleaning keeps these (`parts_clean`), and what a path is below (`Below`) is said in terms of them.
-/

namespace UAssign.Filepath

/-- What a path is a list of: bytes, or characters. -/
class PathChar (α : Type) where
  slash : α
  dot : α
  slash_ne_dot : slash ≠ dot

instance : PathChar UInt8 := ⟨47, 46, by decide⟩

instance : PathChar Char := ⟨'/', '.', by decide⟩

export PathChar (slash dot slash_ne_dot)

section

variable {α : Type} [DecidableEq α] [PathChar α]

/-! ## Cleaning and joining -/

/-- The element `..`. -/
def dotdot : List α := [dot, dot]

/-- `IsAbs`. -/
def isAbs (p : List α) : Bool := p.head? = some slash

/-- The elements of a path that are neither empty nor `.`. -/
def elements (p : List α) : List (List α) :=
  (p.splitOn slash).filter fun e => e ≠ [] ∧ e ≠ [dot]

/-- A path in order: how many elements `..` it begins with, and the names behind them. -/
structure Parts (α : Type) where
  ups : Nat
  names : List (List α)
  deriving DecidableEq

/-- The next element: `..` takes the name before it away. If there is none, it stays, but for the
beginning of an absolute path. -/
def Parts.push (rooted : Bool) (l : Parts α) (e : List α) : Parts α :=
  if e = dotdot then
    if l.names = [] then if rooted then l else { l with ups := l.ups + 1 }
    else { l with names := l.names.dropLast }
  else { l with names := l.names ++ [e] }

/-- The path in order. -/
def parts (p : List α) : Parts α := (elements p).foldl (Parts.push (isAbs p)) ⟨0, []⟩

/-- The elements of a path in order. -/
def Parts.elements (l : Parts α) : List (List α) := List.replicate l.ups dotdot ++ l.names

/-- The path written out. -/
def render (rooted : Bool) (l : Parts α) : List α :=
  if rooted then slash :: [slash].intercalate l.elements
  else if l.elements = [] then [dot]
  else [slash].intercalate l.elements

/-- `Clean`. -/
def clean (p : List α) : List α := render (isAbs p) (parts p)

/-- `filepath.Join`: empty elements at the beginning are ignored. -/
def join : List (List α) → List α
  | [] => []
  | e :: es => if e = [] then join es else clean ([slash].intercalate (e :: es))

/-- `p` is `b` or below it: as far as the cleaned `b` goes, the cleaned `p` is the same, and only
names come behind that. -/
def Below (b p : List α) : Prop :=
  isAbs p = isAbs b ∧ (parts p).ups = (parts b).ups ∧ (parts b).names <+: (parts p).names

instance (b p : List α) : Decidable (Below b p) := inferInstanceAs (Decidable (_ ∧ _ ∧ _))

/-! ## Elements -/

/-- What cleaning leaves but for the `..` at the beginning. -/
structure IsName (e : List α) : Prop where
  ne_nil : e ≠ []
  ne_dot : e ≠ [dot]
  ne_dotdot : e ≠ dotdot
  slash : slash ∉ e

instance (e : List α) : Decidable (IsName e) :=
  decidable_of_iff (e ≠ [] ∧ e ≠ [dot] ∧ e ≠ dotdot ∧ slash ∉ e)
    ⟨fun ⟨h₁, h₂, h₃, h₄⟩ => ⟨h₁, h₂, h₃, h₄⟩, fun h => ⟨h.1, h.2, h.3, h.4⟩⟩

variable {a b p e ext : List α} {es : List (List α)} {l : Parts α} {rooted : Bool}

omit [DecidableEq α] in
theorem dotdot_no_slash : slash ∉ (dotdot : List α) := by
  have h : slash ≠ (dot : α) := slash_ne_dot
  simp [dotdot, h]

/-- The elements of two paths with a slash in between. -/
theorem elements_append_slash : elements (a ++ slash :: b) = elements a ++ elements b := by
  unfold elements
  rw [List.splitOn_append_cons_self, List.filter_append]

/-- The elements of what begins with a slash. -/
theorem elements_slash : elements (slash :: p) = elements p := by
  have h : elements ([] : List α) = [] := by simp [elements]
  rw [← List.nil_append (slash :: p), elements_append_slash, h, List.nil_append]

omit [PathChar α] in
/-- What is split at `x` holds no `x`, and nothing new. -/
theorem splitOn_mem (x : α) (p : List α) : ∀ e ∈ p.splitOn x, x ∉ e ∧ e ⊆ p := by
  induction p with
  | nil => simp
  | cons c p ih =>
    rw [List.splitOn_cons_eq_if_modifyHead]
    split
    · simp only [List.mem_cons, forall_eq_or_imp]
      refine ⟨by simp, fun e he => ⟨(ih e he).1, ?_⟩⟩
      exact List.Subset.trans (ih e he).2 (List.subset_cons_self _ _)
    · next hc =>
      obtain ⟨e, es, hsplit⟩ := List.exists_cons_of_ne_nil (List.splitOn_ne_nil x p)
      rw [hsplit] at ih ⊢
      have hc' : x ≠ c := fun h => hc (by simp [h])
      simp only [List.modifyHead, List.mem_cons, forall_eq_or_imp] at ih ⊢
      refine ⟨⟨by simpa [hc'] using ih.1.1, List.cons_subset_cons _ ih.1.2⟩, fun d hd => ?_⟩
      exact ⟨(ih.2 d hd).1, List.Subset.trans (ih.2 d hd).2 (List.subset_cons_self _ _)⟩

theorem mem_elements (h : e ∈ elements p) : e ≠ [] ∧ e ≠ [dot] ∧ slash ∉ e := by
  obtain ⟨hmem, he⟩ := List.mem_filter.1 h
  simp only [ne_eq, decide_eq_true_eq] at he
  exact ⟨he.1, he.2, (splitOn_mem slash p e hmem).1⟩

/-- The elements of what is written out. -/
theorem elements_intercalate (h : ∀ e ∈ es, e ≠ [] ∧ e ≠ [dot] ∧ slash ∉ e) :
    elements ([slash].intercalate es) = es := by
  cases es with
  | nil => simp [elements]
  | cons e es =>
    unfold elements
    rw [List.splitOn_intercalate slash (fun e he => (h e he).2.2) (List.cons_ne_nil _ _)]
    exact List.filter_eq_self.2 fun e he => by simp [(h e he).1, (h e he).2.1]

omit [DecidableEq α] in
/-- The last element with something behind it. -/
theorem intercalate_concat_append :
    [slash].intercalate (es ++ [e]) ++ ext = [slash].intercalate (es ++ [e ++ ext]) := by
  induction es with
  | nil => simp
  | cons d es ih =>
    have hne : ∀ x : List α, es ++ [x] ≠ [] := by simp
    rw [List.cons_append, List.cons_append, List.intercalate_cons_of_ne_nil (hne e),
      List.intercalate_cons_of_ne_nil (hne (e ++ ext)), ← ih]
    simp

/-! ## Paths in order -/

/-- What `parts` makes. -/
structure Parts.Ordered (rooted : Bool) (l : Parts α) : Prop where
  name : ∀ e ∈ l.names, IsName e
  ups : rooted = true → l.ups = 0

namespace Parts

/-- Every element leaves a path in order. -/
theorem Ordered.push (h : l.Ordered rooted) (he : e ≠ [] ∧ e ≠ [dot] ∧ slash ∉ e) :
    (l.push rooted e).Ordered rooted := by
  unfold Parts.push
  split
  · split
    · split
      · exact h
      · next hr => exact ⟨h.name, fun h' => absurd h' hr⟩
    · exact ⟨fun e he => h.name e (List.mem_of_mem_dropLast he), h.ups⟩
  · next hdd =>
    refine ⟨fun d hd => ?_, h.ups⟩
    rcases List.mem_append.1 hd with hd | hd
    · exact h.name d hd
    · obtain rfl := List.mem_singleton.1 hd
      exact ⟨he.1, he.2.1, hdd, he.2.2⟩

/-- Names are put behind what is there. -/
theorem foldl_push_names (h : ∀ e ∈ es, IsName e) :
    es.foldl (push rooted) l = { l with names := l.names ++ es } := by
  induction es generalizing l with
  | nil => simp
  | cons e es ih =>
    have he : l.push rooted e = { l with names := l.names ++ [e] } :=
      if_neg (h e (List.mem_cons_self ..)).ne_dotdot
    rw [List.foldl_cons, he, ih fun d hd => h d (List.mem_cons_of_mem _ hd)]
    simp

/-- The `..` at the beginning are counted. -/
theorem foldl_push_dotdot {k n : Nat} :
    (List.replicate k dotdot).foldl (push false) (⟨n, []⟩ : Parts α) = ⟨n + k, []⟩ := by
  induction k generalizing n with
  | zero => rfl
  | succ k ih =>
    have hpush : (⟨n, []⟩ : Parts α).push false dotdot = ⟨n + 1, []⟩ := by simp [push]
    rw [List.replicate_succ, List.foldl_cons, hpush, ih]
    simp [Nat.add_assoc, Nat.add_comm 1]

/-- A path in order stays as it is. -/
theorem Ordered.foldl_elements (h : l.Ordered rooted) :
    l.elements.foldl (Parts.push rooted) ⟨0, []⟩ = l := by
  obtain ⟨ups, names⟩ := l
  unfold Parts.elements
  rw [List.foldl_append, foldl_push_names h.name]
  cases rooted with
  | true =>
    obtain rfl : ups = 0 := h.ups rfl
    simp
  | false => simp [foldl_push_dotdot]

omit [DecidableEq α] in
/-- Its elements are elements. -/
theorem Ordered.mem_elements (h : l.Ordered rooted) (he : e ∈ l.elements) :
    e ≠ [] ∧ e ≠ [dot] ∧ slash ∉ e := by
  rcases List.mem_append.1 he with he | he
  · obtain rfl := List.eq_of_mem_replicate he
    exact ⟨by simp [dotdot], by simp [dotdot], dotdot_no_slash⟩
  · exact ⟨(h.name e he).ne_nil, (h.name e he).ne_dot, (h.name e he).slash⟩

/-- What is written out has the elements. -/
theorem Ordered.elements_render (h : l.Ordered rooted) :
    Filepath.elements (render rooted l) = l.elements := by
  have hes := elements_intercalate fun e he => h.mem_elements he
  unfold render
  split
  · rw [elements_slash, hes]
  · split
    · next hnil =>
      rw [hnil]
      have hs : slash ∉ ([dot] : List α) := by simpa using slash_ne_dot
      unfold Filepath.elements
      rw [List.splitOn_eq_singleton hs]
      simp
    · exact hes

/-- Something is written out. -/
theorem Ordered.render_ne_nil (h : l.Ordered rooted) : render rooted l ≠ [] := by
  intro hnil
  have hes : l.elements = [] := by
    rw [← h.elements_render, hnil]
    simp [Filepath.elements]
  unfold render at hnil
  rw [if_pos hes] at hnil
  split at hnil <;> cases hnil

/-- It is absolute if the path was. -/
theorem Ordered.isAbs_render (h : l.Ordered rooted) : isAbs (render rooted l) = rooted := by
  unfold render
  cases rooted with
  | true => simp [isAbs]
  | false =>
    have hdot : (dot : α) ≠ slash := slash_ne_dot.symm
    cases hes : l.elements with
    | nil => simp [isAbs, hdot]
    | cons e es =>
      obtain ⟨hne, -, hs⟩ := h.mem_elements (hes ▸ List.mem_cons_self ..)
      obtain ⟨c, cs, rfl⟩ := List.exists_cons_of_ne_nil hne
      have hc : c ≠ slash := fun h => hs (h ▸ List.mem_cons_self ..)
      cases es <;> simp [isAbs, hc, List.intercalate_cons_cons]

/-- What is written out is in the same order. -/
theorem Ordered.parts_render (h : l.Ordered rooted) : parts (render rooted l) = l := by
  unfold parts
  rw [h.isAbs_render, h.elements_render, h.foldl_elements]

end Parts

/-- A path is put in order. -/
theorem parts_ordered : (parts p).Ordered (isAbs p) := by
  suffices h : ∀ (es : List (List α)) (l : Parts α), l.Ordered (isAbs p) →
      (∀ e ∈ es, e ≠ [] ∧ e ≠ [dot] ∧ slash ∉ e) →
      (es.foldl (Parts.push (isAbs p)) l).Ordered (isAbs p) from
    h _ _ ⟨by simp, fun _ => rfl⟩ fun e => mem_elements
  intro es
  induction es with
  | nil => exact fun l hl _ => hl
  | cons e es ih =>
    intro l hl hes
    exact ih _ (hl.push (hes e (List.mem_cons_self ..))) fun d hd =>
      hes d (List.mem_cons_of_mem _ hd)

/-- **Cleaning keeps what a path says.** -/
theorem parts_clean : parts (clean p) = parts p := parts_ordered.parts_render

theorem isAbs_clean : isAbs (clean p) = isAbs p := parts_ordered.isAbs_render

theorem clean_ne_nil : clean p ≠ [] := parts_ordered.render_ne_nil

theorem elements_clean : elements (clean p) = (parts p).elements := parts_ordered.elements_render

/-! ## Joined paths -/

variable {base name : List α}

/-- **What `Join` makes of a base and a relative name.** -/
theorem join_pair (base : List α) (hname : name ≠ []) (habs : isAbs name = false) :
    ∃ q : List α, join [base, name] = clean q ∧ isAbs q = isAbs base ∧
      parts q = (elements name).foldl (Parts.push (isAbs base)) (parts base) := by
  by_cases hbase : base = []
  · subst hbase
    have hnil : parts ([] : List α) = ⟨0, []⟩ := by simp [parts, elements]
    refine ⟨name, by simp [join, hname], habs, ?_⟩
    rw [hnil]
    unfold parts
    rw [habs]
    rfl
  · obtain ⟨c, base, rfl⟩ := List.exists_cons_of_ne_nil hbase
    refine ⟨(c :: base) ++ slash :: name, by simp [join], rfl, ?_⟩
    unfold parts
    rw [elements_append_slash, List.foldl_append]
    rfl

/-- The elements of several paths with slashes in between. -/
theorem elements_intercalate_cons : elements ([slash].intercalate (e :: es)) =
    elements e ++ es.flatMap elements := by
  induction es generalizing e with
  | nil => simp
  | cons d es ih =>
    rw [List.intercalate_cons_cons, List.append_assoc, List.singleton_append,
      elements_append_slash, ih, List.flatMap_cons]

/-- **What `Join` makes of a base and any elements.** -/
theorem parts_join (hbase : base ≠ []) (es : List (List α)) :
    isAbs (join (base :: es)) = isAbs base ∧ parts (join (base :: es)) =
      (es.flatMap elements).foldl (Parts.push (isAbs base)) (parts base) := by
  have habs : isAbs ([slash].intercalate (base :: es)) = isAbs base := by
    obtain ⟨c, base, rfl⟩ := List.exists_cons_of_ne_nil hbase
    cases es <;> rfl
  rw [join, if_neg hbase, isAbs_clean, parts_clean, habs]
  refine ⟨rfl, ?_⟩
  unfold parts
  rw [habs, elements_intercalate_cons, List.foldl_append]

theorem join_ne_nil (hbase : base ≠ []) (es : List (List α)) : join (base :: es) ≠ [] := by
  rw [join, if_neg hbase]
  exact clean_ne_nil

theorem Below.trans {c : List α} (h : Below a b) (h' : Below b c) : Below a c :=
  ⟨h'.1.trans h.1, h'.2.1.trans h.2.1, h.2.2.trans h'.2.2⟩

/-- **Nothing but names leads down.** -/
theorem below_join (hbase : base ≠ []) (h : ∀ d ∈ es, ∀ e ∈ elements d, IsName e) :
    Below base (join (base :: es)) := by
  obtain ⟨habs, hparts⟩ := parts_join hbase es
  have hnames : ∀ e ∈ es.flatMap elements, IsName e := by
    intro e he
    obtain ⟨d, hd, he⟩ := List.mem_flatMap.1 he
    exact h d hd e he
  rw [Parts.foldl_push_names hnames] at hparts
  exact ⟨habs, by rw [hparts], by rw [hparts]; exact List.prefix_append _ _⟩

/-- What holds no dot has only names for elements. -/
theorem isName_of_no_dot (h : dot ∉ p) (he : e ∈ elements p) : IsName e := by
  obtain ⟨hne, hne', hslash⟩ := mem_elements he
  have hdot : dot ∉ e := fun hmem => h ((splitOn_mem slash p e (List.mem_filter.1 he).1).2 hmem)
  refine ⟨hne, hne', ?_, hslash⟩
  rintro rfl
  exact hdot (List.mem_cons_self ..)

/-- A name is its only element. -/
theorem elements_of_isName (h : IsName e) : elements e = [e] := by
  have hes : elements ([slash].intercalate [e]) = [e] := elements_intercalate fun d hd => by
    rw [List.mem_singleton.1 hd]
    exact ⟨h.ne_nil, h.ne_dot, h.slash⟩
  rwa [List.intercalate_singleton] at hes

/-- An extension, which makes a name of every element. -/
def IsExt (ext : List α) : Prop := ∀ e, slash ∉ e → IsName (e ++ ext)

/-- An extension behind a path with a name: it goes to the last name; -/
theorem parts_append_of_names (hext : IsExt ext) {ups : Nat} {ns : List (List α)}
    (h : (⟨ups, ns ++ [e]⟩ : Parts α).Ordered rooted) :
    isAbs (render rooted ⟨ups, ns ++ [e]⟩ ++ ext) = rooted ∧
      parts (render rooted ⟨ups, ns ++ [e]⟩ ++ ext) = ⟨ups, ns ++ [e ++ ext]⟩ := by
  have he : IsName (e ++ ext) := hext e (h.name e (by simp)).slash
  have h' : (⟨ups, ns ++ [e ++ ext]⟩ : Parts α).Ordered rooted := by
    refine ⟨fun d hd => ?_, h.ups⟩
    rcases List.mem_append.1 hd with hd | hd
    · exact h.name d (List.mem_append_left _ hd)
    · rwa [List.mem_singleton.1 hd]
  have hrender : render rooted ⟨ups, ns ++ [e]⟩ ++ ext = render rooted ⟨ups, ns ++ [e ++ ext]⟩ := by
    unfold render Parts.elements
    cases rooted with
    | true => simp [← List.append_assoc, ← intercalate_concat_append]
    | false => simp [← List.append_assoc, ← intercalate_concat_append]
  rw [hrender]
  exact ⟨h'.isAbs_render, h'.parts_render⟩

/-- behind nothing but `..`, the last of these becomes a name; -/
theorem parts_append_of_ups (hext : IsExt ext) {k : Nat} :
    isAbs (render false (⟨k + 1, []⟩ : Parts α) ++ ext) = false ∧
      parts (render false (⟨k + 1, []⟩ : Parts α) ++ ext) = ⟨k, [dotdot ++ ext]⟩ := by
  have h' : (⟨k, [dotdot ++ ext]⟩ : Parts α).Ordered false :=
    ⟨fun d hd => List.mem_singleton.1 hd ▸ hext _ dotdot_no_slash, fun h => by cases h⟩
  have hrender : render false (⟨k + 1, []⟩ : Parts α) ++ ext =
      render false (⟨k, [dotdot ++ ext]⟩ : Parts α) := by
    simp [render, Parts.elements, List.replicate_succ', ← intercalate_concat_append]
  rw [hrender]
  exact ⟨h'.isAbs_render, h'.parts_render⟩

/-- and the root and `.` get a name. -/
theorem parts_append_of_nil (rooted : Bool) (hext : IsExt ext) :
    isAbs (render rooted (⟨0, []⟩ : Parts α) ++ ext) = rooted ∧
      parts (render rooted (⟨0, []⟩ : Parts α) ++ ext) =
        ⟨0, [if rooted then ext else dot :: ext]⟩ := by
  have hdot : slash ∉ ([dot] : List α) := by simpa using slash_ne_dot
  cases rooted with
  | true =>
    have h' : (⟨0, [ext]⟩ : Parts α).Ordered true :=
      ⟨fun d hd => List.mem_singleton.1 hd ▸ hext [] (by simp), fun _ => rfl⟩
    have hrender : render true (⟨0, []⟩ : Parts α) ++ ext = render true ⟨0, [ext]⟩ := by
      simp [render, Parts.elements]
    rw [hrender]
    exact ⟨h'.isAbs_render, h'.parts_render⟩
  | false =>
    have h' : (⟨0, [dot :: ext]⟩ : Parts α).Ordered false :=
      ⟨fun d hd => List.mem_singleton.1 hd ▸ hext [dot] hdot, fun h => by cases h⟩
    have hrender : render false (⟨0, []⟩ : Parts α) ++ ext = render false ⟨0, [dot :: ext]⟩ := by
      simp [render, Parts.elements]
    rw [hrender]
    exact ⟨h'.isAbs_render, h'.parts_render⟩

end

end UAssign.Filepath

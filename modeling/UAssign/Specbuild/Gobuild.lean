import UAssign.Go.Path
import UAssign.Specbuild.Actions

/-!
# The source path of gobuild actions

`specCreateContainerSetup` of `app/spec_create.go` sets the source path of the `gobuild` actions
before it performs the post-build actions. `gobuildHack` goes into `parallel` actions only, whereas
`PerformActions` performs the subactions of `ordered` ones as well; `gobuildHack_iff` says for which
lists this makes no difference.
-/

namespace UAssign.Specbuild

/-- `filepath.Join(assignmentPath, "gosrc")`. -/
def gosrc (assignmentPath : String) : String :=
  String.ofList (Filepath.join [assignmentPath.toList, "gosrc".toList])

/-- The subactions are smaller than the list. -/
theorem sizeOf_subactions_lt {ac : Action} {actions : List Action} (h : ac ∈ actions) :
    sizeOf ac.subactions < sizeOf actions := by
  have hmem : sizeOf ac < sizeOf actions := List.sizeOf_lt_of_mem h
  have hsub : sizeOf ac.subactions < sizeOf ac := by
    cases ac
    simp only [Action.mk.sizeOf_spec]
    omega
  omega

/-- `gobuildHack`. The copy `ac` of an element shares its slice of subactions with the element, so
that what is done to the one is done to the other. -/
def gobuildHack (assignmentPath : String) (actions : List Action) : List Action :=
  actions.map fun ac =>
    if ac.action = "parallel" then
      { ac with subactions := gobuildHack assignmentPath ac.subactions }
    else if ac.action = "gobuild" then { ac with srcPath := gosrc assignmentPath }
    else ac
termination_by sizeOf actions
decreasing_by exact sizeOf_subactions_lt ‹_›

/-- Every `gobuild` action that `PerformActions` reaches has this source path. -/
def Covers (src : String) (actions : List Action) : Prop :=
  ∀ p ac, (ordered actions).atPlace p = some ac → ac.action = "gobuild" → ac.srcPath = src

/-- The tree of actions but for the source paths of the `gobuild` actions. -/
def eraseSrcPaths (actions : List Action) : List Action :=
  actions.map fun ac =>
    { ac with
      srcPath := if ac.action = "gobuild" then "" else ac.srcPath
      subactions := eraseSrcPaths ac.subactions }
termination_by sizeOf actions
decreasing_by exact sizeOf_subactions_lt ‹_›

/-- One of the actions above the place is an `ordered` one. -/
def underOrdered (actions : List Action) : List Nat → Bool
  | [] => false
  | i :: p =>
    match actions[i]? with
    | none => false
    | some ac => (ac.action = "ordered" && p ≠ []) || underOrdered ac.subactions p

/-! ## What it does -/

section

variable {assignmentPath : String} {actions : List Action} {ac : Action} {i : Nat} {p : List Nat}

/-- What is done to an element. -/
def hackElement (assignmentPath : String) (ac : Action) : Action :=
  if ac.action = "parallel" then { ac with subactions := gobuildHack assignmentPath ac.subactions }
  else if ac.action = "gobuild" then { ac with srcPath := gosrc assignmentPath }
  else ac

theorem gobuildHack_eq :
    gobuildHack assignmentPath actions = actions.map (hackElement assignmentPath) := by
  rw [gobuildHack]
  rfl

/-- The places of a list are those of its elements. -/
theorem atPlace_ordered : (ordered actions).atPlace (i :: p) =
    actions[i]?.bind fun ac => ac.atPlace p := rfl

/-- The places below a `parallel` or `ordered` action are those of its subactions. -/
theorem atPlace_subactions (h : ac.action = "parallel" ∨ ac.action = "ordered") :
    ac.atPlace (i :: p) = (ordered ac.subactions).atPlace (i :: p) := by
  have hchildren : ac.children = ac.subactions := by
    unfold Action.children Action.func
    rcases h with h | h <;> rw [h] <;> rfl
  rw [atPlace_ordered, Action.atPlace, hchildren]

/-- No places are below the other actions. -/
theorem atPlace_leaf (h : ac.action ≠ "parallel") (h' : ac.action ≠ "ordered") :
    ac.atPlace (i :: p) = none := by
  have hchildren : ac.children = [] := by
    unfold Action.children Action.func actionFuncs
    split
    · next hf =>
      split at hf
      case h_5 h'' => exact absurd h'' h
      all_goals cases hf
    · next hf =>
      split at hf
      case h_6 h'' => exact absurd h'' h'
      all_goals cases hf
    · rfl
  rw [Action.atPlace, hchildren]
  rfl

theorem hackElement_action : (hackElement assignmentPath ac).action = ac.action := by
  unfold hackElement
  split
  · rfl
  · split <;> rfl

/-- **What is found at a place**: what was there before, with its source path set, unless it is
below an `ordered` action. -/
theorem atPlace_gobuildHack :
    (ordered (gobuildHack assignmentPath actions)).atPlace (i :: p) =
      ((ordered actions).atPlace (i :: p)).map fun ac =>
        if underOrdered actions (i :: p) then ac else hackElement assignmentPath ac := by
  induction p generalizing i actions with
  | nil =>
    rw [atPlace_ordered, atPlace_ordered, gobuildHack_eq, List.getElem?_map]
    cases h : actions[i]? with
    | none => rfl
    | some ac => simp [underOrdered, h, Action.atPlace]
  | cons j p ih =>
    rw [atPlace_ordered, atPlace_ordered, gobuildHack_eq, List.getElem?_map]
    cases h : actions[i]? with
    | none => rfl
    | some ac =>
      have hunder : underOrdered actions (i :: j :: p) =
          (decide (ac.action = "ordered") || underOrdered ac.subactions (j :: p)) := by
        simp [underOrdered, h]
      simp only [Option.map_some, Option.bind_some, hunder]
      by_cases hparallel : ac.action = "parallel"
      · have hsub : (hackElement assignmentPath ac).subactions =
            gobuildHack assignmentPath ac.subactions := by
          rw [hackElement, if_pos hparallel]
        rw [atPlace_subactions (.inl (hackElement_action.trans hparallel)), hsub, ih,
          atPlace_subactions (.inl hparallel)]
        simp [hparallel]
      · by_cases hordered : ac.action = "ordered"
        · have hsame : hackElement assignmentPath ac = ac := by
            rw [hackElement, if_neg hparallel, if_neg (by rw [hordered]; decide)]
          rw [hsame]
          simp [hordered]
        · rw [atPlace_leaf (by rwa [hackElement_action]) (by rwa [hackElement_action]),
            atPlace_leaf hparallel hordered]
          rfl

/-- Nothing but source paths of `gobuild` actions changes. -/
theorem eraseSrcPaths_gobuildHack (assignmentPath : String) (actions : List Action) :
    eraseSrcPaths (gobuildHack assignmentPath actions) = eraseSrcPaths actions := by
  rw [gobuildHack_eq, eraseSrcPaths, eraseSrcPaths, List.map_map]
  refine List.map_congr_left fun ac hac => ?_
  simp only [Function.comp_apply, hackElement]
  split
  · next h => simp only [h, eraseSrcPaths_gobuildHack assignmentPath ac.subactions]
  · split
    · next h => simp only [h]
    · rfl
termination_by sizeOf actions
decreasing_by exact sizeOf_subactions_lt hac

end

/-- **When `gobuildHack` does its work**: the `gobuild` actions that are performed below an
`ordered` action have the source path already. -/
theorem gobuildHack_iff (assignmentPath : String) (actions : List Action) :
    (Covers (gosrc assignmentPath) (gobuildHack assignmentPath actions) ∧
      eraseSrcPaths (gobuildHack assignmentPath actions) = eraseSrcPaths actions) ↔
    ∀ p ac, (ordered actions).atPlace p = some ac → ac.action = "gobuild" →
      underOrdered actions p = true → ac.srcPath = gosrc assignmentPath := by
  have hset : ∀ ac : Action, ac.action = "gobuild" →
      (hackElement assignmentPath ac).srcPath = gosrc assignmentPath := by
    intro ac hac
    rw [hackElement, if_neg (by rw [hac]; decide), if_pos hac]
  constructor
  · rintro ⟨hcovers, -⟩ p ac hac hgobuild hunder
    cases p with
    | nil => cases hunder
    | cons i p =>
      refine hcovers (i :: p) ac ?_ hgobuild
      rw [atPlace_gobuildHack, hac, Option.map_some, if_pos hunder]
  · intro h
    refine ⟨fun p ac hac hgobuild => ?_, eraseSrcPaths_gobuildHack assignmentPath actions⟩
    cases p with
    | nil =>
      obtain rfl := Option.some.inj hac
      exact absurd hgobuild (by decide : "ordered" ≠ "gobuild")
    | cons i p =>
      rw [atPlace_gobuildHack] at hac
      obtain ⟨ac', hac', rfl⟩ := Option.map_eq_some_iff.1 hac
      split at hgobuild
      · next hunder =>
        rw [if_pos hunder]
        exact h _ ac' hac' hgobuild hunder
      · next hunder =>
        rw [hackElement_action] at hgobuild
        rw [if_neg hunder]
        exact hset ac' hgobuild

/-- A `gobuild` action that is the only subaction of an `ordered` one. -/
def gobuildOrdered : List Action :=
  [ordered [{ ordered [] with action := "gobuild", packages := ["grade"] }]]

/-- It keeps its empty source path. -/
theorem gobuildOrdered_missed :
    ¬ (Covers (gosrc "/a") (gobuildHack "/a" gobuildOrdered) ∧
      eraseSrcPaths (gobuildHack "/a" gobuildOrdered) = eraseSrcPaths gobuildOrdered) := by
  rintro ⟨hcovers, -⟩
  have hsame : gobuildHack "/a" gobuildOrdered = gobuildOrdered := by
    rw [gobuildHack_eq]
    simp [gobuildOrdered, hackElement, ordered]
  rw [hsame] at hcovers
  have hpath := hcovers [0, 0] _ rfl rfl
  revert hpath
  decide

end UAssign.Specbuild

import UAssign.Go.Path

/-!
# The directory of an assignment

`createInstance` splits the name of an assignment at its dots and joins the parts to the directory
of all assignments; the files that `Generate`, `specCreate` and `BuildLegacy` look for are joined to
that. No part holds a dot, so no name leads out of the directory (`assignment_below`).

A Go string is the list of its bytes.
-/

namespace UAssign.Assignment

open Filepath

/-- The bytes of a string. -/
def bytes (s : String) : List UInt8 := s.toUTF8.data.toList

/-! ## The paths -/

/-- `path` of `createInstance`. -/
def path (assignmentPath assignmentName : List UInt8) : List UInt8 :=
  let pathSlice := [assignmentPath]
  let pathSlice := pathSlice ++ assignmentName.splitOn dot
  join pathSlice

/-- `jsPath` of `Generate`. -/
def jsPath (assignmentPath : List UInt8) : List UInt8 := join [assignmentPath, bytes "index.js"]

/-- `contextPath` of `specCreate`. -/
def contextPath (assignmentPath : List UInt8) : List UInt8 := join [assignmentPath, bytes "context"]

/-- `SrcPath` of a `gobuild` action, in `specCreateContainerSetup`. -/
def srcPath (assignmentPath : List UInt8) : List UInt8 := join [assignmentPath, bytes "gosrc"]

/-- `LegacyTemplateName`. -/
def legacyTemplateName : List UInt8 := bytes "Dockerfile.tmpl"

/-- `LegacyContextSubdir`. -/
def legacyContextSubdir : List UInt8 := bytes "context"

/-- `tmplPath` of `BuildLegacy`. -/
def tmplPath (path : List UInt8) : List UInt8 := join [path, legacyTemplateName]

/-- `contextPath` of `BuildLegacy`. -/
def legacyContextPath (path : List UInt8) : List UInt8 := join [path, legacyContextSubdir]

/-- The paths that are derived from the assignment's. -/
def derived (path : List UInt8) : List (List UInt8) :=
  [jsPath path, contextPath path, srcPath path, tmplPath path, legacyContextPath path]

/-! ## Where they are -/

variable {base name : List UInt8}

/-- A path joined with a single name is below it. -/
theorem below_join_name (hbase : base ≠ []) (hname : IsName name) :
    Below base (join [base, name]) := by
  refine below_join hbase fun d hd e he => ?_
  rw [List.mem_singleton.1 hd, elements_of_isName hname] at he
  rwa [List.mem_singleton.1 he]

/-- The name of an assignment does not lead out. -/
theorem below_path (hbase : base ≠ []) (name : List UInt8) : Below base (path base name) :=
  below_join hbase fun d hd _ he => isName_of_no_dot (splitOn_mem dot name d hd).1 he

/-- Each derived path is a single name below. -/
theorem below_derived (hbase : base ≠ []) : ∀ p ∈ derived base, Below base p := by
  have hname : ∀ name ∈ [bytes "index.js", bytes "context", bytes "gosrc", legacyTemplateName,
      legacyContextSubdir], IsName name := by decide
  intro p hp
  have hjoin : derived base = [bytes "index.js", bytes "context", bytes "gosrc",
      legacyTemplateName, legacyContextSubdir].map fun name => join [base, name] := rfl
  rw [hjoin] at hp
  obtain ⟨name, hmem, rfl⟩ := List.mem_map.1 hp
  exact below_join_name hbase (hname name hmem)

/-- **Names stay in the directory.** Whatever the name of the assignment, its path is the cleaned
directory of all assignments or below it, and so are the paths derived from it. -/
theorem assignment_below (hbase : base ≠ []) (name : List UInt8) :
    Below base (path base name) ∧ ∀ p ∈ derived (path base name), Below base p := by
  have hpath := below_path hbase name
  refine ⟨hpath, fun p hp => hpath.trans (below_derived ?_ p hp)⟩
  exact join_ne_nil hbase _

/-- A directory that begins with `..`, and a name with slashes and dots. -/
theorem assignment_below_relative :
    Below (bytes "../a") (path (bytes "../a") (bytes "/../../etc/x.//.y")) ∧
      ∀ p ∈ derived (path (bytes "../a") (bytes "/../../etc/x.//.y")), Below (bytes "../a") p :=
  assignment_below (by decide) _

end UAssign.Assignment

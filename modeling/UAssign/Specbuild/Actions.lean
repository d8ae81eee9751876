import UAssign.Lib.History
import UAssign.Lib.Transition

/-!
# Post-build actions

`app/specbuild/actions.go`: a list of actions is performed one after the other, an `ordered` action
performs its subactions in the same way, and a `parallel` one spawns a goroutine for each of its
subactions and waits for all of them. A call of `performAction` is known by its place in the tree of
actions; calls that are not waiting for others take their steps in any order.
-/

namespace UAssign.Specbuild

/-! ## Actions -/

/-- `Action`. -/
structure Action where
  action : String
  user : String
  workingDir : String
  cmd : List String
  env : List String
  stdin : Option String
  contents : String
  contentsBase64 : Bool
  filename : String
  srcPath : String
  packages : List String
  ldFlags : String
  subactions : List Action

/-- `actionFunc`. -/
inductive ActionFunc where
  | actionExec
  | actionWriteAppend
  | actionGobuild
  | actionParallel
  | actionOrdered
  deriving DecidableEq

/-- `actionFuncs`. -/
def actionFuncs : String → Option ActionFunc
  | "exec" => some .actionExec
  | "write" => some .actionWriteAppend
  | "append" => some .actionWriteAppend
  | "gobuild" => some .actionGobuild
  | "parallel" => some .actionParallel
  | "ordered" => some .actionOrdered
  | _ => none

/-- The functions that perform no subactions. -/
def ActionFunc.leaf : ActionFunc → Bool
  | .actionExec | .actionWriteAppend | .actionGobuild => true
  | .actionParallel | .actionOrdered => false

namespace Action

/-- What `performAction` finds. -/
def func (ac : Action) : Option ActionFunc := actionFuncs ac.action

/-- The subactions that are performed: the others are not looked at. -/
def children (ac : Action) : List Action :=
  match ac.func with
  | some .actionParallel | some .actionOrdered => ac.subactions
  | _ => []

/-- The action at a place. -/
def atPlace (ac : Action) : List Nat → Option Action
  | [] => some ac
  | i :: p => ac.children[i]?.bind fun child => child.atPlace p

end Action

/-- The list that `PerformActions` is given, as the action that performs it: `actionOrdered` is
`PerformActions` of the subactions. -/
def ordered (actions : List Action) : Action :=
  { action := "ordered", user := "", workingDir := "", cmd := [], env := [], stdin := none,
    contents := "", contentsBase64 := false, filename := "", srcPath := "", packages := [],
    ldFlags := "", subactions := actions }

/-! ## Calls -/

/-- Where the call of `performAction` at a place is: not made, in front of the lookup, inside a
leaf's function, in the loop of `PerformActions` with `n` elements begun, in `actionParallel` with
`n` goroutines spawned and the error that the group has recorded, or returned. -/
inductive Status where
  | idle
  | ready
  | running
  | loop (n : Nat)
  | group (n : Nat) (err : Option String)
  | returned (err : Option String)
  deriving DecidableEq

/-- A leaf's function is called; `performAction` returns, and with it the leaf's function. -/
inductive Event where
  | started (p : List Nat)
  | returned (p : List Nat) (err : Option String)
  deriving DecidableEq

/-- The calls, and what has happened, the newest event first. -/
structure State where
  calls : List Nat → Status
  history : List Event

/-- The steps of the call at a place: the lookup, the end of a leaf's function with any outcome, the
next round of the loop, the next `g.Go`, a failed goroutine's `errOnce` and the end of `g.Wait`. -/
inductive Act where
  | dispatch (p : List Nat)
  | finish (p : List Nat) (err : Option String)
  | next (p : List Nat)
  | spawn (p : List Nat)
  | record (p : List Nat) (i : Nat)
  | wait (p : List Nat)
  deriving DecidableEq

namespace State

/-- A call has moved. -/
def put (s : State) (p : List Nat) (st : Status) : State :=
  { s with calls := fun q => if q = p then st else s.calls q }

/-- A call returns. -/
def ret (s : State) (p : List Nat) (err : Option String) : State :=
  { s.put p (.returned err) with history := .returned p err :: s.history }

/-- A call performs its next subaction. -/
def call (s : State) (p : List Nat) (st : Status) (n : Nat) : State :=
  (s.put (p ++ [n]) .ready).put p st

/-- What a call has returned. -/
def outcome (s : State) (p : List Nat) : Option (Option String) :=
  match s.calls p with
  | .returned err => some err
  | _ => none

/-- `performAction` behind its lookup. -/
def dispatch (s : State) (p : List Nat) (ac : Action) : State :=
  match ac.func with
  | some .actionParallel => s.put p (.group 0 none)
  | some .actionOrdered => s.put p (.loop 0)
  | some _ => { s.put p .running with history := .started p :: s.history }
  | none => s.ret p (some ("specbuild: unknown action " ++ ac.action))

/-- What the element before the `n`th has returned. -/
def last (s : State) (p : List Nat) : Nat → Option (Option String)
  | 0 => some none
  | n + 1 => s.outcome (p ++ [n])

/-- The loop of `PerformActions`. -/
def next (s : State) (p : List Nat) (ac : Action) (n : Nat) : Option State :=
  match s.last p n with
  | none => none
  | some (some err) => some (s.ret p (some err))
  | some none => some (if n < ac.children.length then s.call p (.loop (n + 1)) n else s.ret p none)

/-- All goroutines of a group are done, and if one of them has failed, an error is recorded. -/
def joined (s : State) (p : List Nat) (n : Nat) (err : Option String) : Bool :=
  (List.range n).all fun i =>
    match s.outcome (p ++ [i]) with
    | some none => true
    | some (some _) => err.isSome
    | none => false

end State

/-- One step. -/
def step (root : Action) (s : State) : Act → Option State
  | .dispatch p => (root.atPlace p).bind fun ac =>
    if s.calls p = .ready then some (s.dispatch p ac) else none
  | .finish p err => if s.calls p = .running then some (s.ret p err) else none
  | .next p => (root.atPlace p).bind fun ac =>
    match s.calls p with
    | .loop n => s.next p ac n
    | _ => none
  | .spawn p => (root.atPlace p).bind fun ac =>
    match s.calls p with
    | .group n err =>
      if n < ac.children.length then some (s.call p (.group (n + 1) err) n) else none
    | _ => none
  | .record p i =>
    match s.calls p, s.outcome (p ++ [i]) with
    | .group n none, some (some err) =>
      if i < n then some (s.put p (.group n (some err))) else none
    | _, _ => none
  | .wait p => (root.atPlace p).bind fun ac =>
    match s.calls p with
    | .group n err =>
      if ac.children.length ≤ n ∧ s.joined p n err = true then some (s.ret p err) else none
    | _ => none

/-- `PerformActions` has been called. -/
def State.initial : State :=
  { calls := fun p => if p = [] then .loop 0 else .idle, history := [] }

/-- `PerformActions`, under any schedule and with any outcomes of the leaves. -/
def performActions (actions : List Action) : System State Act :=
  { init := (· = State.initial), step := step (ordered actions) }

/-! ## What a step does -/

/-- A call has begun and not returned. -/
def Status.active : Status → Bool
  | .ready | .running | .loop _ | .group _ _ => true
  | .idle | .returned _ => false

/-- A step from a state, with what is known before it. -/
inductive Next (root : Action) (s : State) : State → Prop
  | enter {p : List Nat} {ac : Action} {st : Status} (hac : root.atPlace p = some ac)
      (hp : s.calls p = .ready)
      (hst : st = .loop 0 ∧ ac.func = some .actionOrdered ∨
        st = .group 0 none ∧ ac.func = some .actionParallel) : Next root s (s.put p st)
  | start {p : List Nat} {ac : Action} {f : ActionFunc} (hac : root.atPlace p = some ac)
      (hp : s.calls p = .ready) (hf : ac.func = some f) (hleaf : f.leaf = true) :
      Next root s { s.put p .running with history := .started p :: s.history }
  | unknown {p : List Nat} {ac : Action} {msg : String} (hac : root.atPlace p = some ac)
      (hp : s.calls p = .ready) (hf : ac.func = none) : Next root s (s.ret p (some msg))
  | finish {p : List Nat} {err : Option String} (hp : s.calls p = .running) :
      Next root s (s.ret p err)
  | element {p : List Nat} {ac : Action} {n : Nat} (hac : root.atPlace p = some ac)
      (hp : s.calls p = .loop n) (hlast : s.last p n = some none)
      (hn : n < ac.children.length) : Next root s (s.call p (.loop (n + 1)) n)
  | fail {p : List Nat} {n : Nat} {err : String} (hp : s.calls p = .loop (n + 1))
      (hlast : s.calls (p ++ [n]) = .returned (some err)) : Next root s (s.ret p (some err))
  | complete {p : List Nat} {ac : Action} {n : Nat} (hac : root.atPlace p = some ac)
      (hp : s.calls p = .loop n) (hlast : s.last p n = some none)
      (hn : ac.children.length ≤ n) : Next root s (s.ret p none)
  | spawn {p : List Nat} {ac : Action} {n : Nat} {err : Option String}
      (hac : root.atPlace p = some ac) (hp : s.calls p = .group n err)
      (hn : n < ac.children.length) : Next root s (s.call p (.group (n + 1) err) n)
  | record {p : List Nat} {n i : Nat} {err : String} (hp : s.calls p = .group n none)
      (hi : i < n) (hchild : s.calls (p ++ [i]) = .returned (some err)) :
      Next root s (s.put p (.group n (some err)))
  | wait {p : List Nat} {ac : Action} {n : Nat} {err : Option String}
      (hac : root.atPlace p = some ac) (hp : s.calls p = .group n err)
      (hn : ac.children.length ≤ n) (hjoined : s.joined p n err = true) :
      Next root s (s.ret p err)

section

variable {root : Action} {s s' : State} {a : Act} {p : List Nat} {n : Nat}

theorem outcome_eq_some {err : Option String} (h : s.outcome p = some err) :
    s.calls p = .returned err := by
  unfold State.outcome at h
  split at h
  · next heq => rw [heq, Option.some.inj h]
  · cases h

/-- **What a step does.** -/
theorem step_sound (hs : step root s a = some s') : Next root s s' := by
  cases a with
  | dispatch p =>
    obtain ⟨ac, hac, hs⟩ := Option.bind_eq_some_iff.1 hs
    obtain ⟨hp, hs⟩ := Option.ite_none_right_eq_some.1 hs
    obtain rfl := Option.some.inj hs
    unfold State.dispatch
    split
    · next hf => exact .enter hac hp (.inr ⟨rfl, hf⟩)
    · next hf => exact .enter hac hp (.inl ⟨rfl, hf⟩)
    · next f hno₁ hno₂ hf =>
      refine .start hac hp hf ?_
      cases f with
      | actionParallel => exact (hno₁ rfl).elim
      | actionOrdered => exact (hno₂ rfl).elim
      | actionExec | actionWriteAppend | actionGobuild => rfl
    · next hf => exact .unknown hac hp hf
  | finish p err =>
    obtain ⟨hp, hs⟩ := Option.ite_none_right_eq_some.1 hs
    exact Option.some.inj hs ▸ .finish hp
  | next p =>
    obtain ⟨ac, hac, hs⟩ := Option.bind_eq_some_iff.1 hs
    split at hs
    · next n hp =>
      unfold State.next at hs
      split at hs
      · cases hs
      · next err hlast =>
        obtain rfl := Option.some.inj hs
        cases n with
        | zero => cases hlast
        | succ n => exact .fail hp (outcome_eq_some hlast)
      · next hlast =>
        obtain rfl := Option.some.inj hs
        split
        · next hn => exact .element hac hp hlast hn
        · next hn => exact .complete hac hp hlast (Nat.not_lt.1 hn)
    · cases hs
  | spawn p =>
    obtain ⟨ac, hac, hs⟩ := Option.bind_eq_some_iff.1 hs
    split at hs
    · next n err hp =>
      obtain ⟨hn, hs⟩ := Option.ite_none_right_eq_some.1 hs
      exact Option.some.inj hs ▸ .spawn hac hp hn
    · cases hs
  | record p i =>
    simp only [step] at hs
    split at hs
    · next n err hp hchild =>
      obtain ⟨hi, hs⟩ := Option.ite_none_right_eq_some.1 hs
      exact Option.some.inj hs ▸ .record hp hi (outcome_eq_some hchild)
    · cases hs
  | wait p =>
    obtain ⟨ac, hac, hs⟩ := Option.bind_eq_some_iff.1 hs
    split at hs
    · next n err hp =>
      obtain ⟨⟨hn, hjoined⟩, hs⟩ := Option.ite_none_right_eq_some.1 hs
      exact Option.some.inj hs ▸ .wait hac hp hn hjoined
    · cases hs

/-- The call that has moved, and the others. -/
@[simp] theorem put_self {st : Status} : (s.put p st).calls p = st := if_pos rfl

theorem put_ne {st : Status} {q : List Nat} (h : q ≠ p) : (s.put p st).calls q = s.calls q :=
  if_neg h

/-- A child is not its parent. -/
theorem append_singleton_ne : p ++ [n] ≠ p := fun h => by
  have hlen := congrArg List.length h
  simp at hlen

/-- A child has one parent. -/
theorem append_singleton_inj {q : List Nat} {i : Nat} (h : q ++ [i] = p ++ [n]) :
    q = p ∧ i = n := by
  obtain ⟨hq, hi⟩ := List.append_inj' h rfl
  exact ⟨hq, (List.cons.inj hi).1⟩

end

/-! ## The calls fit together -/

/-- How far a call has come and how far the calls of its children have. -/
def Local (ac : Option Action) (child : Nat → Status) : Status → Prop
  | .idle => ∀ i, child i = .idle
  | .ready => ac.isSome = true ∧ ∀ i, child i = .idle
  | .running => (∃ a f, ac = some a ∧ a.func = some f ∧ f.leaf = true) ∧ ∀ i, child i = .idle
  | .loop n => (∃ a, ac = some a ∧ a.func = some .actionOrdered ∧ n ≤ a.children.length) ∧
      (∀ i, i < n → child i ≠ .idle) ∧ (∀ i, i + 1 < n → child i = .returned none) ∧
      ∀ i, n ≤ i → child i = .idle
  | .group n _ => (∃ a, ac = some a ∧ a.func = some .actionParallel ∧ n ≤ a.children.length) ∧
      (∀ i, i < n → child i ≠ .idle) ∧ ∀ i, n ≤ i → child i = .idle
  | .returned none => ∃ a, ac = some a ∧ a.func ≠ none ∧
      ∀ i, child i = if i < a.children.length then .returned none else .idle
  | .returned (some _) => ∃ a, ac = some a ∧ (∀ i, (child i).active = false) ∧
      (a.func = some .actionOrdered → ∃ n err, child n = .returned (some err) ∧
        (∀ i, i < n → child i = .returned none) ∧ ∀ i, n < i → child i = .idle)

/-- The calls fit together everywhere. -/
def Fits (root : Action) (s : State) : Prop :=
  ∀ p, Local (root.atPlace p) (fun i => s.calls (p ++ [i])) (s.calls p)

section

variable {root : Action} {s s' : State} {p q : List Nat} {n j : Nat} {st st' : Status}
  {ac : Option Action} {ch ch' : Nat → Status}

/-- **One child moves on**: what is known of the others and of the parent does not change. -/
theorem Local.child (h : Local ac ch st) (hactive : (ch j).active = true)
    (hst' : ch' j ≠ .idle) (hsame : ∀ i, i ≠ j → ch' i = ch i) : Local ac ch' st := by
  have hidle : ch j ≠ .idle := fun hj => by rw [hj] at hactive; cases hactive
  have hkeep : ∀ i, ch i = .idle → ch' i = .idle := fun i hi =>
    (hsame i fun hij => hidle (hij ▸ hi)).trans hi
  have hback : ∀ i, (ch i).active = false → ch' i = ch i := fun i hi =>
    hsame i fun hij => by rw [hij, hactive] at hi; cases hi
  have hbusy : ∀ i, ch i ≠ .idle → ch' i ≠ .idle := fun i hi => by
    by_cases hij : i = j
    · exact hij ▸ hst'
    · rw [hsame i hij]; exact hi
  match st with
  | .idle => exact fun i => hkeep i (h i)
  | .ready => exact ⟨h.1, fun i => hkeep i (h.2 i)⟩
  | .running => exact ⟨h.1, fun i => hkeep i (h.2 i)⟩
  | .loop n =>
    obtain ⟨hac, hbegun, hdone, hlater⟩ := h
    refine ⟨hac, fun i hi => hbusy i (hbegun i hi), fun i hi => ?_,
      fun i hi => hkeep i (hlater i hi)⟩
    rw [hback i (by rw [hdone i hi]; rfl)]
    exact hdone i hi
  | .group n err =>
    obtain ⟨hac, hbegun, hlater⟩ := h
    exact ⟨hac, fun i hi => hbusy i (hbegun i hi), fun i hi => hkeep i (hlater i hi)⟩
  | .returned none =>
    obtain ⟨a, hac, hf, hall⟩ := h
    refine ⟨a, hac, hf, fun i => ?_⟩
    rw [hback i (by rw [hall i]; split <;> rfl)]
    exact hall i
  | .returned (some err) =>
    obtain ⟨a, -, hall, -⟩ := h
    rw [hall j] at hactive
    cases hactive

/-- **A call moves on**, and what it says of its children is right. -/
theorem Fits.put (h : Fits root s) (hactive : (s.calls p).active = true) (hst : st ≠ .idle)
    (hlocal : Local (root.atPlace p) (fun i => s.calls (p ++ [i])) st) :
    Fits root (s.put p st) := by
  intro q
  by_cases hq : q = p
  · subst hq
    rw [put_self]
    have hchild : (fun i => (s.put q st).calls (q ++ [i])) = fun i => s.calls (q ++ [i]) :=
      funext fun i => put_ne append_singleton_ne
    rw [hchild]
    exact hlocal
  · rw [put_ne hq]
    by_cases hparent : ∃ j, q ++ [j] = p
    · obtain ⟨j, rfl⟩ := hparent
      refine Local.child (h q) hactive (by rw [put_self]; exact hst) fun i hi =>
        put_ne fun heq => ?_
      exact hi (append_singleton_inj heq).2
    · have hchild : (fun i => (s.put p st).calls (q ++ [i])) = fun i => s.calls (q ++ [i]) :=
        funext fun i => put_ne fun heq => hparent ⟨i, heq⟩
      rw [hchild]
      exact h q

/-- **A call performs a subaction**: the child gets ready. -/
theorem Fits.call (h : Fits root s) (hactive : (s.calls p).active = true)
    (hidle : s.calls (p ++ [n]) = .idle) (hst : st ≠ .idle)
    (hplace : (root.atPlace (p ++ [n])).isSome = true)
    (hlocal : Local (root.atPlace p) (fun i => if i = n then .ready else s.calls (p ++ [i])) st) :
    Fits root (s.call p st n) := by
  intro q
  by_cases hq : q = p
  · subst hq
    have hchild : (fun i => (s.call q st n).calls (q ++ [i])) =
        fun i => if i = n then .ready else s.calls (q ++ [i]) := by
      funext i
      rw [State.call, put_ne append_singleton_ne]
      by_cases hi : i = n
      · rw [hi, put_self, if_pos rfl]
      · rw [put_ne fun heq => hi (append_singleton_inj heq).2, if_neg hi]
    rw [hchild, State.call, put_self]
    exact hlocal
  · rw [State.call, put_ne hq]
    by_cases hchild : q = p ++ [n]
    · subst hchild
      rw [put_self]
      have hbelow := h (p ++ [n])
      rw [hidle] at hbelow
      refine ⟨hplace, fun i => ?_⟩
      have hne : p ++ [n] ++ [i] ≠ p := fun heq => by
        have hlen := congrArg List.length heq
        simp at hlen
      show ((s.put (p ++ [n]) .ready).put p st).calls (p ++ [n] ++ [i]) = .idle
      rw [put_ne hne, put_ne append_singleton_ne]
      exact hbelow i
    · rw [put_ne hchild]
      have hother : ∀ i, (((s.put (p ++ [n]) .ready).put p st).calls (q ++ [i])) =
          (s.put p st).calls (q ++ [i]) := fun i => by
        have hne : q ++ [i] ≠ p ++ [n] := fun heq => hq (append_singleton_inj heq).1
        by_cases hi : q ++ [i] = p
        · rw [hi, put_self, put_self]
        · rw [put_ne hi, put_ne hi, put_ne hne]
      by_cases hparent : ∃ j, q ++ [j] = p
      · obtain ⟨j, rfl⟩ := hparent
        refine Local.child (h q) hactive (by rw [put_self]; exact hst) fun i hi => ?_
        rw [hother, put_ne fun heq => hi (append_singleton_inj heq).2]
      · have hsame : (fun i => ((s.put (p ++ [n]) .ready).put p st).calls (q ++ [i])) =
            fun i => s.calls (q ++ [i]) :=
          funext fun i => (hother i).trans (put_ne fun heq => hparent ⟨i, heq⟩)
        rw [hsame]
        exact h q

/-- The place of a child. -/
theorem atPlace_append (root : Action) (p r : List Nat) :
    root.atPlace (p ++ r) = (root.atPlace p).bind fun ac => ac.atPlace r := by
  induction p generalizing root with
  | nil => rfl
  | cons i p ih =>
    show (root.children[i]?.bind fun child => child.atPlace (p ++ r)) = _
    rw [Action.atPlace, Option.bind_assoc]
    exact Option.bind_congr fun child _ => ih child

theorem atPlace_child {a : Action} (ha : root.atPlace p = some a) (hn : n < a.children.length) :
    (root.atPlace (p ++ [n])).isSome = true := by
  rw [atPlace_append, ha, Option.bind_some, Action.atPlace, List.getElem?_eq_getElem hn]
  rfl

/-- A leaf has no children. -/
theorem children_of_leaf {a : Action} {f : ActionFunc} (hf : a.func = some f)
    (hleaf : f.leaf = true) : a.children = [] := by
  unfold Action.children
  rw [hf]
  cases f with
  | actionParallel | actionOrdered => cases hleaf
  | actionExec | actionWriteAppend | actionGobuild => rfl

/-- What all goroutines of a group have come to. -/
theorem joined_iff {err : Option String} : s.joined p n err = true ↔
    ∀ i, i < n → ∃ e, s.calls (p ++ [i]) = .returned e ∧ (err = none → e = none) := by
  rw [State.joined, List.all_eq_true]
  refine forall_congr' fun i => ?_
  rw [List.mem_range]
  refine imp_congr_right fun _ => ?_
  unfold State.outcome
  cases s.calls (p ++ [i]) with
  | returned e => cases e <;> cases err <;> simp
  | idle | ready | running | loop | group => simp

/-- What is known of a call that has come so far. -/
theorem Fits.known (h : Fits root s) (hp : s.calls p = st) :
    Local (root.atPlace p) (fun i => s.calls (p ++ [i])) st :=
  hp ▸ h p

/-- All calls of a loop have returned when the last one has. -/
theorem returned_of_last (hdone : ∀ i, i + 1 < n → s.calls (p ++ [i]) = .returned none)
    (hlast : s.last p n = some none) {i : Nat} (hi : i < n) :
    s.calls (p ++ [i]) = .returned none := by
  rcases Nat.lt_or_ge (i + 1) n with hlt | hge
  · exact hdone i hlt
  · obtain rfl : n = i + 1 := by omega
    exact outcome_eq_some hlast

/-- **Each step** keeps the calls together. -/
theorem Fits.next (h : Fits root s) (hs : Next root s s') : Fits root s' := by
  cases hs with
  | @enter p ac st hac hp hst =>
    have hloc := h.known hp
    refine h.put (by rw [hp]; rfl) (by rcases hst with ⟨rfl, -⟩ | ⟨rfl, -⟩ <;> simp) ?_
    rcases hst with ⟨rfl, hf⟩ | ⟨rfl, hf⟩
    · exact ⟨⟨ac, hac, hf, Nat.zero_le _⟩, fun i hi => (by cases hi), fun i hi => (by cases hi),
        fun i _ => hloc.2 i⟩
    · exact ⟨⟨ac, hac, hf, Nat.zero_le _⟩, fun i hi => (by cases hi), fun i _ => hloc.2 i⟩
  | @start p ac f hac hp hf hleaf =>
    have hloc := h.known hp
    exact h.put (by rw [hp]; rfl) (fun he => by cases he) ⟨⟨ac, f, hac, hf, hleaf⟩, hloc.2⟩
  | @unknown p ac msg hac hp hf =>
    have hloc := h.known hp
    refine h.put (by rw [hp]; rfl) (fun he => by cases he) ⟨ac, hac, fun i => ?_, fun ho => ?_⟩
    · rw [hloc.2 i]; rfl
    · rw [hf] at ho; cases ho
  | @finish p err hp =>
    obtain ⟨⟨ac, f, hac, hf, hleaf⟩, hidle⟩ := h.known hp
    refine h.put (by rw [hp]; rfl) (fun he => by cases he) ?_
    cases err with
    | none =>
      refine ⟨ac, hac, by rw [hf]; exact fun hno => (by cases hno), fun i => ?_⟩
      rw [children_of_leaf hf hleaf]
      exact hidle i
    | some err =>
      refine ⟨ac, hac, fun i => by rw [hidle i]; rfl, fun ho => ?_⟩
      rw [hf] at ho
      rw [Option.some.inj ho] at hleaf
      cases hleaf
  | @element p ac n hac hp hlast hn =>
    obtain ⟨⟨ac', hac', hf, -⟩, hbegun, hdone, hlater⟩ := h.known hp
    obtain rfl := Option.some.inj (hac.symm.trans hac')
    refine h.call (by rw [hp]; rfl) (hlater n (Nat.le_refl n)) (fun he => by cases he)
      (atPlace_child hac hn) ⟨⟨ac, hac, hf, hn⟩, fun i hi => ?_, fun i hi => ?_, fun i hi => ?_⟩
    · show (if i = n then Status.ready else s.calls (p ++ [i])) ≠ .idle
      split
      · exact fun he => by cases he
      · exact hbegun i (by omega)
    · exact (if_neg (by omega)).trans (returned_of_last hdone hlast (by omega))
    · exact (if_neg (by omega)).trans (hlater i (by omega))
  | @fail p n err hp hlast =>
    obtain ⟨⟨ac, hac, hf, hn⟩, -, hdone, hlater⟩ := h.known hp
    have hdone' : ∀ i, i < n → s.calls (p ++ [i]) = .returned none := fun i hi =>
      hdone i (Nat.succ_lt_succ hi)
    refine h.put (by rw [hp]; rfl) (fun he => by cases he)
      ⟨ac, hac, fun i => ?_, fun _ => ⟨n, err, hlast, hdone', fun i hi => hlater i hi⟩⟩
    show (s.calls (p ++ [i])).active = false
    rcases Nat.lt_trichotomy i n with hi | rfl | hi
    · rw [hdone' i hi]; rfl
    · rw [hlast]; rfl
    · exact congrArg Status.active (hlater i hi)
  | @complete p ac n hac hp hlast hn =>
    obtain ⟨⟨ac', hac', hf, hn'⟩, -, hdone, hlater⟩ := h.known hp
    obtain rfl := Option.some.inj (hac.symm.trans hac')
    refine h.put (by rw [hp]; rfl) (fun he => by cases he)
      ⟨ac, hac, by rw [hf]; exact fun hno => (by cases hno), fun i => ?_⟩
    split
    · next hi => exact returned_of_last hdone hlast (by omega)
    · next hi => exact hlater i (by omega)
  | @spawn p ac n err hac hp hn =>
    obtain ⟨⟨ac', hac', hf, -⟩, hbegun, hlater⟩ := h.known hp
    obtain rfl := Option.some.inj (hac.symm.trans hac')
    refine h.call (by rw [hp]; rfl) (hlater n (Nat.le_refl n)) (fun he => by cases he)
      (atPlace_child hac hn) ⟨⟨ac, hac, hf, hn⟩, fun i hi => ?_, fun i hi => ?_⟩
    · show (if i = n then Status.ready else s.calls (p ++ [i])) ≠ .idle
      split
      · exact fun he => by cases he
      · exact hbegun i (by omega)
    · exact (if_neg (by omega)).trans (hlater i (by omega))
  | @record p n i err hp hi hchild =>
    have hloc := h.known hp
    exact h.put (by rw [hp]; rfl) (fun he => by cases he) hloc
  | @wait p ac n err hac hp hn hjoined =>
    obtain ⟨⟨ac', hac', hf, hn'⟩, -, hlater⟩ := h.known hp
    obtain rfl := Option.some.inj (hac.symm.trans hac')
    rw [joined_iff] at hjoined
    refine h.put (by rw [hp]; rfl) (fun he => by cases he) ?_
    cases err with
    | none =>
      refine ⟨ac, hac, by rw [hf]; exact fun hno => (by cases hno), fun i => ?_⟩
      split
      · next hi =>
        obtain ⟨e, he, hnone⟩ := hjoined i (by omega)
        exact he.trans (congrArg Status.returned (hnone rfl))
      · next hi => exact hlater i (by omega)
    | some err =>
      refine ⟨ac, hac, fun i => ?_, fun ho => ?_⟩
      · rcases Nat.lt_or_ge i n with hi | hi
        · obtain ⟨e, he, -⟩ := hjoined i hi
          exact congrArg Status.active he
        · exact congrArg Status.active (hlater i hi)
      · rw [hf] at ho; cases ho

/-- `PerformActions` has been called. -/
theorem fits_initial (actions : List Action) : Fits (ordered actions) State.initial := by
  intro p
  have hchild : ∀ i, State.initial.calls (p ++ [i]) = .idle := fun i =>
    if_neg fun hnil => by simp at hnil
  show Local _ _ (if p = [] then .loop 0 else .idle)
  split
  · next hp =>
    subst hp
    exact ⟨⟨ordered actions, rfl, rfl, Nat.zero_le _⟩, fun i hi => (by cases hi),
      fun i hi => (by cases hi), fun i _ => hchild i⟩
  · exact hchild

/-! ## Below a call -/

/-- Below a call that has not been made. -/
theorem Fits.below_idle (h : Fits root s) (hp : s.calls p = .idle) (r : List Nat) :
    s.calls (p ++ r) = .idle := by
  induction r generalizing p with
  | nil => rw [List.append_nil]; exact hp
  | cons i r ih =>
    have hloc := h.known hp
    rw [List.append_cons]
    exact ih (hloc i)

/-- Below a call that has returned nothing is going on. -/
theorem Fits.below_returned (h : Fits root s) (hp : (s.calls p).active = false) (r : List Nat) :
    (s.calls (p ++ r)).active = false := by
  induction r generalizing p with
  | nil => rw [List.append_nil]; exact hp
  | cons i r ih =>
    rw [List.append_cons]
    have hloc := h p
    match hst : s.calls p with
    | .idle =>
      rw [hst] at hloc
      exact ih (congrArg Status.active (hloc i))
    | .returned none =>
      rw [hst] at hloc
      obtain ⟨a, -, -, hall⟩ := hloc
      exact ih ((congrArg Status.active (hall i)).trans (by split <;> rfl))
    | .returned (some err) =>
      rw [hst] at hloc
      obtain ⟨a, -, hall, -⟩ := hloc
      exact ih (hall i)
    | .ready | .running | .loop _ | .group _ _ => rw [hst] at hp; cases hp

/-- Below a call that has succeeded, everything has. -/
theorem Fits.below_nil (h : Fits root s) (hp : s.calls p = .returned none) {r : List Nat}
    (hr : (root.atPlace (p ++ r)).isSome = true) : s.calls (p ++ r) = .returned none := by
  induction r generalizing p with
  | nil => rw [List.append_nil]; exact hp
  | cons i r ih =>
    obtain ⟨a, ha, -, hall⟩ := h.known hp
    have hi : i < a.children.length := by
      rw [atPlace_append, ha, Option.bind_some, Action.atPlace] at hr
      by_contra hge
      rw [List.getElem?_eq_none (Nat.not_lt.1 hge)] at hr
      cases hr
    rw [List.append_cons] at hr ⊢
    exact ih ((hall i).trans (if_pos hi)) hr

end

/-! ## The history -/

open History

/-- The action at a place is a leaf. -/
def leafAt (root : Action) (p : List Nat) : Bool :=
  ((root.atPlace p).bind Action.func).any ActionFunc.leaf

/-- The action at a place performs its subactions one after the other. -/
def sequenceAt (root : Action) (p : List Nat) : Bool :=
  (root.atPlace p).bind Action.func == some .actionOrdered

/-- A leaf's function has been called. -/
def Status.begun : Status → Bool
  | .running | .returned _ => true
  | .idle | .ready | .loop _ | .group _ _ => false

/-- When a leaf starts, every leaf under an earlier element of a sequence has succeeded. -/
def Lawful (root : Action) (e : Event) (past : List Event) : Prop :=
  match e with
  | .started p => ∀ q i j r r', p = q ++ j :: r → sequenceAt root q = true → i < j →
      leafAt root (q ++ i :: r') = true → .returned (q ++ i :: r') none ∈ past
  | .returned _ _ => True

/-- The history tells of each call what its status says. -/
structure Logged (root : Action) (s : State) : Prop where
  started : ∀ p, s.history.count (.started p) =
    if leafAt root p = true ∧ (s.calls p).begun = true then 1 else 0
  returned : ∀ p err, s.history.count (.returned p err) =
    if s.calls p = .returned err then 1 else 0
  past : Always (Lawful root) s.history

section

variable {root : Action} {s s' : State} {p q r : List Nat} {n i j : Nat} {st : Status}

/-- What is logged has happened. -/
theorem Logged.of_started (h : Logged root s) (hmem : .started p ∈ s.history) :
    leafAt root p = true ∧ (s.calls p).begun = true := by
  by_contra hno
  have hcount := h.started p
  rw [if_neg hno] at hcount
  exact List.count_eq_zero.1 hcount hmem

theorem Logged.of_returned {err : Option String} (h : Logged root s) :
    .returned p err ∈ s.history ↔ s.calls p = .returned err := by
  rw [← List.count_pos_iff, h.returned]
  split
  · next hp => exact iff_of_true Nat.one_pos hp
  · next hp => exact iff_of_false (Nat.lt_irrefl 0) hp

/-- A leaf's place. -/
theorem leafAt_eq {a : Action} (ha : root.atPlace p = some a) :
    leafAt root p = a.func.any ActionFunc.leaf := by
  rw [leafAt, ha]
  rfl

theorem sequenceAt_iff {a : Action} (ha : root.atPlace p = some a) :
    sequenceAt root p = true ↔ a.func = some .actionOrdered := by
  rw [sequenceAt, ha]
  exact beq_iff_eq

/-- **In a sequence**, when something goes on under an element, the earlier ones have succeeded. -/
theorem Fits.earlier (h : Fits root s) (hactive : (s.calls (q ++ j :: r)).active = true)
    (hq : sequenceAt root q = true) (hij : i < j) : s.calls (q ++ [i]) = .returned none := by
  have hup : (s.calls q).active = true := by
    by_contra hno
    rw [h.below_returned (Bool.eq_false_iff.2 hno) (j :: r)] at hactive
    cases hactive
  have hj : s.calls (q ++ [j]) ≠ .idle := fun hidle => by
    rw [List.append_cons, h.below_idle hidle] at hactive
    cases hactive
  have hloc := h q
  match hst : s.calls q with
  | .idle | .returned _ => rw [hst] at hup; cases hup
  | .ready => rw [hst] at hloc; exact (hj (hloc.2 j)).elim
  | .running => rw [hst] at hloc; exact (hj (hloc.2 j)).elim
  | .loop n =>
    rw [hst] at hloc
    obtain ⟨-, -, hdone, hlater⟩ := hloc
    have hn : j < n := Nat.lt_of_not_le fun hle => hj (hlater j hle)
    exact hdone i (by omega)
  | .group n err =>
    rw [hst] at hloc
    obtain ⟨⟨a, ha, hf, -⟩, -⟩ := hloc
    rw [sequenceAt_iff ha, hf] at hq
    cases hq

/-- **In a sequence**, behind an element that has failed no call is made. -/
theorem Fits.later (h : Fits root s) {err : String}
    (hi : s.calls (q ++ [i]) = .returned (some err)) (hq : sequenceAt root q = true)
    (hij : i < j) : s.calls (q ++ [j]) = .idle := by
  have hloc := h q
  have hidle : s.calls (q ++ [i]) ≠ .idle := by rw [hi]; exact fun he => by cases he
  have hnil : s.calls (q ++ [i]) ≠ .returned none := by rw [hi]; exact fun he => by cases he
  match hst : s.calls q with
  | .idle => rw [hst] at hloc; exact (hidle (hloc i)).elim
  | .ready => rw [hst] at hloc; exact (hidle (hloc.2 i)).elim
  | .running => rw [hst] at hloc; exact (hidle (hloc.2 i)).elim
  | .loop n =>
    rw [hst] at hloc
    obtain ⟨-, -, hdone, hlater⟩ := hloc
    have hn : ¬ i + 1 < n := fun hlt => hnil (hdone i hlt)
    exact hlater j (by omega)
  | .group n err =>
    rw [hst] at hloc
    obtain ⟨⟨a, ha, hf, -⟩, -⟩ := hloc
    rw [sequenceAt_iff ha, hf] at hq
    cases hq
  | .returned none =>
    rw [hst] at hloc
    obtain ⟨a, -, -, hall⟩ := hloc
    have heq : s.calls (q ++ [i]) = _ := hall i
    split at heq
    · exact (hnil heq).elim
    · exact (hidle heq).elim
  | .returned (some _) =>
    rw [hst] at hloc
    obtain ⟨a, ha, -, hseq⟩ := hloc
    obtain ⟨n, err', -, hdone, hlater⟩ := hseq ((sequenceAt_iff ha).1 hq)
    rcases Nat.lt_or_ge i n with hlt | hge
    · exact (hnil (hdone i hlt)).elim
    · exact hlater j (by omega)

/-- **A leaf starts** with a lawful past. -/
theorem lawful_started (h : Fits root s) (hl : Logged root s) (hp : s.calls p = .ready) :
    Lawful root (.started p) s.history := by
  rintro q i j r r' rfl hq hij hleaf
  have hdone : s.calls (q ++ [i]) = .returned none :=
    h.earlier (by rw [hp]; rfl) hq hij
  have hplace : (root.atPlace (q ++ [i] ++ r')).isSome = true := by
    rw [← List.append_cons]
    cases hat : root.atPlace (q ++ i :: r') with
    | none => rw [leafAt, hat] at hleaf; cases hleaf
    | some a => rfl
  rw [hl.of_returned, List.append_cons]
  exact h.below_nil hdone hplace

/-- Nothing is logged of calls that neither begin as leaves nor return. -/
theorem Logged.quiet (h : Logged root s)
    (hbegun : ∀ q, leafAt root q = true → (s'.calls q).begun = (s.calls q).begun)
    (hret : ∀ q err, s'.calls q = .returned err ↔ s.calls q = .returned err)
    (hhist : s'.history = s.history) : Logged root s' where
  started p := by
    rw [hhist, h.started]
    exact if_congr (and_congr_right fun hleaf => by rw [hbegun p hleaf]) rfl rfl
  returned p err := by
    rw [hhist, h.returned]
    exact if_congr (hret p err).symm rfl rfl
  past := hhist ▸ h.past

/-- A call that is not a leaf's moves on. -/
theorem Logged.put (h : Logged root s) (hp : (s.calls p).active = true)
    (hst : st.active = true) (hleaf : leafAt root p = false) : Logged root (s.put p st) := by
  refine h.quiet (fun q hq => ?_) (fun q err => ?_) rfl
  · rw [put_ne]
    rintro rfl
    rw [hleaf] at hq
    cases hq
  · by_cases hq : q = p
    · subst hq
      rw [put_self]
      exact iff_of_false (fun he => by rw [he] at hst; cases hst)
        fun he => by rw [he] at hp; cases hp
    · rw [put_ne hq]

/-- It performs a subaction. -/
theorem Logged.call (h : Logged root s) (hp : (s.calls p).active = true)
    (hst : st.active = true) (hleaf : leafAt root p = false)
    (hidle : s.calls (p ++ [n]) = .idle) : Logged root (s.call p st n) := by
  have hready : Logged root (s.put (p ++ [n]) .ready) := by
    refine h.quiet (fun q _ => ?_) (fun q err => ?_) rfl
    · by_cases hq : q = p ++ [n]
      · rw [hq, put_self, hidle]; rfl
      · rw [put_ne hq]
    · by_cases hq : q = p ++ [n]
      · rw [hq, put_self, hidle]
        exact iff_of_false (fun he => by cases he) fun he => by cases he
      · rw [put_ne hq]
  exact hready.put (by rw [put_ne append_singleton_ne.symm]; exact hp) hst hleaf

/-- **A call returns.** -/
theorem Logged.ret {err : Option String} (h : Logged root s) (hp : (s.calls p).active = true)
    (hbegun : leafAt root p = true → (s.calls p).begun = true) : Logged root (s.ret p err) where
  started q := by
    show List.count _ (_ :: _) = _
    rw [List.count_cons_of_ne (by simp), h.started]
    refine if_congr (and_congr_right fun hleaf => ?_) rfl rfl
    by_cases hq : q = p
    · subst hq
      exact iff_of_true (hbegun hleaf) (by rw [State.ret]; simp [State.put, Status.begun])
    · show _ ↔ ((s.put p (.returned err)).calls q).begun = true
      rw [put_ne hq]
  returned q err' := by
    show List.count _ (_ :: _) = if (s.put p (.returned err)).calls q = _ then 1 else 0
    rw [List.count_cons, h.returned]
    by_cases hq : q = p
    · subst hq
      have hno : s.calls q ≠ .returned err' := fun he => by rw [he] at hp; cases hp
      rw [put_self, if_neg hno]
      by_cases he : err = err' <;> simp [he]
    · rw [put_ne hq]
      simp [Ne.symm hq]
  past := ⟨trivial, h.past⟩

/-- **A leaf starts.** -/
theorem Logged.start (h : Logged root s) (hf : Fits root s) (hp : s.calls p = .ready)
    (hleaf : leafAt root p = true) :
    Logged root { s.put p .running with history := .started p :: s.history } where
  started q := by
    show List.count _ (_ :: _) = if _ ∧ ((s.put p .running).calls q).begun = true then 1 else 0
    rw [List.count_cons, h.started]
    by_cases hq : q = p
    · subst hq
      rw [put_self, hp]
      simp [hleaf, Status.begun]
    · rw [put_ne hq]
      simp [Ne.symm hq]
  returned q err := by
    show List.count _ (_ :: _) = if (s.put p .running).calls q = _ then 1 else 0
    rw [List.count_cons_of_ne (by simp), h.returned]
    by_cases hq : q = p
    · subst hq
      rw [put_self, hp]
      simp
    · rw [put_ne hq]
  past := ⟨lawful_started hf h hp, h.past⟩

/-- **Each step** keeps the history right. -/
theorem Logged.next (h : Logged root s) (hf : Fits root s) (hs : Next root s s') :
    Logged root s' := by
  have hcomposite : ∀ {p st}, s.calls p = st →
      ((∃ n, st = .loop n) ∨ ∃ n err, st = .group n err) → leafAt root p = false := by
    rintro p st hp hst
    have hloc := hf.known hp
    rcases hst with ⟨n, rfl⟩ | ⟨n, err, rfl⟩ <;> obtain ⟨⟨a, ha, hfunc, -⟩, -⟩ := hloc <;>
      rw [leafAt_eq ha, hfunc] <;> rfl
  cases hs with
  | @enter p ac st hac hp hst =>
    refine h.put (by rw [hp]; rfl) ?_ ?_
    · rcases hst with ⟨rfl, -⟩ | ⟨rfl, -⟩ <;> rfl
    · rw [leafAt_eq hac]
      rcases hst with ⟨-, hfunc⟩ | ⟨-, hfunc⟩ <;> rw [hfunc] <;> rfl
  | start hac hp hfunc hleaf =>
    refine h.start hf hp ?_
    rw [leafAt_eq hac, hfunc]
    exact hleaf
  | unknown hac hp hfunc =>
    refine h.ret (by rw [hp]; rfl) fun hleaf => ?_
    rw [leafAt_eq hac, hfunc] at hleaf
    cases hleaf
  | finish hp => exact h.ret (by rw [hp]; rfl) fun _ => by rw [hp]; rfl
  | @element p ac n hac hp hlast hn =>
    have hloc := hf.known hp
    exact h.call (by rw [hp]; rfl) rfl (hcomposite hp (.inl ⟨n, rfl⟩))
      (hloc.2.2.2 n (Nat.le_refl n))
  | @fail p n err hp hlast =>
    refine h.ret (by rw [hp]; rfl) fun hleaf => ?_
    rw [hcomposite hp (.inl ⟨n + 1, rfl⟩)] at hleaf
    cases hleaf
  | @complete p ac n hac hp hlast hn =>
    refine h.ret (by rw [hp]; rfl) fun hleaf => ?_
    rw [hcomposite hp (.inl ⟨n, rfl⟩)] at hleaf
    cases hleaf
  | @spawn p ac n err hac hp hn =>
    have hloc := hf.known hp
    exact h.call (by rw [hp]; rfl) rfl (hcomposite hp (.inr ⟨n, err, rfl⟩))
      (hloc.2.2 n (Nat.le_refl n))
  | @record p n i err hp hi hchild =>
    exact h.put (by rw [hp]; rfl) rfl (hcomposite hp (.inr ⟨n, none, rfl⟩))
  | @wait p ac n err hac hp hn hjoined =>
    refine h.ret (by rw [hp]; rfl) fun hleaf => ?_
    rw [hcomposite hp (.inr ⟨n, err, rfl⟩)] at hleaf
    cases hleaf

/-- `PerformActions` has been called. -/
theorem logged_initial (actions : List Action) : Logged (ordered actions) State.initial where
  started p := by
    refine (if_neg ?_).symm
    rintro ⟨-, hbegun⟩
    by_cases hp : p = [] <;> simp [State.initial, hp, Status.begun] at hbegun
  returned p err := by
    refine (if_neg ?_).symm
    intro he
    by_cases hp : p = [] <;> simp [State.initial, hp] at he
  past := trivial

end

end UAssign.Specbuild

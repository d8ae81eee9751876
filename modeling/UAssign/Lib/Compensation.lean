import Mathlib

/-!
# Programs that fail and compensate

A program of `EStateM ε σ` keeps the state it has reached when it fails, so that what runs next can
undo what was done. `onError` undoes and fails on, `logged` goes on whatever comes of a call,
`closing` is a deferred call whose error counts only if there is no other. `Ends` says how a program
ends, with a postcondition for each way, and has one rule for each construct.
-/

namespace UAssign

variable {ε σ α β : Type}

/-- The program; if it fails, `undo` runs, and the error stays. -/
def onError (m : EStateM ε σ α) (undo : EStateM ε σ Unit) : EStateM ε σ α := fun s =>
  match m s with
  | .ok a s' => .ok a s'
  | .error e s' =>
    match undo s' with
    | .ok _ s'' => .error e s''
    | .error _ s'' => .error e s''

/-- The program; its error is only logged. -/
def logged (m : EStateM ε σ Unit) : EStateM ε σ Unit := fun s =>
  match m s with
  | .ok _ s' => .ok () s'
  | .error _ s' => .ok () s'

/-- The program, with a deferred call whose error is returned if there is no other. -/
def closing (m : EStateM ε σ α) (close : EStateM ε σ Unit) : EStateM ε σ α := fun s =>
  match m s with
  | .ok a s' =>
    match close s' with
    | .ok _ s'' => .ok a s''
    | .error e s'' => .error e s''
  | .error e s' =>
    match close s' with
    | .ok _ s'' => .error e s''
    | .error _ s'' => .error e s''

/-- Started in `s`, the program returns with `P` or fails with `Q`. -/
def Ends (m : EStateM ε σ α) (s : σ) (P : α → σ → Prop) (Q : ε → σ → Prop) : Prop :=
  match m s with
  | .ok a s' => P a s'
  | .error e s' => Q e s'

namespace Ends

variable {m : EStateM ε σ α} {f : α → EStateM ε σ β} {undo close : EStateM ε σ Unit} {s : σ}
  {P A : α → σ → Prop} {R : β → σ → Prop} {Q B : ε → σ → Prop}

/-- Weaker postconditions. -/
theorem mono (h : Ends m s P Q) (hP : ∀ a s', P a s' → A a s') (hQ : ∀ e s', Q e s' → B e s') :
    Ends m s A B := by
  unfold Ends at *
  cases hm : m s with
  | ok a s' => rw [hm] at h; exact hP a s' h
  | error e s' => rw [hm] at h; exact hQ e s' h

/-- What a program returns. -/
theorem pure {a : α} (h : P a s) : Ends (pure a) s P Q := h

/-- What a program fails with. -/
theorem throw {e : ε} (h : Q e s) : Ends (throw e : EStateM ε σ α) s P Q := h

/-- An update of the state. -/
theorem modify {g : σ → σ} {R : Unit → σ → Prop} (h : R () (g s)) :
    Ends (modify g : EStateM ε σ Unit) s R Q := h

/-- A look at the state. -/
theorem get {f : σ → EStateM ε σ β} (h : Ends (f s) s R Q) :
    Ends (MonadState.get >>= f) s R Q := h

/-- **Composition.** -/
theorem bind (h : Ends m s P Q) (hf : ∀ a s', P a s' → Ends (f a) s' R Q) :
    Ends (m >>= f) s R Q := by
  have hb : (m >>= f) s = match m s with
      | .ok a s' => f a s'
      | .error e s' => .error e s' := rfl
  unfold Ends at h ⊢
  rw [hb]
  cases hm : m s with
  | ok a s' => rw [hm] at h; exact hf a s' h
  | error e s' => rw [hm] at h; exact h

/-- A program that fails undoes first. -/
theorem onError (h : Ends m s P B)
    (hu : ∀ e s', B e s' → Ends undo s' (fun _ => Q e) fun _ => Q e) :
    Ends (UAssign.onError m undo) s P Q := by
  unfold Ends UAssign.onError at *
  cases hm : m s with
  | ok a s' => rw [hm] at h; exact h
  | error e s' =>
    rw [hm] at h
    have := hu e s' h
    cases hs : undo s' <;> simp only [hs] at this ⊢ <;> exact this

/-- A logged error is none. -/
theorem logged {m : EStateM ε σ Unit} {R : Unit → σ → Prop} (h : Ends m s R fun _ => R ()) :
    Ends (UAssign.logged m) s R Q := by
  unfold Ends UAssign.logged at *
  cases hm : m s <;> rw [hm] at h <;> exact h

/-- A program with a deferred call. -/
theorem closing (h : Ends m s A B)
    (hc : ∀ a s', A a s' → Ends close s' (fun _ => P a) Q)
    (he : ∀ e s', B e s' → Ends close s' (fun _ => Q e) fun _ => Q e) :
    Ends (UAssign.closing m close) s P Q := by
  unfold Ends UAssign.closing at *
  cases hm : m s with
  | ok a s' =>
    rw [hm] at h
    have := hc a s' h
    cases hs : close s' <;> simp only [hs] at this ⊢ <;> exact this
  | error e s' =>
    rw [hm] at h
    have := he e s' h
    cases hs : close s' <;> simp only [hs] at this ⊢ <;> exact this

end Ends
end UAssign

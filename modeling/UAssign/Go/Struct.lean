import Mathlib.Data.List.Nodup
import Mathlib.Logic.Function.Basic

/-!
# `encoding/json`: reading structs

`Unmarshal` takes the members of an object as they come, and decodes the value of each into the
field that its name stands for, if there is one. Where no two members stand for the same field, this
is the same as looking for the member of each field (`decodeMembers_eq`): neither the order of the
members nor those that stand for no field make a difference.
-/

namespace UAssign.Json

/-- A type of structs, with its fields: their types, what they are, how they are set, and how a
struct is put together of all of them. -/
structure StructType (F A : Type) where
  type : F → Type
  field : (f : F) → A → type f
  put : (f : F) → A → type f → A
  assemble : ((f : F) → Option (type f)) → Option A
  field_put : ∀ f a x, field f (put f a x) = x
  field_put_ne : ∀ f g a x, g ≠ f → field g (put f a x) = field g a
  assemble_field : ∀ a, assemble (fun f => some (field f a)) = some a
  assemble_none : ∀ fields f, fields f = none → assemble fields = none

section

variable {α β : Type}

theorem map_none (g : α → β) : g <$> (none : Option α) = none := rfl

theorem none_seq (x : Option α) : (none : Option (α → β)) <*> x = none := rfl

theorem seq_none (g : Option (α → β)) : g <*> (none : Option α) = none := by cases g <;> rfl

end

namespace StructType

variable {F A K V : Type} [DecidableEq F] (S : StructType F A)
  (decode : (f : F) → S.type f → V → Option (S.type f)) (find : K → Option F)

/-- A value into a field. -/
def set (a : A) (f : F) (v : V) : Option A := (decode f (S.field f a) v).map (S.put f a)

/-- The members of an object into a struct. -/
def decodeMembers (a : A) : List (K × V) → Option A
  | [] => some a
  | (k, v) :: members =>
    match find k with
    | none => decodeMembers a members
    | some f => (S.set decode a f v).bind fun a => decodeMembers a members

/-- A struct, of the values for its fields; a field without one stays as it is. -/
def ofFields (get : F → Option V) (a : A) : Option A :=
  S.assemble fun f =>
    match get f with
    | none => some (S.field f a)
    | some v => decode f (S.field f a) v

omit S decode in
/-- The value of a field's member, if there is one. -/
def lookup (f : F) : List (K × V) → Option V
  | [] => none
  | (k, v) :: members => if find k = some f then some v else lookup f members

variable {S decode find} {a : A} {f : F} {v : V} {get : F → Option V} {members : List (K × V)}

/-- **The value for a field may be decoded first**, if there is no other one. -/
theorem ofFields_update (h : get f = none) : S.ofFields decode (Function.update get f (some v)) a =
    (S.set decode a f v).bind (S.ofFields decode get) := by
  unfold set ofFields
  cases hdecode : decode f (S.field f a) v with
  | none =>
    refine S.assemble_none _ f ?_
    simp only [Function.update_self, hdecode]
  | some x =>
    refine congrArg S.assemble (funext fun g => ?_)
    by_cases hg : g = f
    · subst hg
      simp only [Function.update_self, hdecode, h, S.field_put]
    · simp only [Function.update_of_ne hg, S.field_put_ne f g a x hg]

omit S decode in
/-- A field that no member stands for has no value. -/
theorem lookup_eq_none (h : f ∉ members.filterMap fun m => find m.1) :
    lookup find f members = none := by
  induction members with
  | nil => rfl
  | cons m members ih =>
    obtain ⟨k, v⟩ := m
    rw [List.mem_filterMap, not_exists] at h
    have hk : find k ≠ some f := fun hk => h (k, v) ⟨List.mem_cons_self, hk⟩
    rw [lookup, if_neg hk]
    refine ih fun hmem => ?_
    obtain ⟨m, hm, hfind⟩ := List.mem_filterMap.1 hmem
    exact h m ⟨List.mem_cons_of_mem _ hm, hfind⟩

/-- **Members that stand for different fields** may be taken as they come, or looked for. -/
theorem decodeMembers_eq (h : (members.filterMap fun m => find m.1).Nodup) :
    S.decodeMembers decode find a members =
      S.ofFields decode (fun f => lookup find f members) a := by
  induction members generalizing a with
  | nil => exact (S.assemble_field a).symm
  | cons m members ih =>
    obtain ⟨k, v⟩ := m
    rw [List.filterMap_cons] at h
    cases hk : find k with
    | none =>
      rw [hk] at h
      simp only [decodeMembers, lookup, hk, reduceCtorEq, if_false]
      exact ih h
    | some f =>
      rw [hk] at h
      obtain ⟨hf, hmembers⟩ := List.nodup_cons.1 h
      have hget : (fun g => lookup find g ((k, v) :: members)) =
          Function.update (fun g => lookup find g members) f (some v) := by
        funext g
        by_cases hg : g = f
        · subst hg
          rw [lookup, if_pos hk, Function.update_self]
        · have hne : find k ≠ some g := fun hfind => hg (Option.some.inj (hfind.symm.trans hk))
          rw [lookup, if_neg hne, Function.update_of_ne hg]
      rw [hget, @ofFields_update _ _ _ _ S decode a f v (fun g => lookup find g members)
        (lookup_eq_none hf)]
      simp only [decodeMembers, hk]
      exact congrArg _ (funext fun a => ih hmembers)

omit S decode in
/-- The member of a field is found in any order. -/
theorem lookup_perm {members' : List (K × V)}
    (h : (members.filterMap fun m => find m.1).Nodup) (hperm : members.Perm members') :
    lookup find f members = lookup find f members' := by
  induction hperm with
  | nil => rfl
  | cons m _ ih =>
    have htail := ih (h.sublist ((List.sublist_cons_self _ _).filterMap _))
    rw [lookup, lookup, htail]
  | swap m m' members =>
    obtain ⟨k, v⟩ := m
    obtain ⟨k', v'⟩ := m'
    simp only [lookup]
    by_cases hk : find k = some f
    · have hk' : find k' ≠ some f := by
        intro hk'
        rw [List.filterMap_cons, hk', List.filterMap_cons, hk] at h
        exact (List.nodup_cons.1 h).1 List.mem_cons_self
      rw [if_neg hk', if_pos hk, if_pos hk]
    · rw [if_neg hk, if_neg hk]
  | trans hperm _ ih ih' => exact (ih h).trans (ih' ((hperm.filterMap _).nodup_iff.1 h))

/-- **The order of the members makes no difference.** -/
theorem decodeMembers_perm {members' : List (K × V)}
    (h : (members.filterMap fun m => find m.1).Nodup) (hperm : members.Perm members') :
    S.decodeMembers decode find a members = S.decodeMembers decode find a members' := by
  rw [decodeMembers_eq h, decodeMembers_eq ((hperm.filterMap _).nodup_iff.1 h)]
  exact congrArg (fun get => S.ofFields decode get a) (funext fun f => lookup_perm h hperm)

end StructType

end UAssign.Json

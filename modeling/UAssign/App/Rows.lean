import UAssign.App.Steps

/-!
# Rows only move forward

Every goroutine writes from a copy that may be stale, but each update names its columns: `active` is
only written as false, `cleaned` only as true and together with `active`, and only once Docker has
said that the container is gone. `Wf` is what all runs keep, whatever fails; `Forward` is what they
do to the rows (`rows_forward`).
-/

namespace UAssign.App

open Expire

/-! ## The invariant -/

/-- The columns that no update names are the same. -/
structure Instance.SameRow (r c : Instance) : Prop where
  id : r.id = c.id
  spec : r.spec = c.spec
  imageID : r.imageID = c.imageID
  containerID : r.containerID = c.containerID

/-- The copies a goroutine holds. -/
def Proc.copies : Proc → List Instance
  | .upgrade inst => [inst]
  | .handler _ inst => [inst]
  | .expiring todo => todo
  | .cleaning _ todo => todo
  | _ => []

/-- The copies that a pass has still to work on. -/
def Proc.pending : Proc → List Instance
  | .expiring todo => todo
  | .cleaning _ todo => todo
  | _ => []

/-- The container a clean-up knows to be gone. -/
def Proc.gone : Proc → Option Nat
  | .cleaning .image (r :: _) => some r.containerID
  | .cleaning .mark (r :: _) => some r.containerID
  | _ => none

/-- The container of an instance that is being created. -/
def Proc.building : Proc → Option Nat
  | .request _ _ (.setup _ c) => some c
  | .request _ _ (.transact _ c _) => some c
  | _ => none

/-- What holds of the database and of Docker. -/
structure RowsOk (w : World) : Prop where
  unique : ∀ r ∈ w.instances, ∀ r' ∈ w.instances, r.id = r'.id → r = r'
  owner : ∀ r ∈ w.instances, ∀ r' ∈ w.instances, r.containerID = r'.containerID → r = r'
  created : ∀ r ∈ w.instances, r.containerID ∈ w.everCreated
  existing : ∀ c ∈ w.containers, c ∈ w.everCreated
  cleaned : ∀ r ∈ w.instances, r.cleaned = true → r.active = false ∧ r.containerID ∉ w.containers

/-- What holds of a goroutine. -/
structure ProcOk (w : World) (p : Proc) : Prop where
  copies : ∀ c ∈ p.copies, ∃ r ∈ w.instances, r.SameRow c
  gone : ∀ c, p.gone = some c → c ∉ w.containers
  building : ∀ c, p.building = some c →
    c ∈ w.everCreated ∧ ∀ r ∈ w.instances, r.containerID ≠ c

/-- What all runs keep. -/
structure Wf (w : World) : Prop where
  rows : RowsOk w
  procs : ∀ tid, ProcOk w (w.procs tid)
  apart : ∀ tid tid' c, (w.procs tid).building = some c → (w.procs tid').building = some c →
    tid = tid'

/-! ## What effects keep -/

/-- What a step must see to before an effect. -/
def Effect.Ok (w : World) (p : Proc) : Effect → Prop
  | .insertInstance r => (∀ r' ∈ w.instances, r'.id ≠ r.id) ∧ p.building = some r.containerID ∧
      r.cleaned = false
  | .update copy cols => (∃ r ∈ w.instances, r.SameRow copy) ∧
      (.active ∈ cols → copy.active = false) ∧
      (.cleaned ∈ cols → .active ∈ cols ∧ copy.cleaned = true ∧ copy.containerID ∉ w.containers)
  | .create c => c ∉ w.everCreated
  | _ => True

/-- What an update does to the columns. -/
theorem setColumns_spec (row copy : Instance) (cols : List Column) :
    (row.setColumns copy cols).SameRow row ∧
    (row.setColumns copy cols).active = (if .active ∈ cols then copy.active else row.active) ∧
    (row.setColumns copy cols).cleaned =
      (if .cleaned ∈ cols then copy.cleaned else row.cleaned) ∧
    (row.setColumns copy cols).expiresAt =
      (if .expiresAt ∈ cols then copy.expiresAt else row.expiresAt) := by
  induction cols generalizing row with
  | nil => exact ⟨⟨rfl, rfl, rfl, rfl⟩, rfl, rfl, rfl⟩
  | cons c cols ih =>
    obtain ⟨⟨h₁, h₂, h₃, h₄⟩, h₅, h₆, h₇⟩ := ih (row.setColumn copy c)
    have hsame : (row.setColumn copy c).SameRow row := by cases c <;> exact ⟨rfl, rfl, rfl, rfl⟩
    refine ⟨⟨h₁.trans hsame.id, h₂.trans hsame.spec, h₃.trans hsame.imageID,
      h₄.trans hsame.containerID⟩, ?_, ?_, ?_⟩
    · refine h₅.trans ?_
      cases c <;> by_cases h : Column.active ∈ cols <;> simp [h, Instance.setColumn]
    · refine h₆.trans ?_
      cases c <;> by_cases h : Column.cleaned ∈ cols <;> simp [h, Instance.setColumn]
    · refine h₇.trans ?_
      cases c <;> by_cases h : Column.expiresAt ∈ cols <;> simp [h, Instance.setColumn]

/-- The rows of the first world are still there in the second one, no further back. -/
def Forward (w w' : World) : Prop :=
  ∀ r ∈ w.instances, ∃ r' ∈ w'.instances, r'.SameRow r ∧
    (r.active = false → r'.active = false) ∧ (r.cleaned = true → r'.cleaned = true)

/-- What a step leaves to the other goroutines: the rows have moved forward, and no container has
come back. -/
structure Later (w w' : World) : Prop where
  rows : Forward w w'
  created : ∀ c ∈ w.everCreated, c ∈ w'.everCreated
  containers : ∀ c ∈ w.everCreated, c ∈ w'.containers → c ∈ w.containers

section

variable {w w' w'' : World} {r c : Instance} {p : Proc} {eff : Effect} {tid : Nat}

theorem Instance.SameRow.refl (r : Instance) : r.SameRow r := ⟨rfl, rfl, rfl, rfl⟩

theorem Instance.SameRow.trans {d : Instance} (h : r.SameRow c) (h' : c.SameRow d) :
    r.SameRow d :=
  ⟨h.id.trans h'.id, h.spec.trans h'.spec, h.imageID.trans h'.imageID,
    h.containerID.trans h'.containerID⟩

theorem Forward.refl (w : World) : Forward w w :=
  fun r hr => ⟨r, hr, .refl r, id, id⟩

theorem Forward.trans (h : Forward w w') (h' : Forward w' w'') : Forward w w'' := by
  intro r hr
  obtain ⟨r', hr', hs, ha, hc⟩ := h r hr
  obtain ⟨r'', hr'', hs', ha', hc'⟩ := h' r' hr'
  exact ⟨r'', hr'', hs'.trans hs, fun h => ha' (ha h), fun h => hc' (hc h)⟩

/-- An effect that leaves the database alone and adds no container. -/
theorem later_of_eq (hi : w'.instances = w.instances) (he : w'.everCreated = w.everCreated)
    (hc : ∀ c ∈ w'.containers, c ∈ w.containers) : Later w w' := by
  refine ⟨?_, fun c h => he ▸ h, fun c _ h => hc c h⟩
  intro r hr
  exact ⟨r, hi ▸ hr, .refl r, id, id⟩

/-- The rows keep what holds of them under such an effect. -/
theorem RowsOk.of_eq (h : RowsOk w) (hi : w'.instances = w.instances)
    (he : w'.everCreated = w.everCreated) (hc : ∀ c ∈ w'.containers, c ∈ w.containers) :
    RowsOk w' := by
  refine ⟨hi ▸ h.unique, hi ▸ h.owner, hi ▸ he ▸ h.created, fun c hmem => ?_, fun r hr hcl => ?_⟩
  · rw [he]; exact h.existing c (hc c hmem)
  · rw [hi] at hr
    exact ⟨(h.cleaned r hr hcl).1, fun hmem => (h.cleaned r hr hcl).2 (hc _ hmem)⟩

/-- A row after an update. -/
theorem mem_update {copy : Instance} {cols : List Column} :
    r ∈ (w.apply tid (.update copy cols)).instances ↔
      ∃ x ∈ w.instances, r = if x.id = copy.id then x.setColumns copy cols else x := by
  simp only [World.apply, List.mem_map, eq_comm]

/-- An updated row is the row it was. -/
theorem sameRow_update {copy x : Instance} {cols : List Column} :
    (if x.id = copy.id then x.setColumns copy cols else x).SameRow x := by
  split
  · exact (setColumns_spec x copy cols).1
  · exact .refl x

/-- The row of a copy is the only one that an update of the copy changes. -/
theorem RowsOk.row_of_copy {x copy : Instance} (h : RowsOk w) (hx : x ∈ w.instances)
    (hcopy : ∃ r ∈ w.instances, r.SameRow copy) (hid : x.id = copy.id) : x.SameRow copy := by
  obtain ⟨r, hr, hs⟩ := hcopy
  rw [h.unique x hx r hr (hid.trans hs.id.symm)]
  exact hs

/-- **Updates** move the rows forward. -/
theorem RowsOk.update {copy : Instance} {cols : List Column} (h : RowsOk w)
    (hok : Effect.Ok w p (.update copy cols)) :
    RowsOk (w.apply tid (.update copy cols)) ∧ Later w (w.apply tid (.update copy cols)) := by
  obtain ⟨hcopy, hactive, hcleaned⟩ := hok
  refine ⟨⟨?_, ?_, ?_, h.existing, ?_⟩, ?_, fun _ => id, fun _ _ => id⟩
  · intro r hr r' hr' hid
    obtain ⟨x, hx, rfl⟩ := mem_update.1 hr
    obtain ⟨x', hx', rfl⟩ := mem_update.1 hr'
    rw [sameRow_update.id, sameRow_update.id] at hid
    rw [h.unique x hx x' hx' hid]
  · intro r hr r' hr' hid
    obtain ⟨x, hx, rfl⟩ := mem_update.1 hr
    obtain ⟨x', hx', rfl⟩ := mem_update.1 hr'
    rw [sameRow_update.containerID, sameRow_update.containerID] at hid
    rw [h.owner x hx x' hx' hid]
  · intro r hr
    obtain ⟨x, hx, rfl⟩ := mem_update.1 hr
    rw [sameRow_update.containerID]
    exact h.created x hx
  · intro r hr hcl
    obtain ⟨x, hx, rfl⟩ := mem_update.1 hr
    rw [sameRow_update.containerID]
    show _ ∧ x.containerID ∉ w.containers
    split at hcl
    · next hid =>
      rw [if_pos hid]
      obtain ⟨-, ha, hc, -⟩ := setColumns_spec x copy cols
      rw [hc] at hcl
      rw [ha]
      split at hcl
      · next hmem =>
        obtain ⟨hmem', -, hgone⟩ := hcleaned hmem
        rw [if_pos hmem', hactive hmem', (h.row_of_copy hx hcopy hid).containerID]
        exact ⟨rfl, hgone⟩
      · obtain ⟨h₁, h₂⟩ := h.cleaned x hx hcl
        refine ⟨?_, h₂⟩
        split
        · next hmem' => exact hactive hmem'
        · exact h₁
    · next hid =>
      rw [if_neg hid]
      exact h.cleaned x hx hcl
  · intro r hr
    refine ⟨_, mem_update.2 ⟨r, hr, rfl⟩, sameRow_update, fun ha => ?_, fun hc => ?_⟩
    · split
      · rw [(setColumns_spec r copy cols).2.1]
        split
        · next hmem => exact hactive hmem
        · exact ha
      · exact ha
    · split
      · rw [(setColumns_spec r copy cols).2.2.1]
        split
        · next hmem => exact (hcleaned hmem).2.1
        · exact hc
      · exact hc

/-- **A new row** changes no other. -/
theorem RowsOk.insert (h : RowsOk w) (hp : ProcOk w p) (hok : Effect.Ok w p (.insertInstance r)) :
    RowsOk (w.apply tid (.insertInstance r)) ∧ Later w (w.apply tid (.insertInstance r)) := by
  obtain ⟨hid, hbuild, hclean⟩ := hok
  obtain ⟨hcreated, hother⟩ := hp.building _ hbuild
  have hmem : ∀ x, x ∈ (w.apply tid (.insertInstance r)).instances ↔ x ∈ w.instances ∨ x = r := by
    intro x
    simp [World.apply]
  refine ⟨⟨?_, ?_, ?_, h.existing, ?_⟩, fun x hx => ?_, fun _ => id, fun _ _ => id⟩
  · intro x hx y hy hxy
    rcases (hmem x).1 hx with hx' | hx' <;> rcases (hmem y).1 hy with hy' | hy'
    · exact h.unique x hx' y hy' hxy
    · exact (hid x hx' (hy' ▸ hxy)).elim
    · exact (hid y hy' (hx' ▸ hxy.symm)).elim
    · rw [hx', hy']
  · intro x hx y hy hxy
    rcases (hmem x).1 hx with hx' | hx' <;> rcases (hmem y).1 hy with hy' | hy'
    · exact h.owner x hx' y hy' hxy
    · exact (hother x hx' (hy' ▸ hxy)).elim
    · exact (hother y hy' (hx' ▸ hxy.symm)).elim
    · rw [hx', hy']
  · intro x hx
    rcases (hmem x).1 hx with hx | rfl
    · exact h.created x hx
    · exact hcreated
  · intro x hx hcl
    rcases (hmem x).1 hx with hx | rfl
    · exact h.cleaned x hx hcl
    · rw [hclean] at hcl; cases hcl
  · exact ⟨x, (hmem x).2 (.inl hx), .refl x, id, id⟩

/-- **A new container** is no one's yet. -/
theorem RowsOk.create {c : Nat} (h : RowsOk w) (hc : c ∉ w.everCreated) :
    RowsOk (w.apply tid (.create c)) ∧ Later w (w.apply tid (.create c)) := by
  refine ⟨⟨h.unique, h.owner, fun r hr => List.mem_cons_of_mem _ (h.created r hr), ?_, ?_⟩,
    .refl w, fun d hd => List.mem_cons_of_mem _ hd, fun d hd hmem => ?_⟩
  · intro d hd
    rcases List.mem_cons.1 hd with rfl | hd
    · exact List.mem_cons_self
    · exact List.mem_cons_of_mem _ (h.existing d hd)
  · intro r hr hcl
    obtain ⟨h₁, h₂⟩ := h.cleaned r hr hcl
    refine ⟨h₁, fun hmem => ?_⟩
    rcases List.mem_cons.1 hmem with heq | hmem
    · exact hc (heq ▸ h.created r hr)
    · exact h₂ hmem
  · rcases List.mem_cons.1 hmem with rfl | hmem
    · exact (hc hd).elim
    · exact hmem

/-- **Every effect** keeps what holds of the rows and moves them forward. -/
theorem RowsOk.apply (h : RowsOk w) (hp : ProcOk w p) (hok : eff.Ok w p) :
    RowsOk (w.apply tid eff) ∧ Later w (w.apply tid eff) := by
  have same : ∀ {w' : World}, w'.instances = w.instances → w'.everCreated = w.everCreated →
      (∀ c ∈ w'.containers, c ∈ w.containers) → RowsOk w' ∧ Later w w' :=
    fun hi he hc => ⟨h.of_eq hi he hc, later_of_eq hi he hc⟩
  cases eff with
  | update copy cols => exact h.update hok
  | insertInstance r => exact h.insert hp hok
  | create c => exact h.create hok
  | remove c => exact same rfl rfl fun d hd => (List.mem_filter.1 hd).1
  | _ => exact same rfl rfl fun _ => id

end

/-! ## What goroutines keep -/

section

variable {cfg : Config} {w w' : World} {tid : Nat} {e : Event} {eff : Effect} {p p' : Proc}

/-- What a goroutine is going to do is in order. -/
theorem Next.ok (hn : Next cfg w tid e p eff p') (h : ProcOk w p) : eff.Ok w p := by
  -- an update of a copy that the goroutine holds, changed in these columns only
  have hupdate : ∀ {inst copy : Instance} {cols : List Column}, inst ∈ p.copies →
      update copy cols e = some eff → inst.SameRow copy →
      (.active ∈ cols → copy.active = false) →
      (.cleaned ∈ cols → .active ∈ cols ∧ copy.cleaned = true ∧
        copy.containerID ∉ w.containers) → eff.Ok w p := by
    intro inst copy cols hmem hu hsame ha hc
    obtain ⟨r, hr, hs⟩ := h.copies inst hmem
    rcases update_cases hu with rfl | ⟨rfl, -⟩
    · exact ⟨⟨r, hr, hs.trans hsame⟩, ha, hc⟩
    · trivial
  cases hn with
  | clear hu =>
    exact hupdate List.mem_cons_self hu ⟨rfl, rfl, rfl, rfl⟩ (by simp) (by simp)
  | renew hu =>
    exact hupdate List.mem_cons_self hu ⟨rfl, rfl, rfl, rfl⟩ (by simp) (by simp)
  | expire hu =>
    exact hupdate List.mem_cons_self hu ⟨rfl, rfl, rfl, rfl⟩ (fun _ => rfl) (by simp)
  | mark hu =>
    exact hupdate List.mem_cons_self hu ⟨rfl, rfl, rfl, rfl⟩ (fun _ => rfl)
      fun _ => ⟨by simp, rfl, h.gone _ rfl⟩
  | create hc => exact hc
  | insert _ hfresh =>
    refine ⟨fun r hr hid => ?_, rfl, rfl⟩
    rw [World.hasInstance, List.any_eq_false] at hfresh
    exact hfresh r hr (decide_eq_true hid)
  | removeFail => split <;> trivial
  | setupFail => split <;> trivial
  | _ => trivial

/-- Every copy a goroutine holds is one of a row. -/
theorem Next.copies (hn : Next cfg w tid e p eff p') (h : ProcOk w p) :
    ∀ c ∈ p'.copies, ∃ r ∈ w.instances, r.SameRow c := by
  have hcons : ∀ {r : Instance} {todo : List Instance}, (∀ c ∈ r :: todo, c ∈ p.copies) →
      ∀ c ∈ todo, ∃ r ∈ w.instances, r.SameRow c :=
    fun hp c hc => h.copies c (hp c (List.mem_cons_of_mem _ hc))
  have hfound : ∀ {f : Instance → Bool} {result : List Instance},
      result.Perm (w.instances.filter f) → ∀ c ∈ result, ∃ r ∈ w.instances, r.SameRow c :=
    fun hp c hc => ⟨c, (List.mem_filter.1 (hp.mem_iff.1 hc)).1, .refl c⟩
  have hset : ∀ {inst : Instance} {t : Option Nat}, inst ∈ p.copies →
      ∀ c ∈ [{ inst with expiresAt := t }], ∃ r ∈ w.instances, r.SameRow c := by
    intro inst t hmem c hc
    obtain ⟨r, hr, hs⟩ := h.copies inst hmem
    rw [List.mem_singleton.1 hc]
    exact ⟨r, hr, hs.id, hs.spec, hs.imageID, hs.containerID⟩
  cases hn with
  | connect hr =>
    intro c hc
    rw [List.mem_singleton.1 hc]
    exact ⟨_, hr, .refl _⟩
  | clear hu => exact hset List.mem_cons_self
  | renew hu => exact hset List.mem_cons_self
  | findExpired hp => exact hfound hp
  | findCleanup hp => exact hfound hp
  | expire hu => exact hcons fun _ => id
  | removeFail => exact hcons fun _ => id
  | removeImageFail => exact hcons fun _ => id
  | mark hu => exact hcons fun _ => id
  | foundSpec => rename_i q s hs; cases q <;> nofun
  | insertSpec => rename_i q s hs; cases q <;> nofun
  | upgrade | acquire | resume | startContainer | touch | proxied | stopContainer | release | done
  | kill | remove | removeNotFound | removeImage => exact h.copies
  | _ => nofun

/-- The container a clean-up knows to be gone is that of a copy it holds. -/
theorem Proc.gone_copy {c : Nat} (h : p.gone = some c) : ∃ r ∈ p.copies, r.containerID = c := by
  unfold Proc.gone at h
  split at h
  · cases h; exact ⟨_, List.mem_cons_self, rfl⟩
  · cases h; exact ⟨_, List.mem_cons_self, rfl⟩
  · cases h

/-- A clean-up goes on to the image and to the row only once the container is gone. -/
theorem Next.gone (hn : Next cfg w tid e p eff p') (h : ProcOk w p) :
    ∀ c, p'.gone = some c → c ∉ (w.apply tid eff).containers := by
  cases hn with
  | remove =>
    intro c hc
    cases hc
    simp [World.apply]
  | removeNotFound hgone =>
    intro c hc
    cases hc
    exact hgone
  | removeImage => exact h.gone
  | findCleanup => rename_i kind result hp; cases result <;> nofun
  | foundSpec => rename_i q s hs; cases q <;> nofun
  | insertSpec => rename_i q s hs; cases q <;> nofun
  | _ => nofun

/-- The container of an instance that is being created has been created, for this instance. -/
theorem Next.building (hn : Next cfg w tid e p eff p') (h : ProcOk w p) (hw : RowsOk w) :
    ∀ c, p'.building = some c →
      (c ∈ (w.apply tid eff).everCreated ∧ ∀ r ∈ (w.apply tid eff).instances, r.containerID ≠ c) ∧
      (p.building = some c ∨ c ∉ w.everCreated) := by
  cases hn with
  | create hfresh =>
    intro c hc
    cases hc
    refine ⟨⟨List.mem_cons_self, fun r hr hrc => hfresh ?_⟩, .inr hfresh⟩
    rw [← hrc]
    exact hw.created r hr
  | setup =>
    intro c hc
    exact ⟨h.building c hc, .inl hc⟩
  | insert => rename_i reported _ _; cases reported <;> nofun
  | foundSpec => rename_i q s hs; cases q <;> nofun
  | insertSpec => rename_i q s hs; cases q <;> nofun
  | _ => nofun

/-- What another goroutine's step leaves to a goroutine. -/
theorem ProcOk.later (h : ProcOk w p) (hw : RowsOk w) (hl : Later w w')
    (hb : ∀ c, p.building = some c → ∀ r ∈ w'.instances, r.containerID ≠ c) : ProcOk w' p := by
  refine ⟨fun c hc => ?_, fun c hc hmem => ?_, fun c hc => ?_⟩
  · obtain ⟨r, hr, hs⟩ := h.copies c hc
    obtain ⟨r', hr', hs', -⟩ := hl.rows r hr
    exact ⟨r', hr', hs'.trans hs⟩
  · obtain ⟨x, hx, rfl⟩ := Proc.gone_copy hc
    obtain ⟨r, hr, hs⟩ := h.copies x hx
    exact h.gone _ hc (hl.containers _ (hs.containerID ▸ hw.created r hr) hmem)
  · exact ⟨hl.created c (h.building c hc).1, hb c hc⟩

/-- The rows after an effect are the ones before it, and an inserted one. -/
theorem mem_apply {r : Instance} (h : r ∈ (w.apply tid eff).instances) :
    (∃ x ∈ w.instances, r.SameRow x) ∨ eff = .insertInstance r := by
  cases eff with
  | update copy cols =>
    obtain ⟨x, hx, rfl⟩ := mem_update.1 h
    exact .inl ⟨x, hx, sameRow_update⟩
  | insertInstance x =>
    rcases List.mem_append.1 h with h | h
    · exact .inl ⟨r, h, .refl r⟩
    · rw [List.mem_singleton.1 h]; exact .inr rfl
  | _ => exact .inl ⟨r, h, .refl r⟩

/-- A row that is active after an effect was so before, unless it is new. -/
theorem active_before {r' : Instance} (hok : eff.Ok w p)
    (hr' : r' ∈ (w.apply tid eff).instances) (hactive : r'.active = true) :
    (∃ r ∈ w.instances, r'.SameRow r ∧ r.active = true) ∨ eff = .insertInstance r' := by
  cases eff with
  | update copy cols =>
    obtain ⟨-, hinactive, -⟩ := hok
    obtain ⟨x, hx, rfl⟩ := mem_update.1 hr'
    refine .inl ⟨x, hx, sameRow_update, ?_⟩
    split at hactive
    · rw [(setColumns_spec x copy cols).2.1] at hactive
      split at hactive
      · next hmem => rw [hinactive hmem] at hactive; cases hactive
      · exact hactive
    · exact hactive
  | insertInstance r =>
    rcases List.mem_append.1 hr' with hr' | hr'
    · exact .inl ⟨r', hr', .refl r', hactive⟩
    · exact .inr (by rw [List.mem_singleton.1 hr'])
  | _ => exact .inl ⟨r', hr', .refl r', hactive⟩

/-- Nothing that holds of the rows depends on the goroutines. -/
theorem RowsOk.setProc (h : RowsOk w) : RowsOk (w.setProc tid p) :=
  ⟨h.unique, h.owner, h.created, h.existing, h.cleaned⟩

/-- Nor does what holds of a goroutine depend on the others. -/
theorem ProcOk.setProc {q : Proc} (h : ProcOk w q) : ProcOk (w.setProc tid p) q :=
  ⟨h.copies, h.gone, h.building⟩

/-- The row of a goroutine's copy is the one with its container. -/
theorem Wf.container_copy {r x : Instance} (h : Wf w) (hx : x ∈ (w.procs tid).copies)
    (hr : r ∈ w.instances) : r.containerID = x.containerID ↔ r.id = x.id := by
  obtain ⟨y, hy, hs⟩ := (h.procs tid).copies x hx
  constructor
  · intro hc
    rw [h.rows.owner r hr y hy (hc.trans hs.containerID.symm)]
    exact hs.id
  · intro hid
    rw [h.rows.unique r hr y hy (hid.trans hs.id.symm)]
    exact hs.containerID

/-- **A goroutine's step** keeps the invariant and moves the rows forward. -/
theorem Wf.run (h : Wf w) (hn : Next cfg w tid e (w.procs tid) eff p') :
    Wf ((w.apply tid eff).setProc tid p') ∧ Later w ((w.apply tid eff).setProc tid p') := by
  have hp := h.procs tid
  have happly : RowsOk (w.apply tid eff) ∧ Later w (w.apply tid eff) := h.rows.apply hp (hn.ok hp)
  obtain ⟨hrows, hlater⟩ := happly
  have hl : Later w ((w.apply tid eff).setProc tid p') :=
    ⟨hlater.rows, hlater.created, hlater.containers⟩
  refine ⟨⟨hrows.setProc, fun t => ?_, fun t t' c hc hc' => ?_⟩, hl⟩
  · rw [setProc_procs]
    split
    · refine ⟨fun c hc => ?_, hn.gone hp, fun c hc => (hn.building hp h.rows c hc).1⟩
      obtain ⟨r, hr, hs⟩ := hn.copies hp c hc
      obtain ⟨r', hr', hs', -⟩ := hlater.rows r hr
      exact ⟨r', hr', hs'.trans hs⟩
    · next ht =>
      rw [apply_procs]
      refine ((h.procs t).later h.rows hlater fun c hc r hr hrc => ?_).setProc
      rcases mem_apply hr with ⟨x, hx, hs⟩ | rfl
      · exact ((h.procs t).building c hc).2 x hx (hs.containerID.symm.trans hrc)
      · -- the inserted row's container is the one its own goroutine has built
        have hbuild : (w.procs tid).building = some c := hrc ▸ (hn.ok hp).2.1
        exact ht (h.apart t tid c hc hbuild)
  · -- a new container is in no other goroutine's hands
    have hcase : ∀ t c, (((w.apply tid eff).setProc tid p').procs t).building = some c →
        (w.procs t).building = some c ∨ (t = tid ∧ c ∉ w.everCreated) := by
      intro t c hc
      rw [setProc_procs] at hc
      split at hc
      · next ht =>
        rw [ht]
        exact (hn.building hp h.rows c hc).2.imp id fun hfresh => ⟨rfl, hfresh⟩
      · rw [apply_procs] at hc; exact .inl hc
    rcases hcase t c hc with hb | ⟨h₁, h₂⟩ <;> rcases hcase t' c hc' with hb' | ⟨h₁', h₂'⟩
    · exact h.apart t t' c hb hb'
    · exact (h₂' ((h.procs t).building c hb).1).elim
    · exact (h₂ ((h.procs t').building c hb').1).elim
    · rw [h₁, h₁']

/-- A goroutine that is started holds nothing. -/
theorem procOk_start (h : p.isStart = true) : ProcOk w p ∧ p.building = none := by
  cases p with
  | connect | checkExpired => exact ⟨⟨nofun, nofun, nofun⟩, rfl⟩
  | cleanup kind => exact ⟨⟨nofun, nofun, nofun⟩, rfl⟩
  | request q s pc =>
    cases pc with
    | findSpec => exact ⟨⟨nofun, nofun, nofun⟩, rfl⟩
    | _ => cases h
  | _ => cases h

/-- A change of the world that touches neither goroutines nor rows and adds no container. -/
theorem Wf.of_eq (h : Wf w) (hp : w'.procs = w.procs) (hi : w'.instances = w.instances)
    (he : w'.everCreated = w.everCreated) (hc : ∀ c ∈ w'.containers, c ∈ w.containers) :
    Wf w' ∧ Later w w' := by
  have hl := later_of_eq hi he hc
  refine ⟨⟨h.rows.of_eq hi he hc, fun t => ?_, hp ▸ h.apart⟩, hl⟩
  rw [hp]
  exact (h.procs t).later h.rows hl fun c hb => hi ▸ ((h.procs t).building c hb).2

/-- **One step** keeps the invariant and moves the rows forward. -/
theorem Wf.step {a : Act} (h : Wf w) (hs : step cfg w a = some w') : Wf w' ∧ Later w w' := by
  cases a with
  | start tid p =>
    obtain ⟨⟨-, hstart⟩, hs⟩ := Option.ite_none_right_eq_some.1 hs
    cases hs
    obtain ⟨hok, hnone⟩ := procOk_start (w := w) hstart
    refine ⟨⟨h.rows.setProc, fun t => ?_, fun t t' c hc hc' => ?_⟩,
      later_of_eq rfl rfl fun _ => id⟩
    · rw [setProc_procs]
      split
      · exact hok.setProc
      · exact (h.procs t).setProc
    · rw [setProc_procs] at hc hc'
      split at hc
      · rw [hnone] at hc; cases hc
      · split at hc'
        · rw [hnone] at hc'; cases hc'
        · exact h.apart t t' c hc hc'
  | run tid e =>
    obtain ⟨eff, p, hn, rfl⟩ := step_run hs
    exact h.run hn
  | tick => cases hs; exact h.of_eq rfl rfl rfl fun _ => id
  | advance n => cases hs; exact h.of_eq rfl rfl rfl fun _ => id
  | restart =>
    cases hs
    exact ⟨⟨h.rows.of_eq rfl rfl fun _ => id, fun _ => ⟨nofun, nofun, nofun⟩, fun _ _ _ => nofun⟩,
      later_of_eq rfl rfl fun _ => id⟩
  | vanish c => cases hs; exact h.of_eq rfl rfl rfl fun d hd => (List.mem_filter.1 hd).1

/-- The invariant holds before the server is first started. -/
theorem wf_initial (cfg : Config) (foreign : List Nat) : Wf (World.initial cfg foreign) where
  rows := ⟨nofun, nofun, nofun, fun _ => id, nofun⟩
  procs _ := ⟨nofun, nofun, nofun⟩
  apart _ _ _ := nofun

/-- The invariant holds in every state that a run reaches. -/
theorem wf_reaches {P : World → Act → Prop} (h : (app cfg).Reaches P w) : Wf w := by
  refine h.invariant ?_ fun t a t' ht _ hs => (ht.step hs).1
  rintro _ ⟨foreign, rfl⟩
  exact wf_initial cfg foreign

/-- A run moves the rows forward. -/
theorem forward_run {P : World → Act → Prop} {as : List Act} (h : Wf w)
    (hr : (app cfg).Run P w as w') : Forward w w' := by
  refine (hr.invariant (I := fun t => Wf t ∧ Forward w t) ⟨h, .refl w⟩
    fun t a t' ht _ hs => ?_).2
  obtain ⟨h₁, h₂⟩ := ht.1.step hs
  exact ⟨h₁, ht.2.trans h₂.rows⟩

end

/-- **Instance rows only move forward.** In every state that a run of the server reaches, whatever
is started when, whatever fails and whether or not it has been carried out then, no two rows have
the same ID, and a cleaned row is inactive and its container does not exist. From such a state on,
the row of an ID stays: its container, image and spec never change, `active` never goes from false
to true, nor `cleaned` from true to false. -/
theorem rows_forward (cfg : Config) (w : World) (h : (app cfg).Reaches System.Any w) :
    (∀ r ∈ w.instances, ∀ r' ∈ w.instances, r.id = r'.id → r = r') ∧
    (∀ r ∈ w.instances, r.cleaned = true → r.active = false ∧ r.containerID ∉ w.containers) ∧
    ∀ as w', (app cfg).Run System.Any w as w' →
      ∀ r ∈ w.instances, ∃ r' ∈ w'.instances, r'.id = r.id ∧ r'.containerID = r.containerID ∧
        r'.imageID = r.imageID ∧ r'.spec = r.spec ∧
        (r.active = false → r'.active = false) ∧ (r.cleaned = true → r'.cleaned = true) := by
  have hwf := wf_reaches h
  refine ⟨hwf.rows.unique, hwf.rows.cleaned, fun as w' hr r hmem => ?_⟩
  obtain ⟨r', hr', hs, ha, hc⟩ := forward_run hwf hr r hmem
  exact ⟨r', hr', hs.id, hs.containerID, hs.imageID, hs.spec, ha, hc⟩

/-- The first request for spec 5, answered: instance 3 with container 2. -/
def firstRequest : List Act :=
  [.start 0 (.request .specPost 5 .findSpec), .run 0 .ok, .run 0 .ok, .run 0 (.rows []),
    .run 0 .ok, .run 0 (.created 1 2), .run 0 .ok, .run 0 (.inserted 3 true)]

/-- From then on, instance 3 is the one with container 2. -/
theorem rows_forward_firstRequest :
    ∃ w, (app ⟨10, 60⟩).exec (World.initial ⟨10, 60⟩ []) firstRequest = some w ∧
      w.instances.length = 1 ∧ ∀ as w', (app ⟨10, 60⟩).Run System.Any w as w' →
        ∃ r' ∈ w'.instances, r'.id = 3 ∧ r'.containerID = 2 ∧ r'.spec = 5 := by
  refine ⟨_, rfl, rfl, fun as w' hr => ?_⟩
  have hreach : (app ⟨10, 60⟩).Run System.Any (World.initial ⟨10, 60⟩ []) firstRequest _ :=
    System.run_of_exec rfl
  obtain ⟨-, -, h⟩ := rows_forward ⟨10, 60⟩ _ ⟨_, _, ⟨[], rfl⟩, hreach⟩
  obtain ⟨r', hr', hid, hc, -, hs, -⟩ := h as w' hr _ List.mem_cons_self
  exact ⟨r', hr', hid, hc, hs⟩

end UAssign.App

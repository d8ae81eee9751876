import UAssign.App.World

/-!
# What a step can do

`Next` lists the steps of the goroutines, each with what is known when it is taken. Everything the
later modules prove about runs of the server, they prove by cases on it (`step_run`).
-/

namespace UAssign.App

open Expire

/-- The steps of a goroutine, each with what is known when it is taken. -/
inductive Next (cfg : Config) (w : World) (tid : Nat) : Event → Proc → Effect → Proc → Prop
  | connect {id : Nat} {r : Instance} : r ∈ w.instances → r.id = id → r.active = true →
      Next cfg w tid .ok (.connect id) .none (.upgrade r)
  | connectFail {id : Nat} {e : Event} : Next cfg w tid e (.connect id) .none .finished
  | upgrade {inst : Instance} : Next cfg w tid .ok (.upgrade inst) .none (.handler .start inst)
  | upgradeFail {inst : Instance} {e : Event} : Next cfg w tid e (.upgrade inst) .none .finished
  | acquire {inst : Instance} : Next cfg w tid .ok (.handler .start inst) (.acquire inst.id)
      (.handler (if (w.acquire tid inst.id).blocker.isSome then .waiting else .acquired) inst)
  | resume {inst : Instance} : tid ∈ w.wsManager.closed →
      Next cfg w tid .ok (.handler .waiting inst) .none (.handler .acquired inst)
  | clear {inst : Instance} {e : Event} {eff : Effect} :
      update { inst with expiresAt := none } [.expiresAt] e = some eff →
      Next cfg w tid e (.handler .acquired inst) eff
        (.handler .cleared { inst with expiresAt := none })
  | startContainer {inst : Instance} {e : Event} : Next cfg w tid e (.handler .cleared inst)
      (.issue inst.containerID .start) (.handler .started inst)
  | touch {inst : Instance} :
      Next cfg w tid .touch (.handler .started inst) .touch (.handler .started inst)
  | proxied {inst : Instance} {e : Event} :
      Next cfg w tid e (.handler .started inst) .none (.handler .proxied inst)
  | renew {inst : Instance} {e : Event} {eff : Effect} :
      update { inst with expiresAt := some (w.now + cfg.instanceExpire) } [.expiresAt] e =
        some eff →
      Next cfg w tid e (.handler .proxied inst) eff
        (.handler .renewed { inst with expiresAt := some (w.now + cfg.instanceExpire) })
  | stopContainer {inst : Instance} {e : Event} : Next cfg w tid e (.handler .renewed inst)
      (.issue inst.containerID .stop) (.handler .stopped inst)
  | release {inst : Instance} :
      Next cfg w tid .ok (.handler .stopped inst) .release (.handler .released inst)
  | done {inst : Instance} :
      Next cfg w tid .ok (.handler .released inst) .none (.handler .done inst)
  | findExpired {result : List Instance} :
      result.Perm (w.instances.filter fun r => r.expired w.now) →
      Next cfg w tid (.rows result) .checkExpired .none (.expiring result)
  | findExpiredFail {e : Event} : Next cfg w tid e .checkExpired .none .finished
  | expire {r : Instance} {todo : List Instance} {e : Event} {eff : Effect} :
      update { r with active := false } [.active] e = some eff →
      Next cfg w tid e (.expiring (r :: todo)) eff (.expiring todo)
  | expireEnd {todo : List Instance} {e : Event} :
      Next cfg w tid e (.expiring todo) .none .finished
  | findCleanup {kind : CleanKind} {result : List Instance} :
      result.Perm (w.instances.filter kind.selects) →
      Next cfg w tid (.rows result) (.cleanup kind) .none (.cleaning .kill result)
  | findCleanupFail {kind : CleanKind} {e : Event} :
      Next cfg w tid e (.cleanup kind) .none .finished
  | kill {r : Instance} {todo : List Instance} {e : Event} :
      Next cfg w tid e (.cleaning .kill (r :: todo)) (.issue r.containerID .kill)
        (.cleaning .remove (r :: todo))
  | cleanEnd {todo : List Instance} {e : Event} :
      Next cfg w tid e (.cleaning .kill todo) .none .finished
  | remove {r : Instance} {todo : List Instance} :
      Next cfg w tid .ok (.cleaning .remove (r :: todo)) (.remove r.containerID)
        (.cleaning .image (r :: todo))
  | removeNotFound {r : Instance} {todo : List Instance} : r.containerID ∉ w.containers →
      Next cfg w tid .notFound (.cleaning .remove (r :: todo)) .none (.cleaning .image (r :: todo))
  | removeFail {r : Instance} {todo : List Instance} {a : Bool} :
      Next cfg w tid (.failed a) (.cleaning .remove (r :: todo))
        (if a then .remove r.containerID else .none) (.cleaning .kill todo)
  | removeImage {r : Instance} {todo : List Instance} {e : Event} :
      Next cfg w tid e (.cleaning .image (r :: todo)) .none (.cleaning .mark (r :: todo))
  | removeImageFail {r : Instance} {todo : List Instance} {e : Event} :
      Next cfg w tid e (.cleaning .image (r :: todo)) .none (.cleaning .kill todo)
  | mark {r : Instance} {todo : List Instance} {e : Event} {eff : Effect} :
      update { r with active := false, cleaned := true } [.active, .cleaned] e = some eff →
      Next cfg w tid e (.cleaning .mark (r :: todo)) eff (.cleaning .kill todo)
  | foundSpec {q : Request} {s : Nat} : s ∈ w.specs →
      Next cfg w tid .ok (.request q s .findSpec) .none (q.after s)
  | noSpec {q : Request} {s : Nat} : s ∉ w.specs →
      Next cfg w tid .ok (.request q s .findSpec) .none (.request q s .insertSpec)
  | insertSpec {q : Request} {s : Nat} : s ∉ w.specs →
      Next cfg w tid .ok (.request q s .insertSpec) (.insertSpec s) (q.after s)
  | insertSpecTaken {q : Request} {s : Nat} : s ∈ w.specs →
      Next cfg w tid .ok (.request q s .insertSpec) .none (.request q s .failed)
  | insertSpecFail {q : Request} {s : Nat} {a : Bool} : s ∉ w.specs →
      Next cfg w tid (.failed a) (.request q s .insertSpec) (.insertSpec s) (.request q s .failed)
  | foundActive {q : Request} {s : Nat} {r : Instance} {result : List Instance} :
      r ∈ w.instances → r.spec = s → r.active = true →
      Next cfg w tid (.rows result) (.request q s .findActive) .none
        (.request q s (.responded r.id))
  | noActive {q : Request} {s : Nat} {result : List Instance} :
      (∀ r ∈ w.instances, r.spec = s → r.active = false) →
      Next cfg w tid (.rows result) (.request q s .findActive) .none (.request q s .findInfo)
  | findInfo {q : Request} {s : Nat} : s ∈ w.specs →
      Next cfg w tid .ok (.request q s .findInfo) .none (.request q s .create)
  | noInfo {q : Request} {s : Nat} : s ∉ w.specs →
      Next cfg w tid .ok (.request q s .findInfo) .none (.request q s .failed)
  | create {q : Request} {s image c : Nat} : c ∉ w.everCreated →
      Next cfg w tid (.created image c) (.request q s .create) (.create c)
        (.request q s (.setup image c))
  | setup {q : Request} {s image c : Nat} : Next cfg w tid .ok (.request q s (.setup image c)) .none
      (.request q s (.transact image c (w.now + cfg.instanceExpire)))
  | setupFail {q : Request} {s image c : Nat} {a : Bool} :
      Next cfg w tid (.failed a) (.request q s (.setup image c))
        (if a then .remove c else .none) (.request q s .failed)
  | insert {q : Request} {s image c t id : Nat} {reported : Bool} : s ∈ w.specs →
      w.hasInstance id = false →
      Next cfg w tid (.inserted id reported) (.request q s (.transact image c t))
        (.insertInstance ⟨id, w.now, s, image, c, some t, true, false⟩)
        (.request q s (if reported then .responded id else .failed))
  | insertTaken {q : Request} {s image c t id : Nat} {reported : Bool} :
      ¬ (s ∈ w.specs ∧ w.hasInstance id = false) →
      Next cfg w tid (.inserted id reported) (.request q s (.transact image c t)) .none
        (.request q s .failed)
  | requestFail {q : Request} {s : Nat} {pc : RequestPc} {a : Bool} :
      Next cfg w tid (.failed a) (.request q s pc) .none (.request q s .failed)

/-- The most recent of some instances is one of them. -/
theorem mostRecent_mem {rs : List Instance} {r : Instance} (h : mostRecent rs = some r) :
    r ∈ rs := by
  induction rs generalizing r with
  | nil => cases h
  | cons x rs ih =>
    simp only [mostRecent] at h
    split at h
    · next r' hr' =>
      split at h
      · cases h; exact List.mem_cons_of_mem _ (ih hr')
      · cases h; exact List.mem_cons_self
    · cases h; exact List.mem_cons_self

/-- There is none of no instances only. -/
theorem mostRecent_eq_none {rs : List Instance} (h : mostRecent rs = none) : rs = [] := by
  cases rs with
  | nil => rfl
  | cons x rs =>
    simp only [mostRecent] at h
    split at h
    · split at h <;> cases h
    · cases h

section

variable {cfg : Config} {w : World} {tid : Nat} {e : Event} {eff : Effect} {p p' : Proc}

/-- The steps of a connection. -/
theorem connectNext_sound {id : Nat} (h : connectNext w id e = some (eff, p')) :
    Next cfg w tid e (.connect id) eff p' := by
  cases e <;> simp only [connectNext, reduceCtorEq] at h
  · split at h
    · next r hr =>
      cases h
      have hr' := List.find?_some hr
      simp only [Bool.and_eq_true, decide_eq_true_eq] at hr'
      exact .connect (List.mem_of_find?_eq_some hr) hr'.1 hr'.2
    · cases h; exact .connectFail
  · cases h; exact .connectFail

/-- The steps of a handler. -/
theorem handlerNext_sound {pc : HandlerPc} {inst : Instance}
    (h : handlerNext cfg w tid inst e pc = some (eff, p')) :
    Next cfg w tid e (.handler pc inst) eff p' := by
  cases pc with
  | start =>
    obtain ⟨rfl, h⟩ := Option.ite_none_right_eq_some.1 h
    cases h
    exact .acquire
  | waiting =>
    obtain ⟨⟨rfl, hc⟩, h'⟩ := Option.ite_none_right_eq_some.1 h
    cases h'
    exact .resume hc
  | acquired =>
    obtain ⟨eff, hu, h⟩ := Option.map_eq_some_iff.1 h
    cases h
    exact .clear hu
  | cleared =>
    obtain ⟨eff, hc, h⟩ := Option.map_eq_some_iff.1 h
    cases h
    cases e <;> cases hc <;> exact .startContainer
  | started =>
    cases e <;> simp only [handlerNext, reduceCtorEq] at h
    · cases h; exact .proxied
    · cases h; exact .proxied
    · cases h; exact .touch
    · obtain ⟨-, h⟩ := Option.ite_none_right_eq_some.1 h
      cases h
      exact .proxied
  | proxied =>
    obtain ⟨eff, hu, h⟩ := Option.map_eq_some_iff.1 h
    cases h
    exact .renew hu
  | renewed =>
    obtain ⟨eff, hc, h⟩ := Option.map_eq_some_iff.1 h
    cases h
    cases e <;> cases hc <;> exact .stopContainer
  | stopped =>
    obtain ⟨rfl, h⟩ := Option.ite_none_right_eq_some.1 h
    cases h
    exact .release
  | released =>
    obtain ⟨rfl, h⟩ := Option.ite_none_right_eq_some.1 h
    cases h
    exact .done
  | done => cases h

/-- The steps of the expiry pass. -/
theorem expiringNext_sound {todo : List Instance} (h : expiringNext todo e = some (eff, p')) :
    Next cfg w tid e (.expiring todo) eff p' := by
  unfold expiringNext at h
  split at h
  · cases h; exact .expireEnd
  · cases todo with
    | nil => cases h
    | cons r todo =>
      obtain ⟨eff, hu, h⟩ := Option.map_eq_some_iff.1 h
      cases h
      exact .expire hu

/-- The steps of a clean-up. -/
theorem cleaningNext_sound {pc : CleanPc} {todo : List Instance}
    (h : cleaningNext w todo e pc = some (eff, p')) :
    Next cfg w tid e (.cleaning pc todo) eff p' := by
  cases pc with
  | kill =>
    simp only [cleaningNext] at h
    split at h
    · cases h; exact .cleanEnd
    · cases todo with
      | nil => cases h
      | cons r todo =>
        obtain ⟨eff, hc, h⟩ := Option.map_eq_some_iff.1 h
        cases h
        cases e <;> cases hc <;> exact .kill
  | remove =>
    cases todo with
    | nil => cases h
    | cons r todo =>
      cases e <;> simp only [cleaningNext, reduceCtorEq] at h
      · cases h; exact .remove
      · cases h; exact .removeFail
      · obtain ⟨hc, h⟩ := Option.ite_none_left_eq_some.1 h
        cases h
        exact .removeNotFound hc
  | image =>
    cases todo with
    | nil => cases h
    | cons r todo =>
      cases e <;> simp only [cleaningNext, reduceCtorEq] at h
      · cases h; exact .removeImage
      · cases h; exact .removeImageFail
      · cases h; exact .removeImage
  | mark =>
    cases todo with
    | nil => cases h
    | cons r todo =>
      obtain ⟨eff, hu, h⟩ := Option.map_eq_some_iff.1 h
      cases h
      exact .mark hu

/-- The steps of a request. -/
theorem requestNext_sound {q : Request} {s : Nat} {pc : RequestPc}
    (h : requestNext cfg w q s e pc = some (eff, p')) :
    Next cfg w tid e (.request q s pc) eff p' := by
  cases pc with
  | findSpec =>
    cases e <;> simp only [requestNext, reduceCtorEq] at h
    · cases h
      split
      · next hs => exact .foundSpec hs
      · next hs => exact .noSpec hs
    · cases h; exact .requestFail
  | insertSpec =>
    cases e <;> simp only [requestNext, reduceCtorEq] at h
    · split at h
      · next hs => cases h; exact .insertSpecTaken hs
      · next hs => cases h; exact .insertSpec hs
    · cases h
      split
      · next hs => exact .insertSpecFail hs.2
      · exact .requestFail
  | findActive =>
    cases e <;> simp only [requestNext, reduceCtorEq] at h
    · cases h; exact .requestFail
    · next result =>
      obtain ⟨hp, h⟩ := Option.ite_none_right_eq_some.1 h
      split at h
      · next r hr =>
        cases h
        have hmem := hp.mem_iff.1 (mostRecent_mem hr)
        simp only [List.mem_filter, Bool.and_eq_true, decide_eq_true_eq] at hmem
        exact .foundActive hmem.1 hmem.2.1 hmem.2.2
      · next hr =>
        cases h
        rw [mostRecent_eq_none hr] at hp
        refine .noActive fun r hr hs => Bool.eq_false_iff.2 fun ha => ?_
        have hmem : r ∈ w.instances.filter fun i => i.spec = s && i.active := by
          simp [List.mem_filter, hr, hs, ha]
        rw [← hp.mem_iff] at hmem
        cases hmem
  | findInfo =>
    cases e <;> simp only [requestNext, reduceCtorEq] at h
    · cases h
      split
      · next hs => exact .findInfo hs
      · next hs => exact .noInfo hs
    · cases h; exact .requestFail
  | create =>
    cases e <;> simp only [requestNext, reduceCtorEq] at h
    · cases h; exact .requestFail
    · obtain ⟨hc, h⟩ := Option.ite_none_left_eq_some.1 h
      cases h
      exact .create hc
  | setup image c =>
    cases e <;> simp only [requestNext, reduceCtorEq] at h
    · cases h; exact .setup
    · cases h; exact .setupFail
  | transact image c t =>
    cases e <;> simp only [requestNext, reduceCtorEq] at h
    · cases h; exact .requestFail
    · split at h
      · next hs => cases h; exact .insert hs.1 hs.2
      · next hs => cases h; exact .insertTaken hs
  | responded id => cases h
  | failed => cases h

/-- **What a goroutine does next is one of these steps.** -/
theorem next_sound (h : next cfg w tid e p = some (eff, p')) : Next cfg w tid e p eff p' := by
  cases p with
  | idle => cases h
  | connect id => exact connectNext_sound h
  | upgrade inst =>
    cases e <;> simp only [next, upgradeNext, reduceCtorEq] at h
    · cases h; exact .upgrade
    · cases h; exact .upgradeFail
  | handler pc inst => exact handlerNext_sound h
  | checkExpired =>
    cases e <;> simp only [next, checkExpiredNext, reduceCtorEq] at h
    · cases h; exact .findExpiredFail
    · obtain ⟨hp, h⟩ := Option.ite_none_right_eq_some.1 h
      cases h
      exact .findExpired hp
  | expiring todo => exact expiringNext_sound h
  | cleanup kind =>
    cases e <;> simp only [next, cleanupNext, reduceCtorEq] at h
    · cases h; exact .findCleanupFail
    · obtain ⟨hp, h⟩ := Option.ite_none_right_eq_some.1 h
      cases h
      exact .findCleanup hp
  | cleaning pc todo => exact cleaningNext_sound h
  | request q s pc => exact requestNext_sound h
  | finished => cases h

/-- A step of a goroutine. -/
theorem step_run {w' : World} (h : step cfg w (.run tid e) = some w') :
    ∃ eff p, Next cfg w tid e (w.procs tid) eff p ∧ w' = (w.apply tid eff).setProc tid p := by
  simp only [step] at h
  split at h
  · next eff p hn =>
    cases h
    exact ⟨eff, p, next_sound hn, rfl⟩
  · cases h

/-- What an update does, if anything. -/
theorem update_cases {copy : Instance} {cols : List Column} (h : update copy cols e = some eff) :
    eff = .update copy cols ∨ (eff = .none ∧ e = .failed false) := by
  unfold update at h
  split at h <;> cases h
  · exact .inl rfl
  · exact .inl rfl
  · exact .inr ⟨rfl, rfl⟩

/-- The goroutines after one has been replaced. -/
@[simp] theorem setProc_procs {t : Nat} :
    (w.setProc tid p).procs t = if t = tid then p else w.procs t := rfl

/-- Effects leave the goroutines alone. -/
@[simp] theorem apply_procs : (w.apply tid eff).procs = w.procs := by cases eff <;> rfl

end

/-! ## Runs of a few goroutines -/

/-- The goroutine an action is about. -/
def Act.tid : Act → Option Nat
  | .start t _ => some t
  | .run t _ => some t
  | _ => none

/-- A goroutine that has not been started is idle. -/
theorem idle_of_run {cfg : Config} {P : World → Act → Prop} {w w' : World} {as : List Act} {t : Nat}
    (h : (app cfg).Run P w as w') (hidle : w.procs t = .idle) (ht : ∀ a ∈ as, a.tid ≠ some t) :
    w'.procs t = .idle := by
  induction h with
  | nil => exact hidle
  | @snoc u v as a _ _ hs ih =>
    have hprev := ih fun b hb => ht b (List.mem_append_left _ hb)
    have hne := ht a (List.mem_append_right _ List.mem_cons_self)
    cases a with
    | start tid p =>
      obtain ⟨-, hs⟩ := Option.ite_none_right_eq_some.1 hs
      cases hs
      have hne : t ≠ tid := fun heq => hne (congrArg some heq.symm)
      rw [setProc_procs, if_neg hne]
      exact hprev
    | run tid e =>
      obtain ⟨eff, p, -, rfl⟩ := step_run hs
      have hne : t ≠ tid := fun heq => hne (congrArg some heq.symm)
      rw [setProc_procs, if_neg hne, apply_procs]
      exact hprev
    | restart => cases hs; rfl
    | _ => cases hs; exact hprev

/-- Where only the goroutines below `k` act, a condition on all goroutines is one on these. -/
theorem run_below {cfg : Config} {k : Nat} {C : World → Act → Bool} {P : World → Act → Prop}
    {w w' : World} {as : List Act}
    (hC : ∀ u a, C u a = true → (∀ t, k ≤ t → u.procs t = .idle) → P u a)
    (h : (app cfg).execWhere C w as = some w') (hidle : ∀ t, w.procs t = .idle)
    (ht : ∀ a ∈ as, a.tid.all (· < k) = true) : (app cfg).Run P w as w' := by
  have hrun := System.run_of_execWhere h
  clear h
  induction hrun with
  | nil => exact .nil
  | @snoc u v as a hr hc hs ih =>
    refine .snoc (ih fun b hb => ht b (List.mem_append_left _ hb)) (hC _ _ hc fun t hk => ?_) hs
    refine idle_of_run hr (hidle t) fun b hb heq => ?_
    have hlt := ht b (List.mem_append_left _ hb)
    rw [heq] at hlt
    exact absurd (of_decide_eq_true hlt) (Nat.not_lt_of_le hk)

end UAssign.App

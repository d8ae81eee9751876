import UAssign.App.Takeover

/-!
# Idle instances

`handleInstance` sets `ExpiresAt` to null when a session begins and to a time when it ends. Where
the second write fails, or the process ends in between, nothing sets it again: the row stays active
and no query of `checkExpiredInstances` selects it. `idle_expires` is about the runs whose steps
meet `KeepsExpiry`.
-/

namespace UAssign.App

open Expire

/-! ## The runs -/

/-- The second write is still ahead. -/
def HandlerPc.ahead : HandlerPc → Bool
  | .start | .waiting | .acquired | .cleared | .started | .proxied => true
  | .renewed | .stopped | .released | .done => false

/-- A handler of an instance has its second write ahead. -/
def Ahead (w : World) (tid n : Nat) : Prop :=
  ∃ pc, (w.procs tid).place n = some pc ∧ pc.ahead = true

/-- An active row that does not expire. -/
def Instance.endless (r : Instance) : Prop := r.active = true ∧ r.expiresAt = none

/-- The server is not restarted while an active row does not expire; and the second write of a
handler that fails and is not carried out is not the one that such a row needs: there is another
handler that has it ahead. -/
def KeepsExpiry (w : World) : Act → Prop
  | .restart => ∀ r ∈ w.instances, ¬ r.endless
  | .run tid (.failed false) => ∀ inst, w.procs tid = .handler .proxied inst →
      ∀ r ∈ w.instances, r.id = inst.id → r.endless → ∃ t, t ≠ tid ∧ Ahead w t inst.id
  | _ => True

/-- An active instance of which no handler is running expires. -/
def Idle (w : World) : Prop :=
  ∀ r ∈ w.instances, r.active = true →
    (∀ tid pc, (w.procs tid).place r.id = some pc → pc = .done) → r.expiresAt ≠ none

/-! ## The invariant -/

/-- An active row that does not expire has a handler that is going to see to it. -/
def Covered (w : World) : Prop :=
  ∀ r ∈ w.instances, r.endless → ∃ tid, Ahead w tid r.id

/-- The effect makes no row endless. -/
def Effect.Tame : Effect → Prop
  | .update copy cols => .expiresAt ∉ cols ∧ (.active ∈ cols → copy.active = false)
  | .insertInstance r => r.expiresAt ≠ Option.none
  | _ => True

section

variable {cfg : Config} {w w' : World} {tid : Nat} {e : Event} {eff : Effect} {p p' : Proc}
  {inst : Instance}

/-- A row that is endless after such an effect was so before. -/
theorem endless_of_tame (h : eff.Tame) {r' : Instance}
    (hr' : r' ∈ (w.apply tid eff).instances) (hend : r'.endless) :
    ∃ r ∈ w.instances, r.id = r'.id ∧ r.endless := by
  cases eff with
  | update copy cols =>
    obtain ⟨hexp, hact⟩ := h
    obtain ⟨x, hx, rfl⟩ := mem_update.1 hr'
    refine ⟨x, hx, sameRow_update.id.symm, ?_⟩
    obtain ⟨ha, he⟩ := hend
    split at ha
    · next hid =>
      obtain ⟨-, hactive, -, hexpires⟩ := setColumns_spec x copy cols
      rw [if_pos hid, hexpires, if_neg hexp] at he
      rw [hactive] at ha
      split at ha
      · next hmem => rw [hact hmem] at ha; cases ha
      · exact ⟨ha, he⟩
    · next hid =>
      rw [if_neg hid] at he
      exact ⟨ha, he⟩
  | insertInstance r =>
    rcases List.mem_append.1 hr' with hr' | hr'
    · exact ⟨r', hr', rfl, hend⟩
    · exact (h (List.mem_singleton.1 hr' ▸ hend.2)).elim
  | _ => exact ⟨r', hr', rfl, hend⟩

/-- Another goroutine's step leaves a handler where it is. -/
theorem ahead_setProc {t n : Nat} (h : t ≠ tid) :
    Ahead ((w.apply tid eff).setProc tid p') t n ↔ Ahead w t n := by
  unfold Ahead
  rw [setProc_procs, if_neg h, apply_procs]

/-- Its own may end its being ahead. -/
theorem ahead_self {n : Nat} :
    Ahead ((w.apply tid eff).setProc tid p') tid n ↔
      ∃ pc, p'.place n = some pc ∧ pc.ahead = true := by
  unfold Ahead
  rw [setProc_procs, if_pos rfl]

/-- **A step that makes no row endless** and leaves a handler with its second write ahead. -/
theorem Covered.frame (h : Covered w) (htame : eff.Tame)
    (hplace : ∀ n pc, (w.procs tid).place n = some pc → pc.ahead = true →
      ∃ pc', p'.place n = some pc' ∧ pc'.ahead = true) :
    Covered ((w.apply tid eff).setProc tid p') := by
  intro r' hr' hend
  obtain ⟨r, hr, hid, hend⟩ := endless_of_tame htame hr' hend
  obtain ⟨t, ht⟩ := h r hr hend
  refine ⟨t, ?_⟩
  rw [hid] at ht
  by_cases heq : t = tid
  · subst heq
    obtain ⟨pc, hpc, hahead⟩ := ht
    exact ahead_self.2 (hplace _ pc hpc hahead)
  · exact (ahead_setProc heq).2 ht

/-- **The first write** of a handler makes its row endless, and the handler sees to it. -/
theorem Covered.clear (h : Covered w) (hp : w.procs tid = .handler .acquired inst) :
    Covered ((w.apply tid (.update { inst with expiresAt := none } [.expiresAt])).setProc tid
      (.handler .cleared { inst with expiresAt := none })) := by
  have hself : ∀ n, inst.id = n → Ahead ((w.apply tid (.update { inst with expiresAt := none }
      [.expiresAt])).setProc tid (.handler .cleared { inst with expiresAt := none })) tid n :=
    fun n hn => ahead_self.2 ⟨.cleared, if_pos hn, rfl⟩
  intro r' hr' hend
  have hr' : r' ∈ (w.apply tid (.update { inst with expiresAt := none } [.expiresAt])).instances :=
    hr'
  obtain ⟨x, hx, rfl⟩ := mem_update.1 hr'
  rw [sameRow_update.id]
  by_cases hid : x.id = inst.id
  · exact ⟨tid, hself x.id hid.symm⟩
  · have hend : x.endless := by rwa [if_neg hid] at hend
    obtain ⟨t, ht⟩ := h x hx hend
    refine ⟨t, (ahead_setProc ?_).2 ht⟩
    rintro rfl
    obtain ⟨pc, hpc, -⟩ := ht
    rw [hp] at hpc
    exact hid (Option.ite_none_right_eq_some.1 hpc).1.symm

/-- **The second write** of a handler, carried out or not. -/
theorem Covered.renew (h : Covered w) (hp : w.procs tid = .handler .proxied inst)
    (hkeep : KeepsExpiry w (.run tid e))
    (hu : update { inst with expiresAt := some (w.now + cfg.instanceExpire) } [.expiresAt] e =
      some eff) {inst' : Instance} :
    Covered ((w.apply tid eff).setProc tid (.handler .renewed inst')) := by
  have hother : ∀ {t n}, n ≠ inst.id → Ahead w t n → t ≠ tid := by
    rintro t n hn ⟨pc, hpc, -⟩ rfl
    rw [hp] at hpc
    exact hn (Option.ite_none_right_eq_some.1 hpc).1.symm
  rcases update_cases hu with rfl | ⟨rfl, rfl⟩
  · intro r' hr' hend
    have hr' : r' ∈ (w.apply tid (.update { inst with expiresAt := some (w.now +
        cfg.instanceExpire) } [.expiresAt])).instances := hr'
    obtain ⟨x, hx, rfl⟩ := mem_update.1 hr'
    rw [sameRow_update.id]
    by_cases hid : x.id = inst.id
    · have hexp := hend.2
      rw [if_pos hid, (setColumns_spec _ _ _).2.2.2, if_pos List.mem_cons_self] at hexp
      cases hexp
    · have hend : x.endless := by rwa [if_neg hid] at hend
      obtain ⟨t, ht⟩ := h x hx hend
      exact ⟨t, (ahead_setProc (hother hid ht)).2 ht⟩
  · intro r hr hend
    by_cases hid : r.id = inst.id
    · obtain ⟨t, hne, ht⟩ := hkeep inst hp r hr hid hend
      exact ⟨t, (ahead_setProc hne).2 (hid ▸ ht)⟩
    · obtain ⟨t, ht⟩ := h r hr hend
      exact ⟨t, (ahead_setProc (hother hid ht)).2 ht⟩

/-- **A goroutine's step** keeps the endless rows covered. -/
theorem Covered.run (h : Covered w) (hkeep : KeepsExpiry w (.run tid e))
    (hn : Next cfg w tid e (w.procs tid) eff p') :
    Covered ((w.apply tid eff).setProc tid p') := by
  generalize hp : w.procs tid = p at hn
  have nobody : ∀ {eff : Effect} {p' : Proc}, (∀ n, p.place n = none) → eff.Tame →
      Covered ((w.apply tid eff).setProc tid p') := by
    intro eff p' hnone htame
    refine h.frame htame fun n pc hpc => ?_
    rw [hp, hnone] at hpc
    cases hpc
  have handler : ∀ {eff : Effect} {pc pc' : HandlerPc} {inst : Instance},
      p = .handler pc inst → (pc.ahead = true → pc'.ahead = true) → eff.Tame →
      Covered ((w.apply tid eff).setProc tid (.handler pc' inst)) := by
    rintro eff pc pc' inst rfl hahead htame
    refine h.frame htame fun n pc₁ hpc₁ h₁ => ?_
    rw [hp] at hpc₁
    obtain ⟨hid, hpc₁⟩ := Option.ite_none_right_eq_some.1 hpc₁
    cases hpc₁
    exact ⟨pc', if_pos hid, hahead h₁⟩
  have pass : ∀ {copy : Instance} {cols : List Column} {eff : Effect},
      update copy cols e = some eff → .expiresAt ∉ cols → copy.active = false → eff.Tame := by
    intro copy cols eff hu hexp hact
    rcases update_cases hu with rfl | ⟨rfl, -⟩
    · exact ⟨hexp, fun _ => hact⟩
    · trivial
  cases hn with
  | clear hu =>
    rename_i inst
    rcases update_cases hu with rfl | ⟨rfl, -⟩
    · exact h.clear hp
    · refine h.frame trivial fun n pc hpc _ => ?_
      rw [hp] at hpc
      obtain ⟨hid, -⟩ := Option.ite_none_right_eq_some.1 hpc
      exact ⟨.cleared, if_pos hid, rfl⟩
  | renew hu => exact h.renew hp hkeep hu
  | expire hu => exact nobody (fun _ => rfl) (pass hu (by decide) rfl)
  | mark hu => exact nobody (fun _ => rfl) (pass hu (by decide) rfl)
  | insert => exact nobody (fun _ => rfl) fun hnone => by cases hnone
  | acquire => exact handler rfl (fun _ => by split <;> rfl) trivial
  | resume | startContainer | touch | proxied => exact handler rfl (fun _ => rfl) trivial
  | stopContainer | release | done => exact handler rfl (fun hahead => by cases hahead) trivial
  | removeFail | setupFail => exact nobody (fun _ => rfl) (by split <;> trivial)
  | _ => exact nobody (fun _ => rfl) trivial

/-- **One step** keeps the endless rows covered. -/
theorem Covered.step {a : Act} (h : Covered w) (hkeep : KeepsExpiry w a)
    (hs : step cfg w a = some w') : Covered w' := by
  cases a with
  | start tid p =>
    obtain ⟨⟨hidle, -⟩, hs⟩ := Option.ite_none_right_eq_some.1 hs
    cases hs
    intro r hr hend
    obtain ⟨t, pc, hpc, hahead⟩ := h r hr hend
    refine ⟨t, pc, ?_, hahead⟩
    rw [setProc_procs, if_neg]
    · exact hpc
    · rintro rfl
      rw [hidle] at hpc
      cases hpc
  | run tid e =>
    obtain ⟨eff, p, hn, rfl⟩ := step_run hs
    exact h.run hkeep hn
  | restart => cases hs; exact fun r hr hend => (hkeep r hr hend).elim
  | tick => cases hs; exact h
  | advance n => cases hs; exact h
  | vanish c => cases hs; exact h

/-- No endless row is idle. -/
theorem Covered.idle (h : Covered w) : Idle w := by
  intro r hr hactive hdone hexp
  obtain ⟨t, pc, hpc, hahead⟩ := h r hr ⟨hactive, hexp⟩
  rw [hdone t pc hpc] at hahead
  cases hahead

/-- **A restart** leaves the idle instances with an expiry exactly if no active row lacks one. -/
theorem idle_restart_iff (hs : step cfg w .restart = some w') :
    Idle w' ↔ KeepsExpiry w .restart := by
  cases hs
  refine ⟨fun h r hr hend => ?_, fun h r hr hactive _ hexp => h r hr ⟨hactive, hexp⟩⟩
  exact h r hr hend.1 (fun tid pc hpc => by cases hpc) hend.2

end

/-- **An idle instance expires** in the states that are reached, without a restart while an active
row does not expire, and without a failing second write that leaves such a row to nobody; the
database may fail otherwise. A restart in another state leaves an instance that does not. -/
theorem idle_expires (cfg : Config) :
    (∀ w, (app cfg).Reaches KeepsExpiry w → Idle w) ∧
    (∀ w w', step cfg w .restart = some w' → (Idle w' ↔ KeepsExpiry w .restart)) := by
  refine ⟨fun w h => ?_, fun w w' hs => idle_restart_iff hs⟩
  have hcovered : Covered w := by
    refine h.invariant ?_ fun t a t' ht hkeep hs => ht.step hkeep hs
    rintro _ ⟨foreign, rfl⟩ r hr
    cases hr
  exact hcovered.idle

/-! ## Two runs -/

/-- No restart and no failing write: a computable condition that is enough. -/
def keepsExpiry (_ : World) : Act → Bool
  | .restart | .run _ (.failed false) => false
  | _ => true

theorem keepsExpiry_sound {w : World} {a : Act} (h : keepsExpiry w a = true) :
    KeepsExpiry w a := by
  unfold keepsExpiry at h
  split at h
  · cases h
  · cases h
  · next hrestart hfail =>
    unfold KeepsExpiry
    split
    · exact (hrestart rfl).elim
    · exact (hfail _ rfl).elim
    · trivial

/-- Behind the first request, one connection, to its end. -/
def oneConnection : List Act :=
  firstRequest ++ [.start 1 (.connect 3), .run 1 .ok, .run 1 .ok, .run 1 .ok, .run 1 .ok,
    .run 1 .ok, .run 1 .ok, .run 1 .ok, .run 1 .ok, .run 1 .ok, .run 1 .ok]

/-- The instance expires again. -/
theorem idle_expires_oneConnection :
    ∃ w, (app ⟨10, 60⟩).exec (World.initial ⟨10, 60⟩ []) oneConnection = some w ∧
      (w.procs 1).place 3 = some .done ∧ ∀ r ∈ w.instances, r.expiresAt ≠ none := by
  refine ⟨_, rfl, rfl, fun r hr => ?_⟩
  have hrun : (app ⟨10, 60⟩).Run KeepsExpiry (World.initial ⟨10, 60⟩ []) oneConnection _ :=
    (System.run_of_execWhere (C := keepsExpiry) rfl).mono fun _ _ => keepsExpiry_sound
  have hidle := (idle_expires ⟨10, 60⟩).1 _ ⟨_, _, ⟨[], rfl⟩, hrun⟩
  obtain rfl := List.mem_singleton.1 hr
  refine hidle _ hr rfl fun tid pc hpc => ?_
  have htids : ∀ a ∈ oneConnection, a.tid = some 0 ∨ a.tid = some 1 := by decide
  by_cases h₀ : tid = 0
  · subst h₀
    cases hpc
  by_cases h₁ : tid = 1
  · subst h₁
    exact (Option.some.inj hpc).symm
  rw [idle_of_run hrun rfl fun a ha heq => ?_] at hpc
  · cases hpc
  · rcases htids a ha with ht | ht
    · exact h₀ (Option.some.inj (heq.symm.trans ht))
    · exact h₁ (Option.some.inj (heq.symm.trans ht))

/-- Behind the first request, a connection, and a crash in its session. -/
def crash : List Act :=
  firstRequest ++ [.start 1 (.connect 3), .run 1 .ok, .run 1 .ok, .run 1 .ok, .run 1 .ok, .restart]

/-- **The instance is idle and does not expire.** -/
theorem idle_endless : ¬ ∀ cfg w, (app cfg).Reaches System.Any w → Idle w := by
  intro h
  have hrun : (app ⟨10, 60⟩).Run System.Any (World.initial ⟨10, 60⟩ []) crash _ :=
    System.run_of_exec rfl
  refine h ⟨10, 60⟩ _ ⟨_, _, ⟨[], rfl⟩, hrun⟩ _ List.mem_cons_self rfl (fun tid pc hpc => ?_) rfl
  cases hpc

end UAssign.App

import UAssign.App.Takeover

/-!
# Background expiry and connected instances

`handleInstance` sets `ExpiresAt` to null so that the passes leave the instance alone while it is
connected. A pass that has queried the row before goes on to it all the same. `connected_untouched`
is about the runs in which the row is active, and in no pass's result, at each handler's first
write: there no pass touches a connected instance. `connected_touched` is a run of another kind.
-/

namespace UAssign.App

open Expire

/-! ## The runs -/

/-- No clean-up but the scheduled one is under way, or requested. -/
def Proc.scheduled : Proc → Bool
  | .cleanup .leftover | .cleanup (.spec _) => false
  | .request .specClean _ _ => false
  | _ => true

/-- Only scheduled clean-ups are started, and no update of the database fails. -/
def scheduledOk (w : World) : Act → Bool
  | .start _ p => p.scheduled
  | .run tid e =>
    match w.procs tid with
    | .handler .acquired _ | .handler .proxied _ | .expiring _ | .cleaning .mark _ =>
      match e with
      | .failed _ => false
      | _ => true
    | _ => true
  | _ => true

/-- When a handler is about to write for the first time, its row is active, and no pass has it. -/
def Undisturbed (w : World) : Act → Prop
  | .run tid _ => ∀ inst, w.procs tid = .handler .acquired inst →
      (∀ r ∈ w.instances, r.id = inst.id → r.active = true) ∧
      ∀ t, ∀ c ∈ (w.procs t).pending, c.id ≠ inst.id
  | _ => True

/-- No goroutine is about to set the row of a connected instance inactive, or to kill or to remove
its container. -/
def Untouched (cfg : Config) (w : World) : Prop :=
  ∀ tid n, (w.procs tid).phase n = .connected → ∀ r, w.IsRow n r →
    ∀ t e eff p, next cfg w t e (w.procs t) = some (eff, p) →
      (∀ copy cols, eff = .update copy cols → .active ∈ cols → copy.id ≠ n) ∧
      eff ≠ .issue r.containerID .kill ∧ eff ≠ .remove r.containerID

/-! ## The invariant -/

/-- No other clean-ups; and of a connected instance, the row is active and does not expire, and no
pass has it. -/
structure Kept (w : World) : Prop where
  scheduled : ∀ t, (w.procs t).scheduled = true
  rows : ∀ tid n, (w.procs tid).phase n = .connected → ∀ r ∈ w.instances, r.id = n →
    r.active = true ∧ r.expiresAt = none
  pending : ∀ tid n, (w.procs tid).phase n = .connected → ∀ t, ∀ c ∈ (w.procs t).pending, c.id ≠ n

section

variable {cfg : Config} {w w' : World} {tid : Nat} {e : Event} {eff : Effect} {p p' : Proc}
  {q : Nat → List Nat} {inst : Instance}

/-- A step that connects nobody, gives a pass only rows that are inactive or that expire, and leaves
the rows of connected instances as they are. -/
theorem Kept.frame (h : Kept w) (tid : Nat) (p' : Proc)
    (hprocs : ∀ t, w'.procs t = if t = tid then p' else w.procs t)
    (hs : p'.scheduled = true)
    (hphase : ∀ n, p'.phase n = .connected → (w.procs tid).phase n = .connected)
    (hpending : ∀ c ∈ p'.pending, c ∈ (w.procs tid).pending ∨
      (c ∈ w.instances ∧ ¬ (c.active = true ∧ c.expiresAt = none)))
    (hrows : ∀ n t, (w'.procs t).phase n = .connected → (w.procs t).phase n = .connected →
      ∀ r' ∈ w'.instances, r'.id = n →
        ∃ r ∈ w.instances, r.id = n ∧ r'.active = r.active ∧ r'.expiresAt = r.expiresAt) :
    Kept w' := by
  have hback : ∀ t n, (w'.procs t).phase n = .connected → (w.procs t).phase n = .connected := by
    intro t n ht
    rw [hprocs] at ht
    split at ht
    · next heq => rw [heq]; exact hphase n ht
    · exact ht
  refine ⟨fun t => ?_, fun t n ht r' hr' hid => ?_, fun t n ht u c hc => ?_⟩
  · rw [hprocs]
    split
    · exact hs
    · exact h.scheduled t
  · obtain ⟨r, hr, hrid, ha, he⟩ := hrows n t ht (hback t n ht) r' hr' hid
    rw [ha, he]
    exact h.rows t n (hback t n ht) r hr hrid
  · rw [hprocs] at hc
    split at hc
    · rcases hpending c hc with hc | ⟨hc, hnot⟩
      · exact h.pending t n (hback t n ht) _ c hc
      · exact fun hid => hnot (h.rows t n (hback t n ht) c hc hid)
    · exact h.pending t n (hback t n ht) u c hc

/-- The first write of a handler connects its instance, whose row is active and in no pass. -/
theorem Kept.clear {inst' : Instance} (h : Kept w) (hp : w.procs tid = .handler .acquired inst)
    (hu : Undisturbed w (.run tid e)) (hid : inst'.id = inst.id) (hexp : inst'.expiresAt = none)
    (hprocs : ∀ t, w'.procs t = if t = tid then .handler .cleared inst' else w.procs t)
    (hi : w'.instances = (w.apply tid (.update inst' [.expiresAt])).instances) : Kept w' := by
  obtain ⟨hactive, hpend⟩ := hu inst hp
  have hsub : ∀ {u : Nat} {c : Instance}, c ∈ (w'.procs u).pending → c ∈ (w.procs u).pending := by
    intro u c hc
    rw [hprocs] at hc
    split at hc
    · cases hc
    · exact hc
  have hback : ∀ {t n : Nat}, n ≠ inst.id → (w'.procs t).phase n = .connected →
      (w.procs t).phase n = .connected := by
    intro t n hne ht
    rw [hprocs] at ht
    split at ht
    · simp [Proc.phase, hid, Ne.symm hne] at ht
    · exact ht
  refine ⟨fun t => ?_, fun t n ht r' hr' hrid => ?_, fun t n ht u c hc => ?_⟩
  · rw [hprocs]
    split
    · rfl
    · exact h.scheduled t
  · rw [hi] at hr'
    obtain ⟨x, hx, rfl⟩ := mem_update.1 hr'
    rw [sameRow_update.id] at hrid
    by_cases hn : n = inst.id
    · rw [if_pos (hrid.trans (hn.trans hid.symm))]
      exact ⟨hactive x hx (hrid.trans hn), hexp⟩
    · rw [if_neg fun hx' => hn (hrid.symm.trans (hx'.trans hid))]
      exact h.rows t n (hback hn ht) x hx hrid
  · by_cases hn : n = inst.id
    · rw [hn]; exact hpend u c (hsub hc)
    · exact h.pending t n (hback hn ht) u c (hsub hc)

/-- What a scheduled query finds is inactive, or expires. -/
theorem not_kept_of_selected {c : Instance} (h : c.expired w.now = true ∨ c.active = false) :
    ¬ (c.active = true ∧ c.expiresAt = none) := by
  rintro ⟨ha, he⟩
  rcases h with h | h
  · simp [Instance.expired, he] at h
  · rw [ha] at h; cases h

/-- The effect updates no row of an instance that stays connected from `w` to `w'`, and inserts only
a new row. -/
def Effect.Spares (w w' : World) : Effect → Prop
  | .update copy _ => ∀ t, (w'.procs t).phase copy.id = .connected →
      (w.procs t).phase copy.id ≠ .connected
  | .insertInstance r => w.hasInstance r.id = false
  | _ => True

/-- The rows after such an effect. -/
theorem rows_kept (hw : Wf w) (hspares : eff.Spares w w')
    (hi : w'.instances = (w.apply tid eff).instances) :
    ∀ n t, (w'.procs t).phase n = .connected → (w.procs t).phase n = .connected →
      ∀ r' ∈ w'.instances, r'.id = n →
        ∃ r ∈ w.instances, r.id = n ∧ r'.active = r.active ∧ r'.expiresAt = r.expiresAt := by
  intro n t ht' ht r' hr' hid
  rw [hi] at hr'
  cases eff with
  | update copy cols =>
    obtain ⟨x, hx, rfl⟩ := mem_update.1 hr'
    rw [sameRow_update.id] at hid
    have hne : x.id ≠ copy.id := by
      intro heq
      obtain rfl : copy.id = n := heq.symm.trans hid
      exact hspares t ht' ht
    exact ⟨x, hx, hid, by rw [if_neg hne], by rw [if_neg hne]⟩
  | insertInstance r =>
    rcases List.mem_append.1 hr' with hr' | hr'
    · exact ⟨r', hr', hid, rfl, rfl⟩
    · have hfresh := hw.phase_fresh hspares t
      rw [List.mem_singleton.1 hr'] at hid
      rw [hid, ht] at hfresh
      cases hfresh
  | _ => exact ⟨r', hr', hid, rfl, rfl⟩

/-- A request goes on as what it is. -/
theorem scheduled_request {r : Request} {s : Nat} {pc pc' : RequestPc}
    (h : (Proc.request r s pc).scheduled = true) : (Proc.request r s pc').scheduled = true := by
  cases r with
  | specPost => rfl
  | specClean => cases h

/-- What a request leads to is as scheduled as the request. -/
theorem scheduled_after {r : Request} {n : Nat} {pc : RequestPc}
    (h : (Proc.request r n pc).scheduled = true) : (r.after n).scheduled = true := by
  cases r with
  | specPost => rfl
  | specClean => cases h

/-- No step leads to a clean-up that is not scheduled. -/
theorem Next.scheduled (hn : Next cfg w tid e p eff p') (h : p.scheduled = true) :
    p'.scheduled = true := by
  cases hn with
  | foundSpec | insertSpec => exact scheduled_after h
  | noSpec | insertSpecTaken | insertSpecFail | foundActive | noActive | findInfo | noInfo | create
  | setup | setupFail | insert | insertTaken | requestFail => exact scheduled_request h
  | _ => rfl

/-- The same of a goroutine's step, from what its effect and its next state are. -/
theorem Kept.turn (h : Kept w) (hw : Wf w) (hp : w.procs tid = p) (hs : p'.scheduled = true)
    (hphase : ∀ n, p'.phase n = .connected → p.phase n = .connected)
    (hpending : ∀ c ∈ p'.pending, c ∈ p.pending ∨
      (c ∈ w.instances ∧ ¬ (c.active = true ∧ c.expiresAt = none)))
    (hspares : eff.Spares w ((w.apply tid eff).setProc tid p')) :
    Kept ((w.apply tid eff).setProc tid p') := by
  have hprocs : ∀ t, ((w.apply tid eff).setProc tid p').procs t =
      if t = tid then p' else w.procs t := fun t => by rw [setProc_procs, apply_procs]
  exact h.frame tid p' hprocs hs (hp ▸ hphase) (hp ▸ hpending) (rows_kept hw hspares rfl)

/-- A pass updates the row of a copy that is pending, which belongs to nobody who is connected. -/
theorem Kept.spares_pending {copy x : Instance} {cols : List Column} (h : Kept w)
    (hp : w.procs tid = p) (hupd : update copy cols e = some eff) (hx : x ∈ p.pending)
    (hid : x.id = copy.id) : eff.Spares w w' := by
  rcases update_cases hupd with rfl | ⟨rfl, -⟩
  · intro t _ hc
    exact h.pending t copy.id hc tid x (hp ▸ hx) hid
  · trivial

/-- The last write of a handler: who is connected is the handler itself, which is not any more. -/
theorem spares_renew {copy : Instance} (ht : Takeover w q)
    (hp : w.procs tid = .handler .proxied inst) (hupd : update copy [.expiresAt] e = some eff)
    (hid : copy.id = inst.id) (haway : ∀ n, p'.phase n ≠ .connected) :
    eff.Spares w ((w.apply tid eff).setProc tid p') := by
  rcases update_cases hupd with rfl | ⟨rfl, -⟩
  · intro t hc' hc
    obtain ⟨pc, hpc, hh⟩ := phase_writing (p := w.procs t) (n := copy.id) (by rw [hc]; rfl)
    obtain rfl : t = tid := ht.exclusive hpc (place_eq_some.2 ⟨inst, hp, hid.symm⟩) hh rfl
    rw [setProc_procs, if_pos rfl] at hc'
    exact haway _ hc'
  · trivial

/-- **A goroutine's step** leaves the connected instances alone. -/
theorem Kept.run (h : Kept w) (hw : Wf w) (ht : Takeover w q)
    (hok : scheduledOk w (.run tid e) = true) (hu : Undisturbed w (.run tid e))
    (hn : Next cfg w tid e (w.procs tid) eff p') :
    Kept ((w.apply tid eff).setProc tid p') := by
  have hscheduled := h.scheduled tid
  generalize hp : w.procs tid = p at hn hscheduled
  have away : ∀ {p' : Proc}, (∀ n, p'.phase n ≠ .connected) →
      ∀ n, p'.phase n = .connected → p.phase n = .connected :=
    fun hne n hc => absurd hc (hne n)
  have empty : ∀ {p' : Proc}, p'.pending = [] → ∀ c ∈ p'.pending, c ∈ p.pending ∨
      (c ∈ w.instances ∧ ¬ (c.active = true ∧ c.expiresAt = none)) :=
    fun hnil c hc => absurd (hnil ▸ hc) List.not_mem_nil
  have hs := hn.scheduled hscheduled
  cases hn with
  | clear hupd =>
    rename_i inst
    rcases update_cases hupd with rfl | ⟨-, rfl⟩
    · have hprocs : ∀ t, ((w.apply tid (.update { inst with expiresAt := none }
          [.expiresAt])).setProc tid (.handler .cleared { inst with expiresAt := none })).procs t =
          if t = tid then .handler .cleared { inst with expiresAt := none } else w.procs t :=
        fun t => rfl
      refine h.clear hp hu ?_ ?_ hprocs ?_ <;> rfl
    · simp [scheduledOk, hp] at hok
  | renew hupd =>
    rename_i inst
    have haway : ∀ n, (Proc.handler .renewed inst).phase n ≠ .connected := by
      intro n
      simp only [Proc.phase]
      split <;> intro hc <;> cases hc
    exact h.turn hw hp hs (away haway) (empty rfl) (spares_renew ht hp hupd rfl haway)
  | expire hupd | mark hupd =>
    exact h.turn hw hp hs (away fun _ hc => by cases hc)
      (fun c hc => .inl (List.mem_cons_of_mem _ hc))
      (h.spares_pending hp hupd List.mem_cons_self rfl)
  | findExpired hperm =>
    refine h.turn hw hp hs (away fun _ hc => by cases hc) (fun c hc => .inr ?_) trivial
    obtain ⟨hmem, hexp⟩ := List.mem_filter.1 (hperm.mem_iff.1 hc)
    exact ⟨hmem, not_kept_of_selected (.inl hexp)⟩
  | findCleanup hperm =>
    rename_i kind result
    cases kind with
    | inactive =>
      refine h.turn hw hp hs (away fun _ hc => by cases hc) (fun c hc => .inr ?_) trivial
      obtain ⟨hmem, hsel⟩ := List.mem_filter.1 (hperm.mem_iff.1 hc)
      have ha : c.active = false := by simpa using (Bool.and_eq_true_iff.1 hsel).1
      exact ⟨hmem, not_kept_of_selected (w := w) (.inr ha)⟩
    | _ => cases hscheduled
  | insert hspec hfresh =>
    exact h.turn hw hp hs (away fun _ hc => by cases hc) (empty rfl) hfresh
  | acquire =>
    refine h.turn hw hp hs (away fun n => ?_) (empty rfl) trivial
    simp only [Proc.phase]
    split
    · split <;> intro hc <;> cases hc
    · intro hc; cases hc
  | upgrade | stopContainer | release =>
    refine h.turn hw hp hs (away fun n => ?_) (empty rfl) trivial
    simp only [Proc.phase]
    split <;> intro hc <;> cases hc
  | removeFail =>
    exact h.turn hw hp hs (away fun _ hc => by cases hc)
      (fun c hc => .inl (List.mem_cons_of_mem _ hc)) (by split <;> trivial)
  | removeImageFail =>
    exact h.turn hw hp hs (away fun _ hc => by cases hc)
      (fun c hc => .inl (List.mem_cons_of_mem _ hc)) trivial
  | setupFail =>
    exact h.turn hw hp hs (away fun _ hc => by cases hc) (empty rfl)
      (by split <;> trivial)
  | foundSpec | insertSpec =>
    rename_i r s hspec
    cases r with
    | specPost => exact h.turn hw hp hs (away fun _ hc => by cases hc) (empty rfl) trivial
    | specClean => cases hscheduled
  | noSpec | insertSpecTaken | insertSpecFail | foundActive | noActive | findInfo | noInfo | create
  | setup | insertTaken | requestFail =>
    exact h.turn hw hp hs (away fun _ hc => by cases hc) (empty rfl) trivial
  | resume | startContainer | touch | proxied | done =>
    exact h.turn hw hp hs (fun n => id) (empty rfl) trivial
  | kill | remove | removeNotFound | removeImage =>
    exact h.turn hw hp hs (away fun _ hc => by cases hc) (fun c hc => .inl hc) trivial
  | _ => exact h.turn hw hp hs (away fun _ hc => by cases hc) (empty rfl) trivial

/-- A step that does nothing to the rows and to the goroutines. -/
theorem Kept.of_eq (h : Kept w) (hi : w'.instances = w.instances) (hp : w'.procs = w.procs) :
    Kept w' := by
  refine ⟨hp ▸ h.scheduled, fun t n ht r hr => ?_, hp ▸ h.pending⟩
  rw [hi] at hr
  rw [hp] at ht
  exact h.rows t n ht r hr

/-- **One step** leaves the connected instances alone. -/
theorem Kept.step {a : Act} (h : Kept w) (hw : Wf w) (ht : Takeover w q)
    (hok : scheduledOk w a = true) (hu : Undisturbed w a) (hs : step cfg w a = some w') :
    Kept w' := by
  cases a with
  | start tid p =>
    obtain ⟨⟨-, hstart⟩, hs⟩ := Option.ite_none_right_eq_some.1 hs
    cases hs
    have hpend : p.pending = [] := by cases p <;> first | rfl | cases hstart
    have hphase : ∀ n, p.phase n = .fresh := by
      cases p <;> first | exact fun _ => rfl | cases hstart
    refine h.frame tid p (fun t => setProc_procs) hok (fun n hc => ?_) ?_
      fun n t _ _ r hr hid => ⟨r, hr, hid, rfl, rfl⟩
    · rw [hphase] at hc; cases hc
    · rw [hpend]; nofun
  | run tid e =>
    obtain ⟨eff, p, hn, rfl⟩ := step_run hs
    exact h.run hw ht hok hu hn
  | restart => cases hs; exact ⟨fun _ => rfl, nofun, nofun⟩
  | tick => cases hs; exact h.of_eq rfl rfl
  | advance n => cases hs; exact h.of_eq rfl rfl
  | vanish c => cases hs; exact h.of_eq rfl rfl

/-- The connected instances are left alone in every state of such a run. -/
theorem kept_reaches
    (h : (app cfg).Reaches (fun w a => scheduledOk w a = true ∧ Undisturbed w a) w) : Kept w := by
  have hI := h.invariant (I := fun t => Wf t ∧ (∃ q, Takeover t q) ∧ Kept t) ?_ ?_
  · exact hI.2.2
  · rintro _ ⟨foreign, rfl⟩
    exact ⟨wf_initial cfg foreign, takeover_reaches (P := System.Any) ⟨_, [], ⟨foreign, rfl⟩, .nil⟩,
      ⟨fun _ => rfl, nofun, nofun⟩⟩
  · rintro t a t' ⟨hw, ⟨q, ht⟩, hk⟩ ⟨hok, hu⟩ hs
    exact ⟨(hw.step hs).1, ht.step hs, hk.step hw ht hok hu hs⟩

/-- Nobody is about to touch what is kept. -/
theorem Kept.untouched (h : Kept w) (hw : Wf w) : Untouched cfg w := by
  intro tid n hc r hrow t e eff p hn
  obtain ⟨hr, hid⟩ := (hrow r).2 rfl
  have hsource := (next_sound hn).source
  -- the container of the row is in no pass, nor being built
  have hpass : ∀ x ∈ (w.procs t).pending, x.containerID ≠ r.containerID := by
    intro x hx hxc
    have hcopy : x ∈ (w.procs t).copies := by
      generalize w.procs t = p at hx
      cases p <;> first | exact hx | cases hx
    obtain ⟨y, hy, hs⟩ := (hw.procs t).copies x hcopy
    have hyr := hw.rows.owner y hy r hr (hs.containerID.trans hxc)
    exact h.pending tid n hc t x hx (hs.id.symm.trans (hyr ▸ hid))
  refine ⟨?_, ?_, ?_⟩
  · rintro copy cols rfl hcols hcopy
    rcases hsource with ⟨_, _, _, _, _, hnot⟩ | ⟨x, hx, hxid, -⟩
    · exact hnot hcols
    · exact h.pending tid n hc t x hx (hxid.trans hcopy)
  · rintro rfl
    rcases hsource with ⟨_, _, _, _, _, hnot⟩ | ⟨x, hx, hxc, -⟩
    · exact hnot rfl
    · exact hpass x hx hxc
  · rintro rfl
    rcases hsource with ⟨x, hx, hxc⟩ | hbuild
    · exact hpass x hx hxc
    · exact ((hw.procs t).building _ hbuild).2 r hr rfl

end

/-- **Connected instances are not taken away** in the runs, with only scheduled clean-ups and no
failing update, in which at each handler's first write the row is active and in no pass's result: in
every state of such a run, a connected instance's row is active, and no goroutine is about to set it
inactive, or to kill or remove its container. -/
theorem connected_untouched (cfg : Config) (w : World)
    (h : (app cfg).Reaches (fun w a => scheduledOk w a = true ∧ Undisturbed w a) w) :
    Untouched cfg w ∧ ∀ tid n, (w.procs tid).phase n = .connected →
      ∃ r, w.IsRow n r ∧ r.active = true := by
  have hw := wf_reaches h
  have hk := kept_reaches h
  refine ⟨hk.untouched hw, fun tid n hc => ?_⟩
  obtain ⟨pc, hp, -⟩ := phase_writing (p := w.procs tid) (n := n) (by rw [hc]; rfl)
  obtain ⟨inst, hproc, rfl⟩ := place_eq_some.1 hp
  obtain ⟨r, hr, hrow⟩ := hw.isRow hproc
  exact ⟨r, hrow, (hk.rows tid _ hc r hr ((hrow r).2 rfl).2).1⟩

/-! ## Two runs -/

/-- The condition on first writes where only the goroutines below `k` have been started. -/
def undisturbed (k : Nat) (w : World) : Act → Bool
  | .run tid _ =>
    match w.procs tid with
    | .handler .acquired inst =>
      (w.instances.all fun r => r.id ≠ inst.id || r.active) &&
        (List.range k).all fun t => (w.procs t).pending.all fun c => c.id ≠ inst.id
    | _ => true
  | _ => true

/-- It is the condition itself there. -/
theorem undisturbed_sound {k : Nat} {w : World} {a : Act} (h : undisturbed k w a = true)
    (hidle : ∀ t, k ≤ t → w.procs t = .idle) : Undisturbed w a := by
  cases a with
  | run tid e =>
    intro inst hp
    simp only [undisturbed, hp, Bool.and_eq_true, List.all_eq_true, Bool.or_eq_true,
      decide_eq_true_eq, List.mem_range] at h
    refine ⟨fun r hr hid => (h.1 r hr).resolve_left fun hne => hne hid, fun t c hc => ?_⟩
    by_cases ht : t < k
    · exact h.2 t ht c hc
    · rw [hidle t (Nat.le_of_not_lt ht)] at hc
      cases hc
  | _ => trivial

/-- Executing actions of the goroutines below `k`, each of which meets the conditions. -/
theorem run_undisturbed {cfg : Config} {k : Nat} {w w' : World} {as : List Act}
    (h : (app cfg).execWhere (fun w a => scheduledOk w a && undisturbed k w a) w as = some w')
    (hidle : ∀ t, w.procs t = .idle) (ht : ∀ a ∈ as, a.tid.all (· < k) = true) :
    (app cfg).Run (fun w a => scheduledOk w a = true ∧ Undisturbed w a) w as w' := by
  refine run_below (fun u a hC hbelow => ?_) h hidle ht
  obtain ⟨hok, hund⟩ := Bool.and_eq_true_iff.1 hC
  exact ⟨hok, undisturbed_sound hund hbelow⟩

/-- Behind the first request, a connection in time; the pass that runs then finds nothing. -/
def connectionInTime : List Act :=
  firstRequest ++ [.start 1 (.connect 3), .run 1 .ok, .run 1 .ok, .run 1 .ok, .run 1 .ok,
    .advance 20, .start 2 .checkExpired, .run 2 (.rows []), .run 1 .ok]

/-- The instance stays active. -/
theorem connected_untouched_inTime :
    ∃ w, (app ⟨10, 60⟩).exec (World.initial ⟨10, 60⟩ []) connectionInTime = some w ∧
      (w.procs 1).place 3 = some .started ∧ Untouched ⟨10, 60⟩ w ∧
      ∃ r, w.IsRow 3 r ∧ r.active = true := by
  refine ⟨_, rfl, rfl, ?_⟩
  obtain ⟨h, hactive⟩ := connected_untouched ⟨10, 60⟩ _ ⟨_, connectionInTime, ⟨[], rfl⟩,
    run_undisturbed (k := 3) rfl (fun _ => rfl) (by decide)⟩
  exact ⟨h, hactive 1 3 rfl⟩

/-- Behind the first request, a connection that comes as the instance expires: the pass has found
the row when the handler sets `ExpiresAt` to null. -/
def connectionTooLate : List Act :=
  firstRequest ++ [.advance 20, .start 1 (.connect 3), .run 1 .ok, .start 2 .checkExpired,
    .run 2 (.rows [⟨3, 0, 5, 1, 2, some 10, true, false⟩]), .run 1 .ok, .run 1 .ok, .run 1 .ok]

/-- Not all connected instances are left alone: the pass is about to set this one inactive. -/
theorem connected_touched : ¬ ∀ cfg w,
    (app cfg).Reaches (fun w a => scheduledOk w a = true) w → Untouched cfg w := by
  intro h
  have hrun : (app ⟨10, 60⟩).Run (fun w a => scheduledOk w a = true) (World.initial ⟨10, 60⟩ [])
    connectionTooLate _ := System.run_of_execWhere rfl
  have hreach : (app ⟨10, 60⟩).Reaches (fun w a => scheduledOk w a = true) _ :=
    ⟨_, _, ⟨[], rfl⟩, hrun⟩
  obtain ⟨r, -, hrow⟩ := @Wf.isRow _ 1 _ _ (wf_reaches hreach) rfl
  obtain ⟨hactive, -⟩ := h ⟨10, 60⟩ _ hreach 1 3 rfl r hrow 2 .ok _ _ rfl
  exact hactive _ _ rfl List.mem_cons_self rfl

end UAssign.App

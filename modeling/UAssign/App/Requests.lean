import UAssign.App.Rows

/-!
# One instance per spec

`specPost` looks up the spec and inserts it if it is unknown, then queries the active instances of
the spec and creates one if there is none. Nothing holds requests off in between.
`posts_one_instance` is about the runs in which no request looks while another one of the same spec
is between its look and its insertion: all succeed, with the same instance. `posts_two_inserts` is
a run of another kind.
-/

namespace UAssign.App

open Expire

/-! ## The runs -/

/-- Where a goroutine is as a request for a spec, if it is one. -/
def Proc.post (k : Nat) : Proc → Option RequestPc
  | .request .specPost s pc => if s = k then some pc else none
  | _ => none

/-- The active instances of a spec. -/
def World.actives (w : World) (k : Nat) : List Instance :=
  w.instances.filter fun r => r.spec = k && r.active

/-- The request has found that there is no active instance, and has not inserted one. -/
def RequestPc.building : RequestPc → Bool
  | .findInfo | .create | .setup _ _ | .transact _ _ _ => true
  | _ => false

/-- Only requests for instances, and no failure of the database or of Docker: a new instance has a
new ID, and its insertion is reported. -/
def postsOnly (w : World) : Act → Bool
  | .start _ (.request .specPost _ .findSpec) => true
  | .start _ _ => false
  | .run _ (.failed _) => false
  | .run _ (.inserted id reported) => reported && !w.hasInstance id
  | .restart => false
  | _ => true

/-- No request for the spec looks for it while another one is about to insert it, nor for its
active instances while another one is making one. -/
def Serial (k : Nat) (w : World) : Act → Prop
  | .run tid _ =>
    ((w.procs tid).post k = some .findSpec → ∀ t, (w.procs t).post k ≠ some .insertSpec) ∧
    ((w.procs tid).post k = some .findActive →
      ∀ t pc, (w.procs t).post k = some pc → pc.building = false)
  | _ => True

/-- No request for the spec has failed, all that have been answered have the same instance, and
there is at most one active row. -/
def OneInstance (k : Nat) (w : World) : Prop :=
  (∀ t, (w.procs t).post k ≠ some .failed) ∧
  (∀ t t' id id', (w.procs t).post k = some (.responded id) →
    (w.procs t').post k = some (.responded id') → id = id') ∧
  (w.actives k).length ≤ 1

/-! ## The invariant -/

/-- The request is between a look that has found nothing and its insertion. -/
def RequestPc.inside (pc : RequestPc) : Bool := pc = .insertSpec || pc.building

/-- What holds when a request is at a place. -/
def PostOk (k : Nat) (w : World) : RequestPc → Prop
  | .findSpec => True
  | .insertSpec => k ∉ w.specs
  | .findActive => k ∈ w.specs
  | .findInfo | .create | .setup _ _ | .transact _ _ _ => k ∈ w.specs ∧ w.actives k = []
  | .responded id => k ∈ w.specs ∧ ∃ r ∈ w.actives k, r.id = id
  | .failed => False

/-- What the runs keep. -/
structure Served (k : Nat) (w : World) : Prop where
  posts : ∀ t, w.procs t = .idle ∨ ∃ s pc, w.procs t = .request .specPost s pc
  places : ∀ t pc, (w.procs t).post k = some pc → PostOk k w pc
  inside : ∀ t t' pc pc', (w.procs t).post k = some pc → (w.procs t').post k = some pc' →
    pc.inside = true → pc'.inside = true → t = t'
  one : (w.actives k).length ≤ 1

section

variable {cfg : Config} {w w' : World} {tid k : Nat} {e : Event} {eff : Effect} {p' : Proc}

/-- A request for the spec. -/
@[simp] theorem post_request {pc : RequestPc} : (Proc.request .specPost k pc).post k = some pc :=
  if_pos rfl

/-- A step of a request to a place where what must hold does, that is outside or the only one
inside, and that leaves the others what they have. -/
theorem Served.frame {s : Nat} {pc' : RequestPc} (h : Served k w) (tid : Nat)
    (hprocs : ∀ t, w'.procs t = if t = tid then .request .specPost s pc' else w.procs t)
    (hok : s = k → PostOk k w' pc')
    (hothers : ∀ t, t ≠ tid → ∀ c, (w.procs t).post k = some c → PostOk k w c → PostOk k w' c)
    (hin : s = k → pc'.inside = true →
      ∀ t, t ≠ tid → ∀ c, (w.procs t).post k = some c → c.inside = false)
    (hone : (w'.actives k).length ≤ 1) : Served k w' := by
  have hself : ∀ c, (Proc.request .specPost s pc').post k = some c → s = k ∧ c = pc' := by
    intro c hc
    simp only [Proc.post] at hc
    split at hc
    · next heq => exact ⟨heq, (Option.some.inj hc).symm⟩
    · cases hc
  refine ⟨fun t => ?_, fun t c hc => ?_, fun t t' c c' hc hc' hi hi' => ?_, hone⟩
  · rw [hprocs]
    split
    · exact .inr ⟨s, pc', rfl⟩
    · exact h.posts t
  · rw [hprocs] at hc
    split at hc
    · obtain ⟨hs, rfl⟩ := hself c hc
      exact hok hs
    · next hne => exact hothers t hne c hc (h.places t c hc)
  · rw [hprocs] at hc hc'
    split at hc <;> split at hc'
    · next ht ht' => rw [ht, ht']
    · next ht hne =>
      obtain ⟨hs, rfl⟩ := hself c hc
      rw [hin hs hi t' hne c' hc'] at hi'
      cases hi'
    · next hne ht =>
      obtain ⟨hs, rfl⟩ := hself c' hc'
      rw [hin hs hi' t hne c hc] at hi
      cases hi
    · exact h.inside t t' c c' hc hc' hi hi'

/-- What holds at a place depends on the spec and on the active instances only. -/
theorem PostOk.of_eq {pc : RequestPc} (h : PostOk k w pc) (hs : k ∈ w'.specs ↔ k ∈ w.specs)
    (ha : w'.actives k = w.actives k) : PostOk k w' pc := by
  cases pc <;> simp only [PostOk, hs, ha] at h ⊢ <;> exact h

/-- The effects of requests for other specs. -/
theorem post_other {s : Nat} {pc : RequestPc} (hne : s ≠ k)
    (hn : Next cfg w tid e (.request .specPost s pc) eff p') :
    (∃ pc', p' = .request .specPost s pc') ∧ (k ∈ (w.apply tid eff).specs ↔ k ∈ w.specs) ∧
      (w.apply tid eff).actives k = w.actives k := by
  have same : (k ∈ (w.apply tid .none).specs ↔ k ∈ w.specs) ∧
      (w.apply tid .none).actives k = w.actives k := ⟨.rfl, rfl⟩
  cases hn with
  | insertSpec => exact ⟨⟨_, rfl⟩, by simp [World.apply, Ne.symm hne], rfl⟩
  | insertSpecFail => exact ⟨⟨_, rfl⟩, by simp [World.apply, Ne.symm hne], rfl⟩
  | insert => exact ⟨⟨_, rfl⟩, .rfl, by simp [World.actives, World.apply, hne]⟩
  | setupFail => exact ⟨⟨_, rfl⟩, by split <;> exact same⟩
  | _ => exact ⟨⟨_, rfl⟩, same⟩

/-- While a request is inside, no other one is. -/
theorem Served.alone {pc : RequestPc} (h : Served k w) (hp : (w.procs tid).post k = some pc)
    (hi : pc.inside = true) :
    ∀ t, t ≠ tid → ∀ c, (w.procs t).post k = some c → c.inside = false :=
  fun t hne c hc => Bool.eq_false_iff.2 fun hi' => hne (h.inside t tid c pc hc hp hi' hi)

/-- Where the spec is known, no request is about to insert it; where there is an active instance,
none is making one. -/
theorem PostOk.outside {c : RequestPc} (h : PostOk k w c) (hs : k ∈ w.specs)
    (hb : c.building = false) : c.inside = false := by
  cases c <;> first | rfl | exact (h hs).elim | cases hb

/-- A request outside, as the spec gets known. -/
theorem PostOk.insertSpec {c : RequestPc} (h : PostOk k w c) (hi : c.inside = false)
    (hs : k ∈ w'.specs) (ha : w'.actives k = w.actives k) : PostOk k w' c := by
  cases c with
  | findSpec => trivial
  | findActive => exact hs
  | responded id => exact ⟨hs, ha ▸ h.2⟩
  | failed => exact h
  | _ => cases hi

/-- A request outside, as an instance is inserted. -/
theorem PostOk.insert {c : RequestPc} (h : PostOk k w c) (hi : c.inside = false)
    (hs : w'.specs = w.specs) (ha : ∀ r ∈ w.actives k, r ∈ w'.actives k) : PostOk k w' c := by
  cases c with
  | findSpec => trivial
  | findActive => exact (congrArg (k ∈ ·) hs).mpr h
  | responded id =>
    obtain ⟨hk, r, hr, hid⟩ := h
    exact ⟨hs ▸ hk, r, ha r hr, hid⟩
  | failed => exact h
  | _ => cases hi

/-- **A goroutine's step** in such a run. -/
theorem Served.run (h : Served k w) (hpost : postsOnly w (.run tid e) = true)
    (hserial : Serial k w (.run tid e)) (hn : Next cfg w tid e (w.procs tid) eff p') :
    Served k ((w.apply tid eff).setProc tid p') := by
  rcases h.posts tid with hidle | ⟨s, pc, hp⟩
  · rw [hidle] at hn; cases hn
  rw [hp] at hn
  have hprocs : ∀ {eff : Effect} {p' : Proc} t, ((w.apply tid eff).setProc tid p').procs t =
      if t = tid then p' else w.procs t := fun t => by rw [setProc_procs, apply_procs]
  by_cases hsk : s = k
  swap
  · obtain ⟨⟨pc', rfl⟩, hspecs, hact⟩ := post_other hsk hn
    exact h.frame tid hprocs (fun hs => (hsk hs).elim) (fun t _ c _ hc => hc.of_eq hspecs hact)
      (fun hs => (hsk hs).elim) (hact ▸ h.one)
  subst hsk
  have hpc : (w.procs tid).post s = some pc := by rw [hp]; exact post_request
  have hok := h.places tid pc hpc
  -- a step that leaves the spec and the active instances alone
  have quiet : ∀ {eff : Effect} {pc' : RequestPc}, (w.apply tid eff).specs = w.specs →
      (w.apply tid eff).instances = w.instances → PostOk s w pc' →
      (pc'.inside = true → ∀ t, t ≠ tid → ∀ c, (w.procs t).post s = some c → c.inside = false) →
      Served s ((w.apply tid eff).setProc tid (.request .specPost s pc')) := by
    intro eff pc' hs hi hok' hin
    have hspecs : s ∈ ((w.apply tid eff).setProc tid (.request .specPost s pc')).specs ↔
        s ∈ w.specs := by show s ∈ (w.apply tid eff).specs ↔ _; rw [hs]
    have hact : ((w.apply tid eff).setProc tid (.request .specPost s pc')).actives s =
        w.actives s := congrArg _ hi
    exact h.frame tid hprocs (fun _ => hok'.of_eq hspecs hact)
      (fun t _ c _ hc => hc.of_eq hspecs hact) (fun _ => hin) (hact ▸ h.one)
  cases hn with
  | foundSpec hs => exact quiet rfl rfl hs nofun
  | noSpec hs =>
    refine quiet rfl rfl hs fun _ t _ c hc => ?_
    have hne := hserial.1 hpc t
    have hcok := h.places t c hc
    cases c <;> first | rfl | exact (hne hc).elim | exact (hs hcok.1).elim
  | insertSpec hs =>
    have halone := h.alone hpc rfl
    refine h.frame tid hprocs (fun _ => List.mem_cons_self) (fun t hne c hc hcok => ?_) nofun h.one
    exact hcok.insertSpec (halone t hne c hc) List.mem_cons_self rfl
  | insertSpecTaken hs => exact (hok hs).elim
  | foundActive hr hspec hactive =>
    refine quiet rfl rfl ⟨hok, _, List.mem_filter.2 ⟨hr, ?_⟩, rfl⟩ nofun
    simp [hspec, hactive]
  | noActive hnone =>
    refine quiet rfl rfl ⟨hok, List.filter_eq_nil_iff.2 fun r hr hf => ?_⟩ fun _ t _ c hc => ?_
    · simp only [Bool.and_eq_true, decide_eq_true_eq] at hf
      rw [hnone r hr hf.1] at hf
      cases hf.2
    · exact (h.places t c hc).outside hok (hserial.2 hpc t c hc)
  | findInfo => exact quiet rfl rfl hok fun _ => h.alone hpc rfl
  | noInfo hs => exact (hs hok.1).elim
  | create => exact quiet rfl rfl hok fun _ => h.alone hpc rfl
  | setup => exact quiet rfl rfl hok fun _ => h.alone hpc rfl
  | insert hs hfresh =>
    rename_i image c t id reported
    have halone := h.alone hpc rfl
    have hrep : reported = true := (Bool.and_eq_true_iff.1 hpost).1
    subst hrep
    have hact : ∀ {p : Proc}, ((w.apply tid (.insertInstance
        ⟨id, w.now, s, image, c, some t, true, false⟩)).setProc tid p).actives s =
        w.actives s ++ [⟨id, w.now, s, image, c, some t, true, false⟩] := by
      intro p
      show List.filter _ (w.instances ++ [_]) = _
      rw [List.filter_append]
      simp [World.actives]
    refine h.frame tid hprocs
      (fun _ => ⟨hs, ⟨id, w.now, s, image, c, some t, true, false⟩, ?_, rfl⟩)
      (fun u hne d hd hdok => ?_) nofun ?_
    · rw [hact]; exact List.mem_append_right _ List.mem_cons_self
    · refine hdok.insert (halone u hne d hd) rfl fun r hr => ?_
      rw [hact]
      exact List.mem_append_left _ hr
    · rw [hact, hok.2]; exact Nat.le_refl 1
  | insertTaken hnot =>
    rename_i image c t id reported
    have hfresh : (!w.hasInstance id) = true := (Bool.and_eq_true_iff.1 hpost).2
    exact (hnot ⟨hok.1, by simpa using hfresh⟩).elim
  | insertSpecFail | setupFail | requestFail => cases hpost

/-- A step that does nothing to the database and to the goroutines. -/
theorem Served.of_eq (h : Served k w) (hs : w'.specs = w.specs)
    (hi : w'.instances = w.instances) (hp : w'.procs = w.procs) : Served k w' := by
  have hact : w'.actives k = w.actives k := congrArg _ hi
  refine ⟨hp ▸ h.posts, fun t c hc => ?_, hp ▸ h.inside, hact ▸ h.one⟩
  rw [hp] at hc
  exact (h.places t c hc).of_eq (by rw [hs]) hact

/-- **One step** of such a run. -/
theorem Served.step {a : Act} (h : Served k w) (hpost : postsOnly w a = true)
    (hserial : Serial k w a) (hs : step cfg w a = some w') : Served k w' := by
  cases a with
  | start tid p =>
    obtain ⟨-, hs⟩ := Option.ite_none_right_eq_some.1 hs
    cases hs
    have hp : ∃ s, p = .request .specPost s .findSpec := by
      cases p with
      | request r s pc => cases r <;> cases pc <;> first | exact ⟨s, rfl⟩ | cases hpost
      | _ => cases hpost
    obtain ⟨s, rfl⟩ := hp
    have hact : (w.setProc tid (.request .specPost s .findSpec)).actives k = w.actives k := rfl
    exact h.frame tid (fun t => setProc_procs) (fun _ => trivial)
      (fun t _ c _ hc => hc.of_eq .rfl hact) nofun (hact ▸ h.one)
  | run tid e =>
    obtain ⟨eff, p, hn, rfl⟩ := step_run hs
    exact h.run hpost hserial hn
  | restart => cases hpost
  | tick => cases hs; exact h.of_eq rfl rfl rfl
  | advance n => cases hs; exact h.of_eq rfl rfl rfl
  | vanish c => cases hs; exact h.of_eq rfl rfl rfl

/-- Nothing has been asked for yet. -/
theorem served_idle (hidle : ∀ t, w.procs t = .idle) (hone : (w.actives k).length ≤ 1) :
    Served k w := by
  refine ⟨fun t => .inl (hidle t), fun t c hc => ?_, fun t t' c c' hc => ?_, hone⟩
  · rw [hidle] at hc; cases hc
  · rw [hidle] at hc; cases hc

/-- What is kept is what is wanted. -/
theorem Served.oneInstance (h : Served k w) : OneInstance k w := by
  refine ⟨fun t hf => h.places t _ hf, fun t t' id id' hr hr' => ?_, h.one⟩
  obtain ⟨-, r, hmem, rfl⟩ := h.places t _ hr
  obtain ⟨-, r', hmem', rfl⟩ := h.places t' _ hr'
  have hone := h.one
  match hact : w.actives k with
  | [] => rw [hact] at hmem; cases hmem
  | [x] =>
    rw [hact] at hmem hmem'
    rw [List.mem_singleton.1 hmem, List.mem_singleton.1 hmem']
  | _ :: _ :: _ => rw [hact] at hone; simp at hone

/-- The calls a request still makes. -/
def RequestPc.rank : RequestPc → Nat
  | .findSpec => 7
  | .insertSpec => 6
  | .findActive => 5
  | .findInfo => 4
  | .create => 3
  | .setup _ _ => 2
  | .transact _ _ _ => 1
  | .responded _ | .failed => 0

/-- A number that is not in a list. -/
theorem exists_fresh (l : List Nat) : ∃ n, n ∉ l := by
  obtain ⟨n, hn⟩ := Infinite.exists_notMem_finset l.toFinset
  exact ⟨n, fun hmem => hn (List.mem_toFinset.2 hmem)⟩

/-- **A request that has not been answered can go on**, and has fewer calls left then. -/
theorem Served.proceeds {pc : RequestPc} (h : Served k w)
    (hp : (w.procs tid).post k = some pc) : (∃ id, pc = .responded id) ∨
      ∃ e w' pc', App.step cfg w (.run tid e) = some w' ∧ postsOnly w (.run tid e) = true ∧
        (w'.procs tid).post k = some pc' ∧ pc'.rank < pc.rank := by
  have hok := h.places tid pc hp
  have hproc : w.procs tid = .request .specPost k pc := by
    generalize w.procs tid = p at hp
    unfold Proc.post at hp
    split at hp
    · split at hp <;> cases hp
      next heq => rw [heq]
    · cases hp
  -- it is enough to say what the call answers, and where the request goes on
  have go : ∀ (e : Event) (eff : Effect) (pc' : RequestPc),
      requestNext cfg w .specPost k e pc = some (eff, .request .specPost k pc') →
      postsOnly w (.run tid e) = true → pc'.rank < pc.rank →
      ∃ e w' pc', App.step cfg w (.run tid e) = some w' ∧ postsOnly w (.run tid e) = true ∧
        (w'.procs tid).post k = some pc' ∧ pc'.rank < pc.rank := by
    intro e eff pc' hnext hpost hrank
    refine ⟨e, (w.apply tid eff).setProc tid (.request .specPost k pc'), pc', ?_, hpost, ?_, hrank⟩
    · simp only [App.step, hproc, next, hnext]
    · rw [setProc_procs, if_pos rfl, post_request]
  cases pc with
  | findSpec =>
    by_cases hs : k ∈ w.specs
    · exact .inr (go .ok _ _ (by simp only [requestNext, if_pos hs]; rfl) rfl (by decide))
    · exact .inr (go .ok _ _ (by simp only [requestNext, if_neg hs]; rfl) rfl (by decide))
  | insertSpec =>
    exact .inr (go .ok _ _ (by simp only [requestNext, if_neg hok]; rfl) rfl (by decide))
  | findActive =>
    have hperm : (w.actives k).Perm (w.instances.filter fun i => i.spec = k && i.active) := .refl _
    cases hm : mostRecent (w.actives k) with
    | none =>
      refine .inr (go (.rows (w.actives k)) .none .findInfo ?_ rfl
        (by decide))
      simp only [requestNext]
      rw [if_pos hperm, hm]
    | some r =>
      refine .inr (go (.rows (w.actives k)) .none (.responded r.id) ?_ rfl
        (Nat.succ_pos _))
      simp only [requestNext]
      rw [if_pos hperm, hm]
  | findInfo =>
    exact .inr (go .ok _ _ (by simp only [requestNext, if_pos hok.1]; rfl) rfl (by decide))
  | create =>
    obtain ⟨c, hc⟩ := exists_fresh w.everCreated
    exact .inr (go (.created 0 c) _ _ (by simp only [requestNext, if_neg hc]; rfl) rfl
      (by simp [RequestPc.rank]))
  | setup image c => exact .inr (go .ok _ _ rfl rfl (by simp [RequestPc.rank]))
  | transact image c t =>
    obtain ⟨id, hid⟩ := exists_fresh (w.instances.map Instance.id)
    have hfresh : w.hasInstance id = false := by
      refine List.any_eq_false.2 fun r hr heq => hid ?_
      rw [← of_decide_eq_true heq]
      exact List.mem_map_of_mem hr
    exact .inr (go (.inserted id true) _ _
      (by simp only [requestNext, if_pos (And.intro hok.1 hfresh)]; rfl)
      (by simp [postsOnly, hfresh]) (by simp [RequestPc.rank]))
  | responded id => exact .inl ⟨id, rfl⟩
  | failed => exact hok.elim

end

/-- **One instance per spec**, in the runs of requests, from any database with at most one active
instance of the spec, in which no request for it looks while another one is between its look and its
insertion: no request fails, all that are answered are answered with the same instance, there is at
most one active row, and a request that has not been answered can go on, with fewer calls left. -/
theorem posts_one_instance (cfg : Config) (k : Nat) (w₀ w : World) (as : List Act)
    (hidle : ∀ t, w₀.procs t = .idle) (hone : (w₀.actives k).length ≤ 1)
    (hr : (app cfg).Run (fun w a => postsOnly w a = true ∧ Serial k w a) w₀ as w) :
    OneInstance k w ∧ ∀ tid pc, (w.procs tid).post k = some pc → (∃ id, pc = .responded id) ∨
      ∃ e w' pc', step cfg w (.run tid e) = some w' ∧ postsOnly w (.run tid e) = true ∧
        (w'.procs tid).post k = some pc' ∧ pc'.rank < pc.rank := by
  have h := hr.invariant (I := Served k) (served_idle hidle hone)
    fun t a t' ht hp hs => ht.step hp.1 hp.2 hs
  exact ⟨h.oneInstance, fun tid pc hp => h.proceeds hp⟩

/-! ## Two runs -/

/-- The condition on looks where only the goroutines below `n` have been started. -/
def serial (k n : Nat) (w : World) : Act → Bool
  | .run tid _ =>
    (List.range n).all fun t =>
      match (w.procs tid).post k, (w.procs t).post k with
      | some .findSpec, some .insertSpec => false
      | some .findActive, some pc => !pc.building
      | _, _ => true
  | _ => true

/-- It is the condition itself there. -/
theorem serial_sound {k n : Nat} {w : World} {a : Act} (h : serial k n w a = true)
    (hidle : ∀ t, n ≤ t → w.procs t = .idle) : Serial k w a := by
  cases a with
  | run tid e =>
    have hbelow : ∀ t pc, (w.procs t).post k = some pc → t < n := fun t pc hpc => by
      refine Nat.lt_of_not_le fun hle => ?_
      rw [hidle t hle] at hpc
      cases hpc
    simp only [serial, List.all_eq_true, List.mem_range] at h
    refine ⟨fun hp t ht => ?_, fun hp t pc ht => ?_⟩
    · have := h t (hbelow t _ ht)
      rw [hp, ht] at this
      cases this
    · have := h t (hbelow t _ ht)
      rw [hp, ht] at this
      simpa using this
  | _ => trivial

/-- Behind the first request, another one. -/
def secondRequest : List Act :=
  firstRequest ++ [.start 1 (.request .specPost 5 .findSpec), .run 1 .ok,
    .run 1 (.rows [⟨3, 0, 5, 1, 2, some 10, true, false⟩])]

/-- The two are answered with one instance. -/
theorem posts_one_instance_secondRequest :
    ∃ w, (app ⟨10, 60⟩).exec (World.initial ⟨10, 60⟩ []) secondRequest = some w ∧
      (w.procs 0).post 5 = some (.responded 3) ∧ (w.procs 1).post 5 = some (.responded 3) ∧
      OneInstance 5 w := by
  refine ⟨_, rfl, rfl, rfl, (posts_one_instance ⟨10, 60⟩ 5 (World.initial ⟨10, 60⟩ []) _
    secondRequest (fun _ => rfl) (Nat.zero_le 1) ?_).1⟩
  refine run_below (k := 2) (C := fun w a => postsOnly w a && serial 5 2 w a)
    (fun u a hC hbelow => ?_) rfl (fun _ => rfl) (by decide)
  obtain ⟨hpost, hserial⟩ := Bool.and_eq_true_iff.1 hC
  exact ⟨hpost, serial_sound hserial hbelow⟩

/-- Two requests for an unknown spec, both of which look before either inserts it. -/
def twoInserts : List Act :=
  [.start 0 (.request .specPost 5 .findSpec), .start 1 (.request .specPost 5 .findSpec),
    .run 0 .ok, .run 1 .ok, .run 0 .ok, .run 1 .ok]

/-- Not all requests succeed: the second insertion is an error. -/
theorem posts_two_inserts : ¬ ∀ cfg k w₀ w as, (∀ t, w₀.procs t = .idle) →
    (w₀.actives k).length ≤ 1 → (app cfg).Run (fun w a => postsOnly w a = true) w₀ as w →
    OneInstance k w := by
  intro h
  have hrun : (app ⟨10, 60⟩).Run (fun w a => postsOnly w a = true) (World.initial ⟨10, 60⟩ [])
    twoInserts _ := System.run_of_execWhere rfl
  obtain ⟨hfail, -⟩ :=
    h ⟨10, 60⟩ 5 (World.initial ⟨10, 60⟩ []) _ _ (fun _ => rfl) (Nat.zero_le 1) hrun
  exact hfail 1 rfl

end UAssign.App

import UAssign.App.Rows

/-!
# Clean-ups that fail midway

`cleanInstance` removes the container first and tells the database last, and it returns at the first
error in between. `clean_settles` says which of its failure points leave a row active whose
container is gone, so that `getActiveInstance` goes on to hand it out.
-/

namespace UAssign.App

/-! ## The runs -/

/-- The server, and the containers that a `cleanInstance` that has returned has removed, or has
found to be gone. -/
structure Cleaning where
  world : World
  finished : List Nat

/-- The container that a `cleanInstance` leaves removed that returns in this step: from the failing
removal, from the failing removal of the image, or from the update. -/
def Proc.returns (p : Proc) (e : Event) : Option Nat :=
  match p, e with
  | .cleaning .remove (r :: _), .failed true => some r.containerID
  | .cleaning .image (r :: _), .failed _ => some r.containerID
  | .cleaning .mark (r :: _), _ => some r.containerID
  | _, _ => none

/-- The containers that are finished in a step. -/
def World.finishes (w : World) : Act → List Nat
  | .run tid e => ((w.procs tid).returns e).toList
  | _ => []

/-- The server with its clean-ups. -/
def cleanings (cfg : Config) : System Cleaning Act where
  init s := ∃ foreign, s = ⟨World.initial cfg foreign, []⟩
  step s a := (step cfg s.world a).map fun w => ⟨w, s.world.finishes a ++ s.finished⟩

/-- No active row has a container that a finished clean-up has removed. -/
def Cleaning.Honest (s : Cleaning) : Prop :=
  ∀ r ∈ s.world.instances, r.active = true → r.containerID ∉ s.finished

/-- If the container is gone when `cleanInstance` returns with an error, then the row is inactive
already, or the update has been carried out. -/
def Settles (w : World) : Act → Prop
  | .run tid e =>
    match w.procs tid, e with
    | .cleaning .remove (r :: _), .failed true | .cleaning .image (r :: _), .failed _
    | .cleaning .mark (r :: _), .failed false => ∀ x ∈ w.instances, x.id = r.id → x.active = false
    | _, _ => True
  | _ => True

/-! ## The invariant -/

/-- What all runs keep. -/
structure Cleaning.Ok (s : Cleaning) : Prop where
  wf : Wf s.world
  owned : ∀ c ∈ s.finished, ∃ r ∈ s.world.instances, r.containerID = c

section

variable {cfg : Config} {s s' : Cleaning} {w w' : World} {tid : Nat} {e : Event} {eff : Effect}
  {p p' : Proc} {a : Act}

/-- A clean-up returns from a copy that it holds. -/
theorem Proc.returns_copy {c : Nat} (h : p.returns e = some c) :
    ∃ pc r todo, p = .cleaning pc (r :: todo) ∧ r.containerID = c := by
  unfold Proc.returns at h
  split at h
  · exact ⟨_, _, _, rfl, Option.some.inj h⟩
  · exact ⟨_, _, _, rfl, Option.some.inj h⟩
  · exact ⟨_, _, _, rfl, Option.some.inj h⟩
  · cases h

/-- The containers that are finished in a step belong to rows. -/
theorem finishes_row (h : Wf w) {c : Nat} (hc : c ∈ w.finishes a) :
    ∃ r ∈ w.instances, r.containerID = c := by
  cases a with
  | run tid e =>
    obtain ⟨pc, x, todo, hp, rfl⟩ := Proc.returns_copy (Option.mem_toList.1 hc)
    obtain ⟨r, hr, hs⟩ := (h.procs tid).copies x (by rw [hp]; exact List.mem_cons_self)
    exact ⟨r, hr, hs.containerID⟩
  | _ => cases hc

/-- What a step is. -/
theorem step_cleaning (hs : (cleanings cfg).step s a = some s') :
    step cfg s.world a = some s'.world ∧ s'.finished = s.world.finishes a ++ s.finished := by
  obtain ⟨w, hw, rfl⟩ := Option.map_eq_some_iff.1 hs
  exact ⟨hw, rfl⟩

/-- **One step** keeps the invariant. -/
theorem Cleaning.Ok.step (h : s.Ok) (hs : (cleanings cfg).step s a = some s') : s'.Ok := by
  obtain ⟨hstep, hfin⟩ := step_cleaning hs
  obtain ⟨hwf, hlater⟩ := h.wf.step hstep
  refine ⟨hwf, fun c hc => ?_⟩
  have hrow : ∃ r ∈ s.world.instances, r.containerID = c := by
    rw [hfin] at hc
    rcases List.mem_append.1 hc with hc | hc
    · exact finishes_row h.wf hc
    · exact h.owned c hc
  obtain ⟨r, hr, rfl⟩ := hrow
  obtain ⟨r', hr', hsame, -⟩ := hlater.rows r hr
  exact ⟨r', hr', hsame.containerID⟩

/-- It holds in every state that a run reaches. -/
theorem ok_reaches {P : Cleaning → Act → Prop} (h : (cleanings cfg).Reaches P s) : s.Ok := by
  refine h.invariant ?_ fun t a t' ht _ hs => ht.step hs
  rintro _ ⟨foreign, rfl⟩
  exact ⟨wf_initial cfg foreign, nofun⟩

/-- A row that is active after a step was so before, or is new, with a container that no row had. -/
theorem active_step (h : Wf w) (hs : step cfg w a = some w') {r : Instance}
    (hr : r ∈ w'.instances) (hactive : r.active = true) :
    (∃ x ∈ w.instances, r.SameRow x ∧ x.active = true) ∨
      ∀ x ∈ w.instances, x.containerID ≠ r.containerID := by
  cases a with
  | run tid e =>
    obtain ⟨eff, p, hn, rfl⟩ := step_run hs
    have hok := hn.ok (h.procs tid)
    rcases active_before hok hr hactive with hx | rfl
    · exact .inl hx
    · exact .inr ((h.procs tid).building _ hok.2.1).2
  | start tid p =>
    obtain ⟨-, hs⟩ := Option.ite_none_right_eq_some.1 hs
    cases hs
    exact .inl ⟨r, hr, .refl r, hactive⟩
  | _ => cases hs; exact .inl ⟨r, hr, .refl r, hactive⟩

/-- The update of a clean-up leaves its row inactive. -/
theorem inactive_mark {r x : Instance} (h : Wf w) (hx : x ∈ (w.procs tid).copies)
    (hr : r ∈ (w.apply tid (.update { x with active := false, cleaned := true }
      [.active, .cleaned])).instances) (hc : r.containerID = x.containerID) : r.active = false := by
  obtain ⟨y, hy, rfl⟩ := mem_update.1 hr
  rw [sameRow_update.containerID] at hc
  have hid : y.id = x.id := (h.container_copy hx hy).1 hc
  rw [if_pos hid, (setColumns_spec y _ _).2.1, if_pos List.mem_cons_self]

/-- **A `cleanInstance` that returns** leaves its row inactive exactly if the step settles it. -/
theorem settles_iff {c : Nat} (h : Wf w) (hn : Next cfg w tid e (w.procs tid) eff p')
    (hret : (w.procs tid).returns e = some c) :
    (∀ r ∈ (w.apply tid eff).instances, r.containerID = c → r.active = false) ↔
      Settles w (.run tid e) := by
  have hcopy := fun x (hx : x ∈ (w.procs tid).copies) r => h.container_copy (r := r) hx
  have hmark := fun x (hx : x ∈ (w.procs tid).copies) r => inactive_mark (r := r) h hx
  generalize hp : w.procs tid = p at hn hret hcopy hmark
  -- where the update is not carried out, the rows stay as they are
  have same : ∀ x ∈ p.copies, x.containerID = c →
      ((∀ r ∈ w.instances, r.containerID = c → r.active = false) ↔
        ∀ r ∈ w.instances, r.id = x.id → r.active = false) := by
    rintro x hx rfl
    exact forall₂_congr fun r hr => imp_congr_left (hcopy x hx r hr)
  unfold Proc.returns at hret
  split at hret
  · next x todo =>
    simp only [Settles, hp]
    cases hn
    exact same x List.mem_cons_self (Option.some.inj hret)
  · next x todo a =>
    simp only [Settles, hp]
    cases hn <;> exact same x List.mem_cons_self (Option.some.inj hret)
  · next x todo =>
    obtain rfl := Option.some.inj hret
    cases hn with
    | mark hu =>
      rcases update_cases hu with rfl | ⟨rfl, rfl⟩
      · have hall := fun r => hmark x List.mem_cons_self r
        simp only [Settles, hp]
        cases e with
        | ok => exact ⟨fun _ => trivial, fun _ => hall⟩
        | failed a =>
          cases a with
          | true => exact ⟨fun _ => trivial, fun _ => hall⟩
          | false => cases hu
        | _ => cases hu
      · simp only [Settles, hp]
        exact same x List.mem_cons_self rfl
  · cases hret

/-- A step in which no `cleanInstance` returns settles all. -/
theorem settles_of_none (hret : (w.procs tid).returns e = none) : Settles w (.run tid e) := by
  simp only [Settles]
  generalize w.procs tid = p at hret ⊢
  split <;> trivial

/-- **Where no active row has a finished container**, a step keeps it so exactly if it settles the
row of the `cleanInstance` that returns in it. -/
theorem honest_step_iff (hok : s.Ok) (h : s.Honest) (hs : (cleanings cfg).step s a = some s') :
    s'.Honest ↔ Settles s.world a := by
  obtain ⟨hstep, hfin⟩ := step_cleaning hs
  -- a row that is active after the step has no container that was finished before it
  have hbefore : ∀ r ∈ s'.world.instances, r.active = true → r.containerID ∉ s.finished := by
    intro r hr hactive hmem
    rcases active_step hok.wf hstep hr hactive with ⟨x, hx, hsame, hxactive⟩ | hnew
    · exact h x hx hxactive (hsame.containerID ▸ hmem)
    · obtain ⟨x, hx, hc⟩ := hok.owned _ hmem
      exact hnew x hx hc
  have nothing : s.world.finishes a = [] → s'.Honest := by
    intro hnil r hr hactive
    rw [hfin, hnil]
    exact hbefore r hr hactive
  cases a with
  | run tid e =>
    obtain ⟨eff, p, hn, hw⟩ := step_run hstep
    cases hret : (s.world.procs tid).returns e with
    | none =>
      have hnil : s.world.finishes (.run tid e) = [] := by rw [World.finishes, hret]; rfl
      exact ⟨fun _ => settles_of_none hret, fun _ => nothing hnil⟩
    | some c =>
      have hfin : s'.finished = c :: s.finished := by rw [hfin, World.finishes, hret]; rfl
      have hrows : s'.world.instances = (s.world.apply tid eff).instances := by rw [hw]; rfl
      rw [← settles_iff hok.wf hn hret, ← hrows]
      constructor
      · intro hhonest r hr hc
        refine Bool.eq_false_iff.2 fun hactive => hhonest r hr hactive ?_
        rw [hfin, hc]
        exact List.mem_cons_self
      · intro hinactive r hr hactive hmem
        rw [hfin] at hmem
        rcases List.mem_cons.1 hmem with hc | hmem
        · rw [hinactive r hr hc] at hactive
          cases hactive
        · exact hbefore r hr hactive hmem
  | _ => exact ⟨fun _ => trivial, fun _ => nothing rfl⟩

/-- What `getActiveInstance` returns is no finished container's. -/
theorem Cleaning.Honest.offer {q : Request} {n id : Nat} (h : s.Honest) (hw : Wf s.world)
    (hp : s.world.procs tid = .request q n .findActive)
    (hnext : next cfg s.world tid e (s.world.procs tid) =
      some (eff, .request q n (.responded id))) :
    ∀ r ∈ s.world.instances, r.id = id → r.containerID ∉ s.finished := by
  intro r hr hid
  have hn := next_sound hnext
  rw [hp] at hn
  cases hn with
  | foundActive hx _ hactive =>
    rw [hw.rows.unique r hr _ hx hid]
    exact h _ hx hactive

end

/-- **Clean-ups settle** their rows in the runs whose steps do: no active row has a container that a
finished `cleanInstance` has removed, and `getActiveInstance` hands out none. The first step that
does not settle its row leaves one behind. -/
theorem clean_settles (cfg : Config) (s : Cleaning) :
    ((cleanings cfg).Reaches (fun s a => Settles s.world a) s → s.Honest ∧
      ∀ tid e eff q n id, s.world.procs tid = .request q n .findActive →
        next cfg s.world tid e (s.world.procs tid) = some (eff, .request q n (.responded id)) →
        ∀ r ∈ s.world.instances, r.id = id → r.containerID ∉ s.finished) ∧
    ((cleanings cfg).Reaches System.Any s → s.Honest → ∀ a s',
      (cleanings cfg).step s a = some s' → (s'.Honest ↔ Settles s.world a)) := by
  refine ⟨fun h => ?_, fun h hhonest a s' hs => honest_step_iff (ok_reaches h) hhonest hs⟩
  have hall : s.Ok ∧ s.Honest := by
    refine h.invariant (I := fun t => t.Ok ∧ t.Honest) ?_ ?_
    · rintro _ ⟨foreign, rfl⟩
      exact ⟨⟨wf_initial cfg foreign, nofun⟩, nofun⟩
    · rintro t a t' ⟨hok, hhonest⟩ hsettles hs
      exact ⟨hok.step hs, (honest_step_iff hok hhonest hs).2 hsettles⟩
  exact ⟨hall.2, fun tid e eff q n id hp hnext => hall.2.offer hall.1.wf hp hnext⟩

/-! ## Two runs -/

/-- A call fails. -/
def Act.fails : Act → Bool
  | .run _ (.failed _) => true
  | _ => false

/-- Where no call fails, all is settled. -/
theorem settles_of_not_fails {w : World} {a : Act} (h : a.fails = false) : Settles w a := by
  cases a with
  | run tid e =>
    simp only [Settles]
    split <;> trivial
  | _ => trivial

/-- Behind the first request, a clean-up of the spec, up to the removal of the image. -/
def cleanSpec : List Act :=
  firstRequest ++ [.start 1 (.request .specClean 5 .findSpec), .run 1 .ok,
    .run 1 (.rows [⟨3, 0, 5, 1, 2, some 10, true, false⟩]), .run 1 .ok, .run 1 .ok]

/-- The image is removed and the row updated. -/
theorem clean_settles_cleanSpec :
    ∃ s, (cleanings ⟨10, 60⟩).exec ⟨World.initial ⟨10, 60⟩ [], []⟩
        (cleanSpec ++ [.run 1 .ok, .run 1 .ok]) = some s ∧ s.finished = [2] ∧ s.Honest := by
  refine ⟨_, rfl, rfl, ?_⟩
  have hrun : (cleanings ⟨10, 60⟩).Run (fun s a => Settles s.world a)
      ⟨World.initial ⟨10, 60⟩ [], []⟩ (cleanSpec ++ [.run 1 .ok, .run 1 .ok]) _ :=
    (System.run_of_execWhere (C := fun _ a => !a.fails) rfl).mono fun _ _ h =>
      settles_of_not_fails (Bool.not_eq_true' _ ▸ h)
  exact ((clean_settles ⟨10, 60⟩ _).1 ⟨_, _, ⟨[], rfl⟩, hrun⟩).1

/-- The removal of the image fails, and a second request comes. -/
def cleanSpecFailing : List Act :=
  cleanSpec ++ [.run 1 (.failed false), .run 1 .abort, .start 2 (.request .specPost 5 .findSpec),
    .run 2 .ok, .run 2 (.rows [⟨3, 0, 5, 1, 2, some 10, true, false⟩])]

/-- **The second request is answered with the instance, whose container is gone.** -/
theorem clean_leaves_active :
    ∃ s, (cleanings ⟨10, 60⟩).exec ⟨World.initial ⟨10, 60⟩ [], []⟩ cleanSpecFailing = some s ∧
      s.world.containers = [] ∧ s.world.procs 2 = .request .specPost 5 (.responded 3) ∧
      ¬ s.Honest :=
  ⟨_, rfl, rfl, rfl, fun h => h _ List.mem_cons_self rfl List.mem_cons_self⟩

end UAssign.App

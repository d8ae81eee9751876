import UAssign.App.Expiry

/-!
# Pruning

`pruneDocker` asks Docker for the stopped containers that carry the label `ua.owned=true` and were
created more than a day ago. It looks at the age of a container and not at the row that is to be
returned to: an instance whose sessions renew its `ExpiresAt` outlives the day, and between two of
them its container is stopped. `prune_spares` says at which moments a prune does no harm.
-/

namespace UAssign.App

open Expire

/-! ## The containers -/

/-- `filters.Arg("until", "24h")`; the clock counts seconds. -/
def pruneUntil : Nat := 24 * 60 * 60

/-- The server with what Docker knows of the containers: when each that has the label was created,
and which are running; and the instances that were active when a prune removed their container. -/
structure Host where
  world : World
  owned : Nat → Option Nat
  running : List Nat
  lost : List Nat

/-- A call to Docker has been carried out. -/
def Event.carriedOut : Event → Bool
  | .ok | .failed true => true
  | _ => false

namespace Host

/-- The label and the time of a new container. -/
def ownedAfter (s : Host) : Effect → Nat → Option Nat
  | .create c => fun d => if d = c then some s.world.now else s.owned d
  | _ => s.owned

/-- The running containers after a command, or a removal. -/
def runningAfter (s : Host) (e : Event) : Effect → List Nat
  | .issue c .start => if e.carriedOut then c :: s.running else s.running
  | .issue c .stop | .issue c .kill =>
    if e.carriedOut then s.running.filter (· ≠ c) else s.running
  | .remove c => s.running.filter (· ≠ c)
  | _ => s.running

/-- The state after a goroutine's step. -/
def after (s : Host) (tid : Nat) (e : Event) (eff : Effect) (p : Proc) : Host :=
  { s with
    world := (s.world.apply tid eff).setProc tid p
    owned := s.ownedAfter eff
    running := s.runningAfter e eff }

/-- The container has the label and was created more than a day ago. -/
def old (s : Host) (c : Nat) : Bool :=
  match s.owned c with
  | some t => t + pruneUntil < s.world.now
  | none => false

/-- What `ContainersPrune` removes with these filters. -/
def prunable (s : Host) (c : Nat) : Bool := c ∉ s.running && s.old c

/-- The row is active, and its container is there to be removed. -/
def loses (s : Host) (r : Instance) : Bool :=
  r.active && r.containerID ∈ s.world.containers && s.prunable r.containerID

/-- `pruneDocker`. -/
def prune (s : Host) : Host :=
  { s with
    world := { s.world with containers := s.world.containers.filter fun c => !s.prunable c }
    lost := s.lost ++ (s.world.instances.filter s.loses).map (·.id) }

end Host

/-- The steps: the server's, and `pruneDocker`. -/
inductive HostAct where
  | app (a : Act)
  | prune
  deriving DecidableEq

/-- One step. -/
def Host.step (cfg : Config) (s : Host) : HostAct → Option Host
  | .app (.run tid e) =>
    match next cfg s.world tid e (s.world.procs tid) with
    | some (eff, p) => some (s.after tid e eff p)
    | none => none
  | .app a => (App.step cfg s.world a).map fun w => { s with world := w }
  | .prune => some s.prune

/-- The server and Docker, with containers that are not the server's own, some of them running. -/
def hosts (cfg : Config) : System Host HostAct where
  init s := ∃ foreign running, (∀ c ∈ running, c ∈ foreign) ∧
    s = ⟨World.initial cfg foreign, fun _ => none, running, []⟩
  step := Host.step cfg

/-! ## The runs -/

/-- From the start of the container to its stop. -/
def HandlerPc.up : HandlerPc → Bool
  | .started | .proxied | .renewed => true
  | _ => false

/-- The goroutine is a handler of the instance, between start and stop. -/
def Proc.up (n : Nat) : Proc → Bool
  | .handler pc inst => inst.id = n && pc.up
  | _ => false

/-- An instance is in use. -/
def World.InUse (w : World) (n : Nat) : Prop := ∃ tid, (w.procs tid).up n = true

/-- Requests for instances, connections, the scheduled passes and prunes: no other clean-up, no
restart, no removal by hand; and Docker starts and stops the containers that exist. -/
def Host.ordinary (s : Host) : HostAct → Bool
  | .app (.start _ p) => p.scheduled
  | .app (.run tid e) =>
    match s.world.procs tid with
    | .handler .cleared inst | .handler .renewed inst =>
      inst.containerID ∈ s.world.containers → e = .ok
    | _ => true
  | .app .restart | .app (.vanish _) => false
  | _ => true

/-- A step of an ordinary run. -/
def Host.Ordinary (s : Host) (a : HostAct) : Prop := s.ordinary a = true

/-- Every active instance whose container is more than a day old is in use. -/
def Host.Attended (s : Host) : Prop :=
  ∀ r ∈ s.world.instances, r.active = true → r.containerID ∈ s.world.containers →
    s.old r.containerID = true → s.world.InUse r.id

/-- Of the ordinary runs those whose prunes come when all such instances are in use. -/
def Host.Timely (s : Host) (a : HostAct) : Prop := s.Ordinary a ∧ (a = .prune → s.Attended)

/-! ## The invariant -/

/-- The copies of the rows that are being cleaned. -/
def Proc.toClean : Proc → List Instance
  | .cleaning _ todo => todo
  | _ => []

/-- What the ordinary runs keep: of an active instance whose container exists, this is running
exactly while a handler is between start and stop. -/
structure Host.Tracked (s : Host) : Prop where
  running : ∀ c ∈ s.running, c ∈ s.world.everCreated
  building : ∀ tid c, (s.world.procs tid).building = some c → c ∉ s.running
  scheduled : ∀ tid, (s.world.procs tid).scheduled = true
  cleaning : ∀ tid, ∀ c ∈ (s.world.procs tid).toClean, ∀ r ∈ s.world.instances, r.id = c.id →
    r.active = false
  rows : ∀ r ∈ s.world.instances, r.active = true → r.containerID ∈ s.world.containers →
    (r.containerID ∈ s.running ↔ s.world.InUse r.id)

section

variable {cfg : Config} {s s' : Host} {w w' : World} {tid : Nat} {e : Event} {eff : Effect}
  {p p' : Proc} {q : Nat → List Nat} {inst : Instance}

/-- An instance in use: by this goroutine, or by another one. -/
theorem inUse_iff {n : Nat} (tid : Nat) : w.InUse n ↔
    (w.procs tid).up n = true ∨ ∃ t, t ≠ tid ∧ (w.procs t).up n = true := by
  constructor
  · intro ⟨t, ht⟩
    by_cases heq : t = tid
    · exact .inl (heq ▸ ht)
    · exact .inr ⟨t, heq, ht⟩
  · rintro (ht | ⟨t, -, ht⟩)
    · exact ⟨tid, ht⟩
    · exact ⟨t, ht⟩

/-- The same after a step of this goroutine. -/
theorem inUse_setProc {n : Nat} : ((w.apply tid eff).setProc tid p').InUse n ↔
    p'.up n = true ∨ ∃ t, t ≠ tid ∧ (w.procs t).up n = true := by
  rw [inUse_iff tid, setProc_procs, if_pos rfl]
  refine or_congr_right (exists_congr fun t => and_congr_right fun hne => ?_)
  rw [setProc_procs, if_neg hne, apply_procs]

/-- A handler between start and stop is in its session. -/
theorem up_place {n : Nat} (h : p.up n = true) :
    ∃ pc, p.place n = some pc ∧ pc.holding = true := by
  cases p with
  | handler pc inst =>
    simp only [Proc.up, Bool.and_eq_true, decide_eq_true_eq] at h
    refine ⟨pc, if_pos h.1, ?_⟩
    cases pc <;> first | rfl | cases h.2
  | _ => cases h

/-- What is going to be cleaned was so before, or is an inactive row. -/
theorem Next.toClean (hn : Next cfg w tid e p eff p') (h : p.scheduled = true) :
    ∀ c ∈ p'.toClean, c ∈ p.toClean ∨ (c ∈ w.instances ∧ c.active = false) := by
  intro c hc
  cases hn with
  | findCleanup hperm =>
    rename_i kind result
    cases kind with
    | inactive =>
      obtain ⟨hmem, hsel⟩ := List.mem_filter.1 (hperm.mem_iff.1 hc)
      exact .inr ⟨hmem, by simpa using (Bool.and_eq_true_iff.1 hsel).1⟩
    | _ => cases h
  | foundSpec | insertSpec =>
    rename_i q n hs
    cases q with
    | specPost => cases hc
    | specClean => cases h
  | kill | remove | removeNotFound | removeImage => exact .inl hc
  | removeFail | removeImageFail | mark => exact .inl (List.mem_cons_of_mem _ hc)
  | _ => cases hc

/-- A container that runs after a step did so before, or belongs to a row. -/
theorem runningAfter_row (hp : ProcOk s.world p) (hn : Next cfg s.world tid e p eff p') :
    ∀ c ∈ s.runningAfter e eff, c ∈ s.running ∨ ∃ r ∈ s.world.instances, r.containerID = c := by
  intro c hc
  have hsource := hn.source
  unfold Host.runningAfter at hc
  split at hc
  · next d =>
    split at hc
    · rcases List.mem_cons.1 hc with rfl | hc
      · obtain ⟨pc, inst, rfl, hd, -⟩ | ⟨x, -, -, hkill⟩ := hsource
        · obtain ⟨r, hr, hs⟩ := hp.copies inst List.mem_cons_self
          exact .inr ⟨r, hr, hs.containerID.trans hd⟩
        · cases hkill
      · exact .inl hc
    · exact .inl hc
  · split at hc
    · exact .inl (List.mem_filter.1 hc).1
    · exact .inl hc
  · split at hc
    · exact .inl (List.mem_filter.1 hc).1
    · exact .inl hc
  · exact .inl (List.mem_filter.1 hc).1
  · exact .inl hc

/-- Who inserts a row is not a handler. -/
theorem Next.up_insert {r : Instance} {n : Nat} (hn : Next cfg w tid e p eff p')
    (heff : eff = .insertInstance r) : p'.up n = false := by
  cases hn with
  | clear hu | renew hu | expire hu | mark hu =>
    rcases update_cases hu with rfl | ⟨rfl, -⟩ <;> cases heff
  | removeFail | setupFail => split at heff <;> cases heff
  | insert => rfl
  | _ => cases heff

/-- **A goroutine's step** keeps what is known of the containers if it does so for each row. -/
theorem Host.Tracked.frame (h : s.Tracked) (hw : Wf s.world)
    (hn : Next cfg s.world tid e (s.world.procs tid) eff p')
    (hrows : ∀ r ∈ s.world.instances, r.active = true →
      r.containerID ∈ (s.world.apply tid eff).containers → r.containerID ∈ s.world.containers →
      (r.containerID ∈ s.runningAfter e eff ↔
        p'.up r.id = true ∨ ∃ t, t ≠ tid ∧ (s.world.procs t).up r.id = true)) :
    (s.after tid e eff p').Tracked := by
  have hp := hw.procs tid
  have hok := hn.ok hp
  have hlater : Later s.world ((s.world.apply tid eff).setProc tid p') := (hw.run hn).2
  have hback := runningAfter_row hp hn
  refine ⟨fun c hc => ?_, fun t c hc hrun => ?_, fun t => ?_, fun t c hc r' hr' hid => ?_,
    fun r' hr' hactive hmem => ?_⟩
  · rcases hback c hc with hc | ⟨r, hr, rfl⟩
    · exact hlater.created c (h.running c hc)
    · exact hlater.created _ (hw.rows.created r hr)
  · have hcase : (s.world.procs t).building = some c ∨ c ∉ s.world.everCreated := by
      rw [Host.after, setProc_procs] at hc
      split at hc
      · next heq => exact heq ▸ (hn.building hp hw.rows c hc).2
      · rw [apply_procs] at hc; exact .inl hc
    rcases hback c hrun with hrun | ⟨r, hr, rfl⟩
    · rcases hcase with hc | hc
      · exact h.building t c hc hrun
      · exact hc (h.running c hrun)
    · rcases hcase with hc | hc
      · exact ((hw.procs t).building _ hc).2 r hr rfl
      · exact hc (hw.rows.created r hr)
  · rw [Host.after, setProc_procs]
    split
    · exact hn.scheduled (h.scheduled tid)
    · rw [apply_procs]; exact h.scheduled t
  · have hcase : ∃ x ∈ s.world.instances, x.SameRow c ∧ x.active = false := by
      rw [Host.after, setProc_procs] at hc
      have hold : ∀ u, c ∈ (s.world.procs u).toClean →
          ∃ x ∈ s.world.instances, x.SameRow c ∧ x.active = false := by
        intro u hc
        have hcopy : c ∈ (s.world.procs u).copies := by
          generalize s.world.procs u = p at hc
          cases p <;> first | exact hc | cases hc
        obtain ⟨x, hx, hs⟩ := (hw.procs u).copies c hcopy
        exact ⟨x, hx, hs, h.cleaning u c hc x hx hs.id⟩
      split at hc
      · rcases hn.toClean (h.scheduled tid) c hc with hc | ⟨hc, hinactive⟩
        · exact hold tid hc
        · exact ⟨c, hc, .refl c, hinactive⟩
      · rw [apply_procs] at hc; exact hold t hc
    obtain ⟨x, hx, hs, hinactive⟩ := hcase
    obtain ⟨y, hy, hsy, hyactive, -⟩ := hlater.rows x hx
    have hwf := (hw.run hn).1.rows
    rw [hwf.unique r' hr' y hy (hid.trans (hs.id.symm.trans hsy.id.symm))]
    exact hyactive hinactive
  · rw [Host.after, inUse_setProc]
    rcases active_before hok hr' hactive with ⟨r, hr, hs, hra⟩ | rfl
    · have hcont : r'.containerID ∈ (s.world.apply tid eff).containers := hmem
      rw [hs.containerID] at hcont ⊢
      rw [hs.id]
      exact hrows r hr hra hcont
        (hlater.containers _ (hw.rows.created r hr) hcont)
    · -- a new row: its container has not been started, and nobody is a handler of it
      obtain ⟨hfresh, hbuild, -⟩ := hok
      have hstopped : r'.containerID ∉ s.running := h.building tid _ hbuild
      have hnobody : ∀ t, (s.world.procs t).up r'.id ≠ true := by
        intro t hup
        obtain ⟨pc, hpc, -⟩ := up_place hup
        obtain ⟨inst, hproc, hid⟩ := place_eq_some.1 hpc
        obtain ⟨y, hy, hs⟩ := (hw.procs t).copies inst (by rw [hproc]; exact List.mem_cons_self)
        exact hfresh y hy (hs.id.trans hid)
      have hself : p'.up r'.id ≠ true := by rw [hn.up_insert rfl]; nofun
      constructor
      · intro hrun; exact (hstopped hrun).elim
      · rintro (hup | ⟨t, -, hup⟩)
        · exact (hself hup).elim
        · exact (hnobody t hup).elim

/-- A command is about one container. -/
theorem runningAfter_ne {c d : Nat} {cmd : Command} (hne : c ≠ d) :
    c ∈ s.runningAfter e (.issue d cmd) ↔ c ∈ s.running := by
  cases cmd <;> simp only [Host.runningAfter] <;> split <;> simp [hne]

/-- The start of a container by a handler. -/
theorem Host.Tracked.startContainer (h : s.Tracked) (hw : Wf s.world)
    (hp : s.world.procs tid = .handler .cleared inst) (hord : s.Ordinary (.app (.run tid e)))
    (hn : Next cfg s.world tid e (s.world.procs tid) (.issue inst.containerID .start)
      (.handler .started inst)) :
    (s.after tid e (.issue inst.containerID .start) (.handler .started inst)).Tracked := by
  refine h.frame hw hn fun r hr hactive _ hmem => ?_
  have hcont := hw.container hp hr
  have hup := h.rows r hr hactive hmem
  rw [inUse_iff tid, hp] at hup
  simp only [Host.Ordinary, Host.ordinary, hp, decide_eq_true_eq] at hord
  by_cases hid : r.id = inst.id
  · rw [← hcont] at hid
    have hself : (Proc.handler .started inst).up r.id = true := by
      simp [Proc.up, HandlerPc.up, hcont.1 hid]
    rw [hord (hid ▸ hmem), ← hid]
    exact ⟨fun _ => .inl hself, fun _ => List.mem_cons_self⟩
  · have hne : r.containerID ≠ inst.containerID := fun heq => hid (hcont.1 heq.symm)
    have hother : (Proc.handler .started inst).up r.id = (Proc.handler .cleared inst).up r.id := by
      simp [Proc.up, Ne.symm hid]
    rw [hother, ← hup]
    exact runningAfter_ne hne

/-- The stop of a container by a handler: no other one is between start and stop. -/
theorem Host.Tracked.stopContainer (h : s.Tracked) (hw : Wf s.world) (ht : Takeover s.world q)
    (hp : s.world.procs tid = .handler .renewed inst) (hord : s.Ordinary (.app (.run tid e)))
    (hn : Next cfg s.world tid e (s.world.procs tid) (.issue inst.containerID .stop)
      (.handler .stopped inst)) :
    (s.after tid e (.issue inst.containerID .stop) (.handler .stopped inst)).Tracked := by
  refine h.frame hw hn fun r hr hactive _ hmem => ?_
  have hcont := hw.container hp hr
  have hup := h.rows r hr hactive hmem
  rw [inUse_iff tid, hp] at hup
  simp only [Host.Ordinary, Host.ordinary, hp, decide_eq_true_eq] at hord
  by_cases hid : r.id = inst.id
  · rw [hord ((hcont.2 hid) ▸ hmem), hcont.2 hid]
    constructor
    · intro hrun
      simp [Host.runningAfter, Event.carriedOut] at hrun
    · rintro (hup | ⟨t, hne, hup⟩)
      · simp [Proc.up, HandlerPc.up] at hup
      · obtain ⟨pc, hpc, hhold⟩ := up_place hup
        rw [hid] at hpc
        exact (hne (ht.exclusive hpc (place_eq_some.2 ⟨inst, hp, rfl⟩) hhold rfl)).elim
  · have hne : r.containerID ≠ inst.containerID := fun heq => hid (hcont.1 heq.symm)
    have hother : (Proc.handler .stopped inst).up r.id = (Proc.handler .renewed inst).up r.id := by
      simp [Proc.up, Ne.symm hid]
    rw [hother, ← hup]
    exact runningAfter_ne hne

/-- The kill of a container by a clean-up: its row is inactive. -/
theorem Host.Tracked.kill {x : Instance} {todo : List Instance} (h : s.Tracked) (hw : Wf s.world)
    (hp : s.world.procs tid = .cleaning .kill (x :: todo))
    (hn : Next cfg s.world tid e (s.world.procs tid) (.issue x.containerID .kill)
      (.cleaning .remove (x :: todo))) :
    (s.after tid e (.issue x.containerID .kill) (.cleaning .remove (x :: todo))).Tracked := by
  refine h.frame hw hn fun r hr hactive _ hmem => ?_
  have hup := h.rows r hr hactive hmem
  rw [inUse_iff tid, hp] at hup
  have hne : r.containerID ≠ x.containerID := by
    intro heq
    have hid := (hw.container_copy (by rw [hp]; exact List.mem_cons_self) hr).1 heq
    have hinactive := h.cleaning tid x (by rw [hp]; exact List.mem_cons_self) r hr hid
    rw [hactive] at hinactive
    cases hinactive
  exact (runningAfter_ne hne).trans hup

/-- A step that starts or stops no container, nor connects anybody. -/
theorem Host.Tracked.quiet (h : s.Tracked) (hw : Wf s.world)
    (hn : Next cfg s.world tid e (s.world.procs tid) eff p')
    (hup : ∀ n, p'.up n = (s.world.procs tid).up n)
    (hrun : ∀ c ∈ (s.world.apply tid eff).containers,
      c ∈ s.runningAfter e eff ↔ c ∈ s.running) : (s.after tid e eff p').Tracked := by
  refine h.frame hw hn fun r hr hactive hmem' hmem => ?_
  rw [hrun _ hmem', hup, ← inUse_iff]
  exact h.rows r hr hactive hmem

/-- **A goroutine's step** keeps what is known of the containers. -/
theorem Host.Tracked.run (h : s.Tracked) (hw : Wf s.world) (ht : Takeover s.world q)
    (hord : s.Ordinary (.app (.run tid e)))
    (hn : Next cfg s.world tid e (s.world.procs tid) eff p') : (s.after tid e eff p').Tracked := by
  have hn' := hn
  generalize hp : s.world.procs tid = p at hn
  have quiet : ∀ {eff : Effect} {p' : Proc}, Next cfg s.world tid e (s.world.procs tid) eff p' →
      (∀ n, p'.up n = p.up n) → s.runningAfter e eff = s.running →
      (s.after tid e eff p').Tracked :=
    fun hn hup hrun => h.quiet hw hn (hp ▸ hup) fun c _ => by rw [hrun]
  have removed : ∀ {c : Nat} {p' : Proc},
      Next cfg s.world tid e (s.world.procs tid) (.remove c) p' → (∀ n, p'.up n = p.up n) →
      (s.after tid e (.remove c) p').Tracked := by
    intro c p' hn hup
    refine h.quiet hw hn (hp ▸ hup) fun d hd => ?_
    have hne : d ≠ c := by simpa using (List.mem_filter.1 hd).2
    simp [Host.runningAfter, hne]
  have updated : ∀ {copy : Instance} {cols : List Column} {eff : Effect},
      update copy cols e = some eff → s.runningAfter e eff = s.running := by
    intro copy cols eff hu
    rcases update_cases hu with rfl | ⟨rfl, -⟩ <;> rfl
  cases hn with
  | startContainer => exact h.startContainer hw hp hord hn'
  | stopContainer => exact h.stopContainer hw ht hp hord hn'
  | kill => exact h.kill hw hp hn'
  | remove => exact removed hn' fun _ => rfl
  | removeFail | setupFail =>
    split at hn'
    · next ha => rw [if_pos ha]; exact removed hn' fun _ => rfl
    · next ha => rw [if_neg ha]; exact quiet hn' (fun _ => rfl) rfl
  | clear hu | renew hu =>
    exact quiet hn' (fun _ => rfl) (updated hu)
  | expire hu | mark hu => exact quiet hn' (fun _ => rfl) (updated hu)
  | acquire =>
    refine quiet hn' (fun n => ?_) rfl
    split <;> rfl
  | upgrade => exact quiet hn' (fun n => by simp [Proc.up, HandlerPc.up]) rfl
  | foundSpec | insertSpec =>
    rename_i q _ _
    refine quiet hn' (fun n => ?_) rfl
    cases q <;> rfl
  | _ => exact quiet hn' (fun _ => rfl) rfl

/-- A change of the world that touches neither goroutines nor rows and adds no container. -/
theorem Host.Tracked.of_eq (h : s.Tracked) (hr : s'.running = s.running)
    (hp : s'.world.procs = s.world.procs) (hi : s'.world.instances = s.world.instances)
    (he : s'.world.everCreated = s.world.everCreated)
    (hc : ∀ c ∈ s'.world.containers, c ∈ s.world.containers) : s'.Tracked := by
  refine ⟨hr ▸ he ▸ h.running, hr ▸ hp ▸ h.building, hp ▸ h.scheduled, hp ▸ hi ▸ h.cleaning, ?_⟩
  intro r hmem hactive hcont
  rw [hi] at hmem
  unfold World.InUse
  rw [hr, hp]
  exact h.rows r hmem hactive (hc _ hcont)

/-- The start of a goroutine. -/
theorem Host.Tracked.start (h : s.Tracked) (hidle : s.world.procs tid = .idle)
    (hstart : p.isStart = true) (hs : p.scheduled = true) :
    { s with world := s.world.setProc tid p : Host }.Tracked := by
  have hbuild : p.building = none := (procOk_start (w := s.world) hstart).2
  have hclean : p.toClean = [] := by cases p <;> first | rfl | cases hstart
  have hup : ∀ n, p.up n = false := by
    intro n
    cases p <;> first | rfl | cases hstart
  refine ⟨h.running, fun t c hc => ?_, fun t => ?_, fun t c hc => ?_, fun r hr hactive hmem => ?_⟩
  · rw [setProc_procs] at hc
    split at hc
    · rw [hbuild] at hc; cases hc
    · exact h.building t c hc
  · rw [setProc_procs]
    split
    · exact hs
    · exact h.scheduled t
  · rw [setProc_procs] at hc
    split at hc
    · rw [hclean] at hc; cases hc
    · exact h.cleaning t c hc
  · have hrow := h.rows r hr hactive hmem
    rw [inUse_iff tid, hidle] at hrow
    rw [inUse_iff tid, setProc_procs, if_pos rfl, hup]
    refine hrow.trans (or_congr_right (exists_congr fun t => and_congr_right fun hne => ?_))
    rw [setProc_procs, if_neg hne]

/-- What the ordinary runs keep, all of it. -/
structure Host.Sound (s : Host) : Prop where
  wf : Wf s.world
  takeover : ∃ q, Takeover s.world q
  tracked : s.Tracked

/-- What a step of the server is. -/
theorem step_app {a : Act} (hs : s.step cfg (.app a) = some s') :
    App.step cfg s.world a = some s'.world ∧ s'.lost = s.lost ∧
    ((∃ tid e eff p', a = .run tid e ∧ Next cfg s.world tid e (s.world.procs tid) eff p' ∧
      s' = s.after tid e eff p') ∨
    ((∀ tid e, a ≠ .run tid e) ∧ s' = { s with world := s'.world })) := by
  cases a with
  | run tid e =>
    simp only [Host.step] at hs
    split at hs
    · next eff p hnext =>
      cases hs
      refine ⟨?_, rfl, .inl ⟨tid, e, eff, p, rfl, next_sound hnext, rfl⟩⟩
      simp only [App.step, hnext, Host.after]
    · cases hs
  | _ =>
    simp only [Host.step] at hs
    obtain ⟨w, hw, rfl⟩ := Option.map_eq_some_iff.1 hs
    exact ⟨hw, rfl, .inr ⟨fun _ _ heq => (by cases heq), rfl⟩⟩

/-- **A step of an ordinary run** keeps it. -/
theorem Host.Sound.step {a : HostAct} (h : s.Sound) (hord : s.Ordinary a)
    (hs : s.step cfg a = some s') : s'.Sound := by
  obtain ⟨hw, ⟨q, ht⟩, htr⟩ := h
  cases a with
  | prune =>
    cases hs
    have hsub : ∀ c ∈ s.prune.world.containers, c ∈ s.world.containers :=
      fun c hc => (List.mem_filter.1 hc).1
    have hwf : Wf s.prune.world ∧ Later s.world s.prune.world := hw.of_eq rfl rfl rfl hsub
    exact ⟨hwf.1, ⟨q, ht.of_eq rfl rfl⟩, htr.of_eq rfl rfl rfl rfl hsub⟩
  | app a =>
    obtain ⟨hstep, -, hcase⟩ := step_app hs
    refine ⟨(hw.step hstep).1, ht.step hstep, ?_⟩
    rcases hcase with ⟨tid, e, eff, p', rfl, hn, rfl⟩ | ⟨hother, heq⟩
    · exact htr.run hw ht hord hn
    · rw [heq]
      cases a with
      | run tid e => exact (hother tid e rfl).elim
      | start tid p =>
        obtain ⟨⟨hidle, hstart⟩, hstep⟩ := Option.ite_none_right_eq_some.1 hstep
        rw [← Option.some.inj hstep]
        exact htr.start hidle hstart hord
      | tick =>
        rw [← Option.some.inj hstep]
        exact htr.of_eq rfl rfl rfl rfl fun _ => id
      | advance n =>
        rw [← Option.some.inj hstep]
        exact htr.of_eq rfl rfl rfl rfl fun _ => id
      | restart => cases hord
      | vanish c => cases hord

/-- It holds in every state that an ordinary run reaches. -/
theorem sound_reaches (h : (hosts cfg).Reaches Host.Ordinary s) : s.Sound := by
  refine h.invariant ?_ fun t a t' ht hord hs => ht.step hord hs
  rintro _ ⟨foreign, running, hsub, rfl⟩
  have hinit : (app cfg).Reaches System.Any (World.initial cfg foreign) :=
    ⟨_, [], ⟨foreign, rfl⟩, .nil⟩
  exact ⟨wf_initial cfg foreign, takeover_reaches hinit, hsub, nofun, fun _ => rfl, nofun, nofun⟩

/-- **A prune takes no active instance's container** exactly if those of the old ones are in use. -/
theorem prune_lost_iff (h : s.Sound) : s.prune.lost = s.lost ↔ s.Attended := by
  have hlost : s.prune.lost = s.lost ↔ ∀ r ∈ s.world.instances, ¬ s.loses r = true := by
    simp [Host.prune, List.filter_eq_nil_iff]
  rw [hlost]
  refine forall₂_congr fun r hr => ?_
  have hrow := h.tracked.rows r hr
  simp only [Host.loses, Host.prunable, Bool.and_eq_true, decide_eq_true_eq, not_and,
    and_imp]
  constructor
  · intro hlose hactive hmem hold
    refine (hrow hactive hmem).1 (Decidable.byContradiction fun hstopped => ?_)
    exact hlose hactive hmem hstopped hold
  · intro huse hactive hmem hstopped hold
    exact hstopped ((hrow hactive hmem).2 (huse hactive hmem hold))

end

/-- **Pruning spares the active instances** in the runs whose prunes come when every active instance
whose container is more than a day old is in use; at any other moment of an ordinary run a prune
removes the container of an active instance. -/
theorem prune_spares (cfg : Config) (s : Host) :
    ((hosts cfg).Reaches Host.Timely s → s.lost = []) ∧
    ((hosts cfg).Reaches Host.Ordinary s → (s.prune.lost = s.lost ↔ s.Attended)) := by
  refine ⟨fun h => ?_, fun h => prune_lost_iff (sound_reaches h)⟩
  refine (h.invariant (I := fun t => t.Sound ∧ t.lost = []) ?_ ?_).2
  · intro t ht
    have hreach : (hosts cfg).Reaches Host.Ordinary t := ⟨t, [], ht, .nil⟩
    obtain ⟨foreign, running, -, rfl⟩ := ht
    exact ⟨sound_reaches hreach, rfl⟩
  · rintro t a t' ⟨hsound, hlost⟩ ⟨hord, htimely⟩ hs
    refine ⟨hsound.step hord hs, ?_⟩
    cases a with
    | prune =>
      cases hs
      exact ((prune_lost_iff hsound).2 (htimely rfl)).trans hlost
    | app a => exact (step_app hs).2.1.trans hlost

/-- A request, and a connection that lasts for 25 hours. -/
def longSession : List HostAct :=
  List.map .app (firstRequest ++ [.start 1 (.connect 3), .run 1 .ok, .run 1 .ok, .run 1 .ok,
    .run 1 .ok, .run 1 .ok, .advance (25 * 3600)])

/-- Prunes during it take nothing. -/
theorem prune_spares_longSession :
    ∃ s, (hosts ⟨4 * 3600, 60⟩).Run Host.Timely
        ⟨World.initial ⟨4 * 3600, 60⟩ [], fun _ => none, [], []⟩ (longSession ++ [.prune]) s ∧
      s.old 2 = true ∧ s.lost = [] ∧ s.prune.lost = s.lost := by
  obtain ⟨s, hs, hold, hids, hup⟩ : ∃ s, (hosts ⟨4 * 3600, 60⟩).execWhere
      (fun s a => s.ordinary a && a ≠ .prune)
      ⟨World.initial ⟨4 * 3600, 60⟩ [], fun _ => none, [], []⟩ longSession = some s ∧
      s.old 2 = true ∧ s.world.instances.map (·.id) = [3] ∧ (s.world.procs 1).up 3 = true :=
    ⟨_, rfl, by decide, rfl, rfl⟩
  have hrun := System.run_of_execWhere hs
  have hord := hrun.mono fun s a h => (Bool.and_eq_true_iff.1 h).1
  have htimely := hrun.mono fun s a h => (⟨(Bool.and_eq_true_iff.1 h).1, fun heq =>
    absurd heq (of_decide_eq_true (Bool.and_eq_true_iff.1 h).2)⟩ : Host.Timely s a)
  have hattended : s.Attended := by
    intro r hr _ _ _
    have hid : r.id ∈ s.world.instances.map (·.id) := List.mem_map_of_mem hr
    rw [hids, List.mem_singleton] at hid
    exact ⟨1, hid ▸ hup⟩
  have hprune : (hosts ⟨4 * 3600, 60⟩).step s .prune = some s.prune := rfl
  have htimely := htimely.snoc (⟨rfl, fun _ => hattended⟩ : s.Timely .prune) hprune
  have hord := hord.snoc (rfl : s.Ordinary .prune) hprune
  have hboth := prune_spares ⟨4 * 3600, 60⟩ s.prune
  refine ⟨s.prune, htimely, hold, hboth.1 ⟨_, _, ⟨[], [], fun _ => id, rfl⟩, htimely⟩,
    (hboth.2 ⟨_, _, ⟨[], [], fun _ => id, rfl⟩, hord⟩).2 ?_⟩
  intro r hr hactive hmem
  exact hattended r hr hactive (List.mem_filter.1 hmem).1

/-- The same connection, over; the expiry pass leaves the instance active, and an hour later comes
the prune. -/
def longSessionOver : List HostAct :=
  longSession ++ List.map .app [.run 1 .ok, .run 1 .ok, .run 1 .ok, .run 1 .ok, .run 1 .ok,
    .advance 3600, .start 2 .checkExpired, .run 2 (.rows []), .run 2 .abort] ++ [.prune]

/-- **The prune removes the container of an active instance.** -/
theorem prune_takes_active : ¬ ∀ cfg s, (hosts cfg).Reaches Host.Ordinary s → s.lost = [] := by
  intro h
  have hrun : (hosts ⟨4 * 3600, 60⟩).Run Host.Ordinary
    ⟨World.initial ⟨4 * 3600, 60⟩ [], fun _ => none, [], []⟩ longSessionOver _ :=
    System.run_of_execWhere rfl
  have hlost := h ⟨4 * 3600, 60⟩ _ ⟨_, _, ⟨[], [], fun _ => id, rfl⟩, hrun⟩
  cases hlost

end UAssign.App

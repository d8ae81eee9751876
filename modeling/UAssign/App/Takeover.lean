import UAssign.App.Rows

/-!
# Takeover is exclusive

Of the handlers of one instance, at most one is in its session at a time, which lasts from the
return of `Acquire` to the start of `Release`. The manager's queue of an instance (`Represents`)
carries this: its members are the instance's handlers from `Acquire` to `Release`, and all but the
head are still waiting (`Takeover`). `RowSession` is what the handlers of an instance, of which only
one writes at a time, leave in its row and do to its container.
-/

namespace UAssign.App

open Expire

/-! ## The queues -/

/-- From the entry of a token in the manager to its release. -/
def HandlerPc.queued : HandlerPc → Bool
  | .start | .released | .done => false
  | _ => true

/-- From the return of `Acquire` to the start of `Release`. -/
def HandlerPc.holding : HandlerPc → Bool
  | .start | .waiting | .released | .done => false
  | _ => true

/-- Where a goroutine is as a handler of an instance, if it is one. -/
def Proc.place (n : Nat) : Proc → Option HandlerPc
  | .handler pc inst => if inst.id = n then some pc else none
  | _ => none

/-- The instance in whose queue a goroutine is. -/
def Proc.queued : Proc → Option Nat
  | .handler pc inst => if pc.queued then some inst.id else none
  | _ => none

/-- The handler waits for its channel to be closed. -/
def Proc.waits : Proc → Bool
  | .handler .waiting _ => true
  | _ => false

/-- The handler has called `Acquire`. -/
def Proc.entered : Proc → Bool
  | .handler .start _ => false
  | .handler _ _ => true
  | _ => false

/-- The queues of the manager, and the handlers in them. -/
structure Takeover (w : World) (q : Nat → List Nat) : Prop where
  represents : Represents w.wsManager q
  queued : ∀ tid n, tid ∈ q n ↔ (w.procs tid).queued = some n
  behind : ∀ n, ∀ tid ∈ (q n).tail, (w.procs tid).waits = true
  closed : ∀ tid ∈ w.wsManager.closed, (w.procs tid).entered = true

section

variable {cfg : Config} {w w' : World} {tid : Nat} {e : Event} {eff : Effect} {p p' : Proc}
  {q : Nat → List Nat}

/-- A step that leaves the manager's queues as they are, and the goroutine where it is in them; it
may go on from its wait if its channel is closed. -/
theorem Takeover.frame (h : Takeover w q) (tid : Nat) (p' : Proc) (hm : Represents w'.wsManager q)
    (hcl : w'.wsManager.closed = w.wsManager.closed)
    (hprocs : ∀ t, w'.procs t = if t = tid then p' else w.procs t)
    (hq : p'.queued = (w.procs tid).queued)
    (hw : (w.procs tid).waits = true → p'.waits = true ∨ tid ∈ w.wsManager.closed)
    (he : (w.procs tid).entered = true → p'.entered = true) : Takeover w' q := by
  refine ⟨hm, fun t n => ?_, fun n t ht => ?_, fun t ht => ?_⟩
  · rw [h.queued, hprocs]
    split
    · next heq => rw [heq, hq]
    · rfl
  · rw [hprocs]
    split
    · next heq =>
      subst heq
      exact (hw (h.behind n t ht)).resolve_right (h.represents.waiting n t ht)
    · exact h.behind n t ht
  · rw [hprocs]
    split
    · next heq => exact he (heq ▸ h.closed t (hcl ▸ ht))
    · exact h.closed t (hcl ▸ ht)

/-- The members of the queues, and those behind the heads, after a token has joined. -/
theorem tail_join {t n name token : Nat} (h : t ∈ (join q name token n).tail) :
    t ∈ (q n).tail ∨ (t = token ∧ n = name ∧ q name ≠ []) := by
  by_cases hn : n = name
  · subst hn
    rw [join, setQueue_self] at h
    cases hq : q n with
    | nil => rw [hq] at h; simp at h
    | cons x l =>
      rw [hq] at h
      simp only [List.cons_append, List.tail_cons, List.mem_append, List.mem_singleton] at h
      exact h.imp id fun ht => ⟨ht, rfl, by simp⟩
  · rw [join, setQueue_ne hn] at h
    exact .inl h

/-- **A handler joins the queue** of its instance, and waits unless it is empty. -/
theorem Takeover.acquire {inst : Instance} (h : Takeover w q)
    (hp : w.procs tid = .handler .start inst) :
    Takeover ((w.apply tid (.acquire inst.id)).setProc tid
      (.handler (if (w.acquire tid inst.id).blocker.isSome then .waiting else .acquired) inst))
      (join q inst.id tid) := by
  have hfresh : ∀ n, tid ∉ q n := by
    intro n hmem
    rw [h.queued, hp] at hmem
    cases hmem
  have hopen : tid ∉ w.wsManager.closed := by
    intro hmem
    have := h.closed tid hmem
    rw [hp] at this
    cases this
  obtain ⟨hrep, hblock, hclosed⟩ := h.represents.acquire w.now inst.id tid hfresh hopen
  have hb : (w.acquire tid inst.id).blocker = if q inst.id = [] then none else some tid := hblock
  refine ⟨hrep, fun t n => ?_, fun n t ht => ?_, fun t ht => ?_⟩
  · rw [setProc_procs, apply_procs, mem_join, h.queued]
    split
    · next heq =>
      subst heq
      rw [hp, hb]
      by_cases hq : q inst.id = [] <;>
        simp [hq, Proc.queued, HandlerPc.queued, eq_comm]
    · next hne => simp [hne]
  · rw [setProc_procs, apply_procs]
    rcases tail_join ht with ht | ⟨rfl, -, hne⟩
    · have hne : t ≠ tid := fun heq => hfresh n (heq ▸ List.mem_of_mem_tail ht)
      rw [if_neg hne]
      exact h.behind n t ht
    · rw [if_pos rfl, hb, if_neg hne]
      rfl
  · rw [setProc_procs, apply_procs]
    split
    · split <;> rfl
    · have ht' : t ∈ w.wsManager.closed := hclosed ▸ ht
      exact h.closed t ht'

/-- A handler that does not wait is the head of its queue. -/
theorem Takeover.head {n : Nat} (h : Takeover w q) (hq : (w.procs tid).queued = some n)
    (hw : (w.procs tid).waits = false) : ∃ rest, q n = tid :: rest := by
  have hmem := (h.queued tid n).2 hq
  cases hl : q n with
  | nil => rw [hl] at hmem; cases hmem
  | cons x l =>
    rw [hl] at hmem
    rcases List.mem_cons.1 hmem with rfl | hmem
    · exact ⟨l, rfl⟩
    · have hb := h.behind n tid (by rw [hl]; exact hmem)
      rw [hw] at hb
      cases hb

/-- **A handler leaves the queue** of its instance, and the one behind it is let in. -/
theorem Takeover.release {inst : Instance} (h : Takeover w q)
    (hp : w.procs tid = .handler .stopped inst) :
    ∃ q', Takeover ((w.apply tid .release).setProc tid (.handler .released inst)) q' := by
  have hqueued : (w.procs tid).queued = some inst.id := by rw [hp]; rfl
  have hwaits : (w.procs tid).waits = false := by rw [hp]; rfl
  obtain ⟨rest, hq⟩ := h.head hqueued hwaits
  obtain ⟨hrep, hclosed⟩ := h.represents.release hq
  have hnd : (tid :: rest).Nodup := hq ▸ h.represents.nodup inst.id
  have hnot : ∀ n, tid ∉ setQueue q inst.id rest n := by
    intro n hmem
    have hn := h.represents.disjoint tid n inst.id (mem_leave hq hmem)
      (by rw [hq]; exact List.mem_cons_self)
    subst hn
    rw [setQueue_self] at hmem
    exact (List.nodup_cons.1 hnd).1 hmem
  refine ⟨_, hrep, fun t n => ?_, fun n t ht => ?_, fun t ht => ?_⟩
  · rw [setProc_procs, apply_procs]
    split
    · next heq => subst heq; simp [hnot, Proc.queued, HandlerPc.queued]
    · next hne =>
      rw [← h.queued]
      by_cases hn : n = inst.id
      · subst hn; rw [setQueue_self, hq]; simp [hne]
      · rw [setQueue_ne hn]
  · have hne : t ≠ tid := fun heq => hnot n (heq ▸ List.mem_of_mem_tail ht)
    rw [setProc_procs, apply_procs, if_neg hne]
    by_cases hn : n = inst.id
    · subst hn
      rw [setQueue_self] at ht
      exact h.behind _ t (by rw [hq]; exact List.mem_of_mem_tail ht)
    · rw [setQueue_ne hn] at ht
      exact h.behind n t ht
  · rw [setProc_procs, apply_procs]
    split
    · rfl
    · rcases (hclosed t).1 ht with ht | ht
      · exact h.closed t ht
      · have hmem : t ∈ q inst.id := by
          rw [hq]; exact List.mem_cons_of_mem _ (List.mem_of_head? ht)
        have hq' := (h.queued t inst.id).1 hmem
        have hb := h.behind inst.id t (by rw [hq]; exact List.mem_of_head? ht)
        generalize w.procs t = x at hb
        unfold Proc.waits at hb
        split at hb <;> first | rfl | cases hb

/-- **A goroutine's step** keeps the queues. -/
theorem Takeover.run (h : Takeover w q) (hn : Next cfg w tid e (w.procs tid) eff p') :
    ∃ q', Takeover ((w.apply tid eff).setProc tid p') q' := by
  generalize hp : w.procs tid = p at hn
  have frame : ∀ {eff : Effect} {p' : Proc},
      Represents (w.apply tid eff).wsManager q ∧
        (w.apply tid eff).wsManager.closed = w.wsManager.closed →
      p'.queued = p.queued → (p.waits = true → p'.waits = true ∨ tid ∈ w.wsManager.closed) →
      (p.entered = true → p'.entered = true) →
      ∃ q', Takeover ((w.apply tid eff).setProc tid p') q' := by
    intro eff p' hm hq hw he
    refine ⟨q, h.frame tid p' hm.1 hm.2 (fun t => ?_) (hp ▸ hq) (hp ▸ hw)
      (hp ▸ he)⟩
    rw [setProc_procs, apply_procs]
  have same : Represents w.wsManager q ∧ w.wsManager.closed = w.wsManager.closed :=
    ⟨h.represents, rfl⟩
  have update : ∀ {copy : Instance} {cols : List Column} {eff : Effect},
      update copy cols e = some eff → Represents (w.apply tid eff).wsManager q ∧
        (w.apply tid eff).wsManager.closed = w.wsManager.closed := by
    intro copy cols eff hu
    rcases update_cases hu with rfl | ⟨rfl, -⟩ <;> exact same
  cases hn with
  | acquire => exact ⟨_, h.acquire hp⟩
  | release => exact h.release hp
  | resume hc => exact frame same rfl (fun _ => .inr hc) fun _ => rfl
  | touch => exact frame ⟨h.represents.update, rfl⟩ rfl nofun fun _ => rfl
  | clear hu => exact frame (update hu) rfl nofun fun _ => rfl
  | renew hu => exact frame (update hu) rfl nofun fun _ => rfl
  | expire hu => exact frame (update hu) rfl nofun nofun
  | mark hu => exact frame (update hu) rfl nofun nofun
  | removeFail => exact frame (by split <;> exact same) rfl nofun nofun
  | setupFail => exact frame (by split <;> exact same) rfl nofun nofun
  | foundSpec => rename_i r s hs; cases r <;> exact frame same rfl nofun nofun
  | insertSpec => rename_i r s hs; cases r <;> exact frame same rfl nofun nofun
  | startContainer | proxied | stopContainer | done => exact frame same rfl nofun fun _ => rfl
  | _ => exact frame same rfl nofun nofun

/-- A step that does nothing to the manager and to the handlers. -/
theorem Takeover.of_eq (h : Takeover w q) (hm : w'.wsManager = w.wsManager)
    (hp : w'.procs = w.procs) : Takeover w' q :=
  ⟨hm ▸ h.represents, hp ▸ h.queued, hp ▸ h.behind, hm ▸ hp ▸ h.closed⟩

/-- **One step** keeps the queues. -/
theorem Takeover.step {a : Act} (h : Takeover w q) (hs : step cfg w a = some w') :
    ∃ q', Takeover w' q' := by
  cases a with
  | start tid p =>
    obtain ⟨⟨hidle, hstart⟩, hs⟩ := Option.ite_none_right_eq_some.1 hs
    cases hs
    have hq : p.queued = none := by cases p <;> first | rfl | cases hstart
    refine ⟨q, h.frame tid p h.represents rfl (fun t => setProc_procs) ?_ ?_ ?_⟩
    · rw [hidle, hq]; rfl
    · rw [hidle]; nofun
    · rw [hidle]; nofun
  | run tid e =>
    obtain ⟨eff, p, hn, rfl⟩ := step_run hs
    exact h.run hn
  | restart =>
    cases hs
    exact ⟨_, represents_newManager _, by simp [Proc.queued], by simp, by simp [newManager]⟩
  | tick => cases hs; exact ⟨q, h.of_eq rfl rfl⟩
  | advance n => cases hs; exact ⟨q, h.of_eq rfl rfl⟩
  | vanish c => cases hs; exact ⟨q, h.of_eq rfl rfl⟩

/-- The manager has queues in every state that a run reaches. -/
theorem takeover_reaches {P : World → Act → Prop} (h : (app cfg).Reaches P w) :
    ∃ q, Takeover w q := by
  refine h.invariant (I := fun t => ∃ q, Takeover t q) ?_ fun t a t' ht _ hs => ?_
  swap
  · obtain ⟨q, ht⟩ := ht
    exact ht.step hs
  rintro _ ⟨foreign, rfl⟩
  exact ⟨_, represents_newManager _, by simp [World.initial, Proc.queued], by simp,
    by simp [World.initial, newManager]⟩

/-- Being at a place is being a handler. -/
theorem place_eq_some {n : Nat} {pc : HandlerPc} :
    p.place n = some pc ↔ ∃ inst, p = .handler pc inst ∧ inst.id = n := by
  cases p <;> simp [Proc.place, and_comm]

/-- **Exclusion**: two handlers of an instance in their sessions are one. -/
theorem Takeover.exclusive {tid' n : Nat} {pc pc' : HandlerPc} (h : Takeover w q)
    (hp : (w.procs tid).place n = some pc) (hp' : (w.procs tid').place n = some pc')
    (hh : pc.holding = true) (hh' : pc'.holding = true) : tid = tid' := by
  have hhead : ∀ {t : Nat} {c : HandlerPc}, (w.procs t).place n = some c → c.holding = true →
      ∃ rest, q n = t :: rest := by
    intro t c hc hhold
    obtain ⟨inst, hproc, rfl⟩ := place_eq_some.1 hc
    refine h.head ?_ ?_ <;> rw [hproc] <;> cases c <;> first | rfl | cases hhold
  obtain ⟨rest, hq⟩ := hhead hp hh
  obtain ⟨rest', hq'⟩ := hhead hp' hh'
  rw [hq] at hq'
  exact (List.cons.inj hq').1

end

/-! ## What a session leaves -/

/-- The last start or stop command to a container; only handlers issue these. -/
def lastCommand (commands : List (Nat × Command)) (container : Nat) : Option Command :=
  ((commands.filter fun c => c.1 = container && c.2 ≠ .kill).getLast?).map Prod.snd

/-- What a handler has done to the row and to the container: nothing yet, the first write, the
second write, the stop, and the release. -/
inductive Phase where
  | fresh
  | connected
  | renewed
  | stopped
  | ended
  deriving DecidableEq

/-- The phase of each place. -/
def HandlerPc.phase : HandlerPc → Phase
  | .start | .waiting | .acquired => .fresh
  | .cleared | .started | .proxied => .connected
  | .renewed => .renewed
  | .stopped => .stopped
  | .released | .done => .ended

/-- The phase of a goroutine as a handler of an instance. -/
def Proc.phase (n : Nat) : Proc → Phase
  | .handler pc inst => if inst.id = n then pc.phase else .fresh
  | _ => .fresh

/-- The phases of a handler that has written and not yet released. -/
def Phase.writing : Phase → Bool
  | .fresh | .ended => false
  | _ => true

/-- What holds of the row's `ExpiresAt` and of the container's last command in each phase. -/
def Phase.Ok (expiresAt : Option Nat) (last : Option Command) : Phase → Prop
  | .fresh => True
  | .connected => expiresAt = none
  | .renewed => expiresAt ≠ none
  | .stopped | .ended => expiresAt ≠ none ∧ last = some .stop

/-- What holds of a row: what the phase of each handler says; of one that has ended, unless another
one has begun. -/
def RowSession (w : World) (r : Instance) : Prop :=
  ∀ tid, ((w.procs tid).phase r.id = .ended → ∀ t, ((w.procs t).phase r.id).writing = false) →
    ((w.procs tid).phase r.id).Ok r.expiresAt (lastCommand w.commands r.containerID)

/-- The writes of handlers succeed. -/
def writesOk (w : World) : Act → Bool
  | .run tid e =>
    match w.procs tid with
    | .handler .acquired _ | .handler .proxied _ => e = .ok
    | _ => true
  | _ => true

section

variable {cfg : Config} {w w' : World} {tid : Nat} {e : Event} {eff : Effect} {p p' : Proc}
  {q : Nat → List Nat} {x r inst inst' : Instance} {pc pc' : HandlerPc}

/-- The last command after another one. -/
theorem lastCommand_append (commands : List (Nat × Command)) (c d : Nat) (cmd : Command) :
    lastCommand (commands ++ [(c, cmd)]) d =
      if c = d ∧ cmd ≠ .kill then some cmd else lastCommand commands d := by
  unfold lastCommand
  by_cases h : c = d ∧ cmd ≠ .kill
  · simp [h.1, h.2]
  · have hf : (c = d && cmd ≠ .kill) = false := by simpa using h
    rw [List.filter_append, if_neg h, List.filter_cons_of_neg (by rw [hf]; nofun), List.filter_nil,
      List.append_nil]

/-- A row keeps its session when neither its `ExpiresAt`, nor its container's last command, nor the
phase of a handler changes. -/
theorem RowSession.frame (h : RowSession w x) (hid : r.id = x.id)
    (hexp : r.expiresAt = x.expiresAt)
    (hlast : lastCommand w'.commands r.containerID = lastCommand w.commands x.containerID)
    (hphase : ∀ t, (w'.procs t).phase x.id = (w.procs t).phase x.id) : RowSession w' r := by
  intro t ht
  rw [hid, hexp, hlast, hphase]
  refine h t fun hover u => ?_
  rw [← hphase, ← hid]
  exact ht (by rw [hid, hphase]; exact hover) u

/-- A row keeps its session in the step of the one handler that is in its own. -/
theorem RowSession.own (tid : Nat)
    (hother : ∀ t, t ≠ tid → ((w'.procs t).phase r.id).writing = false)
    (hfresh : (w'.procs tid).phase r.id ≠ .fresh)
    (hok : ((w'.procs tid).phase r.id).Ok r.expiresAt (lastCommand w'.commands r.containerID)) :
    RowSession w' r := by
  intro t ht
  by_cases heq : t = tid
  · rw [heq]; exact hok
  · have hwrite := hother t heq
    generalize hph : (w'.procs t).phase r.id = ph at hwrite ht ⊢
    cases ph with
    | fresh => trivial
    | ended =>
      have hclosed := ht rfl tid
      generalize (w'.procs tid).phase r.id = ph' at hclosed hfresh hok
      cases ph' with
      | fresh => exact (hfresh rfl).elim
      | ended => exact hok
      | _ => cases hclosed
    | _ => cases hwrite

/-- Only a handler between its first write and its release is in such a phase. -/
theorem phase_writing {n : Nat} (h : (p.phase n).writing = true) :
    ∃ pc, p.place n = some pc ∧ pc.holding = true := by
  cases p with
  | handler pc inst =>
    simp only [Proc.phase, Proc.place] at h ⊢
    split at h
    · next hid => rw [if_pos hid]; cases pc <;> first | exact ⟨_, rfl, rfl⟩ | cases h
    · cases h
  | _ => cases h

/-- **A handler's step** in its session: of the rows of other instances nothing changes, and of its
own row the new phase must hold. -/
theorem RowSession.handler (h : RowSession w x) (ht : Takeover w q)
    (hp : w.procs tid = .handler pc inst) (hh : pc.holding = true)
    (hprocs : ∀ t, w'.procs t = if t = tid then .handler pc' inst' else w.procs t)
    (hinst : inst'.id = inst.id) (hfresh : pc'.phase ≠ .fresh) (hid : r.id = x.id)
    (hother : x.id ≠ inst.id → r.expiresAt = x.expiresAt ∧
      lastCommand w'.commands r.containerID = lastCommand w.commands x.containerID)
    (hself : x.id = inst.id →
      pc'.phase.Ok r.expiresAt (lastCommand w'.commands r.containerID)) : RowSession w' r := by
  by_cases hxi : x.id = inst.id
  · have hphase : (w'.procs tid).phase r.id = pc'.phase := by
      rw [hprocs, if_pos rfl, hid, hxi, ← hinst]
      exact if_pos rfl
    refine RowSession.own tid (fun t hne => ?_) (hphase ▸ hfresh) (hphase ▸ hself hxi)
    rw [hprocs, if_neg hne, hid, hxi]
    refine Bool.eq_false_iff.2 fun hwrite => hne ?_
    obtain ⟨c, hc, hhold⟩ := phase_writing hwrite
    exact ht.exclusive hc (place_eq_some.2 ⟨inst, hp, rfl⟩) hhold hh
  · obtain ⟨hexp, hlast⟩ := hother hxi
    refine h.frame hid hexp hlast fun t => ?_
    rw [hprocs]
    split
    · next heq =>
      rw [heq, hp]
      simp [Proc.phase, hinst, Ne.symm hxi]
    · rfl

/-- What the current phase of a handler says. -/
theorem RowSession.now (h : RowSession w x) (hp : w.procs tid = .handler pc inst)
    (hid : x.id = inst.id) (hpc : pc.phase ≠ .ended) :
    pc.phase.Ok x.expiresAt (lastCommand w.commands x.containerID) := by
  have hphase : (w.procs tid).phase x.id = pc.phase := by rw [hp, hid]; exact if_pos rfl
  have := h tid (fun hover => (hpc (hphase ▸ hover)).elim)
  rwa [hphase] at this

/-- The container of a handler's copy is that of its row only. -/
theorem Wf.container (h : Wf w) (hp : w.procs tid = .handler pc inst) (hx : x ∈ w.instances) :
    inst.containerID = x.containerID ↔ x.id = inst.id :=
  eq_comm.trans (h.container_copy (by rw [hp]; exact List.mem_cons_self) hx)

/-- Nothing changes in any row's `ExpiresAt`, nor in the last start or stop of any container. -/
structure Quiet (w w' : World) : Prop where
  rows : ∀ r ∈ w'.instances, ∃ x ∈ w.instances, r.SameRow x ∧ r.expiresAt = x.expiresAt
  last : ∀ c, lastCommand w'.commands c = lastCommand w.commands c

/-- Neither does it in a step that writes no row and issues no command. -/
theorem quiet_of_eq (hi : w'.instances = w.instances) (hc : w'.commands = w.commands) :
    Quiet w w' :=
  ⟨fun r hr => ⟨r, hi ▸ hr, .refl r, rfl⟩, fun _ => by rw [hc]⟩

/-- An update that does not name `ExpiresAt`. -/
theorem quiet_update {copy : Instance} {cols : List Column} (hu : update copy cols e = some eff)
    (hcols : .expiresAt ∉ cols) : Quiet w (w.apply tid eff) := by
  rcases update_cases hu with rfl | ⟨rfl, -⟩
  · refine ⟨fun r hr => ?_, fun _ => rfl⟩
    obtain ⟨x, hx, rfl⟩ := mem_update.1 hr
    refine ⟨x, hx, sameRow_update, ?_⟩
    split
    · rw [(setColumns_spec x copy cols).2.2.2, if_neg hcols]
    · rfl
  · exact quiet_of_eq rfl rfl

/-- A step of no consequence for the sessions keeps them. -/
theorem Quiet.sessions (hq : Quiet w (w.apply tid eff)) (h : ∀ x ∈ w.instances, RowSession w x)
    (hphase : ∀ n, p'.phase n = (w.procs tid).phase n) :
    ∀ r ∈ (w.apply tid eff).instances, RowSession ((w.apply tid eff).setProc tid p') r := by
  intro r hr
  obtain ⟨x, hx, hs, hexp⟩ := hq.rows r hr
  refine (h x hx).frame hs.id hexp ?_ fun t => ?_
  · rw [hs.containerID]; exact hq.last _
  · rw [setProc_procs, apply_procs]
    split
    · next heq => rw [heq, hphase]
    · rfl

/-- The first and the second write of a handler. -/
theorem sessions_write {t : Option Nat} (h : ∀ x ∈ w.instances, RowSession w x)
    (ht : Takeover w q) (hp : w.procs tid = .handler pc inst) (hh : pc.holding = true)
    (hfresh : pc'.phase ≠ .fresh) (hok : ∀ last, pc'.phase.Ok t last)
    (heff : eff = .update { inst with expiresAt := t } [.expiresAt]) :
    ∀ r ∈ (w.apply tid eff).instances, RowSession
      ((w.apply tid eff).setProc tid (.handler pc' { inst with expiresAt := t })) r := by
  subst heff
  intro r hr
  obtain ⟨x, hx, rfl⟩ := mem_update.1 hr
  have hprocs : ∀ u, ((w.apply tid (.update { inst with expiresAt := t } [.expiresAt])).setProc tid
      (.handler pc' { inst with expiresAt := t })).procs u =
      if u = tid then .handler pc' { inst with expiresAt := t } else w.procs u := fun u => rfl
  refine (h x hx).handler ht hp hh hprocs rfl hfresh sameRow_update.id (fun hne => ?_)
    fun heq => ?_
  · rw [if_neg hne]; exact ⟨rfl, rfl⟩
  · rw [if_pos heq]; exact hok _

/-- The start and the stop command of a handler. -/
theorem sessions_command {cmd : Command} (hw : Wf w) (h : ∀ x ∈ w.instances, RowSession w x)
    (ht : Takeover w q) (hp : w.procs tid = .handler pc inst) (hh : pc.holding = true)
    (hpc : pc.phase ≠ .ended) (hcmd : cmd ≠ .kill) (hfresh : pc'.phase ≠ .fresh)
    (hok : ∀ exp last, pc.phase.Ok exp last → pc'.phase.Ok exp (some cmd)) :
    ∀ r ∈ w.instances, RowSession
      ((w.apply tid (.issue inst.containerID cmd)).setProc tid (.handler pc' inst)) r := by
  intro x hx
  refine (h x hx).handler ht hp hh (fun _ => rfl) rfl hfresh rfl (fun hne => ⟨rfl, ?_⟩)
    fun heq => ?_
  · refine (lastCommand_append _ _ _ _).trans (if_neg fun hc => hne ?_)
    exact (hw.container hp hx).1 hc.1
  · have hlast := lastCommand_append w.commands inst.containerID x.containerID cmd
    rw [if_pos ⟨(hw.container hp hx).2 heq, hcmd⟩] at hlast
    show pc'.phase.Ok x.expiresAt (lastCommand (w.commands ++ [(inst.containerID, cmd)]) _)
    rw [hlast]
    exact hok _ _ ((h x hx).now hp heq hpc)

/-- The release of a handler. -/
theorem sessions_release (h : ∀ x ∈ w.instances, RowSession w x) (ht : Takeover w q)
    (hp : w.procs tid = .handler .stopped inst) :
    ∀ r ∈ w.instances,
      RowSession ((w.apply tid .release).setProc tid (.handler .released inst)) r := by
  intro x hx
  have hprocs : ∀ u, ((w.apply tid .release).setProc tid (.handler .released inst)).procs u =
      if u = tid then .handler .released inst else w.procs u := fun u => rfl
  refine (h x hx).handler ht hp rfl hprocs rfl nofun rfl (fun _ => ⟨rfl, rfl⟩) fun heq => ?_
  have hstopped : HandlerPc.stopped.phase ≠ .ended := nofun
  have hnow := (h x hx).now hp heq hstopped
  exact hnow

/-- No handler is one of an instance that has no row. -/
theorem Wf.phase_fresh {n : Nat} (h : Wf w) (hn : w.hasInstance n = false) (t : Nat) :
    (w.procs t).phase n = .fresh := by
  cases hp : w.procs t with
  | handler pc inst =>
    refine if_neg fun hid => ?_
    obtain ⟨y, hy, hs⟩ := (h.procs t).copies inst (by rw [hp]; exact List.mem_cons_self)
    rw [World.hasInstance, List.any_eq_false] at hn
    exact hn y hy (decide_eq_true (hs.id.trans hid))
  | _ => rfl

/-- A new row. -/
theorem sessions_insert (hw : Wf w) (h : ∀ x ∈ w.instances, RowSession w x)
    (hr : w.hasInstance r.id = false) (hphase : ∀ n, (w.procs tid).phase n = .fresh)
    (hphase' : ∀ n, p'.phase n = .fresh) :
    ∀ x ∈ (w.apply tid (.insertInstance r)).instances,
      RowSession ((w.apply tid (.insertInstance r)).setProc tid p') x := by
  have hsame : ∀ n t, (((w.apply tid (.insertInstance r)).setProc tid p').procs t).phase n =
      (w.procs t).phase n := by
    intro n t
    rw [setProc_procs, apply_procs]
    split
    · next heq => rw [heq, hphase, hphase']
    · rfl
  intro x hx
  rcases List.mem_append.1 hx with hx | hx
  · exact (h x hx).frame rfl rfl rfl fun t => hsame x.id t
  · rw [List.mem_singleton.1 hx]
    intro t _
    rw [hsame, hw.phase_fresh hr t]
    trivial

/-- **A goroutine's step** keeps the sessions. -/
theorem sessions_run (hw : Wf w) (ht : Takeover w q) (h : ∀ x ∈ w.instances, RowSession w x)
    (hok : writesOk w (.run tid e) = true) (hn : Next cfg w tid e (w.procs tid) eff p') :
    ∀ r ∈ (w.apply tid eff).instances, RowSession ((w.apply tid eff).setProc tid p') r := by
  generalize hp : w.procs tid = p at hn
  have frame : ∀ {eff : Effect} {p' : Proc}, Quiet w (w.apply tid eff) →
      (∀ n, p'.phase n = p.phase n) →
      ∀ r ∈ (w.apply tid eff).instances, RowSession ((w.apply tid eff).setProc tid p') r :=
    fun hq hphase => hq.sessions h fun n => by rw [hphase, hp]
  cases hn with
  | clear hu =>
    have he : e = .ok := by simpa [writesOk, hp] using hok
    subst he
    cases hu
    exact sessions_write h ht hp rfl nofun (fun _ => rfl) rfl
  | renew hu =>
    have he : e = .ok := by simpa [writesOk, hp] using hok
    subst he
    cases hu
    exact sessions_write h ht hp rfl nofun (fun _ => nofun) rfl
  | startContainer =>
    exact sessions_command hw h ht hp rfl nofun nofun nofun fun _ _ hexp => hexp
  | stopContainer =>
    exact sessions_command hw h ht hp rfl nofun nofun nofun fun _ _ hexp => ⟨hexp, rfl⟩
  | release => exact sessions_release (w := w) h ht hp
  | acquire => exact frame (quiet_of_eq rfl rfl) fun n => by split <;> rfl
  | upgrade => exact frame (quiet_of_eq rfl rfl) fun n => by simp [Proc.phase, HandlerPc.phase]
  | expire hu => exact frame (quiet_update hu (by simp)) fun _ => rfl
  | mark hu => exact frame (quiet_update hu (by simp)) fun _ => rfl
  | kill =>
    refine frame ⟨(quiet_of_eq rfl rfl).rows, fun c => ?_⟩ fun _ => rfl
    exact (lastCommand_append _ _ _ _).trans (if_neg (by simp))
  | removeFail => exact frame (by split <;> exact quiet_of_eq rfl rfl) fun _ => rfl
  | setupFail => exact frame (by split <;> exact quiet_of_eq rfl rfl) fun _ => rfl
  | foundSpec => rename_i r s hs; cases r <;> exact frame (quiet_of_eq rfl rfl) fun _ => rfl
  | insertSpec => rename_i r s hs; cases r <;> exact frame (quiet_of_eq rfl rfl) fun _ => rfl
  | insert hs hfresh =>
    exact sessions_insert hw h hfresh (fun _ => by rw [hp]; rfl) fun _ => rfl
  | _ => exact frame (quiet_of_eq rfl rfl) fun _ => rfl

/-- A step that does nothing to the rows, the commands and the handlers. -/
theorem sessions_of_eq (h : ∀ x ∈ w.instances, RowSession w x)
    (hi : w'.instances = w.instances) (hc : w'.commands = w.commands)
    (hphase : ∀ n t, (w'.procs t).phase n = (w.procs t).phase n) :
    ∀ x ∈ w'.instances, RowSession w' x :=
  fun x hx => (h x (hi ▸ hx)).frame rfl rfl (by rw [hc]) fun t => hphase x.id t

/-- **One step** in which no write of a handler fails keeps the sessions. -/
theorem sessions_step {a : Act} (hw : Wf w) (ht : Takeover w q)
    (h : ∀ x ∈ w.instances, RowSession w x) (hok : writesOk w a = true)
    (hs : step cfg w a = some w') : ∀ x ∈ w'.instances, RowSession w' x := by
  cases a with
  | start tid p =>
    obtain ⟨⟨hidle, hstart⟩, hs⟩ := Option.ite_none_right_eq_some.1 hs
    cases hs
    refine sessions_of_eq h rfl rfl fun n t => ?_
    rw [setProc_procs]
    split
    · next heq => rw [heq, hidle]; cases p <;> first | rfl | cases hstart
    · rfl
  | run tid e =>
    obtain ⟨eff, p, hn, rfl⟩ := step_run hs
    exact sessions_run hw ht h hok hn
  | restart => cases hs; exact fun x _ _ _ => trivial
  | tick => cases hs; exact sessions_of_eq h rfl rfl fun _ _ => rfl
  | advance n => cases hs; exact sessions_of_eq h rfl rfl fun _ _ => rfl
  | vanish c => cases hs; exact sessions_of_eq h rfl rfl fun _ _ => rfl

/-- The rows have sessions in every state of a run in which no write of a handler fails. -/
theorem sessions_reaches (h : (app cfg).Reaches (fun w a => writesOk w a = true) w) :
    ∀ x ∈ w.instances, RowSession w x := by
  have hI := h.invariant
    (I := fun t => Wf t ∧ (∃ q, Takeover t q) ∧ ∀ x ∈ t.instances, RowSession t x) ?_ ?_
  · exact hI.2.2
  · rintro _ ⟨foreign, rfl⟩
    exact ⟨wf_initial cfg foreign, takeover_reaches (P := System.Any) ⟨_, [], ⟨foreign, rfl⟩, .nil⟩,
      nofun⟩
  · rintro t a t' ⟨hw, ⟨q, ht⟩, hr⟩ hok hs
    exact ⟨(hw.step hs).1, ht.step hs, sessions_step hw ht hr hok hs⟩

/-- The one row of an ID. -/
def World.IsRow (w : World) (n : Nat) (r : Instance) : Prop :=
  ∀ x, (x ∈ w.instances ∧ x.id = n) ↔ x = r

/-- A handler's instance has its row. -/
theorem Wf.isRow (h : Wf w) (hp : w.procs tid = .handler pc inst) :
    ∃ r ∈ w.instances, w.IsRow inst.id r := by
  obtain ⟨y, hy, hs⟩ := (h.procs tid).copies inst (by rw [hp]; exact List.mem_cons_self)
  refine ⟨y, hy, fun x => ⟨fun ⟨hx, hid⟩ => h.rows.unique x hx y hy (hid.trans hs.id.symm), ?_⟩⟩
  rintro rfl
  exact ⟨hy, hs.id⟩

/-- Where an effect comes from. The writes to `ExpiresAt`, the starts and the stops are those of
handlers in their sessions; rows are set inactive, and containers killed, by passes; containers are
removed by passes, or by the request that has made them. -/
def Effect.Source (p : Proc) : Effect → Prop
  | .update copy cols =>
    (∃ pc inst, p = .handler pc inst ∧ inst.id = copy.id ∧ pc.holding = true ∧ .active ∉ cols) ∨
      ∃ r ∈ p.pending, r.id = copy.id ∧ .expiresAt ∉ cols
  | .issue c cmd =>
    (∃ pc inst, p = .handler pc inst ∧ inst.containerID = c ∧ pc.holding = true ∧ cmd ≠ .kill) ∨
      ∃ r ∈ p.pending, r.containerID = c ∧ cmd = .kill
  | .remove c => (∃ r ∈ p.pending, r.containerID = c) ∨ p.building = some c
  | _ => True

/-- Every effect comes from there. -/
theorem Next.source (hn : Next cfg w tid e p eff p') : eff.Source p := by
  have hupdate : ∀ {copy : Instance} {cols : List Column}, update copy cols e = some eff →
      (Effect.update copy cols).Source p → eff.Source p := by
    intro copy cols hu h
    rcases update_cases hu with rfl | ⟨rfl, -⟩
    · exact h
    · trivial
  cases hn with
  | clear hu => exact hupdate hu (.inl ⟨_, _, rfl, rfl, rfl, by simp⟩)
  | renew hu => exact hupdate hu (.inl ⟨_, _, rfl, rfl, rfl, by simp⟩)
  | expire hu => exact hupdate hu (.inr ⟨_, List.mem_cons_self, rfl, by simp⟩)
  | mark hu => exact hupdate hu (.inr ⟨_, List.mem_cons_self, rfl, by simp⟩)
  | startContainer | stopContainer => exact .inl ⟨_, _, rfl, rfl, rfl, nofun⟩
  | kill => exact .inr ⟨_, List.mem_cons_self, rfl, rfl⟩
  | remove => exact .inl ⟨_, List.mem_cons_self, rfl⟩
  | removeFail =>
    split
    · exact .inl ⟨_, List.mem_cons_self, rfl⟩
    · trivial
  | setupFail =>
    split
    · exact .inr rfl
    · trivial
  | _ => trivial

end

/-- **Takeover is exclusive.** In every state that a run of the server reaches, two handlers of an
instance that are between the return of `Acquire` and the start of `Release` are one; so no write to
`ExpiresAt` and no start or stop of the container falls inside another handler's session. As long as
no handler's write has failed, `ExpiresAt` is null from a handler's first write to its second, and
once all handlers of an instance that have started are done, it is not null and the last command
was a stop. -/
theorem takeover_exclusive (cfg : Config) (w : World) (h : (app cfg).Reaches System.Any w) :
    (∀ n tid tid' pc pc', (w.procs tid).place n = some pc → (w.procs tid').place n = some pc' →
      pc.holding = true → pc'.holding = true → tid = tid') ∧
    (∀ tid e eff p', next cfg w tid e (w.procs tid) = some (eff, p') →
      (∀ copy cols, eff = .update copy cols → .expiresAt ∈ cols → ∀ tid' pc,
        (w.procs tid').place copy.id = some pc → pc.holding = true → tid' = tid) ∧
      (∀ c cmd, eff = .issue c cmd → cmd ≠ .kill → ∀ tid' pc inst,
        w.procs tid' = .handler pc inst → inst.containerID = c → pc.holding = true →
        tid' = tid)) ∧
    ((app cfg).Reaches (fun w a => writesOk w a = true) w →
      (∀ n tid pc, (w.procs tid).place n = some pc → pc = .cleared ∨ pc = .started ∨ pc = .proxied →
        ∃ r, w.IsRow n r ∧ r.expiresAt = none) ∧
      (∀ n, (∃ tid, (w.procs tid).place n ≠ none) →
        (∀ tid pc, (w.procs tid).place n = some pc → pc = .done) →
        ∃ r, w.IsRow n r ∧ r.expiresAt ≠ none ∧
          lastCommand w.commands r.containerID = some .stop)) := by
  obtain ⟨q, ht⟩ := takeover_reaches h
  have hw := wf_reaches h
  refine ⟨fun n tid tid' pc pc' hp hp' hh hh' => ht.exclusive hp hp' hh hh',
    fun tid e eff p' hn => ⟨?_, ?_⟩, fun hok => ⟨?_, ?_⟩⟩
  · rintro copy cols rfl hcols tid' pc hp hh
    rcases (next_sound hn).source with ⟨pc', inst, hp', hid, hh', -⟩ | ⟨_, _, _, hnot⟩
    · exact ht.exclusive hp (place_eq_some.2 ⟨inst, hp', hid⟩) hh hh'
    · exact absurd hcols hnot
  · rintro c cmd rfl hcmd tid' pc inst hp rfl hh
    rcases (next_sound hn).source with ⟨pc', inst', hp', hc, hh', -⟩ | ⟨_, _, _, hkill⟩
    · obtain ⟨x, hx, hrow⟩ := hw.isRow hp
      obtain ⟨-, hid⟩ := (hrow x).2 rfl
      have hid' := (hw.container hp' hx).1 (hc.trans ((hw.container hp hx).2 hid))
      exact ht.exclusive (place_eq_some.2 ⟨inst, hp, hid.symm⟩)
        (place_eq_some.2 ⟨inst', hp', hid'.symm⟩) hh hh'
    · exact absurd hkill hcmd
  · intro n tid pc hp hpc
    obtain ⟨inst, hproc, rfl⟩ := place_eq_some.1 hp
    obtain ⟨x, hx, hrow⟩ := hw.isRow hproc
    have hnow := (sessions_reaches hok x hx).now hproc ((hrow x).2 rfl).2
    rcases hpc with rfl | rfl | rfl <;> exact ⟨x, hrow, hnow nofun⟩
  · rintro n ⟨tid, hsome⟩ hdone
    obtain ⟨pc, hp⟩ := Option.ne_none_iff_exists'.1 hsome
    obtain rfl := hdone tid pc hp
    obtain ⟨inst, hproc, rfl⟩ := place_eq_some.1 hp
    obtain ⟨x, hx, hrow⟩ := hw.isRow hproc
    have hid := ((hrow x).2 rfl).2
    have hphase : (w.procs tid).phase x.id = .ended := by rw [hproc, hid]; exact if_pos rfl
    have hover := sessions_reaches hok x hx tid fun _ t => Bool.eq_false_iff.2 fun hwrite => by
      obtain ⟨pc, hpc, hh⟩ := phase_writing hwrite
      rw [hdone t pc (hid ▸ hpc)] at hh
      cases hh
    rw [hphase] at hover
    exact ⟨x, hrow, hover⟩

/-- Behind the first request, two connections to the instance. The second one displaces the first,
which is over by the time the second one's container has started. -/
def secondConnection : List Act :=
  firstRequest ++ [.start 1 (.connect 3), .run 1 .ok, .run 1 .ok, .start 2 (.connect 3), .run 2 .ok,
    .run 2 .ok, .run 1 .ok, .run 1 .ok, .run 1 .ok, .run 2 .ok, .run 1 .closed, .run 1 .ok,
    .run 1 .ok, .run 1 .ok, .run 2 .ok, .run 2 .ok, .run 2 .ok]

/-- The second connection is in its session, and the row does not expire. -/
theorem takeover_exclusive_secondConnection :
    ∃ w, (app ⟨10, 60⟩).execWhere writesOk (World.initial ⟨10, 60⟩ []) secondConnection = some w ∧
      (w.procs 1).place 3 = some .released ∧ (w.procs 2).place 3 = some .started ∧
      ∃ r, w.IsRow 3 r ∧ r.expiresAt = none := by
  refine ⟨_, rfl, rfl, rfl, ?_⟩
  have hrun : (app ⟨10, 60⟩).Run (fun w a => writesOk w a = true) (World.initial ⟨10, 60⟩ [])
    secondConnection _ := System.run_of_execWhere rfl
  obtain ⟨-, -, h⟩ := takeover_exclusive ⟨10, 60⟩ _
    ⟨_, _, ⟨[], rfl⟩, hrun.mono fun _ _ _ => trivial⟩
  exact (h ⟨_, _, ⟨[], rfl⟩, hrun⟩).1 3 2 .started rfl (.inr (.inl rfl))

end UAssign.App

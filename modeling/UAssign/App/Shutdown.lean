import UAssign.Expire.HandOff

/-!
# Shutting down

`App.Shutdown` among the websocket handlers. `instanceWS` counts a handler in `wsWG` and spawns it,
`handleInstance` then calls `Acquire`; `Shutdown` stops the manager, expires whoever has an entry at
that moment and waits for everybody who is counted. `Told` is what the wait relies on. It survives
exactly the steps that `expiresAll` lets through (`told_step_iff`): between `Add` and `Acquire` a
handler is counted and has no entry.
-/

namespace UAssign.App.Shutdown

open Expire

/-! ## The system -/

/-- How far a connection has come. `instanceWS` gets it to `spawned`, the rest is `handleInstance`;
`waiting` is the wait inside `Acquire`. -/
inductive Phase where
  | idle
  | upgraded
  | counted
  | spawned
  | waiting (chan : Nat)
  | holding
  | released
  | done
  deriving DecidableEq

/-- How far `Shutdown` has come with `wsManager.Stop`, `ExpireAndRemoveAll` and `wsWG.Wait`. -/
inductive Stage where
  | serving
  | stopped
  | expired
  | waited
  deriving DecidableEq

/-- `ExpireAndRemoveAll` has returned. -/
def Stage.past : Stage → Bool
  | .expired | .waited => true
  | .serving | .stopped => false

/-- The manager, the connections, the handlers that are counted in `wsWG` and `Shutdown`. -/
structure State where
  wsManager : HandOff.State
  handlers : Nat → Phase
  wsWG : List Nat
  stage : Stage

/-- The steps of the connections, of the manager's ticker and of `Shutdown`. The token of a
connection has its number. -/
inductive Act where
  | upgrade (t : Nat)
  | add (t : Nat)
  | spawn (t : Nat)
  | acquire (t name chan : Nat)
  | resume (t chan : Nat)
  | update (t : Nat)
  | release (t : Nat)
  | done (t : Nat)
  | tick
  | advance (n : Nat)
  | stop
  | expireAndRemoveAll
  | wait
  deriving DecidableEq

/-- A call of the manager. -/
def State.manage (s : State) (a : HandOff.Act) : Option State :=
  (HandOff.step s.wsManager a).map fun m => { s with wsManager := m }

/-- A connection has moved. -/
def State.put (s : State) (t : Nat) (p : Phase) : State :=
  { s with handlers := fun u => if u = t then p else s.handlers u }

/-- Where a connection is after `Acquire` has done its part under the lock. -/
def State.entering (s : State) (t name chan : Nat) : Phase :=
  match (s.wsManager.manager.acquire s.wsManager.now name t chan t).blocker with
  | some blocker => .waiting blocker
  | none => .holding

/-- One step. `http.Server.Shutdown` does not wait for upgraded connections, so that their handlers
go on whatever the stage; the ticker ends with `wsManager.Stop`. -/
def step (s : State) : Act → Option State
  | .upgrade t => if s.handlers t = .idle then some (s.put t .upgraded) else none
  | .add t =>
    if s.handlers t = .upgraded then some { s.put t .counted with wsWG := t :: s.wsWG } else none
  | .spawn t => if s.handlers t = .counted then some (s.put t .spawned) else none
  | .acquire t name chan =>
    if s.handlers t = .spawned then
      (s.manage (.acquire name t chan)).map fun s' => s'.put t (s.entering t name chan)
    else none
  | .resume t chan =>
    if s.handlers t = .waiting chan then
      (s.manage (.resume t chan)).map fun s' => s'.put t .holding
    else none
  | .update t => if s.handlers t = .holding then s.manage (.update t) else none
  | .release t =>
    if s.handlers t = .holding then
      (s.manage (.release t)).map fun s' => s'.put t .released
    else none
  | .done t =>
    if s.handlers t = .released then
      some { s.put t .done with wsWG := s.wsWG.erase t }
    else none
  | .tick => if s.stage = .serving then s.manage .tick else none
  | .advance n => s.manage (.advance n)
  | .stop => if s.stage = .serving then some { s with stage := .stopped } else none
  | .expireAndRemoveAll =>
    if s.stage = .stopped then
      (s.manage .expireAndRemoveAll).map fun s' => { s' with stage := .expired }
    else none
  | .wait =>
    if s.stage = .expired ∧ s.wsWG = [] then some { s with stage := .waited } else none

/-- What the steps do, where they are taken. -/
inductive Next (s : State) : Act → State → Prop
  | upgrade {t : Nat} (hp : s.handlers t = .idle) : Next s (.upgrade t) (s.put t .upgraded)
  | add {t : Nat} (hp : s.handlers t = .upgraded) :
    Next s (.add t) { s.put t .counted with wsWG := t :: s.wsWG }
  | spawn {t : Nat} (hp : s.handlers t = .counted) : Next s (.spawn t) (s.put t .spawned)
  | acquire {t name chan : Nat} {m : HandOff.State} (hp : s.handlers t = .spawned)
    (hm : HandOff.step s.wsManager (.acquire name t chan) = some m) :
    Next s (.acquire t name chan)
      (State.put { s with wsManager := m } t (s.entering t name chan))
  | resume {t chan : Nat} {m : HandOff.State} (hp : s.handlers t = .waiting chan)
    (hm : HandOff.step s.wsManager (.resume t chan) = some m) :
    Next s (.resume t chan) (State.put { s with wsManager := m } t .holding)
  | update {t : Nat} {m : HandOff.State} (hm : HandOff.step s.wsManager (.update t) = some m) :
    Next s (.update t) { s with wsManager := m }
  | release {t : Nat} {m : HandOff.State} (hp : s.handlers t = .holding)
    (hm : HandOff.step s.wsManager (.release t) = some m) :
    Next s (.release t) (State.put { s with wsManager := m } t .released)
  | done {t : Nat} (hp : s.handlers t = .released) :
    Next s (.done t) { s.put t .done with wsWG := s.wsWG.erase t }
  | tick {m : HandOff.State} (hm : HandOff.step s.wsManager .tick = some m) :
    Next s .tick { s with wsManager := m }
  | advance {n : Nat} {m : HandOff.State} (hm : HandOff.step s.wsManager (.advance n) = some m) :
    Next s (.advance n) { s with wsManager := m }
  | stop : Next s .stop { s with stage := .stopped }
  | expireAndRemoveAll {m : HandOff.State}
    (hm : HandOff.step s.wsManager .expireAndRemoveAll = some m) :
    Next s .expireAndRemoveAll { s with wsManager := m, stage := .expired }
  | wait (hstage : s.stage = .expired) : Next s .wait { s with stage := .waited }

/-- The server before the first connection. -/
def State.initial (expireLimit : Nat) : State :=
  { wsManager := .initial expireLimit, handlers := fun _ => .idle, wsWG := [], stage := .serving }

/-- The handlers and `Shutdown`. -/
def shutdown (expireLimit : Nat) : System State Act :=
  { init := (· = State.initial expireLimit), step := step }

/-- Once `ExpireAndRemoveAll` has returned, the `onExpire` of everybody who is counted and has not
finished has been launched. -/
def Told (s : State) : Prop :=
  s.stage.past = true → ∀ t ∈ s.wsWG, t ∈ s.wsManager.launched

/-- `Acquire` has been called and `Release` has not. -/
def Phase.listed : Phase → Bool
  | .waiting _ | .holding => true
  | _ => false

/-- `ExpireAndRemoveAll` finds everybody who is counted between `Acquire` and `Release`, or they
have been expired already; and nobody is counted behind it. -/
def expiresAll (s : State) : Act → Bool
  | .expireAndRemoveAll =>
    s.wsWG.all fun t => (s.handlers t).listed || decide (t ∈ s.wsManager.launched)
  | .add _ => !s.stage.past
  | _ => true

/-! ## The invariant -/

/-- `Acquire` has been called. -/
def Phase.registered : Phase → Bool
  | .waiting _ | .holding | .released | .done => true
  | _ => false

/-- `Release` has been called. -/
def Phase.left : Phase → Bool
  | .released | .done => true
  | _ => false

/-- `Add` has been called, and `Done` has not. -/
def Phase.counting : Phase → Bool
  | .counted | .spawned | .waiting _ | .holding | .released => true
  | _ => false

/-- The manager and the wait group know as much of a connection as its phase says. -/
structure Inv (s : State) : Prop where
  manager : HandOff.Inv s.wsManager
  registered : ∀ t, t ∈ s.wsManager.registered ↔ (s.handlers t).registered = true
  released : ∀ t, t ∈ s.wsManager.released ↔ (s.handlers t).left = true
  wsWG : ∀ t, t ∈ s.wsWG ↔ (s.handlers t).counting = true
  nodup : s.wsWG.Nodup

section

variable {s s' : State} {m : HandOff.State} {t name chan : Nat} {a : Act} {p : Phase}

/-- A call of the manager changes nothing else. -/
theorem manage_eq_some {b : HandOff.Act} (h : s.manage b = some s') :
    ∃ m, HandOff.step s.wsManager b = some m ∧ s' = { s with wsManager := m } := by
  obtain ⟨m, hm, h⟩ := Option.map_eq_some_iff.1 h
  exact ⟨m, hm, h.symm⟩

theorem step_next (h : step s a = some s') : Next s a s' := by
  cases a with
  | upgrade t =>
    obtain ⟨hp, h⟩ := Option.ite_none_right_eq_some.1 h
    exact Option.some.inj h ▸ .upgrade hp
  | add t =>
    obtain ⟨hp, h⟩ := Option.ite_none_right_eq_some.1 h
    exact Option.some.inj h ▸ .add hp
  | spawn t =>
    obtain ⟨hp, h⟩ := Option.ite_none_right_eq_some.1 h
    exact Option.some.inj h ▸ .spawn hp
  | acquire t name chan =>
    obtain ⟨hp, h⟩ := Option.ite_none_right_eq_some.1 h
    obtain ⟨s₁, hs₁, rfl⟩ := Option.map_eq_some_iff.1 h
    obtain ⟨m, hm, rfl⟩ := manage_eq_some hs₁
    exact .acquire hp hm
  | resume t chan =>
    obtain ⟨hp, h⟩ := Option.ite_none_right_eq_some.1 h
    obtain ⟨s₁, hs₁, rfl⟩ := Option.map_eq_some_iff.1 h
    obtain ⟨m, hm, rfl⟩ := manage_eq_some hs₁
    exact .resume hp hm
  | update t =>
    obtain ⟨-, h⟩ := Option.ite_none_right_eq_some.1 h
    obtain ⟨m, hm, rfl⟩ := manage_eq_some h
    exact .update hm
  | release t =>
    obtain ⟨hp, h⟩ := Option.ite_none_right_eq_some.1 h
    obtain ⟨s₁, hs₁, rfl⟩ := Option.map_eq_some_iff.1 h
    obtain ⟨m, hm, rfl⟩ := manage_eq_some hs₁
    exact .release hp hm
  | done t =>
    obtain ⟨hp, h⟩ := Option.ite_none_right_eq_some.1 h
    exact Option.some.inj h ▸ .done hp
  | tick =>
    obtain ⟨-, h⟩ := Option.ite_none_right_eq_some.1 h
    obtain ⟨m, hm, rfl⟩ := manage_eq_some h
    exact .tick hm
  | advance n =>
    obtain ⟨m, hm, rfl⟩ := manage_eq_some h
    exact .advance hm
  | stop =>
    obtain ⟨-, h⟩ := Option.ite_none_right_eq_some.1 h
    exact Option.some.inj h ▸ .stop
  | expireAndRemoveAll =>
    obtain ⟨-, h⟩ := Option.ite_none_right_eq_some.1 h
    obtain ⟨s₁, hs₁, rfl⟩ := Option.map_eq_some_iff.1 h
    obtain ⟨m, hm, rfl⟩ := manage_eq_some hs₁
    exact .expireAndRemoveAll hm
  | wait =>
    obtain ⟨⟨hstage, -⟩, h⟩ := Option.ite_none_right_eq_some.1 h
    exact Option.some.inj h ▸ .wait hstage

/-- **One connection moves**: what is known of it is what its new phase says, and what is known of
the others has not changed. -/
theorem Inv.put {wg : List Nat} {stage : Stage} (h : Inv s) (hm : HandOff.Inv m)
    (hwg : wg.Nodup)
    (hself : (t ∈ m.registered ↔ p.registered = true) ∧ (t ∈ m.released ↔ p.left = true) ∧
      (t ∈ wg ↔ p.counting = true))
    (hother : ∀ u, u ≠ t → (u ∈ m.registered ↔ u ∈ s.wsManager.registered) ∧
      (u ∈ m.released ↔ u ∈ s.wsManager.released) ∧ (u ∈ wg ↔ u ∈ s.wsWG)) :
    Inv ⟨m, (s.put t p).handlers, wg, stage⟩ := by
  have hcase : ∀ (u : Nat) (P : Nat → Phase → Prop), P t p →
      (u ≠ t → P u (s.handlers u)) → P u ((s.put t p).handlers u) := by
    intro u P hself hother
    simp only [State.put]
    split
    · next heq => exact heq ▸ hself
    · next hne => exact hother hne
  exact ⟨hm,
    fun u => hcase u (fun u p => u ∈ m.registered ↔ p.registered = true) hself.1 fun hne =>
      (hother u hne).1.trans (h.registered u),
    fun u => hcase u (fun u p => u ∈ m.released ↔ p.left = true) hself.2.1 fun hne =>
      (hother u hne).2.1.trans (h.released u),
    fun u => hcase u (fun u p => u ∈ wg ↔ p.counting = true) hself.2.2 fun hne =>
      (hother u hne).2.2.trans (h.wsWG u), hwg⟩

/-- What is known of a connection in a certain phase. -/
theorem Inv.phase (h : Inv s) (hp : s.handlers t = p) :
    (t ∈ s.wsManager.registered ↔ p.registered = true) ∧
      (t ∈ s.wsManager.released ↔ p.left = true) ∧ (t ∈ s.wsWG ↔ p.counting = true) :=
  hp ▸ ⟨h.registered t, h.released t, h.wsWG t⟩

/-- `Acquire` has two outcomes. -/
theorem entering_cases : (∃ c, s.entering t name chan = .waiting c) ∨
    s.entering t name chan = .holding := by
  unfold State.entering
  split
  · next c _ => exact .inl ⟨c, rfl⟩
  · exact .inr rfl

/-- **Each step** keeps the invariant. -/
theorem Inv.step (h : Inv s) (hs : step s a = some s') : Inv s' := by
  cases step_next hs with
  | upgrade hp | spawn hp =>
    have hknown := h.phase hp
    exact h.put h.manager h.nodup hknown fun u _ => ⟨Iff.rfl, Iff.rfl, Iff.rfl⟩
  | @add t hp =>
    obtain ⟨hreg, hrel, hcount⟩ := h.phase hp
    have hnot : t ∉ s.wsWG := fun hmem => Bool.false_ne_true (hcount.1 hmem)
    exact h.put h.manager (List.nodup_cons.2 ⟨hnot, h.nodup⟩)
      ⟨hreg, hrel, iff_of_true List.mem_cons_self rfl⟩
      fun u hu => ⟨Iff.rfl, Iff.rfl, by simp [hu]⟩
  | @acquire t name chan m hp hm =>
    have hm' := h.manager.step hm
    obtain ⟨-, hm⟩ := Option.ite_none_right_eq_some.1 hm
    obtain rfl := Option.some.inj hm
    obtain ⟨-, hrel, hcount⟩ := h.phase hp
    have hreg : t ∈ (s.wsManager.acquire name t chan).registered := List.mem_cons_self
    refine h.put hm' h.nodup ?_ fun u hu => ⟨by simp [HandOff.State.acquire, hu], Iff.rfl, Iff.rfl⟩
    rcases @entering_cases s t name chan with ⟨c, hc⟩ | hc <;> rw [hc]
    · exact ⟨iff_of_true hreg rfl, hrel, hcount⟩
    · exact ⟨iff_of_true hreg rfl, hrel, hcount⟩
  | resume hp hm =>
    have hm' := h.manager.step hm
    obtain ⟨-, hm⟩ := Option.ite_none_right_eq_some.1 hm
    obtain rfl := Option.some.inj hm
    have hknown := h.phase hp
    exact h.put hm' h.nodup hknown fun u _ => ⟨Iff.rfl, Iff.rfl, Iff.rfl⟩
  | release hp hm =>
    have hm' := h.manager.step hm
    obtain rfl := Option.some.inj hm
    obtain ⟨hreg, -, hcount⟩ := h.phase hp
    exact h.put hm' h.nodup ⟨hreg, iff_of_true List.mem_cons_self rfl, hcount⟩
      fun u hu => ⟨Iff.rfl, by simp [HandOff.State.release, hu], Iff.rfl⟩
  | @done t hp =>
    obtain ⟨hreg, hrel, -⟩ := h.phase hp
    exact h.put h.manager (h.nodup.erase t)
      ⟨hreg, hrel, iff_of_false h.nodup.not_mem_erase Bool.false_ne_true⟩
      fun u hu => ⟨Iff.rfl, Iff.rfl, List.mem_erase_of_ne hu⟩
  | update hm | tick hm | advance hm | expireAndRemoveAll hm =>
    have hm' := h.manager.step hm
    obtain rfl := Option.some.inj hm
    exact { h with manager := hm' }
  | stop => exact { h with }
  | wait => exact { h with }

/-- The server before the first connection. -/
theorem inv_initial (limit : Nat) : Inv (State.initial limit) where
  manager := HandOff.inv_initial limit
  registered _ := iff_of_false List.not_mem_nil Bool.false_ne_true
  released _ := iff_of_false List.not_mem_nil Bool.false_ne_true
  wsWG _ := iff_of_false List.not_mem_nil Bool.false_ne_true
  nodup := List.nodup_nil

/-! ## Who is told -/

/-- `Acquire` without `Release`. -/
theorem listed_iff : p.listed = true ↔ p.registered = true ∧ ¬ p.left = true := by
  cases p <;> simp [Phase.listed, Phase.registered, Phase.left]

/-- Nobody new is counted, and whoever was told has been told. -/
theorem Told.mono (h : Told s) (hstage : s'.stage.past = true → s.stage.past = true)
    (hwg : s'.wsWG ⊆ s.wsWG) (hl : s.wsManager.launched ⊆ s'.wsManager.launched) : Told s' :=
  fun hp t ht => hl (h (hstage hp) t (hwg ht))

/-- A call of the manager tells more. -/
theorem Told.manage {b : HandOff.Act} (h : Told s) (hm : HandOff.step s.wsManager b = some m) :
    Told { s with wsManager := m } :=
  h.mono id (List.Subset.refl _) (HandOff.launched_subset hm)

/-- A connection that moves is told nothing. -/
theorem Told.put (h : Told s) : Told (s.put t p) := h

/-- Who has been told has called `Acquire`. -/
theorem Inv.registered_of_launched (h : Inv s) (ht : t ∈ s.wsManager.launched) :
    (s.handlers t).registered = true :=
  (h.registered t).1 (h.manager.launched t ht)

/-- **`ExpireAndRemoveAll`** tells those who are between `Acquire` and `Release`, and no others: a
handler between `Add` and `Acquire` has no entry yet. -/
theorem Inv.launched_expireAndRemoveAll (h : Inv s) :
    t ∈ s.wsManager.expireAndRemoveAll.launched ↔
      (s.handlers t).listed = true ∨ t ∈ s.wsManager.launched := by
  rw [listed_iff, ← h.registered, ← h.released]
  refine ⟨fun ht => ?_, fun ht => ?_⟩
  · refine (h.manager.launched_expireAndRemoveAll ht).symm.imp (fun ⟨n, hn⟩ => ?_) id
    obtain ⟨hreg, hrel, -⟩ := h.manager.current t n hn
    exact ⟨hreg, hrel⟩
  · rcases ht with ⟨hreg, hrel⟩ | ht
    · -- nobody has an entry any more
      refine (h.manager.expireAndRemoveAll.notified t hreg hrel).resolve_left fun ⟨n, hn⟩ => ?_
      rw [Manager.holder, HandOff.lookup_expireAndRemoveAll] at hn
      cases hn
    · exact HandOff.launched_subset (a := .expireAndRemoveAll) rfl ht

/-- **Each step**, from a state in which nobody has been forgotten: nobody is, exactly if the step
meets `expiresAll`. -/
theorem Inv.told_step_iff (h : Inv s) (ht : Told s) (hs : Shutdown.step s a = some s') :
    Told s' ↔ expiresAll s a = true := by
  cases step_next hs with
  | upgrade | spawn => exact iff_of_true ht.put rfl
  | @add t hp =>
    cases hpast : s.stage.past with
    | false =>
      refine iff_of_true (fun hstage => ?_) (by rw [expiresAll, hpast]; rfl)
      exact (Bool.false_ne_true (hpast.symm.trans hstage)).elim
    | true =>
      refine iff_of_false (fun htold => ?_) (by rw [expiresAll, hpast]; exact Bool.false_ne_true)
      have hreg := h.registered_of_launched (htold hpast t List.mem_cons_self)
      rw [hp] at hreg
      exact Bool.false_ne_true hreg
  | acquire _ hm | resume _ hm | release _ hm => exact iff_of_true (ht.manage hm).put rfl
  | update hm | tick hm | advance hm => exact iff_of_true (ht.manage hm) rfl
  | done => exact iff_of_true (ht.mono id List.erase_subset (List.Subset.refl _)) rfl
  | stop => exact iff_of_true (fun hstage => (Bool.false_ne_true hstage).elim) rfl
  | expireAndRemoveAll hm =>
    obtain rfl := Option.some.inj hm
    have htold : ∀ t, t ∈ s.wsManager.expireAndRemoveAll.launched ↔
        ((s.handlers t).listed || decide (t ∈ s.wsManager.launched)) = true := fun t => by
      rw [h.launched_expireAndRemoveAll, Bool.or_eq_true, decide_eq_true_iff]
    refine Iff.trans ?_ List.all_eq_true.symm
    exact ⟨fun hall t hmem => (htold t).1 (hall rfl t hmem),
      fun hall _ t hmem => (htold t).2 (hall t hmem)⟩
  | wait hstage =>
    have hpast : s.stage.past = true := by rw [hstage]; rfl
    exact iff_of_true (fun _ => ht hpast) rfl

end

/-- **Shutdown tells every websocket handler to close**, on the runs whose steps meet `expiresAll`:
`ExpireAndRemoveAll` finds everybody who is counted in `wsWG` between `Acquire` and `Release` (or
expired already), and nobody is counted behind it. The condition is exact: the first step that does
not meet it leaves a handler behind. -/
theorem shutdown_tells (limit : Nat) :
    (∀ s, (shutdown limit).Reaches (fun s a => expiresAll s a = true) s → Told s) ∧
    (∀ s a s', (shutdown limit).Reaches (fun s a => expiresAll s a = true) s →
      step s a = some s' → (Told s' ↔ expiresAll s a = true)) := by
  have htold : ∀ s, (shutdown limit).Reaches (fun s a => expiresAll s a = true) s →
      Inv s ∧ Told s := by
    intro s h
    refine h.invariant (I := fun s => Inv s ∧ Told s) ?_
      fun _ _ _ hi hmeets hs => ⟨hi.1.step hs, (hi.1.told_step_iff hi.2 hs).2 hmeets⟩
    rintro _ rfl
    exact ⟨inv_initial limit, fun hstage => (Bool.false_ne_true hstage).elim⟩
  refine ⟨fun s h => (htold s h).2, fun s a s' h hs => ?_⟩
  obtain ⟨hi, ht⟩ := htold s h
  exact hi.told_step_iff ht hs

/-- A connection that has called `Acquire` when `Shutdown` comes. -/
def connected : List Act :=
  [.upgrade 1, .add 1, .spawn 1, .acquire 1 0 2, .stop, .expireAndRemoveAll]

/-- It is told to close. -/
theorem shutdown_tells_connected :
    ∃ s, (shutdown 0).execWhere expiresAll (State.initial 0) connected = some s ∧
      s.stage = .expired ∧ s.wsWG = [1] ∧ 1 ∈ s.wsManager.launched := by
  refine ⟨_, rfl, rfl, rfl, ?_⟩
  have hrun : (shutdown 0).Run (fun s a => expiresAll s a = true) (State.initial 0) connected _ :=
    System.run_of_execWhere rfl
  exact (shutdown_tells 0).1 _ ⟨_, _, rfl, hrun⟩ rfl 1 List.mem_cons_self

/-- A connection that has been counted, and whose handler has not called `Acquire` by the time of
`ExpireAndRemoveAll`. -/
def lateAcquire : List Act :=
  [.upgrade 1, .add 1, .spawn 1, .stop, .expireAndRemoveAll]

/-- **Nobody tells it to close**, and it calls `Acquire` afterwards. -/
theorem shutdown_forgets :
    ¬ ∀ s, (shutdown 0).Reaches System.Any s → Told s := by
  intro h
  have hrun : (shutdown 0).Run System.Any (State.initial 0) (lateAcquire ++ [.acquire 1 0 2]) _ :=
    System.run_of_exec rfl
  have htold := h _ ⟨_, _, rfl, hrun⟩ rfl 1 List.mem_cons_self
  exact List.not_mem_nil htold

end UAssign.App.Shutdown

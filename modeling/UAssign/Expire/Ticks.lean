import UAssign.Lib.Timeline
import UAssign.Expire.HandOff

/-!
# Ticks

`pkg/expire/token.go` and the loop of `manager.go`, to the nanosecond. A token's time and the
threshold of a tick are truncated to whole seconds, each by itself, so a tick expires all entries
that have been idle for `expireLimit`, and none that has been idle for a second less. The threshold
is `t.Add(-m.expireLimit)`, and one `Duration` has no negation (`exact_iff`). At a limit of whole
seconds, the manager of `Expire/HandOff`, which counts seconds, has all these runs
(`handOff_of_prompt`).
-/

namespace UAssign.Expire

/-! ## Times -/

/-- `time.Second`. Durations are in nanoseconds, and times are those since 1970. -/
def second : Int := 1000000000

/-- `Time.Unix`: whole seconds, rounded down. -/
def unix (t : Int) : Int := t / second

/-- `Time.Add`. -/
def add (t : Int) (d : Int64) : Int := t + d.toInt

/-- `Token`. -/
structure Token where
  unix : Int
  deriving DecidableEq

/-- `newToken`. -/
def newToken (now : Int) : Token := { unix := unix now }

/-- `Token.Update`. -/
def Token.update (t : Token) (now : Int) : Token := { t with unix := Expire.unix now }

/-- `Token.after`. -/
def Token.after (t : Token) (u : Int) : Bool := Expire.unix u < t.unix

section

variable {t u d : Int}

/-- What is not later is not later in whole seconds; -/
theorem unix_le (h : u ≤ t) : unix u ≤ unix t := by
  unfold unix second
  omega

/-- what is a second earlier is earlier in whole seconds. -/
theorem unix_lt (h : u + second ≤ t) : unix u < unix t := by
  unfold unix second at *
  omega

end

/-- All durations but one can be negated. -/
theorem toInt_neg_iff (d : Int64) : (-d).toInt = -d.toInt ↔ d ≠ Int64.minValue := by
  have hlow := d.le_toInt
  have hhigh := d.toInt_lt
  rw [Int64.toInt_neg, ne_eq, ← Int64.toInt_inj, Int64.toInt_minValue, Int.bmod_def]
  omega

/-! ## The system -/

namespace Ticks

/-- The manager and its users, the tokens, the clock, the ticker's channel, and whether the loop
runs; and what has happened: the updates of the tokens, of which the first one makes the token, and
the tokens that a tick has expired. -/
structure State where
  users : HandOff.State
  tokens : Nat → Token
  clock : Int
  ticker : Option Int
  running : Bool
  updates : Timeline Nat Int
  expired : List Nat

/-- The steps: the calls of the manager, the updates of a token, by itself or by `tokenProxyConn`,
a time from the ticker, a tick or a stop that the loop receives, and the clock. -/
inductive Act where
  | acquire (name token chan : Nat)
  | resume (token chan : Nat)
  | release (token : Nat)
  | expireAndRemove (name : Nat)
  | expireAndRemoveAll
  | update (token : Nat)
  | readJSON (token : Nat)
  | writeJSON (token : Nat)
  | fire
  | tick
  | stop
  | advance (n : Nat)
  deriving DecidableEq

namespace State

/-- A call of the manager. -/
def call (s : State) (a : HandOff.Act) : Option State :=
  (HandOff.step s.users a).map fun users => { s with users := users }

/-- A token has been made, or updated. -/
def stamp (s : State) (token : Nat) (t : Token) : State :=
  { s with
    tokens := fun u => if u = token then t else s.tokens u
    updates := (token, s.clock) :: s.updates }

/-- `Token.Update`, of a token that has been made. -/
def update (s : State) (token : Nat) : Option State :=
  if token ∈ s.users.registered then
    (s.call (.update token)).map fun s' => s'.stamp token ((s.tokens token).update s.clock)
  else none

/-- `expire`: the closures it starts. -/
def expire (s : State) (threshold : Int) : List Nat :=
  s.users.manager.entries.entries.filterMap fun e =>
    if !(s.tokens e.2.token).after threshold then some e.2.onExpire else none

/-- The loop of `run` receives a time from the ticker. -/
def tick (expireLimit : Int64) (s : State) (t : Int) : State :=
  { s with
    users := { s.users with launched := s.users.launched ++ s.expire (add t (-expireLimit)) }
    ticker := none
    expired := s.expired ++ s.expire (add t (-expireLimit)) }

end State

/-- One step. The ticker drops a time if there is one in its channel; the manager's own clock counts
whole seconds. -/
def step (expireLimit : Int64) (s : State) : Act → Option State
  | .acquire name token chan =>
    (s.call (.acquire name token chan)).map fun s' => s'.stamp token (newToken s.clock)
  | .resume token chan => s.call (.resume token chan)
  | .release token => s.call (.release token)
  | .expireAndRemove name => s.call (.expireAndRemove name)
  | .expireAndRemoveAll => s.call .expireAndRemoveAll
  | .update token | .readJSON token | .writeJSON token => s.update token
  | .fire =>
    if s.running = true then some { s with ticker := s.ticker.or (some s.clock) } else none
  | .tick => if s.running = true then s.ticker.map (s.tick expireLimit) else none
  | .stop => if s.running = true then some { s with running := false } else none
  | .advance n =>
    (s.call (.advance (unix (s.clock + n) - unix s.clock).toNat)).map fun s' =>
      { s' with clock := s.clock + n }

/-- A new manager whose loop has been started, at some time. -/
def State.initial (expireLimit : Int64) (clock : Int) : State :=
  { users := HandOff.State.initial (unix expireLimit.toInt).toNat, tokens := fun _ => ⟨0⟩
    clock := clock, ticker := none, running := true, updates := [], expired := [] }

/-- A manager that ticks. -/
def ticks (expireLimit : Int64) : System State Act where
  init s := ∃ clock, s = .initial expireLimit clock
  step := step expireLimit

/-! ## What a step does -/

section

variable {expireLimit : Int64} {s s' : State} {a : Act}

/-- What the calls leave of the times in the manager: `stamped` is the token that a call has made or
updated. -/
structure Frame (u : HandOff.State) (stamped : Option Nat) (u' : HandOff.State) : Prop where
  registered : ∀ t, t ∈ u'.registered ↔ stamped = some t ∨ t ∈ u.registered
  now : u'.now = u.now
  unix : ∀ t, u'.manager.unix t = if stamped = some t then u.now else u.manager.unix t
  expireLimit : u'.manager.expireLimit = u.manager.expireLimit

/-- A call that neither makes nor updates a token. -/
theorem Frame.of_times {u u' : HandOff.State} (hreg : u'.registered = u.registered)
    (hnow : u'.now = u.now) (h : u'.manager.SameTimes u.manager) : Frame u none u' :=
  ⟨fun t => by simp [hreg], hnow, fun t => by simp [h.unix], h.expireLimit⟩

/-- A call that makes or updates one. -/
theorem Frame.of_stamp {u u' : HandOff.State} {token : Nat}
    (hreg : ∀ t, t ∈ u'.registered ↔ t = token ∨ t ∈ u.registered) (hnow : u'.now = u.now)
    (h : u'.manager.SameTimes (u.manager.update u.now token)) : Frame u (some token) u' := by
  have hcomm : ∀ t, some token = some t ↔ t = token := by simp [eq_comm]
  refine ⟨fun t => ?_, hnow, fun t => ?_, h.expireLimit⟩
  · rw [hcomm, hreg]
  · exact (h.unix t).trans (if_congr (hcomm t).symm rfl rfl)

/-- What a step does. -/
inductive Next (expireLimit : Int64) (s : State) : Act → State → Prop
  | call {a : Act} {users : HandOff.State} {b : HandOff.Act}
      (hs : HandOff.step s.users b = some users) (hf : Frame s.users none users) :
      Next expireLimit s a { s with users := users }
  | stamp {a : Act} {users : HandOff.State} {b : HandOff.Act} {token : Nat}
      (hs : HandOff.step s.users b = some users) (hf : Frame s.users (some token) users) :
      Next expireLimit s a (({ s with users := users } : State).stamp token (newToken s.clock))
  | fire : Next expireLimit s .fire { s with ticker := s.ticker.or (some s.clock) }
  | tick {t : Int} (ht : s.ticker = some t) : Next expireLimit s .tick (s.tick expireLimit t)
  | stop : Next expireLimit s .stop { s with running := false }
  | advance (n : Nat) :
      Next expireLimit s (.advance n)
        { s with
          users := { s.users with
            now := s.users.now + (unix (s.clock + n) - unix s.clock).toNat }
          clock := s.clock + n }

/-- An update of a token that has been made, -/
theorem update_next {token : Nat} (hs : s.update token = some s') : Next expireLimit s a s' := by
  obtain ⟨hreg, hs⟩ := Option.ite_none_right_eq_some.1 hs
  obtain rfl := Option.some.inj hs
  refine .stamp (b := .update token) rfl (.of_stamp (fun t => ⟨.inr, ?_⟩) rfl ⟨fun _ => rfl, rfl⟩)
  rintro (rfl | ht)
  · exact hreg
  · exact ht

/-- and each step. -/
theorem step_next (hs : step expireLimit s a = some s') : Next expireLimit s a s' := by
  cases a with
  | acquire name token chan =>
    obtain ⟨_, hcall, rfl⟩ := Option.map_eq_some_iff.1 hs
    obtain ⟨users, hu, rfl⟩ := Option.map_eq_some_iff.1 hcall
    refine .stamp hu ?_
    obtain ⟨-, hu⟩ := Option.ite_none_right_eq_some.1 hu
    exact Option.some.inj hu ▸ .of_stamp (fun _ => List.mem_cons) rfl acquire_times
  | resume token chan =>
    obtain ⟨users, hu, rfl⟩ := Option.map_eq_some_iff.1 hs
    refine .call hu ?_
    obtain ⟨-, hu⟩ := Option.ite_none_right_eq_some.1 hu
    exact Option.some.inj hu ▸ .of_times rfl rfl ⟨fun _ => rfl, rfl⟩
  | release token =>
    obtain rfl := Option.some.inj hs
    exact .call (b := .release token) rfl (.of_times rfl rfl release_times)
  | expireAndRemove name =>
    obtain rfl := Option.some.inj hs
    exact .call (b := .expireAndRemove name) rfl (.of_times rfl rfl expireAndRemove_times)
  | expireAndRemoveAll =>
    obtain rfl := Option.some.inj hs
    exact .call (b := .expireAndRemoveAll) rfl (.of_times rfl rfl expireAndRemoveEach_times)
  | update token | readJSON token | writeJSON token => exact update_next hs
  | fire =>
    obtain ⟨-, hs⟩ := Option.ite_none_right_eq_some.1 hs
    exact Option.some.inj hs ▸ .fire
  | tick =>
    obtain ⟨-, hs⟩ := Option.ite_none_right_eq_some.1 hs
    obtain ⟨t, ht, rfl⟩ := Option.map_eq_some_iff.1 hs
    exact .tick ht
  | stop =>
    obtain ⟨-, hs⟩ := Option.ite_none_right_eq_some.1 hs
    exact Option.some.inj hs ▸ .stop
  | advance n =>
    obtain rfl := Option.some.inj hs
    exact .advance n

/-- The updates that a step adds are not older than the step, and the clock does not go back. -/
theorem Next.later (h : Next expireLimit s a s') :
    (∃ new, s'.updates = new ++ s.updates ∧ ∀ x ∈ new, s.clock ≤ x.2) ∧ s.clock ≤ s'.clock := by
  cases h with
  | stamp hs hf => exact ⟨⟨[_], rfl, by simp⟩, le_rfl⟩
  | advance n => exact ⟨⟨[], rfl, nofun⟩, by simp⟩
  | call | fire | tick | stop => exact ⟨⟨[], rfl, nofun⟩, le_rfl⟩

end

/-! ## The invariant -/

/-- What all runs keep: the token's time is that of its last update, in whole seconds. -/
structure Inv (s : State) : Prop where
  users : HandOff.Inv s.users
  updates : s.updates.Ordered s.clock
  stamped : ∀ t ∈ s.users.registered, ∃ u, s.updates.last t = some u ∧ s.tokens t = newToken u
  ticker : ∀ t, s.ticker = some t → t ≤ s.clock

section

variable {expireLimit : Int64} {s s' : State} {a : Act} {name token : Nat} {t u threshold : Int}

theorem inv_initial (clock : Int) : Inv (.initial expireLimit clock) :=
  ⟨HandOff.inv_initial _, Timeline.ordered_nil, nofun, nofun⟩

/-- What `expire` starts belongs to the entries whose last update is not after the threshold, in
whole seconds. -/
theorem Inv.mem_expire (h : Inv s) :
    token ∈ s.expire threshold ↔ (∃ n, s.users.manager.holder n = some token) ∧
      ∃ u, s.updates.last token = some u ∧ unix u ≤ unix threshold := by
  unfold State.expire
  rw [h.users.mem_closures (p := fun t => (!(s.tokens t).after threshold) = true)]
  refine and_congr_right fun ⟨n, hn⟩ => ?_
  obtain ⟨u, hlast, htoken⟩ := h.stamped token (h.users.current token n hn).1
  simp [hlast, htoken, newToken, Token.after]

/-- **Each step** keeps the invariant. -/
theorem Inv.step (h : Inv s) (hn : Next expireLimit s a s') : Inv s' := by
  cases hn with
  | call hs hf =>
    refine ⟨h.users.step hs, h.updates, fun t ht => h.stamped t ?_, h.ticker⟩
    exact ((hf.registered t).1 ht).resolve_left nofun
  | @stamp _ users b token hs hf =>
    refine ⟨h.users.step hs, h.updates.cons, fun t ht => ?_, h.ticker⟩
    show ∃ u, Timeline.last ((token, s.clock) :: s.updates) t = some u ∧
      (if t = token then newToken s.clock else s.tokens t) = newToken u
    rw [Timeline.last_cons]
    by_cases heq : t = token
    · exact ⟨s.clock, by rw [if_pos heq], by rw [if_pos heq]⟩
    · rw [if_neg heq, if_neg heq]
      refine h.stamped t (((hf.registered t).1 ht).resolve_left fun hx => heq ?_)
      exact (Option.some.inj hx).symm
  | fire =>
    refine ⟨h.users, h.updates, h.stamped, fun t ht => ?_⟩
    rcases Option.or_eq_some_iff.1 ht with hold | ⟨-, hnow⟩
    · exact h.ticker t hold
    · exact (Option.some.inj hnow).ge
  | tick ht =>
    exact ⟨h.users.launch fun t hmem => (h.mem_expire.1 hmem).1, h.updates, h.stamped, nofun⟩
  | stop => exact { h with }
  | advance n =>
    refine ⟨{ h.users with }, h.updates.mono (by simp), h.stamped, fun t ht => ?_⟩
    exact (h.ticker t ht).trans (by simp)

/-- The reachable states. -/
theorem inv_of_reaches (h : (ticks expireLimit).Reaches System.Any s) : Inv s :=
  h.invariant (fun _ ⟨_, h₀⟩ => h₀ ▸ inv_initial _) fun _ _ _ hi _ hs => hi.step (step_next hs)

end

/-! ## The idle and the active -/

/-- **Idle detection is exact to within one second.** In every run, a tick launches the closures of
all entries that have been idle for `expireLimit`, and of none that has been idle for a second less.
So who updates in every window that is a second shorter than `expireLimit` is never expired. -/
structure Exact (expireLimit : Int64) : Prop where
  tick : ∀ s s' t, (ticks expireLimit).Reaches System.Any s → s.ticker = some t →
    step expireLimit s .tick = some s' →
    ∃ l, s'.users.launched = s.users.launched ++ l ∧ s'.expired = s.expired ++ l ∧
      ∀ name token, s.users.manager.holder name = some token →
        ∃ u, s.updates.last token = some u ∧ (expireLimit.toInt ≤ t - u → token ∈ l) ∧
          (t - u ≤ expireLimit.toInt - second → token ∉ l)
  active : ∀ s token, (ticks expireLimit).Reaches System.Any s →
    s.updates.Regular (expireLimit.toInt - second) token s.clock → token ∉ s.expired

section

variable {expireLimit : Int64} {s s' : State} {a : Act} {name token : Nat} {t u : Int}

/-- The threshold of a tick. -/
theorem add_neg (hlimit : expireLimit ≠ Int64.minValue) :
    add t (-expireLimit) = t - expireLimit.toInt := by
  unfold add
  rw [(toInt_neg_iff expireLimit).2 hlimit]
  omega

/-- Who has been idle for the limit is expired, -/
theorem Inv.mem_of_idle (h : Inv s) (hlimit : expireLimit ≠ Int64.minValue)
    (hold : s.users.manager.holder name = some token) (hlast : s.updates.last token = some u)
    (hidle : expireLimit.toInt ≤ t - u) : token ∈ s.expire (add t (-expireLimit)) := by
  refine h.mem_expire.2 ⟨⟨name, hold⟩, u, hlast, unix_le ?_⟩
  rw [add_neg hlimit]
  omega

/-- and who has been idle for a second less is not. -/
theorem Inv.not_mem_of_active (h : Inv s) (hlimit : expireLimit ≠ Int64.minValue)
    (hlast : s.updates.last token = some u) (hactive : t - u ≤ expireLimit.toInt - second) :
    token ∉ s.expire (add t (-expireLimit)) := by
  intro hmem
  obtain ⟨-, u', hlast', hle⟩ := h.mem_expire.1 hmem
  obtain rfl := Option.some.inj (hlast'.symm.trans hlast)
  refine absurd (unix_lt ?_) (not_lt.2 hle)
  rw [add_neg hlimit]
  omega

/-- One step expires nobody who updates regularly. -/
theorem Inv.active_step (h : Inv s) (hlimit : expireLimit ≠ Int64.minValue)
    (hn : Next expireLimit s a s')
    (hreg : s.updates.Regular (expireLimit.toInt - second) token s.clock)
    (hold : token ∉ s.expired) : token ∉ s'.expired := by
  cases hn with
  | @tick t ht =>
    intro hmem
    rcases List.mem_append.1 hmem with hmem | hmem
    · exact hold hmem
    · obtain ⟨-, u, hlast, -⟩ := h.mem_expire.1 hmem
      -- The tick has been sent in the past, and the last update is recent even now.
      have hpast := h.ticker t ht
      have hrecent := hreg.recent h.updates hlast
      exact h.not_mem_of_active hlimit hlast (by omega) hmem
  | call | stamp | fire | stop | advance => exact hold

/-- Limits that can be negated are met to within a second, -/
theorem exact_of_ne (hlimit : expireLimit ≠ Int64.minValue) : Exact expireLimit := by
  constructor
  · intro s s' t hs ht htick
    have hi := inv_of_reaches hs
    obtain ⟨-, htick⟩ := Option.ite_none_right_eq_some.1 htick
    obtain rfl : s.tick expireLimit t = s' := by simpa [ht] using htick
    refine ⟨_, rfl, rfl, fun name token hold => ?_⟩
    obtain ⟨u, hlast, -⟩ := hi.stamped token (hi.users.current token name hold).1
    exact ⟨u, hlast, hi.mem_of_idle hlimit hold hlast, hi.not_mem_of_active hlimit hlast⟩
  · intro s token hs
    refine (hs.invariant (I := fun s => Inv s ∧
      (s.updates.Regular (expireLimit.toInt - second) token s.clock → token ∉ s.expired))
      ?_ fun s a s' ⟨hi, hactive⟩ _ hstep => ?_).2
    · rintro _ ⟨clock, rfl⟩
      exact ⟨inv_initial clock, fun _ => List.not_mem_nil⟩
    · have hn := step_next hstep
      refine ⟨hi.step hn, fun hreg => ?_⟩
      obtain ⟨⟨new, hupdates, hnew⟩, hclock⟩ := hn.later
      have hbefore := (hupdates ▸ hreg).earlier hnew hclock
      exact hi.active_step hlimit hn hbefore (hactive hbefore)

/-- The least limit is its own negation: a tick expires the tokens that have been idle for 292
years, where it should expire all. -/
theorem Exact.ne (h : Exact expireLimit) : expireLimit ≠ Int64.minValue := by
  rintro rfl
  obtain ⟨l, hlaunched, -, hentries⟩ := h.tick _ _ 0
    ⟨_, [.acquire 0 1 2, .fire], ⟨0, rfl⟩, System.run_of_exec rfl⟩ rfl rfl
  have hnone : [] = [] ++ l := hlaunched
  rw [List.nil_append] at hnone
  subst hnone
  obtain ⟨u, hlast, hidle, -⟩ := hentries 0 1 rfl
  obtain rfl : 0 = u := Option.some.inj hlast
  exact List.not_mem_nil (hidle (by decide))

/-- **and no others are.** -/
theorem exact_iff (expireLimit : Int64) : Exact expireLimit ↔ expireLimit ≠ Int64.minValue :=
  ⟨Exact.ne, exact_of_ne⟩

theorem not_exact_minValue : ¬ Exact Int64.minValue := fun h => h.ne rfl

end

/-! ## Whole seconds -/

/-- The loop receives its times when they are sent. -/
def Prompt (s : State) (a : Act) : Prop := a = .tick → s.ticker = some s.clock

/-- The manager that counts whole seconds has counted them since `start`. -/
structure Seconds (limit : Nat) (start : Int) (s : State) : Prop where
  clock : unix s.clock = start + s.users.now
  stamped : ∀ t ∈ s.users.registered, (s.tokens t).unix = start + s.users.manager.unix t
  expireLimit : s.users.manager.expireLimit = limit

section

variable {expireLimit : Int64} {limit : Nat} {start : Int} {s s' : State} {a : Act}

/-- Both expire the same tokens. -/
theorem Seconds.expire (h : Seconds limit start s) (hi : Inv s)
    (hlimit : expireLimit.toInt = limit * second) :
    s.expire (add s.clock (-expireLimit)) = s.users.manager.expire s.users.now := by
  have hthreshold : unix (add s.clock (-expireLimit)) = start + s.users.now - limit := by
    rw [add_neg ?_, hlimit, ← h.clock]
    · unfold unix second
      omega
    · rintro rfl
      rw [Int64.toInt_minValue] at hlimit
      unfold second at hlimit
      omega
  unfold State.expire Manager.expire
  refine List.filterMap_congr fun ⟨n, e⟩ he => if_congr ?_ rfl rfl
  have hold : s.users.manager.holder n = some e.token := by
    rw [Manager.holder, AList.mem_lookup_iff.2 he]
    rfl
  have htoken := h.stamped e.token (hi.users.current _ n hold).1
  simp only [Token.after, hthreshold, htoken, h.expireLimit, Bool.not_eq_true',
    decide_eq_false_iff_not]
  omega

/-- **A step is one of the manager that counts whole seconds**, or it has nothing to do with it. -/
theorem Seconds.step (h : Seconds limit start s) (hi : Inv s)
    (hlimit : expireLimit.toInt = limit * second) (hp : Prompt s a)
    (hn : Next expireLimit s a s') :
    Seconds limit start s' ∧
      (s'.users = s.users ∨ ∃ b, HandOff.step s.users b = some s'.users) := by
  cases hn with
  | call hs hf =>
    refine ⟨⟨?_, fun t ht => ?_, hf.expireLimit.trans h.expireLimit⟩, .inr ⟨_, hs⟩⟩
    · rw [hf.now]
      exact h.clock
    · rw [hf.unix, if_neg nofun]
      exact h.stamped t (((hf.registered t).1 ht).resolve_left nofun)
  | @stamp _ users b token hs hf =>
    refine ⟨⟨?_, fun t ht => ?_, hf.expireLimit.trans h.expireLimit⟩, .inr ⟨_, hs⟩⟩
    · show unix s.clock = start + users.now
      rw [hf.now]
      exact h.clock
    · show (if t = token then newToken s.clock else s.tokens t).unix =
        start + users.manager.unix t
      rw [hf.unix]
      by_cases heq : t = token
      · rw [if_pos heq, if_pos (congrArg some heq.symm)]
        exact h.clock
      · have hne : some token ≠ some t := fun hx => heq (Option.some.inj hx).symm
        rw [if_neg heq, if_neg hne]
        exact h.stamped t (((hf.registered t).1 ht).resolve_left hne)
  | fire | stop => exact ⟨{ h with }, .inl rfl⟩
  | @tick t ht =>
    obtain rfl : t = s.clock := Option.some.inj (ht.symm.trans (hp rfl))
    refine ⟨{ h with }, .inr ⟨.tick, ?_⟩⟩
    unfold State.tick
    rw [h.expire hi hlimit]
    rfl
  | advance n =>
    refine ⟨{ h with clock := ?_ }, .inr ⟨.advance _, rfl⟩⟩
    have hle : unix s.clock ≤ unix (s.clock + n) := unix_le (by simp)
    have hclock := h.clock
    show unix (s.clock + n) = start + ((s.users.now + _ : Nat) : Int)
    push_cast [Int.toNat_of_nonneg (sub_nonneg.2 hle)]
    omega

/-- **At a limit of whole seconds, the manager that counts them does the same**, as long as the loop
keeps up with the ticker. -/
theorem handOff_of_prompt (hlimit : expireLimit.toInt = limit * second)
    (h : (ticks expireLimit).Reaches Prompt s) :
    (HandOff.handOff limit).Reaches System.Any s.users := by
  obtain ⟨s₀, as, ⟨clock, rfl⟩, hrun⟩ := h
  refine (hrun.invariant (I := fun s => Inv s ∧ Seconds limit (unix clock) s ∧
    (HandOff.handOff limit).Reaches System.Any s.users) ?_ fun s a s' hinv hp hstep => ?_).2.2
  · have hinit : (unix expireLimit.toInt).toNat = limit := by
      rw [hlimit]
      unfold unix second
      omega
    refine ⟨inv_initial clock, ⟨by simp [State.initial, HandOff.State.initial], nofun, hinit⟩,
      _, [], ?_, .nil⟩
    exact congrArg HandOff.State.initial hinit
  · obtain ⟨hi, hsec, s₁, bs, hinit, hreach⟩ := hinv
    have hn := step_next hstep
    obtain ⟨hsec', hsame | ⟨b, hb⟩⟩ := hsec.step hi hlimit hp hn
    · exact ⟨hi.step hn, hsec', s₁, bs, hinit, hsame ▸ hreach⟩
    · exact ⟨hi.step hn, hsec', s₁, bs ++ [b], hinit, hreach.snoc trivial hb⟩

end

end Ticks

end UAssign.Expire

import UAssign.Expire.Manager
import UAssign.Lib.Transition

/-!
# Handing names over

Any number of goroutines call the manager's methods, on any names and tokens and in any order, and
the manager ticks in between. `Inv` is what all runs keep: the maps agree with each other, a token
is displaced once, and the channel of every call that waits is the blocker of a token that has not
been released, unless it has been closed (`handOff_safe`). `Inv.notified` says that nobody loses a
name without being told.
-/

namespace UAssign.Expire

/-! ## The system -/

namespace HandOff

/-- The manager, and what has become of those who use it: the channels that have been made, the
tokens that have been registered, the calls of `Acquire` that wait, each with its channel, the
tokens that have been displaced, those that have been released, and those whose `onExpire` has been
launched. -/
structure State where
  manager : Manager
  now : Nat
  chans : List Nat
  registered : List Nat
  waiting : List (Nat × Nat)
  displaced : List Nat
  released : List Nat
  launched : List Nat

/-- The steps. A call is one step, up to the wait of `Acquire`; the closure of a token has the
token's number. -/
inductive Act where
  | acquire (name token chan : Nat)
  | resume (token chan : Nat)
  | update (token : Nat)
  | release (token : Nat)
  | expireAndRemove (name : Nat)
  | expireAndRemoveAll
  | tick
  | advance (n : Nat)
  deriving DecidableEq

namespace State

/-- `Acquire`, up to the wait. -/
def acquire (s : State) (name token chan : Nat) : State :=
  let call := s.manager.acquire s.now name token chan token
  { s with
    manager := call.manager
    chans := chan :: s.chans
    registered := token :: s.registered
    waiting := (call.blocker.map fun c => (token, c)).toList ++ s.waiting
    displaced := (s.manager.holder name).toList ++ s.displaced
    launched := s.launched ++ call.started.toList }

/-- `Release`. -/
def release (s : State) (token : Nat) : State :=
  { s with manager := s.manager.release token, released := token :: s.released }

/-- `ExpireAndRemove`. -/
def expireAndRemove (s : State) (name : Nat) : State :=
  { s with
    manager := (s.manager.expireAndRemove name).1
    launched := s.launched ++ (s.manager.expireAndRemove name).2.toList }

/-- `ExpireAndRemoveAll`. -/
def expireAndRemoveAll (s : State) : State :=
  { s with
    manager := s.manager.expireAndRemoveAll.1
    launched := s.launched ++ s.manager.expireAndRemoveAll.2 }

end State

/-- One step. A token and a channel that are made are new; a call that waits goes on once its
channel is closed. -/
def step (s : State) : Act → Option State
  | .acquire name token chan =>
    if token ∉ s.registered ∧ token ∉ s.released ∧ chan ∉ s.chans then
      some (s.acquire name token chan)
    else none
  | .resume token chan =>
    if (token, chan) ∈ s.waiting ∧ chan ∈ s.manager.closed then
      some { s with waiting := s.waiting.erase (token, chan) }
    else none
  | .update token => some { s with manager := s.manager.update s.now token }
  | .release token => some (s.release token)
  | .expireAndRemove name => some (s.expireAndRemove name)
  | .expireAndRemoveAll => some s.expireAndRemoveAll
  | .tick => some { s with launched := s.launched ++ s.manager.expire s.now }
  | .advance n => some { s with now := s.now + n }

/-- A new manager, which nobody has used. -/
def State.initial (expireLimit : Nat) : State :=
  { manager := newManager expireLimit, now := 0, chans := [], registered := [], waiting := [],
    displaced := [], released := [], launched := [] }

/-! ## The invariant -/

/-- What all runs keep. -/
structure Inv (s : State) : Prop where
  inverse : ∀ t n, s.manager.tokens.lookup t = some n ↔ s.manager.holder n = some t
  current : ∀ t n, s.manager.holder n = some t →
    t ∈ s.registered ∧ t ∉ s.released ∧ t ∉ s.displaced
  closure : ∀ n e, s.manager.entries.lookup n = some e → e.onExpire = e.token
  blocker : ∀ t c, s.manager.blockers.lookup t = some c →
    t ∈ s.displaced ∧ t ∉ s.released ∧ c ∈ s.chans ∧ c ∉ s.manager.closed
  distinct : ∀ t t' c, s.manager.blockers.lookup t = some c →
    s.manager.blockers.lookup t' = some c → t = t'
  closed : s.manager.closed.Nodup
  made : ∀ c ∈ s.manager.closed, c ∈ s.chans
  displaced : s.displaced.Nodup
  known : ∀ t ∈ s.displaced, t ∈ s.registered
  waiting : ∀ x ∈ s.waiting,
    x.2 ∈ s.manager.closed ∨ ∃ t, s.manager.blockers.lookup t = some x.2
  notified : ∀ t ∈ s.registered, t ∉ s.released →
    (∃ n, s.manager.holder n = some t) ∨ t ∈ s.launched
  launched : ∀ t ∈ s.launched, t ∈ s.registered

section

variable {s s' : State} {name token chan t n : Nat}

/-- The holder of a name whose entry may have been replaced or removed. -/
theorem holder_if {m m' : Manager} {e : Option Entry} {p : Prop} [Decidable p]
    (h : m'.entries.lookup n = if p then e else m.entries.lookup n) :
    m'.holder n = if p then e.map Entry.token else m.holder n := by
  unfold Manager.holder
  rw [h]
  split <;> rfl

/-- A name has one holder, and a token one name. -/
theorem Inv.holder_inj (h : Inv s) {n' : Nat} (hn : s.manager.holder n = some t)
    (hn' : s.manager.holder n' = some t) : n = n' := by
  have h₁ := (h.inverse t n).2 hn
  rw [(h.inverse t n').2 hn'] at h₁
  exact (Option.some.inj h₁).symm

/-- The closure that a name's entry has is that of its holder. -/
theorem Inv.started (h : Inv s) :
    (s.manager.entries.lookup name).map Entry.onExpire = s.manager.holder name := by
  unfold Manager.holder
  cases he : s.manager.entries.lookup name with
  | none => rfl
  | some e => exact congrArg some (h.closure name e he)

/-- The name has a new holder, -/
theorem holder_acquire : (s.acquire name token chan).manager.holder n =
    if n = name then some token else s.manager.holder n :=
  holder_if ((@acquire_spec s.manager s.now name token chan token).1 n)

/-- the old one is displaced, -/
theorem mem_displaced_acquire : t ∈ (s.acquire name token chan).displaced ↔
    s.manager.holder name = some t ∨ t ∈ s.displaced := by
  simp [State.acquire]

/-- and told. -/
theorem Inv.mem_launched_acquire (h : Inv s) : t ∈ (s.acquire name token chan).launched ↔
    t ∈ s.launched ∨ s.manager.holder name = some t := by
  obtain ⟨-, -, -, -, -, hstarted⟩ := @acquire_spec s.manager s.now name token chan token
  rw [h.started] at hstarted
  simp [State.acquire, hstarted]

theorem closed_acquire : (s.acquire name token chan).manager.closed = s.manager.closed :=
  (@acquire_spec s.manager s.now name token chan token).2.2.2.1

/-- A new token and its name are inverse to each other, like the others. -/
theorem Inv.inverse_acquire (h : Inv s) (htok : token ∉ s.registered) :
    (s.acquire name token chan).manager.tokens.lookup t = some n ↔
      (s.acquire name token chan).manager.holder n = some t := by
  obtain ⟨-, htokens, -⟩ := @acquire_spec s.manager s.now name token chan token
  have hnew : ∀ n, s.manager.holder n ≠ some token := fun n hn => htok (h.current _ n hn).1
  rw [holder_acquire]
  refine (Eq.congr_left (htokens t)).trans ?_
  by_cases ht : t = token
  · subst ht
    rw [if_pos rfl]
    by_cases hn : n = name
    · rw [if_pos hn, hn]; simp
    · rw [if_neg hn]
      exact ⟨fun heq => (hn (Option.some.inj heq).symm).elim, fun heq => (hnew n heq).elim⟩
  · rw [if_neg ht]
    by_cases hn : n = name
    · subst hn
      rw [if_pos rfl]
      refine ⟨fun heq => ?_, fun heq => (ht (Option.some.inj heq).symm).elim⟩
      split at heq
      · cases heq
      · next hne => exact (hne ((h.inverse t n).1 heq)).elim
    · rw [if_neg hn]
      split
      · next hold =>
        refine ⟨fun heq => (Option.some_ne_none n heq.symm).elim, fun heq => ?_⟩
        exact (hn (h.holder_inj heq hold)).elim
      · exact h.inverse t n

/-- **`Acquire`** displaces at most the holder of the name, and waits for it. -/
theorem Inv.acquire (h : Inv s) (htok : token ∉ s.registered) (hrel : token ∉ s.released)
    (hchan : chan ∉ s.chans) : Inv (s.acquire name token chan) := by
  obtain ⟨hentries, -, hblockers, -, hwait, -⟩ :=
    @acquire_spec s.manager s.now name token chan token
  refine ⟨fun t n => h.inverse_acquire htok, fun t n hn => ?_, fun n e he => ?_,
    fun t c hc => ?_, fun t t' c hc hc' => ?_, ?_, fun c hc => ?_, ?_, fun t ht => ?_,
    fun x hx => ?_, fun t ht hnot => ?_, fun t ht => ?_⟩
  · rw [holder_acquire] at hn
    split at hn
    · obtain rfl := Option.some.inj hn
      refine ⟨List.mem_cons_self, hrel, fun hd => ?_⟩
      rcases mem_displaced_acquire.1 hd with hd | hd
      · exact htok (h.current _ name hd).1
      · exact htok (h.known _ hd)
    · next hne =>
      obtain ⟨h₁, h₂, h₃⟩ := h.current t n hn
      refine ⟨List.mem_cons_of_mem _ h₁, h₂, fun hd => ?_⟩
      rcases mem_displaced_acquire.1 hd with hd | hd
      · exact hne (h.holder_inj hn hd)
      · exact h₃ hd
  · rw [State.acquire, hentries] at he
    split at he
    · cases he; rfl
    · exact h.closure n e he
  · have hc := (hblockers t).symm.trans hc
    rw [closed_acquire]
    split at hc
    · next hold =>
      obtain rfl := Option.some.inj hc
      exact ⟨mem_displaced_acquire.2 (.inl hold), (h.current t name hold).2.1,
        List.mem_cons_self, fun hmem => hchan (h.made _ hmem)⟩
    · obtain ⟨h₁, h₂, h₃, h₄⟩ := h.blocker t c hc
      exact ⟨mem_displaced_acquire.2 (.inr h₁), h₂, List.mem_cons_of_mem _ h₃, h₄⟩
  · have hc := (hblockers t).symm.trans hc
    have hc' := (hblockers t').symm.trans hc'
    split at hc <;> split at hc'
    · next h₁ h₂ => exact Option.some.inj (h₁.symm.trans h₂)
    · obtain rfl := Option.some.inj hc
      exact (hchan (h.blocker t' _ hc').2.2.1).elim
    · obtain rfl := Option.some.inj hc'
      exact (hchan (h.blocker t _ hc).2.2.1).elim
    · exact h.distinct t t' c hc hc'
  · rw [closed_acquire]
    exact h.closed
  · rw [closed_acquire] at hc
    exact List.mem_cons_of_mem _ (h.made c hc)
  · show ((s.manager.holder name).toList ++ s.displaced).Nodup
    cases hold : s.manager.holder name with
    | none => exact h.displaced
    | some t => exact List.nodup_cons.2 ⟨(h.current t name hold).2.2, h.displaced⟩
  · rcases mem_displaced_acquire.1 ht with hold | ht
    · exact List.mem_cons_of_mem _ (h.current t name hold).1
    · exact List.mem_cons_of_mem _ (h.known t ht)
  · have hblock : ∀ t, (s.acquire name token chan).manager.blockers.lookup t = _ := hblockers
    rw [closed_acquire]
    have hx : x ∈ ((s.manager.holder name).map fun _ => (token, chan)).toList ++ s.waiting := by
      simpa [State.acquire, hwait, Function.comp_def] using hx
    rcases List.mem_append.1 hx with hx | hx
    · obtain ⟨t, hold, rfl⟩ := Option.map_eq_some_iff.1 (Option.mem_toList.1 hx)
      exact .inr ⟨t, by rw [hblock, if_pos hold]⟩
    · refine (h.waiting x hx).imp id fun ⟨t, ht⟩ => ⟨t, ?_⟩
      rw [hblock, if_neg fun hold => (h.current t name hold).2.2 (h.blocker t _ ht).1]
      exact ht
  · rcases List.mem_cons.1 ht with rfl | ht
    · exact .inl ⟨name, by rw [holder_acquire, if_pos rfl]⟩
    · rcases h.notified t ht hnot with ⟨n, hn⟩ | hl
      · by_cases hne : n = name
        · exact .inr (h.mem_launched_acquire.2 (.inr (hne ▸ hn)))
        · exact .inl ⟨n, by rw [holder_acquire, if_neg hne]; exact hn⟩
      · exact .inr (h.mem_launched_acquire.2 (.inl hl))
  · rcases h.mem_launched_acquire.1 ht with hl | hold
    · exact List.mem_cons_of_mem _ (h.launched t hl)
    · exact List.mem_cons_of_mem _ (h.current t name hold).1

/-- A token that is released holds no name. -/
theorem holder_release : (s.release token).manager.holder n =
    if s.manager.tokens.lookup token = some n then none else s.manager.holder n :=
  holder_if ((@release_spec s.manager token).1 n)

/-- **`Release`** takes the token out of all maps, and closes its blocker. -/
theorem Inv.release (h : Inv s) (token : Nat) : Inv (s.release token) := by
  obtain ⟨hentries, htokens, hblockers, hclosed⟩ := @release_spec s.manager token
  have hholder : ∀ n t, (s.release token).manager.holder n = some t ↔
      s.manager.holder n = some t ∧ t ≠ token := by
    intro n t
    rw [holder_release]
    split
    · next heq =>
      have hold := (h.inverse token n).1 heq
      refine ⟨fun ht => (Option.some_ne_none t ht.symm).elim, fun ⟨ht, hne⟩ => ?_⟩
      exact (hne (Option.some.inj (ht.symm.trans hold))).elim
    · next hne =>
      refine ⟨fun ht => ⟨ht, ?_⟩, And.left⟩
      rintro rfl
      exact hne ((h.inverse t n).2 ht)
  have herase : ∀ {m m' : Map Nat Nat} {t c : Nat},
      (m'.lookup t = if t = token then none else m.lookup t) →
      (m'.lookup t = some c ↔ m.lookup t = some c ∧ t ≠ token) := by
    intro m m' t c heq
    rw [heq]
    by_cases ht : t = token <;> simp [ht]
  have hblock : ∀ t c, (s.release token).manager.blockers.lookup t = some c ↔
      s.manager.blockers.lookup t = some c ∧ t ≠ token := fun t c => herase (hblockers t)
  have hclose : ∀ c, c ∈ (s.release token).manager.closed ↔
      s.manager.blockers.lookup token = some c ∨ c ∈ s.manager.closed := fun c => by
    show c ∈ (s.manager.release token).closed ↔ _
    rw [hclosed, List.mem_append, Option.mem_toList]
  refine ⟨fun t n => ?_, fun t n hn => ?_, fun n e he => ?_, fun t c hc => ?_,
    fun t t' c hc hc' => ?_, ?_, fun c hc => ?_, h.displaced, h.known, fun x hx => ?_,
    fun t ht hnot => ?_, h.launched⟩
  · rw [hholder, ← h.inverse]
    exact herase (htokens t)
  · obtain ⟨hold, hne⟩ := (hholder n t).1 hn
    obtain ⟨h₁, h₂, h₃⟩ := h.current t n hold
    exact ⟨h₁, List.not_mem_cons_of_ne_of_not_mem hne h₂, h₃⟩
  · have he := (hentries n).symm.trans he
    split at he
    · cases he
    · exact h.closure n e he
  · obtain ⟨hb, hne⟩ := (hblock t c).1 hc
    obtain ⟨h₁, h₂, h₃, h₄⟩ := h.blocker t c hb
    refine ⟨h₁, List.not_mem_cons_of_ne_of_not_mem hne h₂, h₃, fun hmem => ?_⟩
    rcases (hclose c).1 hmem with hmem | hmem
    · exact hne (h.distinct t token c hb hmem)
    · exact h₄ hmem
  · exact h.distinct t t' c ((hblock t c).1 hc).1 ((hblock t' c).1 hc').1
  · show (s.manager.release token).closed.Nodup
    rw [hclosed]
    cases hb : s.manager.blockers.lookup token with
    | none => exact h.closed
    | some c => exact List.nodup_cons.2 ⟨(h.blocker token c hb).2.2.2, h.closed⟩
  · rcases (hclose c).1 hc with hb | hc
    · exact (h.blocker token c hb).2.2.1
    · exact h.made c hc
  · rcases h.waiting x hx with hc | ⟨t, ht⟩
    · exact .inl ((hclose _).2 (.inr hc))
    · by_cases hne : t = token
      · exact .inl ((hclose _).2 (.inl (hne ▸ ht)))
      · exact .inr ⟨t, (hblock t _).2 ⟨ht, hne⟩⟩
  · obtain ⟨hne, hnot⟩ := List.ne_and_not_mem_of_not_mem_cons hnot
    exact (h.notified t ht hnot).imp (fun ⟨n, hn⟩ => ⟨n, (hholder n t).2 ⟨hn, hne⟩⟩) id

/-- A name that is expired has no holder. -/
theorem holder_expireAndRemove : (s.expireAndRemove name).manager.holder n =
    if n = name then none else s.manager.holder n :=
  holder_if ((@expireAndRemove_spec s.manager name).1 n)

/-- **`ExpireAndRemove`** takes the holder of the name out, and launches its closure. -/
theorem Inv.expireAndRemove (h : Inv s) (name : Nat) : Inv (s.expireAndRemove name) := by
  obtain ⟨hentries, htokens, hblockers, hclosed, hstarted⟩ :=
    @expireAndRemove_spec s.manager name
  rw [h.started] at hstarted
  have hholder : ∀ n t, (s.expireAndRemove name).manager.holder n = some t ↔
      s.manager.holder n = some t ∧ n ≠ name := by
    intro n t
    rw [holder_expireAndRemove]
    by_cases hne : n = name <;> simp [hne]
  have hlaunched : ∀ t, t ∈ (s.expireAndRemove name).launched ↔
      t ∈ s.launched ∨ s.manager.holder name = some t := fun t => by
    simp [State.expireAndRemove, hstarted]
  have hblock : (s.expireAndRemove name).manager.blockers = s.manager.blockers := hblockers
  have hclose : (s.expireAndRemove name).manager.closed = s.manager.closed := hclosed
  refine ⟨fun t n => ?_, fun t n hn => h.current t n ((hholder n t).1 hn).1, fun n e he => ?_,
    ?_, ?_, ?_, ?_, h.displaced, h.known, ?_, fun t ht hnot => ?_, fun t ht => ?_⟩
  · rw [hholder]
    refine (Eq.congr_left (htokens t)).trans ?_
    split
    · next hold =>
      refine ⟨fun heq => (Option.some_ne_none n heq.symm).elim, fun ⟨hn, hne⟩ => ?_⟩
      exact (hne (h.holder_inj hn hold)).elim
    · next hold =>
      rw [h.inverse]
      refine ⟨fun hn => ⟨hn, ?_⟩, And.left⟩
      rintro rfl
      exact hold hn
  · have he := (hentries n).symm.trans he
    split at he
    · cases he
    · exact h.closure n e he
  · rw [hblock, hclose]; exact h.blocker
  · rw [hblock]; exact h.distinct
  · rw [hclose]; exact h.closed
  · rw [hclose]; exact h.made
  · rw [hblock, hclose]; exact h.waiting
  · rcases h.notified t ht hnot with ⟨n, hn⟩ | hl
    · by_cases hne : n = name
      · exact .inr ((hlaunched t).2 (.inr (hne ▸ hn)))
      · exact .inl ⟨n, (hholder n t).2 ⟨hn, hne⟩⟩
    · exact .inr ((hlaunched t).2 (.inl hl))
  · exact ((hlaunched t).1 ht).elim (h.launched t) fun hold => (h.current t name hold).1

/-- The loop of `ExpireAndRemoveAll` is one `ExpireAndRemove` after the other. -/
theorem expireAndRemoveEach_eq (s : State) (names : List Nat) :
    { s with
      manager := (s.manager.expireAndRemoveEach names).1
      launched := s.launched ++ (s.manager.expireAndRemoveEach names).2 } =
      names.foldl State.expireAndRemove s := by
  induction names generalizing s with
  | nil => simp [Manager.expireAndRemoveEach]
  | cons name names ih =>
    rw [List.foldl_cons, ← ih]
    simp [Manager.expireAndRemoveEach, State.expireAndRemove]

theorem expireAndRemoveAll_eq (s : State) :
    s.expireAndRemoveAll = s.manager.entries.keys.foldl State.expireAndRemove s :=
  expireAndRemoveEach_eq s s.manager.entries.keys

/-- **`ExpireAndRemoveAll`** keeps the invariant, -/
theorem Inv.expireAndRemoveAll (h : Inv s) : Inv s.expireAndRemoveAll := by
  rw [expireAndRemoveAll_eq]
  induction s.manager.entries.keys generalizing s with
  | nil => exact h
  | cons name names ih => exact ih (h.expireAndRemove name)

/-- The loop launches only the closures of holders. -/
theorem Inv.launched_each (h : Inv s) {names : List Nat}
    (ht : t ∈ (s.manager.expireAndRemoveEach names).2) : ∃ n, s.manager.holder n = some t := by
  induction names generalizing s with
  | nil => cases ht
  | cons name names ih =>
    obtain ⟨-, -, -, -, hstarted⟩ := @expireAndRemove_spec s.manager name
    rcases List.mem_append.1 ht with hfirst | hrest
    · rw [hstarted, h.started] at hfirst
      exact ⟨name, Option.mem_toList.1 hfirst⟩
    · obtain ⟨n, hn⟩ := ih (h.expireAndRemove name) hrest
      rw [holder_expireAndRemove] at hn
      split at hn
      · cases hn
      · exact ⟨n, hn⟩

/-- Only the closures of holders are launched. -/
theorem Inv.launched_expireAndRemoveAll (h : Inv s) (ht : t ∈ s.expireAndRemoveAll.launched) :
    t ∈ s.launched ∨ ∃ n, s.manager.holder n = some t :=
  (List.mem_append.1 ht).imp id h.launched_each

/-- The names of a loop have no entry after it. -/
theorem lookup_expireAndRemoveEach (s : State) (names : List Nat) :
    (names.foldl State.expireAndRemove s).manager.entries.lookup n =
      if n ∈ names then none else s.manager.entries.lookup n := by
  induction names generalizing s with
  | nil => simp
  | cons name names ih =>
    have hentries : (s.expireAndRemove name).manager.entries.lookup n = _ :=
      (@expireAndRemove_spec s.manager name).1 n
    rw [List.foldl_cons, ih, hentries]
    by_cases hn : n ∈ names <;> by_cases hne : n = name <;> simp [hn, hne]

/-- and nobody has an entry after it. -/
theorem lookup_expireAndRemoveAll (s : State) :
    s.expireAndRemoveAll.manager.entries.lookup n = none := by
  rw [expireAndRemoveAll_eq, lookup_expireAndRemoveEach]
  split
  · rfl
  · next hn => exact AList.lookup_eq_none.2 fun hmem => hn (AList.mem_keys.1 hmem)

/-- A new manager. -/
theorem inv_initial (limit : Nat) : Inv (State.initial limit) := by
  constructor <;> simp [State.initial, newManager, Manager.holder]

/-- A call that goes on no longer waits. -/
theorem Inv.resume (h : Inv s) (x : Nat × Nat) :
    Inv { s with waiting := s.waiting.erase x } :=
  { h with waiting := fun y hy => h.waiting y (List.mem_of_mem_erase hy) }

/-- The closures of some tokens are those of the holders among them. -/
theorem Inv.mem_closures (h : Inv s) {p : Nat → Prop} [DecidablePred p] :
    t ∈ s.manager.entries.entries.filterMap
        (fun e => if p e.2.token then some e.2.onExpire else none) ↔
      (∃ n, s.manager.holder n = some t) ∧ p t := by
  rw [List.mem_filterMap]
  constructor
  · rintro ⟨⟨n, e⟩, hmem, ht⟩
    have he : s.manager.entries.lookup n = some e := AList.mem_lookup_iff.2 hmem
    obtain ⟨hp, ht⟩ := Option.ite_none_right_eq_some.1 ht
    obtain rfl : e.token = t := (h.closure n e he).symm.trans (Option.some.inj ht)
    exact ⟨⟨n, by rw [Manager.holder, he]; rfl⟩, hp⟩
  · rintro ⟨⟨n, hn⟩, hp⟩
    obtain ⟨e, he, rfl⟩ := Option.map_eq_some_iff.1 hn
    refine ⟨⟨n, e⟩, AList.mem_lookup_iff.1 he, ?_⟩
    rw [if_pos hp, h.closure n e he]

/-- What a tick launches belongs to holders. -/
theorem Inv.expired (h : Inv s) (ht : t ∈ s.manager.expire s.now) :
    ∃ n, s.manager.holder n = some t :=
  ((h.mem_closures (p := fun t => s.manager.unix t + s.manager.expireLimit ≤ s.now)).1 ht).1

/-- Holders may be told at any time. -/
theorem Inv.launch (h : Inv s) {l : List Nat} (hl : ∀ t ∈ l, ∃ n, s.manager.holder n = some t) :
    Inv { s with launched := s.launched ++ l } :=
  { h with
    notified := fun t ht hnot => (h.notified t ht hnot).imp id fun hl =>
      List.mem_append_left _ hl
    launched := fun t ht => (List.mem_append.1 ht).elim (h.launched t) fun hx =>
      (hl t hx).elim fun n hn => (h.current t n hn).1 }

/-- **A tick** only launches. -/
theorem Inv.tick (h : Inv s) :
    Inv { s with launched := s.launched ++ s.manager.expire s.now } :=
  h.launch fun _ => h.expired

/-- **Each step** keeps the invariant. -/
theorem Inv.step {a : Act} (h : Inv s) (hs : step s a = some s') : Inv s' := by
  cases a with
  | acquire name token chan =>
    obtain ⟨⟨htok, hrel, hchan⟩, hs⟩ := Option.ite_none_right_eq_some.1 hs
    exact Option.some.inj hs ▸ h.acquire htok hrel hchan
  | resume token chan =>
    obtain ⟨_, hs⟩ := Option.ite_none_right_eq_some.1 hs
    exact Option.some.inj hs ▸ h.resume _
  | update token => exact Option.some.inj hs ▸ { h with }
  | release token => exact Option.some.inj hs ▸ h.release token
  | expireAndRemove name => exact Option.some.inj hs ▸ h.expireAndRemove name
  | expireAndRemoveAll => exact Option.some.inj hs ▸ h.expireAndRemoveAll
  | tick => exact Option.some.inj hs ▸ h.tick
  | advance n => exact Option.some.inj hs ▸ { h with }

/-- What has been launched stays launched. -/
theorem launched_subset {a : Act} (hs : HandOff.step s a = some s') :
    s.launched ⊆ s'.launched := by
  cases a with
  | acquire name token chan =>
    obtain ⟨-, hs⟩ := Option.ite_none_right_eq_some.1 hs
    exact Option.some.inj hs ▸ List.subset_append_left _ _
  | resume token chan =>
    obtain ⟨-, hs⟩ := Option.ite_none_right_eq_some.1 hs
    exact Option.some.inj hs ▸ List.Subset.refl _
  | update | release | advance => exact Option.some.inj hs ▸ List.Subset.refl _
  | expireAndRemove | expireAndRemoveAll | tick =>
    exact Option.some.inj hs ▸ List.subset_append_left _ _

end

/-- Everything that can happen to a manager. -/
def handOff (expireLimit : Nat) : System State Act :=
  { init := (· = State.initial expireLimit), step := step }

/-- The reachable states. -/
theorem inv_of_reaches {s : State} {limit : Nat} (h : (handOff limit).Reaches System.Any s) :
    Inv s :=
  h.invariant (fun _ h₀ => h₀ ▸ inv_initial limit) fun _ _ _ hi _ hs => hi.step hs

/-- **The hand-off loses no wake-up and corrupts no entry.** In every state that a run of the calls
reaches: entries and tokens are inverse to each other, and a token's release leaves the entries of
the others alone. A token has been displaced once at most, the holder of a name has no blocker that
the next `Acquire` would overwrite, and no channel has been closed twice or is going to be. Who is
still blocked in `Acquire` waits on the blocker of a token that has not been released, and whose
release closes it. -/
theorem handOff_safe {limit : Nat} {s : State} (h : (handOff limit).Reaches System.Any s) :
    (∀ t n, s.manager.tokens.lookup t = some n ↔
      (s.manager.entries.lookup n).map Entry.token = some t) ∧
    (∀ t n e, s.manager.entries.lookup n = some e → e.token ≠ t →
      (s.manager.release t).entries.lookup n = some e) ∧
    s.displaced.Nodup ∧
    (∀ n e, s.manager.entries.lookup n = some e → s.manager.blockers.lookup e.token = none) ∧
    s.manager.closed.Nodup ∧
    (∀ t c, s.manager.blockers.lookup t = some c → c ∉ s.manager.closed) ∧
    (∀ x ∈ s.waiting, x.2 ∉ s.manager.closed →
      ∃ t, s.manager.blockers.lookup t = some x.2 ∧ t ∉ s.released ∧
        x.2 ∈ (s.manager.release t).closed) := by
  have hi := inv_of_reaches h
  refine ⟨hi.inverse, fun t n e he hne => ?_, hi.displaced, fun n e he => ?_, hi.closed,
    fun t c hc => (hi.blocker t c hc).2.2.2, fun x hx hopen => ?_⟩
  · obtain ⟨hentries, -⟩ := @release_spec s.manager t
    rw [hentries, if_neg fun heq => ?_]
    · exact he
    · have hold := (hi.inverse t n).1 heq
      rw [Manager.holder, he] at hold
      exact hne (Option.some.inj hold)
  · have hold : s.manager.holder n = some e.token := by rw [Manager.holder, he]; rfl
    refine Option.eq_none_iff_forall_ne_some.2 fun c hc => ?_
    exact (hi.current _ n hold).2.2 (hi.blocker _ c hc).1
  · obtain ⟨t, ht⟩ := (hi.waiting x hx).resolve_left hopen
    refine ⟨t, ht, (hi.blocker t _ ht).2.1, ?_⟩
    obtain ⟨-, -, -, hclosed⟩ := @release_spec s.manager t
    rw [hclosed, ht]
    exact List.mem_cons_self

/-- Three calls of `Acquire` for a name; the first token is released, twice. -/
def threeCalls : List Act :=
  [.acquire 0 1 2, .acquire 0 3 4, .acquire 0 5 6, .release 1, .resume 3 4, .release 1]

/-- The second token has the name, and the third one waits for its release. -/
theorem handOff_safe_threeCalls :
    ∃ s, (handOff 0).exec (State.initial 0) threeCalls = some s ∧ s.waiting = [(5, 6)] ∧
      s.manager.closed = [4] ∧ ∃ t, s.manager.blockers.lookup t = some 6 ∧ t ∉ s.released ∧
        6 ∈ (s.manager.release t).closed := by
  refine ⟨_, rfl, rfl, rfl, ?_⟩
  have hrun : (handOff 0).Run System.Any (State.initial 0) threeCalls _ := System.run_of_exec rfl
  obtain ⟨-, -, -, -, -, -, h⟩ := handOff_safe ⟨_, _, rfl, hrun⟩
  exact h (5, 6) List.mem_cons_self (by decide)

end HandOff
end UAssign.Expire
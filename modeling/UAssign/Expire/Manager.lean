import Mathlib

/-!
# The expiry manager

`pkg/expire/manager.go`: a name has one entry, and who acquires a name displaces the entry's token
and waits until that token is released. Together the displaced tokens and their blockers make a
queue for each name. `Represents` says which queue: a new token joins it at the end
(`Represents.acquire`), only its head can be released (`Represents.release`), and whoever is not the
head waits on a channel that is open.

New tokens and channels have an identity of their own; the functions take it as an argument.
-/

namespace UAssign.Expire

/-! ## The manager -/

/-- A Go map. -/
abbrev Map (K V : Type) := AList fun _ : K => V

/-- `entry`. The closure `onExpire` is known by a number. -/
structure Entry where
  token : Nat
  onExpire : Nat
  deriving DecidableEq

/-- `Manager`, with the time stamps of the tokens and the channels that have been closed. -/
structure Manager where
  expireLimit : Nat
  entries : Map Nat Entry
  tokens : Map Nat Nat
  blockers : Map Nat Nat
  unix : Nat → Nat
  closed : List Nat

/-- `NewManager`. -/
def newManager (expireLimit : Nat) : Manager :=
  { expireLimit := expireLimit, entries := ∅, tokens := ∅, blockers := ∅, unix := fun _ => 0,
    closed := [] }

namespace Manager

/-- `Token.Update`, and the time stamp of `newToken`. -/
def update (m : Manager) (now token : Nat) : Manager :=
  { m with unix := fun t => if t = token then now else m.unix t }

/-- What a call of `Acquire` does under its lock: the manager, the blocker it is going to wait for
and the closure it starts. -/
structure Acquired where
  manager : Manager
  blocker : Option Nat
  started : Option Nat

/-- The displaced token gets a blocker, and is no longer tracked. -/
def displace (m : Manager) (old chan : Nat) : Manager :=
  { m with blockers := m.blockers.insert old chan, tokens := m.tokens.erase old }

/-- The new entry of a name. -/
def enter (m : Manager) (name token onExpire : Nat) : Manager :=
  { m with
    entries := m.entries.insert name ⟨token, onExpire⟩
    tokens := m.tokens.insert token name }

/-- `Acquire`, up to the wait, with a new token and a new channel. -/
def acquire (m : Manager) (now name token chan onExpire : Nat) : Acquired :=
  match (m.update now token).entries.lookup name with
  | some old =>
    { manager := ((m.update now token).displace old.token chan).enter name token onExpire
      blocker := some chan
      started := some old.onExpire }
  | none =>
    { manager := (m.update now token).enter name token onExpire
      blocker := none
      started := none }

/-- `Release`: the entry of a token that has not been displaced, -/
def deregister (m : Manager) (token : Nat) : Manager :=
  match m.tokens.lookup token with
  | some name => { m with entries := m.entries.erase name, tokens := m.tokens.erase token }
  | none => m

/-- and the blocker of one that has. -/
def unblock (m : Manager) (token : Nat) : Manager :=
  match m.blockers.lookup token with
  | some blocker =>
    { m with closed := blocker :: m.closed, blockers := m.blockers.erase token }
  | none => m

@[inherit_doc deregister]
def release (m : Manager) (token : Nat) : Manager := (m.deregister token).unblock token

/-- `ExpireAndRemove`: the manager, and the closure it starts. -/
def expireAndRemove (m : Manager) (name : Nat) : Manager × Option Nat :=
  match m.entries.lookup name with
  | some e =>
    ({ m with entries := m.entries.erase name, tokens := m.tokens.erase e.token }, some e.onExpire)
  | none => (m, none)

/-- The loop of `ExpireAndRemoveAll` over some names. -/
def expireAndRemoveEach (m : Manager) : List Nat → Manager × List Nat
  | [] => (m, [])
  | name :: names =>
    let x := (m.expireAndRemove name).1.expireAndRemoveEach names
    (x.1, (m.expireAndRemove name).2.toList ++ x.2)

/-- `ExpireAndRemoveAll`: the manager, and the closures it starts. -/
def expireAndRemoveAll (m : Manager) : Manager × List Nat := m.expireAndRemoveEach m.entries.keys

/-- `expire`, on a tick at `now`: the closures it starts. The entries stay. -/
def expire (m : Manager) (now : Nat) : List Nat :=
  m.entries.entries.filterMap fun e =>
    if m.unix e.2.token + m.expireLimit ≤ now then some e.2.onExpire else none

end Manager

/-! ## The queues -/

/-- `c` stands directly behind `t`. -/
def Follows (l : List Nat) (t c : Nat) : Prop := ∃ a b, l = a ++ t :: c :: b

/-- The manager as a queue of tokens for each name. The last one has the entry; each other one has a
blocker, which is the channel of the one behind it. A token's channel has the token's number. -/
structure Represents (m : Manager) (q : Nat → List Nat) : Prop where
  entry : ∀ n, (m.entries.lookup n).map Entry.token = (q n).getLast?
  token : ∀ t n, m.tokens.lookup t = some n ↔ (q n).getLast? = some t
  blocker : ∀ t c, m.blockers.lookup t = some c ↔ ∃ n, Follows (q n) t c
  nodup : ∀ n, (q n).Nodup
  disjoint : ∀ t n n', t ∈ q n → t ∈ q n' → n = n'
  waiting : ∀ n, ∀ c ∈ (q n).tail, c ∉ m.closed

/-- The queues with one of them replaced. -/
def setQueue (q : Nat → List Nat) (name : Nat) (l : List Nat) : Nat → List Nat :=
  fun n => if n = name then l else q n

section

variable {K V : Type} [DecidableEq K] {s : Map K V} {a b : K} {v : V}

/-- Reading a Go map after a write. -/
theorem lookup_insert_if : (s.insert b v).lookup a = if a = b then some v else s.lookup a := by
  split
  · next h => rw [h, AList.lookup_insert]
  · next h => rw [AList.lookup_insert_ne h]

/-- Reading a Go map after a `delete`. -/
theorem lookup_erase_if : (s.erase b).lookup a = if a = b then none else s.lookup a := by
  split
  · next h => rw [h, AList.lookup_erase]
  · next h => rw [AList.lookup_erase_ne h]

/-- Reading a Go map after a `delete` of what was not there. -/
theorem lookup_of_absent (h : s.lookup b = none) :
    s.lookup a = if a = b then none else s.lookup a := by
  split
  · next heq => rw [heq, h]
  · rfl

end

/-! ## What the calls do -/

section

variable {m : Manager} {now name token chan onExpire t n : Nat}

/-- The token that has the entry of a name. -/
def Manager.holder (m : Manager) (name : Nat) : Option Nat :=
  (m.entries.lookup name).map Entry.token

/-- **What `Acquire` does** under its lock. -/
theorem acquire_spec :
    (∀ n, (m.acquire now name token chan onExpire).manager.entries.lookup n =
      if n = name then some ⟨token, onExpire⟩ else m.entries.lookup n) ∧
    (∀ t, (m.acquire now name token chan onExpire).manager.tokens.lookup t =
      if t = token then some name
      else if m.holder name = some t then none else m.tokens.lookup t) ∧
    (∀ t, (m.acquire now name token chan onExpire).manager.blockers.lookup t =
      if m.holder name = some t then some chan else m.blockers.lookup t) ∧
    (m.acquire now name token chan onExpire).manager.closed = m.closed ∧
    (m.acquire now name token chan onExpire).blocker = (m.holder name).map (fun _ => chan) ∧
    (m.acquire now name token chan onExpire).started =
      (m.entries.lookup name).map Entry.onExpire := by
  unfold Manager.acquire Manager.holder
  cases h : (m.update now token).entries.lookup name with
  | none =>
    have h' : m.entries.lookup name = none := h
    refine ⟨fun n => lookup_insert_if, fun t => ?_, fun t => ?_, rfl, ?_, ?_⟩
    · simp only [h', Option.map_none, reduceCtorEq, if_false]
      exact lookup_insert_if
    · simp only [h', Option.map_none, reduceCtorEq, if_false]
      rfl
    · rw [h']; rfl
    · rw [h']; rfl
  | some old =>
    have h' : m.entries.lookup name = some old := h
    have heq : ∀ t, (some old.token = some t) = (t = old.token) := by
      intro t
      rw [Option.some.injEq]
      exact propext eq_comm
    refine ⟨fun n => lookup_insert_if, fun t => ?_, fun t => ?_, rfl, ?_, ?_⟩
    · simp only [h', Option.map_some, heq]
      refine lookup_insert_if.trans ?_
      rw [← lookup_erase_if]
      rfl
    · simp only [h', Option.map_some, heq]
      exact lookup_insert_if
    · rw [h']; rfl
    · rw [h']; rfl

/-- **What `Release` does.** -/
theorem release_spec :
    (∀ n, (m.release token).entries.lookup n =
      if m.tokens.lookup token = some n then none else m.entries.lookup n) ∧
    (∀ t, (m.release token).tokens.lookup t = if t = token then none else m.tokens.lookup t) ∧
    (∀ t, (m.release token).blockers.lookup t =
      if t = token then none else m.blockers.lookup t) ∧
    (m.release token).closed = (m.blockers.lookup token).toList ++ m.closed := by
  have hde : ∀ n, (m.deregister token).entries.lookup n =
      if m.tokens.lookup token = some n then none else m.entries.lookup n := by
    intro n
    unfold Manager.deregister
    cases h : m.tokens.lookup token with
    | none => simp only [reduceCtorEq, if_false]
    | some name =>
      simp only [Option.some.injEq, eq_comm (a := name)]
      exact lookup_erase_if
  have hdt : ∀ t, (m.deregister token).tokens.lookup t =
      if t = token then none else m.tokens.lookup t := by
    intro t
    unfold Manager.deregister
    cases h : m.tokens.lookup token with
    | none => exact lookup_of_absent h
    | some name => exact lookup_erase_if
  have hdb : (m.deregister token).blockers = m.blockers ∧
      (m.deregister token).closed = m.closed := by
    unfold Manager.deregister
    split <;> exact ⟨rfl, rfl⟩
  unfold Manager.release Manager.unblock
  cases h : (m.deregister token).blockers.lookup token with
  | none =>
    have h' : m.blockers.lookup token = none := hdb.1 ▸ h
    refine ⟨hde, hdt, fun t => ?_, ?_⟩
    · rw [← hdb.1]; exact lookup_of_absent h
    · rw [h', ← hdb.2]; rfl
  | some blocker =>
    have h' : m.blockers.lookup token = some blocker := hdb.1 ▸ h
    refine ⟨hde, hdt, fun t => ?_, ?_⟩
    · rw [← hdb.1]; exact lookup_erase_if
    · rw [h', ← hdb.2]; rfl

/-- **What `ExpireAndRemove` does.** -/
theorem expireAndRemove_spec :
    (∀ n, (m.expireAndRemove name).1.entries.lookup n =
      if n = name then none else m.entries.lookup n) ∧
    (∀ t, (m.expireAndRemove name).1.tokens.lookup t =
      if m.holder name = some t then none else m.tokens.lookup t) ∧
    (m.expireAndRemove name).1.blockers = m.blockers ∧
    (m.expireAndRemove name).1.closed = m.closed ∧
    (m.expireAndRemove name).2 = (m.entries.lookup name).map Entry.onExpire := by
  unfold Manager.expireAndRemove Manager.holder
  cases h : m.entries.lookup name with
  | none =>
    refine ⟨fun n => lookup_of_absent h, fun t => ?_, rfl, rfl, rfl⟩
    simp only [Option.map_none, reduceCtorEq, if_false]
  | some e =>
    refine ⟨fun n => lookup_erase_if, fun t => ?_, rfl, rfl, rfl⟩
    simp only [Option.map_some, Option.some.injEq, eq_comm (a := e.token)]
    exact lookup_erase_if

/-- The manager has the time stamps of another one, and its limit. -/
structure Manager.SameTimes (m' m : Manager) : Prop where
  unix : ∀ t, m'.unix t = m.unix t
  expireLimit : m'.expireLimit = m.expireLimit

/-- `Acquire` stamps its token, -/
theorem acquire_times :
    (m.acquire now name token chan onExpire).manager.SameTimes (m.update now token) := by
  unfold Manager.acquire
  split <;> exact ⟨fun _ => rfl, rfl⟩

/-- and the other calls stamp none. -/
theorem release_times : (m.release token).SameTimes m := by
  have hde : (m.deregister token).SameTimes m := by
    unfold Manager.deregister
    split <;> exact ⟨fun _ => rfl, rfl⟩
  unfold Manager.release Manager.unblock
  split <;> exact ⟨hde.unix, hde.expireLimit⟩

@[inherit_doc release_times]
theorem expireAndRemove_times : (m.expireAndRemove name).1.SameTimes m := by
  unfold Manager.expireAndRemove
  split <;> exact ⟨fun _ => rfl, rfl⟩

@[inherit_doc release_times]
theorem expireAndRemoveEach_times {names : List Nat} :
    (m.expireAndRemoveEach names).1.SameTimes m := by
  induction names generalizing m with
  | nil => exact ⟨fun _ => rfl, rfl⟩
  | cons name names ih =>
    obtain ⟨hunix, hlimit⟩ := @ih (m.expireAndRemove name).1
    obtain ⟨hunix', hlimit'⟩ := @expireAndRemove_times m name
    exact ⟨fun t => (hunix t).trans (hunix' t), hlimit.trans hlimit'⟩

end

/-! ## Tokens in a queue -/

section

variable {l : List Nat} {t c u : Nat}

theorem not_follows_nil : ¬ Follows [] t c := by
  rintro ⟨a, b, h⟩
  simp at h

/-- What stands behind a token is in the queue, and not at its head. -/
theorem Follows.mem (h : Follows l t c) : t ∈ l ∧ c ∈ l.tail := by
  obtain ⟨a, b, rfl⟩ := h
  refine ⟨by simp, ?_⟩
  cases a <;> simp

/-- Behind the last token stands nothing. -/
theorem Follows.not_last (h : Follows l t c) (hnd : l.Nodup) : l.getLast? ≠ some t := by
  obtain ⟨a, b, rfl⟩ := h
  intro hl
  have hmem : t ∈ c :: b := by
    have : (c :: b).getLast? = some t := by simpa using hl
    exact List.mem_of_getLast? this
  have hnd : (t :: c :: b).Nodup := (List.nodup_append.1 hnd).2.1
  exact (List.nodup_cons.1 hnd).1 hmem

/-- Behind the last token the one that joins is going to stand. -/
theorem follows_concat (hu : u ∉ l) :
    Follows (l ++ [u]) t c ↔ Follows l t c ∨ (l.getLast? = some t ∧ c = u) := by
  refine ⟨?_, ?_⟩
  · rintro ⟨a, b, h⟩
    rcases List.eq_nil_or_concat b with rfl | ⟨b, x, rfl⟩
    · have h' : l ++ [u] = (a ++ [t]) ++ [c] := by simpa using h
      obtain ⟨hl, hc⟩ := List.append_inj' h' rfl
      refine .inr ⟨by rw [hl]; simp, ?_⟩
      simpa using hc.symm
    · have h' : l ++ [u] = (a ++ t :: c :: b) ++ [x] := by simpa using h
      exact .inl ⟨a, b, (List.append_inj' h' rfl).1⟩
  · rintro (⟨a, b, rfl⟩ | ⟨hl, rfl⟩)
    · exact ⟨a, b ++ [u], by simp⟩
    · obtain ⟨a, rfl⟩ : ∃ a, l = a ++ [t] := by
        rw [List.getLast?_eq_some_iff] at hl
        exact hl
      exact ⟨a, [], by simp⟩

/-- Without the head, only what stood behind it is lost. -/
theorem follows_cons (hnd : (u :: l).Nodup) :
    Follows l t c ↔ Follows (u :: l) t c ∧ t ≠ u := by
  refine ⟨?_, ?_⟩
  · rintro ⟨a, b, rfl⟩
    refine ⟨⟨u :: a, b, rfl⟩, ?_⟩
    rintro rfl
    exact (List.nodup_cons.1 hnd).1 (by simp)
  · rintro ⟨⟨a, b, h⟩, hne⟩
    rcases a with _ | ⟨x, a⟩
    · exact (hne (List.cons.inj h).1.symm).elim
    · exact ⟨a, b, (List.cons.inj h).2⟩

end

/-- A new manager has no queues. -/
theorem represents_newManager (limit : Nat) : Represents (newManager limit) fun _ => [] where
  entry _ := rfl
  token _ _ := by simp [newManager]
  blocker _ _ := by simp [newManager, not_follows_nil]
  nodup _ := List.nodup_nil
  disjoint _ _ _ := by simp
  waiting _ _ := by simp

section

variable {m : Manager} {q : Nat → List Nat} {now name token onExpire t n : Nat}

/-- Time stamps do not matter. -/
theorem Represents.update (h : Represents m q) : Represents (m.update now token) q :=
  ⟨h.entry, h.token, h.blocker, h.nodup, h.disjoint, h.waiting⟩

/-- A queue that has been replaced. -/
@[simp] theorem setQueue_self {l : List Nat} : setQueue q name l name = l := if_pos rfl

theorem setQueue_ne {l : List Nat} (h : n ≠ name) : setQueue q name l n = q n := if_neg h

/-- The last token of a queue is in it. -/
theorem mem_of_last (h : (q n).getLast? = some t) : t ∈ q n := List.mem_of_getLast? h

/-- The queues after a new token has joined. -/
def join (q : Nat → List Nat) (name token : Nat) : Nat → List Nat :=
  setQueue q name (q name ++ [token])

/-- Who is in a queue after a new token has joined. -/
theorem mem_join : t ∈ join q name token n ↔ t ∈ q n ∨ (t = token ∧ n = name) := by
  by_cases hn : n = name
  · subst hn; simp [join]
  · simp [join, setQueue_ne hn, hn]

/-- What stands behind what after a new token has joined. -/
theorem follows_join {c : Nat} (hfresh : ∀ n, token ∉ q n) :
    (∃ n, Follows (join q name token n) t c) ↔
      (∃ n, Follows (q n) t c) ∨ ((q name).getLast? = some t ∧ c = token) := by
  refine ⟨?_, ?_⟩
  · rintro ⟨n, hf⟩
    by_cases hn : n = name
    · subst hn
      rw [join, setQueue_self, follows_concat (hfresh n)] at hf
      exact hf.imp (fun hf => ⟨n, hf⟩) id
    · rw [join, setQueue_ne hn] at hf
      exact .inl ⟨n, hf⟩
  · rintro (⟨n, hf⟩ | hlast)
    · refine ⟨n, ?_⟩
      by_cases hn : n = name
      · subst hn
        rw [join, setQueue_self, follows_concat (hfresh n)]
        exact .inl hf
      · rw [join, setQueue_ne hn]; exact hf
    · refine ⟨name, ?_⟩
      rw [join, setQueue_self, follows_concat (hfresh name)]
      exact .inr hlast

/-- The queues stay queues. -/
theorem nodup_join (h : Represents m q) (hfresh : ∀ n, token ∉ q n) :
    (join q name token n).Nodup := by
  by_cases hn : n = name
  · subst hn
    rw [join, setQueue_self]
    refine List.nodup_append.2 ⟨h.nodup n, List.nodup_singleton _, fun a ha b hb hab => ?_⟩
    rw [List.mem_singleton.1 hb] at hab
    exact hfresh n (hab ▸ ha)
  · rw [join, setQueue_ne hn]; exact h.nodup n

/-- No token is in two of them. -/
theorem disjoint_join {n' : Nat} (h : Represents m q) (hfresh : ∀ n, token ∉ q n)
    (ht : t ∈ join q name token n) (ht' : t ∈ join q name token n') : n = n' := by
  rcases mem_join.1 ht with hm | ⟨h₁, h₂⟩ <;> rcases mem_join.1 ht' with hm' | ⟨h₁', h₂'⟩
  · exact h.disjoint t n n' hm hm'
  · exact (hfresh n (h₁' ▸ hm)).elim
  · exact (hfresh n' (h₁ ▸ hm')).elim
  · rw [h₂, h₂']

/-- The new token's channel is open. -/
theorem waiting_join (h : Represents m q) (hopen : token ∉ m.closed) :
    ∀ c ∈ (join q name token n).tail, c ∉ m.closed := by
  intro c hc
  by_cases hn : n = name
  · subst hn
    rw [join, setQueue_self] at hc
    have hmem : c ∈ (q n).tail ∨ c = token := by
      cases hq : q n with
      | nil => rw [hq] at hc; simp at hc
      | cons x l => rw [hq] at hc; simpa using hc
    rcases hmem with hmem | rfl
    · exact h.waiting n c hmem
    · exact hopen
  · rw [join, setQueue_ne hn] at hc; exact h.waiting n c hc

/-- The last token of each queue after a new one has joined. -/
theorem last_join (hfresh : ∀ n, token ∉ q n) : (join q name token n).getLast? = some t ↔
    (t = token ∧ n = name) ∨ (t ≠ token ∧ n ≠ name ∧ (q n).getLast? = some t) := by
  by_cases hn : n = name
  · subst hn; simp [join, eq_comm]
  · rw [join, setQueue_ne hn]
    refine ⟨fun h => .inr ⟨?_, hn, h⟩, ?_⟩
    · rintro rfl; exact hfresh n (mem_of_last h)
    · rintro (⟨-, h⟩ | ⟨-, -, h⟩)
      · exact (hn h).elim
      · exact h

/-- The entry of each name after a new one has been entered. -/
theorem entry_join (h : Represents m q) {m' : Manager} (he : m'.entries = m.entries) :
    ((m'.enter name token onExpire).entries.lookup n).map Entry.token =
      (join q name token n).getLast? := by
  show ((m'.entries.insert name _).lookup n).map Entry.token = _
  rw [lookup_insert_if, he]
  by_cases hn : n = name
  · subst hn; simp [join]
  · rw [if_neg hn, join, setQueue_ne hn]; exact h.entry n

/-- A new token where the name has no entry. -/
theorem Represents.enter (h : Represents m q) (hfresh : ∀ n, token ∉ q n)
    (hopen : token ∉ m.closed) (hq : q name = []) :
    Represents (m.enter name token onExpire) (join q name token) := by
  refine ⟨fun n => entry_join h rfl, fun t n => ?_, fun t c => ?_, fun n => nodup_join h hfresh,
    fun t n n' => disjoint_join h hfresh,
    show ∀ n, ∀ c ∈ (join q name token n).tail, c ∉ m.closed from fun n => waiting_join h hopen⟩
  · show (m.tokens.insert token name).lookup t = some n ↔ _
    rw [lookup_insert_if, last_join hfresh]
    split
    · next ht => simp [ht, eq_comm]
    · next ht =>
      have hname : (q n).getLast? = some t → n ≠ name := by
        rintro hl rfl
        rw [hq] at hl
        cases hl
      rw [h.token t n]
      simp only [ht, ne_eq, not_false_eq_true, true_and, false_and, false_or]
      exact ⟨fun hl => ⟨hname hl, hl⟩, And.right⟩
  · show m.blockers.lookup t = some c ↔ _
    rw [follows_join hfresh, hq]
    simpa using h.blocker t c

/-- A new token that displaces the one whose entry the name has. -/
theorem Represents.displace {old : Nat} (h : Represents m q) (hfresh : ∀ n, token ∉ q n)
    (hopen : token ∉ m.closed) (hlast : (q name).getLast? = some old) :
    Represents ((m.displace old token).enter name token onExpire) (join q name token) := by
  have hmem := mem_of_last hlast
  have hne : old ≠ token := fun heq => hfresh name (heq ▸ hmem)
  refine ⟨fun n => entry_join h rfl, fun t n => ?_, fun t c => ?_, fun n => nodup_join h hfresh,
    fun t n n' => disjoint_join h hfresh,
    show ∀ n, ∀ c ∈ (join q name token n).tail, c ∉ m.closed from fun n => waiting_join h hopen⟩
  · show ((m.tokens.erase old).insert token name).lookup t = some n ↔ _
    rw [lookup_insert_if, lookup_erase_if, last_join hfresh]
    by_cases ht : t = token
    · simp [ht, eq_comm]
    · have hname : (q n).getLast? = some t ∧ t ≠ old ↔ n ≠ name ∧ (q n).getLast? = some t := by
        refine ⟨fun ⟨hl, hto⟩ => ⟨?_, hl⟩, fun ⟨hn, hl⟩ => ⟨hl, ?_⟩⟩
        · rintro rfl
          rw [hlast] at hl
          exact hto (Option.some.inj hl).symm
        · rintro rfl
          exact hn (h.disjoint t n name (mem_of_last hl) hmem)
      simp only [ht, if_false, ne_eq, not_false_eq_true, true_and, false_and, false_or]
      rw [← ne_eq, ← hname, ← h.token t n]
      split
      · next hto => simp [hto]
      · next hto => simp [hto]
  · show (m.blockers.insert old token).lookup t = some c ↔ _
    rw [lookup_insert_if, follows_join hfresh, hlast]
    split
    · next hto =>
      subst hto
      have hno : ¬ ∃ n, Follows (q n) t c := by
        rintro ⟨n, hf⟩
        obtain rfl := h.disjoint _ n name hf.mem.1 hmem
        exact hf.not_last (h.nodup n) hlast
      simp [hno, eq_comm]
    · next hto =>
      rw [h.blocker t c]
      simp [Ne.symm hto]

/-- **A new token joins the queue of its name**, and waits unless the queue is empty. -/
theorem Represents.acquire (h : Represents m q) (now name onExpire : Nat)
    (hfresh : ∀ n, token ∉ q n)
    (hopen : token ∉ m.closed) :
    Represents (m.acquire now name token token onExpire).manager (join q name token) ∧
      (m.acquire now name token token onExpire).blocker =
        (if q name = [] then none else some token) ∧
      (m.acquire now name token token onExpire).manager.closed = m.closed := by
  have hup : Represents (m.update now token) q := h.update
  have hentry := hup.entry name
  unfold Manager.acquire
  cases hold : (m.update now token).entries.lookup name with
  | none =>
    rw [hold] at hentry
    have hq : q name = [] := List.getLast?_eq_none_iff.1 hentry.symm
    exact ⟨hup.enter hfresh hopen hq, (if_pos hq).symm, rfl⟩
  | some old =>
    rw [hold] at hentry
    have hlast : (q name).getLast? = some old.token := hentry.symm
    exact ⟨hup.displace hfresh hopen hlast,
      (if_neg (List.ne_nil_of_mem (mem_of_last hlast))).symm, rfl⟩

/-- The queues after the head of one has left. -/
theorem mem_leave {rest : List Nat} (hq : q name = token :: rest)
    (h : t ∈ setQueue q name rest n) : t ∈ q n := by
  by_cases hn : n = name
  · subst hn
    rw [setQueue_self] at h
    rw [hq]
    exact List.mem_cons_of_mem _ h
  · rwa [setQueue_ne hn] at h

/-- What stands behind what after the head of a queue has left. -/
theorem follows_leave {c : Nat} {rest : List Nat} (h : Represents m q)
    (hq : q name = token :: rest) :
    (∃ n, Follows (setQueue q name rest n) t c) ↔ (∃ n, Follows (q n) t c) ∧ t ≠ token := by
  have hmem : token ∈ q name := by rw [hq]; exact List.mem_cons_self
  have hnd : (token :: rest).Nodup := hq ▸ h.nodup name
  refine ⟨?_, ?_⟩
  · rintro ⟨n, hf⟩
    by_cases hn : n = name
    · subst hn
      rw [setQueue_self, follows_cons hnd, ← hq] at hf
      exact ⟨⟨n, hf.1⟩, hf.2⟩
    · rw [setQueue_ne hn] at hf
      refine ⟨⟨n, hf⟩, ?_⟩
      rintro rfl
      exact hn (h.disjoint t n name hf.mem.1 hmem)
  · rintro ⟨⟨n, hf⟩, hne⟩
    refine ⟨n, ?_⟩
    by_cases hn : n = name
    · subst hn
      rw [setQueue_self, follows_cons hnd, ← hq]
      exact ⟨hf, hne⟩
    · rw [setQueue_ne hn]; exact hf

/-- What the queues keep when the head of one leaves. -/
theorem leave_queues {rest : List Nat} (h : Represents m q) (hq : q name = token :: rest) :
    (∀ n, (setQueue q name rest n).Nodup) ∧
    (∀ t n n', t ∈ setQueue q name rest n → t ∈ setQueue q name rest n' → n = n') ∧
    ∀ n, ∀ c ∈ (setQueue q name rest n).tail, c ∉ m.closed ∧ rest.head? ≠ some c := by
  have hnd : (token :: rest).Nodup := hq ▸ h.nodup name
  refine ⟨fun n => ?_, fun t n n' ht ht' => h.disjoint t n n' (mem_leave hq ht) (mem_leave hq ht'),
    fun n c hc => ?_⟩
  · by_cases hn : n = name
    · subst hn; rw [setQueue_self]; exact (List.nodup_cons.1 hnd).2
    · rw [setQueue_ne hn]; exact h.nodup n
  · by_cases hn : n = name
    · subst hn
      rw [setQueue_self] at hc
      refine ⟨h.waiting n c (by rw [hq]; exact List.mem_of_mem_tail hc), fun hh => ?_⟩
      obtain ⟨rest', rfl⟩ := List.head?_eq_some_iff.1 hh
      exact (List.nodup_cons.1 (List.nodup_cons.1 hnd).2).1 hc
    · rw [setQueue_ne hn] at hc
      refine ⟨h.waiting n c hc, fun hh => hn ?_⟩
      refine h.disjoint c n name (List.mem_of_mem_tail hc) ?_
      rw [hq]
      exact List.mem_cons_of_mem _ (List.mem_of_head? hh)

/-- The only token of a queue is released: the name has no entry any more. -/
theorem Represents.release_last (h : Represents m q) (hq : q name = [token]) :
    Represents (m.release token) (setQueue q name []) ∧ (m.release token).closed = m.closed := by
  have hlast : (q name).getLast? = some token := by rw [hq]; rfl
  have htok : m.tokens.lookup token = some name := (h.token token name).2 hlast
  have hblock : m.blockers.lookup token = none := by
    refine Option.eq_none_iff_forall_ne_some.2 fun c hc => ?_
    obtain ⟨n, hf⟩ := (h.blocker token c).1 hc
    obtain rfl := h.disjoint token n name hf.mem.1 (mem_of_last hlast)
    exact hf.not_last (h.nodup n) hlast
  have hrel : m.release token =
      { m with entries := m.entries.erase name, tokens := m.tokens.erase token } := by
    simp only [Manager.release, Manager.deregister, htok, Manager.unblock, hblock]
  obtain ⟨h₁, h₂, h₃⟩ := leave_queues h hq
  rw [hrel]
  refine ⟨⟨fun n => ?_, fun t n => ?_, fun t c => ?_, h₁, h₂, fun n c hc => (h₃ n c hc).1⟩, rfl⟩
  · show ((m.entries.erase name).lookup n).map Entry.token = _
    rw [lookup_erase_if]
    by_cases hn : n = name
    · subst hn; simp
    · rw [if_neg hn, setQueue_ne hn]; exact h.entry n
  · show (m.tokens.erase token).lookup t = some n ↔ _
    rw [lookup_erase_if]
    by_cases ht : t = token
    · subst ht
      rw [if_pos rfl]
      refine ⟨nofun, fun hl => ?_⟩
      have hmem := mem_of_last hl
      obtain rfl := h.disjoint t n name (mem_leave hq hmem) (mem_of_last hlast)
      rw [setQueue_self] at hmem
      cases hmem
    · rw [if_neg ht]
      by_cases hn : n = name
      · subst hn
        rw [setQueue_self, h.token t n, hlast]
        simp [Ne.symm ht]
      · rw [setQueue_ne hn]; exact h.token t n
  · show m.blockers.lookup t = some c ↔ _
    rw [follows_leave h hq, h.blocker t c]
    refine ⟨fun hf => ⟨hf, ?_⟩, And.left⟩
    rintro rfl
    rw [← h.blocker t c, hblock] at hf
    cases hf

/-- A displaced token is released: the one behind it may go on. -/
theorem Represents.release_displaced {c : Nat} {rest : List Nat} (h : Represents m q)
    (hq : q name = token :: c :: rest) :
    Represents (m.release token) (setQueue q name (c :: rest)) ∧
      (m.release token).closed = c :: m.closed := by
  have hnd : (token :: c :: rest).Nodup := hq ▸ h.nodup name
  have hmem : token ∈ q name := by rw [hq]; exact List.mem_cons_self
  have htok : m.tokens.lookup token = none := by
    refine Option.eq_none_iff_forall_ne_some.2 fun n hn => ?_
    have hl := (h.token token n).1 hn
    obtain rfl := h.disjoint token n name (mem_of_last hl) hmem
    exact Follows.not_last ⟨[], rest, hq⟩ (h.nodup n) hl
  have hblock : m.blockers.lookup token = some c :=
    (h.blocker token c).2 ⟨name, [], rest, hq⟩
  have hrel : m.release token =
      { m with closed := c :: m.closed, blockers := m.blockers.erase token } := by
    simp only [Manager.release, Manager.deregister, htok, Manager.unblock, hblock]
  obtain ⟨h₁, h₂, h₃⟩ := leave_queues h hq
  rw [hrel]
  have hwait : ∀ n, ∀ d ∈ (setQueue q name (c :: rest) n).tail, d ∉ c :: m.closed := by
    intro n d hd hmem
    obtain ⟨h₄, h₅⟩ := h₃ n d hd
    rcases List.mem_cons.1 hmem with rfl | hmem
    · exact h₅ rfl
    · exact h₄ hmem
  have hlast : (token :: c :: rest).getLast? = (c :: rest).getLast? := rfl
  refine ⟨⟨fun n => ?_, fun t n => ?_, fun t d => ?_, h₁, h₂, hwait⟩, rfl⟩
  · show (m.entries.lookup n).map Entry.token = _
    rw [h.entry n]
    by_cases hn : n = name
    · subst hn; rw [setQueue_self, hq, hlast]
    · rw [setQueue_ne hn]
  · show m.tokens.lookup t = some n ↔ _
    rw [h.token t n]
    by_cases hn : n = name
    · subst hn; rw [setQueue_self, hq, hlast]
    · rw [setQueue_ne hn]
  · show (m.blockers.erase token).lookup t = some d ↔ _
    rw [lookup_erase_if, follows_leave h hq, ← h.blocker t d]
    split
    · next ht => simp [ht]
    · next ht => simp [ht]

/-- **The head of a queue is released**, and with it the channel of the one behind it is closed. -/
theorem Represents.release {rest : List Nat} (h : Represents m q) (hq : q name = token :: rest) :
    Represents (m.release token) (setQueue q name rest) ∧
      ∀ c, c ∈ (m.release token).closed ↔ c ∈ m.closed ∨ rest.head? = some c := by
  cases rest with
  | nil =>
    obtain ⟨h₁, h₂⟩ := h.release_last hq
    exact ⟨h₁, fun c => by simp [h₂]⟩
  | cons d rest =>
    obtain ⟨h₁, h₂⟩ := h.release_displaced hq
    exact ⟨h₁, fun c => by simp [h₂, eq_comm, or_comm]⟩

end

end UAssign.Expire

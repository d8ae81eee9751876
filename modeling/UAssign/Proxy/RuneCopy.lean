import UAssign.Go.ScanRunes

/-!
# The greedy rune splitter

`scanRunesGreedy` of `pkg/docker/proxy/rune_copy.go` takes as many runes off the data as it can.
`scanRunesGreedy_more` and `scanRunesGreedy_eof` are all the later modules use of it: the token is
the text of the bytes consumed, and what is left over, before the end is known, is an incomplete
rune of at most three bytes.
-/

namespace UAssign.Proxy

open Bufio Utf8

/-- `buf.Bytes()`: a buffer that was never written to is `nil`. -/
def bytes (buf : List UInt8) : Option (List UInt8) := if buf = [] then none else some buf

/-- The loop of `ScanRunesGreedy`, with `advance` and the bytes of `buf` so far. -/
def scanRunesGreedyLoop (data : List UInt8) (atEOF : Bool) (advance : Nat) (buf : List UInt8) :
    SplitResult :=
  if advance < data.length then
    match scanRunes (data.drop advance) atEOF with
    | ⟨a, t, some err⟩ => ⟨advance + a, bytes (buf ++ t.getD []), some err⟩
    | ⟨0, t, none⟩ => ⟨advance, bytes (buf ++ t.getD []), none⟩
    | ⟨a + 1, t, none⟩ => scanRunesGreedyLoop data atEOF (advance + (a + 1)) (buf ++ t.getD [])
  else ⟨advance, bytes buf, none⟩
termination_by data.length - advance

/-- `ScanRunesGreedy`: like `bufio.ScanRunes`, but with as many runes as possible. -/
def scanRunesGreedy : SplitFunc := fun data atEOF => scanRunesGreedyLoop data atEOF 0 []

/-- How the loop ends. From `advance` on it consumes up to `r.advance`; the text of the bytes it
consumed is what it adds to the buffer, whatever follows the data (nothing does at EOF); and it
stops at the end of the data or before an incomplete rune. -/
structure GreedySpec (data : List UInt8) (atEOF : Bool) (advance : Nat) (buf : List UInt8)
    (r : SplitResult) : Prop where
  err : r.err = none
  ge : advance ≤ r.advance
  le : r.advance ≤ data.length
  token : r.token = bytes (buf ++ sanitize ((data.drop advance).take (r.advance - advance)))
  text : ∀ rest, (atEOF = true → rest = []) →
    sanitize (data.drop advance ++ rest) =
      sanitize ((data.drop advance).take (r.advance - advance)) ++
        sanitize (data.drop r.advance ++ rest)
  stuck : fullRune (data.drop r.advance) = false
  atEnd : atEOF = true → r.advance = data.length

/-- Where the loop stops it has consumed nothing. -/
theorem GreedySpec.stop {data : List UInt8} {atEOF : Bool} {advance : Nat} {buf : List UInt8}
    (hle : advance ≤ data.length) (hstuck : fullRune (data.drop advance) = false)
    (hend : atEOF = true → advance = data.length) :
    GreedySpec data atEOF advance buf ⟨advance, bytes buf, none⟩ where
  err := rfl
  ge := Nat.le_refl _
  le := hle
  token := by simp
  text := by intro rest _; simp
  stuck := hstuck
  atEnd := hend

/-- One rune more in front of what the rest of the loop consumes. -/
theorem GreedySpec.step {data : List UInt8} {atEOF : Bool} {advance a : Nat} {buf t : List UInt8}
    {r : SplitResult} (hlt : advance < data.length) (ha : 0 < a)
    (hs : ∀ rest, (atEOF = true → rest = []) →
      scanRunes (data.drop advance ++ rest) true = ⟨a, some t, none⟩)
    (ih : GreedySpec data atEOF (advance + a) (buf ++ t) r) :
    GreedySpec data atEOF advance buf r := by
  have hne : data.drop advance ≠ [] := by rw [Ne, List.drop_eq_nil_iff]; omega
  have hge := ih.ge
  have hle := ih.le
  have hs₀ : scanRunes (data.drop advance) true = ⟨a, some t, none⟩ := by
    simpa using hs [] fun _ => rfl
  have hpiece : sanitize ((data.drop advance).take (r.advance - advance)) =
      t ++ sanitize ((data.drop (advance + a)).take (r.advance - (advance + a))) := by
    have hadvance : (scanRunes (data.drop advance) true).advance ≤ r.advance - advance := by
      rw [hs₀]; show a ≤ _; omega
    have htake := scanRunes_take (by omega) hadvance
    rw [sanitize_step (by simp only [ne_eq, List.take_eq_nil_iff, not_or]; exact ⟨by omega, hne⟩)
      (htake.trans hs₀), List.drop_take, List.drop_drop, Nat.sub_sub]
  refine ⟨ih.err, by omega, hle, ?_, fun rest hrest => ?_, ih.stuck, ih.atEnd⟩
  · rw [ih.token, hpiece, List.append_assoc]
  · have hdrop : (data.drop advance ++ rest).drop a = data.drop (advance + a) ++ rest := by
      rw [List.drop_append_of_le_length (by rw [List.length_drop]; omega), List.drop_drop]
    rw [sanitize_step (by simp [hne]) (hs rest hrest), hdrop, ih.text rest hrest, hpiece,
      List.append_assoc]

/-- The loop meets its specification. -/
theorem scanRunesGreedyLoop_spec (data : List UInt8) (atEOF : Bool) (advance : Nat)
    (buf : List UInt8) (hle : advance ≤ data.length) :
    GreedySpec data atEOF advance buf (scanRunesGreedyLoop data atEOF advance buf) := by
  induction hn : data.length - advance using Nat.strongRecOn generalizing advance buf with
  | ind n ih =>
    unfold scanRunesGreedyLoop
    by_cases hlt : advance < data.length
    · rw [if_pos hlt]
      have hne : data.drop advance ≠ [] := by rw [Ne, List.drop_eq_nil_iff]; omega
      obtain ⟨a, t, hs, ha, hal, -⟩ := scanRunes_eof hne
      rw [List.length_drop] at hal
      obtain ⟨a, rfl⟩ : ∃ m, a = m + 1 := ⟨a - 1, by omega⟩
      have hnext := ih (data.length - (advance + (a + 1))) (by omega) (advance + (a + 1))
        (buf ++ t) (by omega) rfl
      cases atEOF with
      | true =>
        rw [hs]
        refine .step hlt (Nat.succ_pos a) (fun rest hrest => ?_) hnext
        rw [hrest rfl, List.append_nil, hs]
      | false =>
        rcases scanRunes_append hne with ⟨hs', hf⟩ | hs'
        · rw [hs']
          simp only [Option.getD_none, List.append_nil]
          exact .stop hle hf nofun
        · have hs'' : scanRunes (data.drop advance) false = ⟨a + 1, some t, none⟩ := by
            rw [← hs' [], List.append_nil, hs]
          rw [hs'']
          exact .step hlt (Nat.succ_pos a) (fun rest _ => by rw [hs' rest, hs'']) hnext
    · rw [if_neg hlt]
      have : advance = data.length := by omega
      exact .stop hle (by rw [this, List.drop_length]; rfl) fun _ => this

/-- **Before the end** the splitter consumes up to an incomplete rune, and its token is the text
of what it consumed, whatever comes next. -/
theorem scanRunesGreedy_more (data : List UInt8) :
    ∃ n ≤ data.length, scanRunesGreedy data false = ⟨n, bytes (sanitize (data.take n)), none⟩ ∧
      fullRune (data.drop n) = false ∧
      ∀ rest,
        sanitize (data ++ rest) = sanitize (data.take n) ++ sanitize (data.drop n ++ rest) := by
  have h := scanRunesGreedyLoop_spec data false 0 [] (Nat.zero_le _)
  have htok := h.token
  have htext := fun rest => h.text rest nofun
  simp only [List.drop_zero, Nat.sub_zero, List.nil_append] at htok htext
  refine ⟨_, h.le, ?_, h.stuck, htext⟩
  show scanRunesGreedyLoop data false 0 [] = _
  rw [← htok, ← h.err]

/-- **At the end** the splitter consumes everything. -/
theorem scanRunesGreedy_eof (data : List UInt8) :
    scanRunesGreedy data true = ⟨data.length, bytes (sanitize data), none⟩ := by
  have h := scanRunesGreedyLoop_spec data true 0 [] (Nat.zero_le _)
  have htok := h.token
  rw [h.atEnd rfl] at htok
  simp only [List.drop_zero, Nat.sub_zero, List.nil_append, List.take_length] at htok
  show scanRunesGreedyLoop data true 0 [] = _
  rw [← htok, ← h.err, ← h.atEnd rfl]

/-- The splitter gives no token for nothing. -/
theorem scanRunesGreedy_progressive : Scanner.Progressive scanRunesGreedy := by
  intro data atEOF
  have h := scanRunesGreedyLoop_spec data atEOF 0 [] (Nat.zero_le _)
  refine ⟨h.err, fun ht => Nat.pos_of_ne_zero fun h0 => ht ?_⟩
  show (scanRunesGreedyLoop data atEOF 0 []).token = none
  rw [h.token, show (scanRunesGreedyLoop data atEOF 0 []).advance = 0 from h0]
  simp [bytes]

/-! ## The scanner under the greedy splitter -/

/-- The scanner and its reader between two tokens: in order, over a stream of non-empty reads that
ends in EOF, and with no error but that one. -/
structure Ready (s : Scanner) (r : Reader) : Prop where
  ok : s.Ok
  live : r.Live
  fin : r.fin = .eof
  notDone : s.done = false
  err : s.err = none ∨ (s.err = some .eof ∧ r.chunks = [])

/-- The bytes a scanner has before it. -/
def ahead (s : Scanner) (r : Reader) : List UInt8 := s.pending ++ r.rest

/-- A new scanner has the whole stream before it. -/
theorem ready_newScanner {chunks : List (List UInt8)} (h : ∀ c ∈ chunks, c ≠ []) :
    Ready newScanner ⟨chunks, .eof⟩ :=
  ⟨Scanner.newScanner_ok, h, rfl, rfl, .inl rfl⟩

/-- What one token does: `piece` is consumed, and the token is its text. -/
structure Took (s : Scanner) (r : Reader) (piece : List UInt8) (s' : Scanner) (r' : Reader) :
    Prop where
  ready : Ready s' r'
  ne_nil : piece ≠ []
  ahead_eq : ahead s r = piece ++ ahead s' r'
  text : sanitize (ahead s r) = sanitize piece ++ sanitize (ahead s' r')

/-- Asking the splitter either gives the text of some bytes as a token, or leaves the scanner as it
is; then there is nothing before it, or, the end not yet known, at most an incomplete rune. -/
theorem Ready.trySplit {s : Scanner} {r : Reader} (h : Ready s r) :
    (∃ piece s', s.trySplit scanRunesGreedy = (some (.token (sanitize piece)), s') ∧
      Took s r piece s' r) ∨
    (s.trySplit scanRunesGreedy = (none, s) ∧
      ((s.err = none ∧ s.pending.length ≤ 3) ∨ (s.err = some .eof ∧ ahead s r = []))) := by
  have hlen := h.ok.length_pending
  -- a token of `n` bytes off the front of what is held
  have took : ∀ n, 0 < n → n ≤ s.pending.length →
      scanRunesGreedy s.pending s.err.isSome = ⟨n, bytes (sanitize (s.pending.take n)), none⟩ →
      sanitize (ahead s r) = sanitize (s.pending.take n) ++ sanitize (s.pending.drop n ++ r.rest) →
      ∃ piece s', s.trySplit scanRunesGreedy = (some (.token (sanitize piece)), s') ∧
        Took s r piece s' r := by
    intro n hpos hle hsplit htext
    have hne : s.pending.take n ≠ [] := by
      intro h0
      have := congrArg List.length h0
      rw [List.length_take] at this
      simp only [List.length_nil] at this
      omega
    have hadv : n ≤ s.stop - s.start := by omega
    refine ⟨s.pending.take n, { s.skip n with empties := 0 }, ?_, ⟨?_, h.live, h.fin, h.notDone,
      h.err⟩, hne, ?_, ?_⟩
    · unfold Scanner.trySplit
      rw [if_pos (.inl (by omega)), hsplit]
      simp only [bytes, if_neg (sanitize_ne_nil hne)]
      rw [if_neg (by omega), if_pos (.inr hpos)]
    · have hok := h.ok.skip hadv
      exact ⟨hok.start_le, hok.stop_le, hok.buf_len, hok.max_eq⟩
    · have hpend : ({ s.skip n with empties := 0 } : Scanner).pending = s.pending.drop n :=
        Scanner.pending_skip s n
      simp only [ahead, hpend, ← List.append_assoc, List.take_append_drop]
    · have hpend : ({ s.skip n with empties := 0 } : Scanner).pending = s.pending.drop n :=
        Scanner.pending_skip s n
      rw [htext, ahead, hpend]
  rcases h.err with he | ⟨he, hnil⟩
  · by_cases hp : s.pending = []
    · refine .inr ⟨?_, .inl ⟨he, by simp [hp]⟩⟩
      unfold Scanner.trySplit
      rw [if_neg]
      have : s.pending.length = 0 := by simp [hp]
      simp only [he, Option.isSome_none, Bool.false_eq_true, or_false]
      omega
    · obtain ⟨n, hle, hsplit, hstuck, htext⟩ := scanRunesGreedy_more s.pending
      rcases Nat.eq_zero_or_pos n with rfl | hpos
      · refine .inr ⟨?_, .inl ⟨he, length_of_not_fullRune hstuck⟩⟩
        unfold Scanner.trySplit
        have : s.pending.length ≠ 0 := by simpa using hp
        rw [if_pos (.inl (by omega)), he]
        simp only [Option.isSome_none, hsplit, List.take_zero, sanitize_nil, bytes, if_true]
        rw [if_neg (by omega)]
        rfl
      · refine .inl (took n hpos hle ?_ (htext r.rest))
        rw [he]
        exact hsplit
  · have hrest : r.rest = [] := by simp [Reader.rest, hnil]
    have hsplit := scanRunesGreedy_eof s.pending
    by_cases hp : s.pending = []
    · refine .inr ⟨?_, .inr ⟨he, by simp [ahead, hp, hrest]⟩⟩
      rw [hp] at hsplit
      unfold Scanner.trySplit
      rw [if_pos (.inr (by rw [he]; rfl)), he, hp]
      simp only [Option.isSome_some, hsplit, List.length_nil, sanitize_nil, bytes, if_true]
      rw [if_neg (by omega)]
      rfl
    · refine .inl (took s.pending.length (List.length_pos_iff.2 hp) (Nat.le_refl _) ?_ ?_)
      · rw [he, List.take_length]
        exact hsplit
      · simp [ahead, hrest]

/-- **One call of `Scan`** on a stream of non-empty reads: a token that is the text of the bytes it
consumed, or the end, with nothing left and no error but EOF. -/
theorem Ready.scanLoop {s : Scanner} {r : Reader} (h : Ready s r) :
    (∃ piece s' r', Scanner.scanLoop scanRunesGreedy s r = (.token (sanitize piece), s', r') ∧
      Took s r piece s' r') ∨
    (∃ s' r', Scanner.scanLoop scanRunesGreedy s r = (.stop, s', r') ∧ s'.err = some .eof ∧
      r'.chunks = [] ∧ ahead s r = []) := by
  induction hn : r.size + (if s.err.isSome then 0 else 1) using Nat.strongRecOn
    generalizing s r with
  | ind n ih =>
    rcases h.trySplit with ⟨piece, s', hs, htook⟩ | ⟨hs, ⟨he, hlen⟩ | ⟨he, hnil⟩⟩
    · refine .inl ⟨piece, s', r, ?_, htook⟩
      rw [Scanner.scanLoop]
      split
      · next res s₁ hs' => rw [hs] at hs'; cases hs'; rfl
      · next s₁ hs' => rw [hs] at hs'; cases hs'
    · obtain ⟨s', r', hm, hok, hdone, hfin, hlive, hcase⟩ :=
        h.ok.readMore (Nat.lt_of_le_of_lt hlen (by decide)) he h.live
      have hready : Ready s' r' := by
        refine ⟨hok, hlive, hfin.trans h.fin, hdone.trans h.notDone, ?_⟩
        rcases hcase with ⟨-, hnil, -, herr⟩ | ⟨bs, -, -, -, herr⟩
        · exact .inr ⟨herr.trans (by rw [h.fin]), hnil⟩
        · exact .inl herr
      have hahead : ahead s r = ahead s' r' := by
        rcases hcase with ⟨hc, hc', hp, -⟩ | ⟨bs, -, hp, hrest, -⟩
        · simp [ahead, hp, Reader.rest, hc, hc']
        · simp [ahead, hp, hrest]
      have hloop : Scanner.scanLoop scanRunesGreedy s r =
          Scanner.scanLoop scanRunesGreedy s' r' := by
        rw [Scanner.scanLoop]
        split
        · next res s₁ hs' => rw [hs] at hs'; cases hs'
        · next s₁ hs' =>
          rw [hs] at hs'; cases hs'
          rw [dif_neg (by rw [he]; decide)]
          split
          · next hm' => rw [hm] at hm'; cases hm'
          · next s₂ r₂ hm' => rw [hm] at hm'; cases hm'; rfl
      have hdec : r'.size + (if s'.err.isSome then 0 else 1) < n := by
        obtain ⟨h₁, h₂⟩ := Scanner.readMore_progress hm
        rw [he] at hn
        simp only [Option.isSome_none, Bool.false_eq_true, if_false] at hn
        rcases h₂ with h₂ | h₂
        · rw [if_pos h₂]; omega
        · split <;> omega
      rw [hloop, hahead]
      rcases ih _ hdec hready rfl with ⟨piece, s₂, r₂, h₁, h₂⟩ | h₁
      · exact .inl ⟨piece, s₂, r₂, h₁, h₂.ready, h₂.ne_nil, hahead.trans h₂.ahead_eq,
          (congrArg sanitize hahead).trans h₂.text⟩
      · exact .inr h₁
    · refine .inr ⟨{ s with start := 0, stop := 0 }, r, ?_, he, ?_, hnil⟩
      · rw [Scanner.scanLoop]
        split
        · next res s₁ hs' => rw [hs] at hs'; cases hs'
        · next s₁ hs' =>
          rw [hs] at hs'; cases hs'
          rw [dif_pos (by rw [he]; rfl)]
      · rcases h.err with he' | ⟨-, hc⟩
        · rw [he] at he'; cases he'
        · exact hc

/-- `Scan` on a stream of non-empty reads, as `Ready.scanLoop` has it. -/
theorem Ready.scan {s : Scanner} {r : Reader} (h : Ready s r) :
    (∃ piece s' r', Scanner.scan scanRunesGreedy s r = (.token (sanitize piece), s', r') ∧
      Took s r piece s' r') ∨
    (∃ s' r', Scanner.scan scanRunesGreedy s r = (.stop, s', r') ∧ s'.err = some .eof ∧
      r'.chunks = [] ∧ ahead s r = []) := by
  rw [Scanner.scan, h.notDone]
  exact h.scanLoop

end UAssign.Proxy

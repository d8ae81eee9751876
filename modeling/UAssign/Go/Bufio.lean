import UAssign.Go.Utf8

/-!
# Scanning a stream of reads

`bufio.Scanner` of Go's standard library over an `io.Reader` that hands out its bytes in pieces,
and the split function `bufio.ScanRunes`. The scanner keeps its buffer with the two marks `start`
and `end`, shifts and grows it as the library does, and stops with the library's errors.

Two facts about it carry the proofs about its callers. While only a few bytes are held a scan never
runs out of buffer and reads on (`Scanner.Ok.readMore`), and under a split function that gives no
token for nothing every token takes bytes off the scanner and its reader (`Scanner.scan_weight`).
-/

namespace UAssign.Bufio

open Utf8

/-- The errors a reader, a split function or the scanner itself reports. -/
inductive Err where
  | eof
  | errTooLong
  | errAdvanceTooFar
  | errNoProgress
  | errFinalToken
  | other (msg : String)
  deriving DecidableEq

/-! ## Readers -/

/-- An `io.Reader` that has the reads `chunks` before it, and ends with the error `fin`. -/
structure Reader where
  chunks : List (List UInt8)
  fin : Err

/-- `Read(p)` with `len(p) = n`. A piece that does not fit is handed out in parts. -/
def Reader.read (r : Reader) (n : Nat) : List UInt8 × Option Err × Reader :=
  match r.chunks with
  | [] => ([], some r.fin, r)
  | c :: cs =>
    if c.length ≤ n then (c, none, { r with chunks := cs })
    else (c.take n, none, { r with chunks := c.drop n :: cs })

/-- The bytes a reader has still to hand out. -/
def Reader.rest (r : Reader) : List UInt8 := r.chunks.flatten

/-- The reads a reader has before it, each weighted with its bytes. -/
def Reader.size (r : Reader) : Nat := (r.chunks.map (·.length + 1)).sum

/-! ## Split functions -/

/-- What a split function returns; a `nil` token is `none`. -/
structure SplitResult where
  advance : Nat
  token : Option (List UInt8)
  err : Option Err
  deriving DecidableEq

/-- A split function, of the data at hand and whether the input has ended. -/
abbrev SplitFunc := List UInt8 → Bool → SplitResult

/-- `bufio.ScanRunes`. The source indexes `data[0]` first, so it is only called on data, or at
EOF. -/
def scanRunes (data : List UInt8) (atEOF : Bool) : SplitResult :=
  match data with
  | [] => ⟨0, none, none⟩
  | b :: _ =>
    if b < 0x80 then ⟨1, some [b], none⟩
    else if 1 < (decodeRune data).2 then
      ⟨(decodeRune data).2, some (data.take (decodeRune data).2), none⟩
    else if !atEOF && !fullRune data then ⟨0, none, none⟩
    else ⟨1, some errorRune, none⟩

/-! ## The scanner -/

/-- `bufio.Scanner`. Of `buf` only the bytes from `start` to `stop` are data. -/
structure Scanner where
  buf : List UInt8
  start : Nat
  stop : Nat
  maxTokenSize : Nat
  err : Option Err
  empties : Nat
  done : Bool

/-- `bufio.MaxScanTokenSize`. -/
def maxScanTokenSize : Nat := 64 * 1024

/-- `startBufSize`. -/
def startBufSize : Nat := 4096

/-- `maxConsecutiveEmptyReads`. -/
def maxConsecutiveEmptyReads : Nat := 100

/-- `bufio.NewScanner`. -/
def newScanner : Scanner :=
  { buf := [], start := 0, stop := 0, maxTokenSize := maxScanTokenSize, err := none,
    empties := 0, done := false }

namespace Scanner

/-- The bytes read and not yet consumed, `s.buf[s.start:s.end]`. -/
def pending (s : Scanner) : List UInt8 := (s.buf.take s.stop).drop s.start

/-- `setErr`: the first error other than EOF stays. -/
def setErr (s : Scanner) (e : Err) : Scanner :=
  if s.err = none ∨ s.err = some .eof then { s with err := some e } else s

end Scanner

/-- How a call of `Scan` ends: with a token, without one, or in the scanner's own panic. -/
inductive ScanResult where
  | token (t : List UInt8)
  | stop
  | panic
  deriving DecidableEq

namespace Scanner

/-- Consume `n` bytes. -/
def skip (s : Scanner) (n : Nat) : Scanner := { s with start := s.start + n }

/-- The part of the loop that asks the split function, when there is data or the input has ended:
the result `Scan` returns with, if it returns here. -/
def trySplit (split : SplitFunc) (s : Scanner) : Option ScanResult × Scanner :=
  if s.start < s.stop ∨ s.err.isSome then
    match split s.pending s.err.isSome with
    | ⟨_, token, some .errFinalToken⟩ => (some (.token (token.getD [])), { s with done := true })
    | ⟨_, _, some e⟩ => (some .stop, s.setErr e)
    | ⟨advance, token, none⟩ =>
      if s.stop - s.start < advance then (some .stop, s.setErr .errAdvanceTooFar)
      else
        match token with
        | none => (none, s.skip advance)
        | some t =>
          if s.err = none ∨ 0 < advance then
            (some (.token t), { s.skip advance with empties := 0 })
          else if s.empties + 1 > maxConsecutiveEmptyReads then (some .panic, s.skip advance)
          else (some (.token t), { s.skip advance with empties := s.empties + 1 })
  else (none, s)

/-- The scanner after `copy` has moved its data to the front of the buffer `buf`. -/
def moved (s : Scanner) (buf : List UInt8) : Scanner :=
  { s with buf := buf, start := 0, stop := s.stop - s.start }

/-- Shift the data to the front of the buffer, if there is much empty space or space is needed. -/
def shift (s : Scanner) : Scanner :=
  if 0 < s.start ∧ (s.stop = s.buf.length ∨ s.buf.length / 2 < s.start) then
    s.moved (s.pending ++ s.buf.drop s.pending.length)
  else s

/-- The size a full buffer grows to. -/
def newSize (s : Scanner) : Nat :=
  min (if s.buf.length * 2 = 0 then startBufSize else s.buf.length * 2) s.maxTokenSize

/-- Grow a full buffer; `none` when it may not grow any more. -/
def grow (s : Scanner) : Option Scanner :=
  if s.stop = s.buf.length then
    if s.maxTokenSize ≤ s.buf.length then none
    else some (s.moved (s.pending ++ List.replicate (s.newSize - s.pending.length) 0))
  else some s

/-- The scanner after `bs` has been read into the free part of its buffer. -/
def put (s : Scanner) (bs : List UInt8) : Scanner :=
  { s with
    buf := s.buf.take s.stop ++ bs ++ s.buf.drop (s.stop + bs.length)
    stop := s.stop + bs.length }

/-- One `Read` into the free part of the buffer, and whether it brought neither bytes nor an
error. -/
def readOnce (s : Scanner) (r : Reader) : Scanner × Reader × Bool :=
  match r.read (s.buf.length - s.stop) with
  | (bs, some e, r') => ((s.put bs).setErr e, r', false)
  | (bs, none, r') =>
    if bs = [] then (s.put bs, r', true) else ({ s.put bs with empties := 0 }, r', false)

/-- Read until some bytes or an error come; the number is how many more empty reads are borne. -/
def fill (s : Scanner) (r : Reader) : Nat → Scanner × Reader
  | 0 =>
    match s.readOnce r with
    | (s', r', true) => (s'.setErr .errNoProgress, r')
    | (s', r', false) => (s', r')
  | budget + 1 =>
    match s.readOnce r with
    | (s', r', true) => fill s' r' budget
    | (s', r', false) => (s', r')

/-- Make room in the buffer and read; `none` when the buffer cannot grow. -/
def readMore (s : Scanner) (r : Reader) : Option (Scanner × Reader) :=
  s.shift.grow.map fun s => s.fill r maxConsecutiveEmptyReads

/-! ## Termination of `Scan` -/

/-- Asking the split function leaves the stream's error alone when `Scan` does not return. -/
theorem trySplit_err {split : SplitFunc} {s s' : Scanner} (h : s.trySplit split = (none, s')) :
    s'.err = s.err := by
  unfold trySplit at h
  repeat' split at h
  all_goals cases h
  all_goals rfl

/-- Shifting leaves the stream's error alone. -/
@[simp] theorem shift_err (s : Scanner) : s.shift.err = s.err := by
  unfold shift; split <;> rfl

/-- An error, once set, stays set. -/
theorem setErr_isSome (s : Scanner) (e : Err) : (s.setErr e).err.isSome := by
  unfold setErr
  split
  · rfl
  · next h => cases he : s.err <;> simp_all

/-- A read without an error takes bytes off the reader, or is empty. -/
theorem readOnce_progress {s s' : Scanner} {r r' : Reader} {again : Bool}
    (h : s.readOnce r = (s', r', again)) :
    r'.size ≤ r.size ∧ (again = false → s'.err.isSome ∨ r'.size < r.size) := by
  unfold readOnce Reader.read at h
  cases hc : r.chunks with
  | nil =>
    simp only [hc] at h
    cases h
    exact ⟨Nat.le_refl _, fun _ => .inl (setErr_isSome _ _)⟩
  | cons c cs =>
    simp only [hc] at h
    by_cases hn : c.length ≤ s.buf.length - s.stop
    · rw [if_pos hn] at h
      by_cases he : c = []
      · simp only [he, if_true] at h
        cases h
        simp [Reader.size, hc]
      · simp only [he, if_false] at h
        cases h
        simp [Reader.size, hc]
    · rw [if_neg hn] at h
      by_cases he : c.take (s.buf.length - s.stop) = []
      · simp only [he, if_true] at h
        cases h
        simp [Reader.size, hc]
      · simp only [he, if_false] at h
        cases h
        have hpos : 0 < s.buf.length - s.stop := by
          rcases Nat.eq_zero_or_pos (s.buf.length - s.stop) with h0 | h0
          · rw [h0] at he; exact absurd rfl he
          · exact h0
        simp only [Reader.size, hc, List.map_cons, List.length_drop, List.sum_cons]
        exact ⟨by omega, fun _ => .inr (by omega)⟩

/-- Filling the buffer ends with an error or with fewer bytes left in the reader. -/
theorem fill_progress {s s' : Scanner} {r r' : Reader} {budget : Nat}
    (h : s.fill r budget = (s', r')) :
    r'.size ≤ r.size ∧ (s'.err.isSome ∨ r'.size < r.size) := by
  induction budget generalizing s r with
  | zero =>
    unfold fill at h
    split at h
    · next s₁ r₁ hr =>
      cases h
      exact ⟨(readOnce_progress hr).1, .inl (setErr_isSome _ _)⟩
    · next s₁ r₁ hr =>
      cases h
      exact ⟨(readOnce_progress hr).1, (readOnce_progress hr).2 rfl⟩
  | succ budget ih =>
    unfold fill at h
    split at h
    · next s₁ r₁ hr =>
      have h₁ := (readOnce_progress hr).1
      obtain ⟨h₂, h₃⟩ := ih h
      exact ⟨by omega, h₃.imp id (by omega)⟩
    · next s₁ r₁ hr =>
      cases h
      exact ⟨(readOnce_progress hr).1, (readOnce_progress hr).2 rfl⟩

/-- Reading more ends with an error or with fewer bytes left in the reader. -/
theorem readMore_progress {s s' : Scanner} {r r' : Reader} (h : s.readMore r = some (s', r')) :
    r'.size ≤ r.size ∧ (s'.err.isSome ∨ r'.size < r.size) := by
  obtain ⟨s₁, -, h⟩ := Option.map_eq_some_iff.1 h
  exact fill_progress h

/-- The loop of `Scan`: ask the split function, else read more. -/
def scanLoop (split : SplitFunc) (s : Scanner) (r : Reader) : ScanResult × Scanner × Reader :=
  match _hs : s.trySplit split with
  | (some res, s₁) => (res, s₁, r)
  | (none, s₁) =>
    if _he : s₁.err.isSome then (.stop, { s₁ with start := 0, stop := 0 }, r)
    else
      match _hm : s₁.readMore r with
      | none => (.stop, s₁.shift.setErr .errTooLong, r)
      | some (s₂, r') => scanLoop split s₂ r'
termination_by r.size + (if s.err.isSome then 0 else 1)
decreasing_by
  have h₁ : ¬ s.err.isSome := by rw [← trySplit_err _hs]; exact _he
  obtain ⟨h₂, h₃⟩ := readMore_progress _hm
  rw [if_neg h₁]
  rcases h₃ with h₃ | h₃
  · rw [if_pos h₃]; omega
  · split <;> omega

/-- `Scan`: advance to the next token. -/
def scan (split : SplitFunc) (s : Scanner) (r : Reader) : ScanResult × Scanner × Reader :=
  if s.done then (.stop, s, r) else scanLoop split s r

/-! ## What the scanner holds -/

/-- The marks of the scanner lie in order inside its buffer, and the buffer is either not yet
allocated or of at least the initial size. -/
structure Ok (s : Scanner) : Prop where
  start_le : s.start ≤ s.stop
  stop_le : s.stop ≤ s.buf.length
  buf_len : s.buf.length = 0 ∨ startBufSize ≤ s.buf.length
  max_eq : s.maxTokenSize = maxScanTokenSize

/-- A new scanner is in order. -/
theorem newScanner_ok : newScanner.Ok := ⟨Nat.le_refl _, Nat.le_refl _, .inl rfl, rfl⟩

/-- The number of bytes held is the distance of the marks. -/
theorem Ok.length_pending {s : Scanner} (h : s.Ok) : s.pending.length = s.stop - s.start := by
  have := h.stop_le
  simp only [pending, List.length_drop, List.length_take]
  omega

/-- Consuming drops bytes from the front. -/
theorem pending_skip (s : Scanner) (n : Nat) : (s.skip n).pending = s.pending.drop n := by
  simp [pending, skip, List.drop_drop]

/-- Consuming at most what is held keeps the scanner in order. -/
theorem Ok.skip {s : Scanner} (h : s.Ok) {n : Nat} (hn : n ≤ s.stop - s.start) : (s.skip n).Ok :=
  ⟨by have := h.start_le; simp only [Scanner.skip]; omega, h.stop_le, h.buf_len, h.max_eq⟩

/-- What has been put in the buffer is held. -/
theorem Ok.pending_put {s : Scanner} (h : s.Ok) (bs : List UInt8) :
    (s.put bs).pending = s.pending ++ bs := by
  have h₁ : (s.buf.take s.stop).length = s.stop := by
    rw [List.length_take, Nat.min_eq_left h.stop_le]
  have h₂ : s.stop + bs.length = (s.buf.take s.stop ++ bs).length := by simp [h₁]
  simp only [pending, put]
  rw [h₂, List.take_left, List.drop_append_of_le_length (by rw [h₁]; exact h.start_le)]

/-- Reading what fits keeps the scanner in order. -/
theorem Ok.put {s : Scanner} (h : s.Ok) (bs : List UInt8)
    (hb : bs.length ≤ s.buf.length - s.stop) : (s.put bs).Ok := by
  have hstop := h.stop_le
  have hlen : (s.put bs).buf.length = s.buf.length := by
    simp only [Scanner.put, List.length_append, List.length_take, List.length_drop]
    omega
  refine ⟨?_, ?_, by rw [hlen]; exact h.buf_len, h.max_eq⟩
  · have := h.start_le
    simp only [Scanner.put]
    omega
  · rw [hlen]
    simp only [Scanner.put]
    omega

/-- Moving the data to the front of a buffer that is large enough keeps it. -/
theorem Ok.moved {s : Scanner} (h : s.Ok) (tail : List UInt8)
    (ht : startBufSize ≤ s.pending.length + tail.length ∨ (s.pending ++ tail).length = 0) :
    (s.moved (s.pending ++ tail)).Ok ∧ (s.moved (s.pending ++ tail)).pending = s.pending := by
  have h₁ := h.length_pending
  refine ⟨⟨Nat.zero_le _, ?_, ?_, h.max_eq⟩, ?_⟩
  · simp only [Scanner.moved, List.length_append]; omega
  · rcases ht with ht | ht
    · exact .inr (by simpa [Scanner.moved] using ht)
    · exact .inl ht
  · simp only [Scanner.moved, pending] at h₁ ⊢
    rw [← h₁, List.take_left, List.drop_zero]

/-- Shifting keeps the data. -/
theorem Ok.shift {s : Scanner} (h : s.Ok) : s.shift.Ok ∧ s.shift.pending = s.pending := by
  have h₁ := h.length_pending
  have h₂ := h.stop_le
  unfold Scanner.shift
  split
  · refine h.moved _ ?_
    simp only [List.length_append, List.length_drop]
    rcases h.buf_len with h₃ | h₃ <;> omega
  · exact ⟨h, rfl⟩

/-- A full scanner that may grow grows to at least the initial size, and keeps its data. -/
theorem Ok.newSize {s : Scanner} (h : s.Ok) (hmax : ¬ s.maxTokenSize ≤ s.buf.length) :
    startBufSize ≤ s.newSize ∧ s.buf.length < s.newSize := by
  have h₁ := h.max_eq
  have h₂ := h.buf_len
  simp only [Scanner.newSize, startBufSize, maxScanTokenSize] at *
  constructor <;> split <;> omega

/-- Growing keeps the data. -/
theorem Ok.grow {s s' : Scanner} (h : s.Ok) (hg : s.grow = some s') :
    s'.Ok ∧ s'.pending = s.pending ∧ s'.err = s.err ∧ s'.done = s.done := by
  unfold Scanner.grow at hg
  split at hg
  · split at hg
    · cases hg
    · next hmax =>
      cases hg
      have h₁ := (h.newSize hmax).1
      obtain ⟨h₂, h₃⟩ := h.moved (List.replicate (s.newSize - s.pending.length) 0)
        (.inl (by simp only [List.length_replicate]; omega))
      exact ⟨h₂, h₃, rfl, rfl⟩
  · cases hg
    exact ⟨h, rfl, rfl, rfl⟩

/-- After a shift a full buffer holds nothing but data. -/
theorem shift_full (s : Scanner) (h : s.shift.stop = s.shift.buf.length) :
    s.shift.start = 0 ∨ s.shift.stop = 0 := by
  unfold Scanner.shift at h ⊢
  split
  · exact .inl rfl
  · next hc =>
    rw [if_neg hc] at h
    rcases Nat.eq_zero_or_pos s.start with h0 | h0
    · exact .inl h0
    · exact absurd ⟨h0, .inl h⟩ hc

/-- **Room to read.** With only a few bytes held, shifting and growing always leave free space, and
never run into `ErrTooLong`. -/
theorem Ok.room {s : Scanner} (h : s.Ok) (hp : s.pending.length < startBufSize) :
    ∃ s', s.shift.grow = some s' ∧ s'.stop < s'.buf.length := by
  obtain ⟨hs, hpend⟩ := h.shift
  have h₁ := hs.length_pending
  rw [hpend] at h₁
  by_cases hfull : s.shift.stop = s.shift.buf.length
  · have hempty : s.shift.buf.length = 0 := by
      have := shift_full s hfull
      rcases hs.buf_len with h0 | h0 <;> omega
    have hmax : ¬ s.shift.maxTokenSize ≤ s.shift.buf.length := by
      rw [hempty, hs.max_eq]; decide
    have hsize := (hs.newSize hmax).1
    refine ⟨s.shift.moved (s.shift.pending ++
      List.replicate (s.shift.newSize - s.shift.pending.length) 0), ?_, ?_⟩
    · unfold Scanner.grow
      rw [if_pos hfull, if_neg hmax]
    · simp only [Scanner.moved, List.length_append, List.length_replicate, hpend]
      omega
  · refine ⟨s.shift, by unfold Scanner.grow; rw [if_neg hfull], ?_⟩
    have := hs.stop_le
    omega

end Scanner

/-! ## Reads that bring bytes -/

/-- Every read of the reader brings at least one byte. -/
def Reader.Live (r : Reader) : Prop := ∀ c ∈ r.chunks, c ≠ []

/-- A read with room either meets the end or takes a non-empty prefix of what is left. -/
theorem Reader.Live.read {r : Reader} (h : r.Live) {n : Nat} (hn : 0 < n) :
    (r.chunks = [] ∧ r.read n = ([], some r.fin, r)) ∨
    ∃ bs r', r.read n = (bs, none, r') ∧ bs ≠ [] ∧ bs.length ≤ n ∧ r.rest = bs ++ r'.rest ∧
      r'.fin = r.fin ∧ r'.Live := by
  unfold Reader.read
  cases hc : r.chunks with
  | nil => exact .inl ⟨rfl, rfl⟩
  | cons c cs =>
    have hne : c ≠ [] := h c (by simp [hc])
    have htail : ∀ d ∈ cs, d ≠ [] := fun d hd => h d (by simp [hc, hd])
    refine .inr ?_
    by_cases hlen : c.length ≤ n
    · simp only [if_pos hlen]
      exact ⟨c, _, rfl, hne, hlen, by simp [Reader.rest, hc], rfl, htail⟩
    · simp only [if_neg hlen]
      refine ⟨c.take n, _, rfl, ?_, List.length_take_le _ _, ?_, rfl, ?_⟩
      · simpa using ⟨by omega, hne⟩
      · simp [Reader.rest, hc, ← List.append_assoc]
      · intro d hd
        rcases List.mem_cons.1 hd with rfl | hd
        · rw [Ne, List.drop_eq_nil_iff]; exact hlen
        · exact htail d hd

namespace Scanner

/-- **One more read.** With only a few bytes held and no error yet, the scanner either meets the
reader's end, or holds a non-empty prefix of the remaining bytes in addition. -/
theorem Ok.readMore {s : Scanner} (h : s.Ok) (hp : s.pending.length < startBufSize)
    (he : s.err = none) {r : Reader} (hr : r.Live) :
    ∃ s' r', s.readMore r = some (s', r') ∧ s'.Ok ∧ s'.done = s.done ∧ r'.fin = r.fin ∧ r'.Live ∧
      ((r.chunks = [] ∧ r'.chunks = [] ∧ s'.pending = s.pending ∧ s'.err = some r.fin) ∨
        ∃ bs, bs ≠ [] ∧ s'.pending = s.pending ++ bs ∧ r.rest = bs ++ r'.rest ∧
          s'.err = none) := by
  obtain ⟨s₁, hg, hroom⟩ := h.room hp
  obtain ⟨hok, hpend, herr, hdone⟩ := h.shift.1.grow hg
  rw [h.shift.2] at hpend
  rw [shift_err, he] at herr
  have hdone' : s₁.done = s.done := by
    rw [hdone]; unfold Scanner.shift; split <;> rfl
  have hmore : s.readMore r = some (s₁.fill r maxConsecutiveEmptyReads) := by
    rw [Scanner.readMore, hg]; rfl
  rw [hmore]
  have hfill : ∀ s₂ r₂, s₁.readOnce r = (s₂, r₂, false) →
      s₁.fill r maxConsecutiveEmptyReads = (s₂, r₂) := by
    intro s₂ r₂ h₂
    unfold maxConsecutiveEmptyReads fill
    rw [h₂]
  rcases hr.read (n := s₁.buf.length - s₁.stop) (by omega) with
    ⟨hnil, hread⟩ | ⟨bs, r', hread, hne, hlen, hrest, hfin, hlive⟩
  · refine ⟨(s₁.put []).setErr r.fin, r, ?_, ?_, ?_, rfl, hr, .inl ⟨hnil, hnil, ?_, ?_⟩⟩
    · rw [hfill _ _ (by rw [readOnce, hread])]
    all_goals rw [setErr, if_pos (.inl herr)]
    · have hput := hok.put [] (by simp)
      exact ⟨hput.start_le, hput.stop_le, hput.buf_len, hput.max_eq⟩
    · exact hdone'
    · have := hok.pending_put []
      rw [List.append_nil, hpend] at this
      exact this
  · refine ⟨{ s₁.put bs with empties := 0 }, r', ?_, ?_, hdone', hfin, hlive,
      .inr ⟨bs, hne, ?_, hrest, herr⟩⟩
    · rw [hfill _ _ (by rw [readOnce, hread]; exact if_neg hne)]
    · have hput := hok.put bs hlen
      exact ⟨hput.start_le, hput.stop_le, hput.buf_len, hput.max_eq⟩
    · rw [← hpend]
      exact hok.pending_put bs

/-! ## Progress of a whole scan -/

/-- The bytes a scanner and its reader have before them, by the marks alone. -/
def weight (s : Scanner) (r : Reader) : Nat := (s.stop - s.start) + r.rest.length

/-- A split function that reports no error and gives no token without consuming. -/
def Progressive (split : SplitFunc) : Prop :=
  ∀ data atEOF, (split data atEOF).err = none ∧
    ((split data atEOF).token ≠ none → 0 < (split data atEOF).advance)

/-- A token takes bytes off the scanner; without one the scanner's bytes do not increase. -/
theorem trySplit_weight {split : SplitFunc} (hp : Progressive split) {s s' : Scanner}
    {o : Option ScanResult} (h : s.trySplit split = (o, s')) :
    (∀ t, o = some (.token t) → s'.stop - s'.start < s.stop - s.start) ∧
    (o = none → s'.stop - s'.start ≤ s.stop - s.start) := by
  obtain ⟨hnone, hadv⟩ := hp s.pending s.err.isSome
  unfold trySplit at h
  cases hsp : split s.pending s.err.isSome with
  | mk advance token err =>
    rw [hsp] at hnone hadv
    simp only at hnone hadv
    subst hnone
    simp only [hsp] at h
    repeat' split at h
    all_goals cases h
    all_goals refine ⟨fun t ht => ?_, fun ho => ?_⟩
    all_goals first
      | cases ht; done
      | cases ho; done
      | exact Nat.le_refl _
      | simp only [skip]; omega
      | have := hadv (by simp); simp only [skip]; omega

/-- What a read hands out is taken off the reader. -/
theorem read_length (r : Reader) (n : Nat) :
    (r.read n).1.length + (r.read n).2.2.rest.length = r.rest.length := by
  cases hc : r.chunks with
  | nil => simp [Reader.read, Reader.rest, hc]
  | cons c cs =>
    by_cases hlen : c.length ≤ n
    · simp [Reader.read, Reader.rest, hc, hlen]
    · simp only [Reader.read, Reader.rest, hc, if_neg hlen, List.flatten_cons, List.length_append,
        List.length_take, List.length_drop]
      omega

/-- Setting the error moves no byte. -/
@[simp] theorem weight_setErr (s : Scanner) (e : Err) (r : Reader) :
    (s.setErr e).weight r = s.weight r := by
  unfold setErr; split <;> rfl

/-- A read moves bytes from the reader to the scanner. -/
theorem readOnce_weight {s s' : Scanner} {r r' : Reader} {again : Bool}
    (h : s.readOnce r = (s', r', again)) : s'.weight r' ≤ s.weight r := by
  have hlen := read_length r (s.buf.length - s.stop)
  unfold readOnce at h
  generalize r.read (s.buf.length - s.stop) = res at h hlen
  obtain ⟨bs, err, r₁⟩ := res
  cases err with
  | some e =>
    cases h
    rw [weight_setErr]
    simp only [weight, put] at hlen ⊢
    omega
  | none =>
    simp only at h
    split at h
    all_goals cases h
    all_goals simp only [weight, put] at hlen ⊢
    all_goals omega

/-- Filling the buffer does not increase the bytes before the scanner. -/
theorem fill_weight {s s' : Scanner} {r r' : Reader} {budget : Nat}
    (h : s.fill r budget = (s', r')) : s'.weight r' ≤ s.weight r := by
  induction budget generalizing s r with
  | zero =>
    unfold fill at h
    split at h <;> next hr =>
      cases h
      simpa using readOnce_weight hr
  | succ budget ih =>
    unfold fill at h
    split at h
    · next hr => exact Nat.le_trans (ih h) (readOnce_weight hr)
    · next hr => cases h; exact readOnce_weight hr

/-- Reading more does not increase the bytes before the scanner. -/
theorem readMore_weight {s s' : Scanner} {r r' : Reader} (h : s.readMore r = some (s', r')) :
    s'.weight r' ≤ s.weight r := by
  obtain ⟨s₁, hg, h⟩ := Option.map_eq_some_iff.1 h
  refine Nat.le_trans (fill_weight h) (Nat.le_of_eq ?_)
  have hshift : s.shift.weight r = s.weight r := by
    unfold shift; split <;> rfl
  rw [← hshift]
  unfold grow at hg
  repeat' split at hg
  all_goals cases hg
  all_goals rfl

/-- **A token is progress.** After a token there are fewer bytes before the scanner. -/
theorem scanLoop_weight {split : SplitFunc} (hp : Progressive split) {s s' : Scanner}
    {r r' : Reader} {t : List UInt8} (h : scanLoop split s r = (.token t, s', r')) :
    s'.weight r' < s.weight r := by
  fun_induction scanLoop split s r with
  | case1 s r res s₁ hs =>
    cases h
    have := (trySplit_weight hp hs).1 t rfl
    simp only [weight]
    omega
  | case2 | case3 => cases h
  | case4 s r s₁ hs he s₂ r₂ hm ih =>
    have h₁ := (trySplit_weight hp hs).2 rfl
    have h₂ := readMore_weight hm
    have h₃ : s₁.weight r ≤ s.weight r := by simp only [weight]; omega
    exact Nat.lt_of_lt_of_le (ih h) (Nat.le_trans h₂ h₃)

/-- A call of `Scan` that gives a token makes progress. -/
theorem scan_weight {split : SplitFunc} (hp : Progressive split) {s s' : Scanner}
    {r r' : Reader} {t : List UInt8} (h : scan split s r = (.token t, s', r')) :
    s'.weight r' < s.weight r := by
  unfold scan at h
  split at h
  · cases h
  · exact scanLoop_weight hp h

end Scanner
end UAssign.Bufio

import UAssign.Proxy.RuneCopy

/-!
# The output pump

`proxyOutputFunc` of `pkg/docker/proxy/proxy.go` clears the client's terminal and then sends what
its reader brings as `stdout` messages. Whatever pieces the stream arrives in, the texts it sends
are those of consecutive pieces of the stream, and together the text of the whole stream
(`proxyOutputFunc_any_chunking`).
-/

namespace UAssign.Proxy

open Bufio Utf8

/-- A message of the output pumps to the client: `["wipe"]` or `["stdout", text]`. -/
inductive Message where
  | wipe
  | stdout (text : List UInt8)
  deriving DecidableEq

/-- How a pump's goroutine ends. -/
inductive Exit where
  | returned (err : Err)
  | panicked
  deriving DecidableEq

/-- A run of the output pump: the messages it passed to `WriteJSON`, how it ended, and the scanner
and reader it left. -/
structure Output where
  sent : List Message
  exit : Exit
  scanner : Scanner
  reader : Reader

/-- `Scanner.Err`: the error the scanner met, unless it is `io.EOF`. -/
def scannerErr (s : Scanner) : Option Err := if s.err = some .eof then none else s.err

/-- The loop `for s.Scan()`; `write n` is the error of the `n`-th call of `WriteJSON`. -/
def proxyOutputLoop (write : Nat → Option Err) (n : Nat) (s : Scanner) (r : Reader) : Output :=
  match _hs : s.scan scanRunesGreedy r with
  | (.panic, s', r') => ⟨[], .panicked, s', r'⟩
  | (.stop, s', r') => ⟨[], .returned .eof, s', r'⟩
  | (.token text, s', r') =>
    match scannerErr s' with
    | some err => ⟨[], .returned err, s', r'⟩
    | none =>
      match write n with
      | some err => ⟨[.stdout text], .returned err, s', r'⟩
      | none =>
        let out := proxyOutputLoop write (n + 1) s' r'
        { out with sent := .stdout text :: out.sent }
termination_by s.weight r
decreasing_by exact Scanner.scan_weight scanRunesGreedy_progressive _hs

/-- `proxyOutputFunc`. -/
def proxyOutputFunc (write : Nat → Option Err) (reader : Reader) : Output :=
  match write 0 with
  | some err => ⟨[.wipe], .returned err, newScanner, reader⟩
  | none =>
    let out := proxyOutputLoop write 1 newScanner reader
    { out with sent := .wipe :: out.sent }

/-- The `stdout` messages of the pieces of a stream. -/
def stdouts (pieces : List (List UInt8)) : List Message :=
  pieces.map fun p => .stdout (sanitize p)

/-- What the loop does with the bytes before it. They fall into pieces whose texts make up the text
of the whole; the loop sends the texts in order, all of them and to the end if no write fails; and
neither a panic nor another error than EOF comes from the scanner. -/
structure LoopSpec (write : Nat → Option Err) (n : Nat) (all : List UInt8) (out : Output) :
    Prop where
  noPanic : out.exit ≠ .panicked
  scanErr : out.scanner.err = none ∨ out.scanner.err = some .eof
  pieces : ∃ pieces : List (List UInt8), pieces.flatten = all ∧ (∀ p ∈ pieces, p ≠ []) ∧
    (pieces.map sanitize).flatten = sanitize all ∧ out.sent <+: stdouts pieces ∧
    ((∀ m, n ≤ m → write m = none) → out.sent = stdouts pieces ∧ out.exit = .returned .eof ∧
      out.scanner.err = some .eof ∧ out.reader.chunks = [])

/-- One piece for all the bytes before the loop. -/
theorem exists_onePiece (all : List UInt8) : ∃ pieces : List (List UInt8), pieces.flatten = all ∧
    (∀ p ∈ pieces, p ≠ []) ∧ (pieces.map sanitize).flatten = sanitize all := by
  by_cases h : all = []
  · exact ⟨[], by simp [h]⟩
  · exact ⟨[all], by simp [h]⟩

/-- The scanner's error is at most EOF, so the loop never stops on it. -/
theorem Ready.scannerErr {s : Scanner} {r : Reader} (h : Ready s r) : scannerErr s = none := by
  rcases h.err with he | ⟨he, -⟩ <;> simp [Proxy.scannerErr, he]

/-- The loop meets its specification. -/
theorem proxyOutputLoop_spec (write : Nat → Option Err) (n : Nat) {s : Scanner} {r : Reader}
    (h : Ready s r) : LoopSpec write n (ahead s r) (proxyOutputLoop write n s r) := by
  induction hw : s.weight r using Nat.strongRecOn generalizing n s r with
  | ind w ih =>
    rcases h.scan with ⟨piece, s', r', hs, htook⟩ | ⟨s', r', hs, herr, hnil, hall⟩
    · have hdec := Scanner.scan_weight scanRunesGreedy_progressive hs
      have hrest := ih _ (hw ▸ hdec) (n + 1) htook.ready rfl
      have hscan := htook.ready.scannerErr
      have herr' := htook.ready.err.imp id And.left
      rw [proxyOutputLoop]
      split
      · next hs' => rw [hs] at hs'; cases hs'
      · next hs' => rw [hs] at hs'; cases hs'
      · next text s₁ r₁ hs' =>
        rw [hs] at hs'; cases hs'
        simp only [hscan]
        cases hwn : write n with
        | some err =>
          obtain ⟨pieces, h₁, h₂, h₃⟩ := exists_onePiece (ahead s' r')
          refine ⟨nofun, herr', piece :: pieces, ?_, ?_, ?_, ?_, fun hall => ?_⟩
          · rw [List.flatten_cons, h₁, ← htook.ahead_eq]
          · exact List.forall_mem_cons.2 ⟨htook.ne_nil, h₂⟩
          · rw [List.map_cons, List.flatten_cons, h₃, ← htook.text]
          · exact ⟨stdouts pieces, rfl⟩
          · rw [hall n (Nat.le_refl n)] at hwn; cases hwn
        | none =>
          obtain ⟨pieces, h₁, h₂, h₃, h₄, h₅⟩ := hrest.pieces
          refine ⟨hrest.noPanic, hrest.scanErr, piece :: pieces, ?_, ?_, ?_, ?_, fun hall => ?_⟩
          · rw [List.flatten_cons, h₁, ← htook.ahead_eq]
          · exact List.forall_mem_cons.2 ⟨htook.ne_nil, h₂⟩
          · rw [List.map_cons, List.flatten_cons, h₃, ← htook.text]
          · exact (List.cons_prefix_cons).2 ⟨rfl, h₄⟩
          · obtain ⟨h₆, h₇⟩ := h₅ fun m hm => hall m (by omega)
            exact ⟨by rw [h₆]; rfl, h₇⟩
    · rw [proxyOutputLoop]
      split
      · next hs' => rw [hs] at hs'; cases hs'
      · next s₁ r₁ hs' =>
        rw [hs] at hs'; cases hs'
        exact ⟨nofun, .inr herr, [], by simp [hall], by simp, by simp [hall], ⟨[], rfl⟩,
          fun _ => ⟨rfl, rfl, herr, hnil⟩⟩
      · next hs' => rw [hs] at hs'; cases hs'

/-- **Any chunking of the stream gives the same text.** For every way of cutting a byte stream into
non-empty reads that end in EOF: the pump never hits the scanner's panic, and its scan never stops
with another error than EOF; the stream falls into pieces, all of it consumed, whose texts are
non-empty valid UTF-8 and together the text of the whole stream; and the pump sends a `wipe` and
then these texts, in order, all of them unless a write fails. -/
theorem proxyOutputFunc_any_chunking (write : Nat → Option Err) (chunks : List (List UInt8))
    (h : ∀ c ∈ chunks, c ≠ []) :
    let out := proxyOutputFunc write ⟨chunks, .eof⟩
    out.exit ≠ .panicked ∧ (out.scanner.err = none ∨ out.scanner.err = some .eof) ∧
    ∃ pieces : List (List UInt8), pieces.flatten = chunks.flatten ∧
      (∀ p ∈ pieces, sanitize p ≠ [] ∧ Valid (sanitize p)) ∧
      (pieces.map sanitize).flatten = sanitize chunks.flatten ∧
      out.sent <+: .wipe :: stdouts pieces ∧
      ((∀ n, write n = none) → out.sent = .wipe :: stdouts pieces ∧
        out.exit = .returned .eof ∧ out.scanner.err = some .eof ∧ out.reader.chunks = []) := by
  have hloop := proxyOutputLoop_spec write 1 (ready_newScanner h)
  have hvalid : ∀ pieces : List (List UInt8), (∀ p ∈ pieces, p ≠ []) →
      ∀ p ∈ pieces, sanitize p ≠ [] ∧ Valid (sanitize p) :=
    fun pieces hp p hmem => ⟨sanitize_ne_nil (hp p hmem), sanitize_isValid p⟩
  simp only [proxyOutputFunc]
  cases hw : write 0 with
  | some err =>
    obtain ⟨pieces, h₁, h₂, h₃⟩ := exists_onePiece chunks.flatten
    refine ⟨nofun, .inl rfl, pieces, h₁, hvalid _ h₂, h₃, ⟨stdouts pieces, rfl⟩, fun hall => ?_⟩
    rw [hall 0] at hw; cases hw
  | none =>
    obtain ⟨pieces, h₁, h₂, h₃, h₄, h₅⟩ := hloop.pieces
    refine ⟨hloop.noPanic, hloop.scanErr, pieces, h₁, hvalid _ h₂, h₃,
      List.cons_prefix_cons.2 ⟨rfl, h₄⟩, fun hall => ?_⟩
    obtain ⟨h₆, h₇⟩ := h₅ fun m _ => hall m
    exact ⟨by rw [h₆], h₇⟩

/-- An `é` cut in two, on a connection whose writes all succeed, reaches the client as an `é`. -/
theorem proxyOutputFunc_cut_character :
    ∃ pieces : List (List UInt8), (pieces.map sanitize).flatten = [0xC3, 0xA9] ∧
      (proxyOutputFunc (fun _ => none) ⟨[[0xC3], [0xA9]], .eof⟩).sent = .wipe :: stdouts pieces := by
  obtain ⟨-, -, pieces, -, -, htext, -, hall⟩ :=
    proxyOutputFunc_any_chunking (fun _ => none) [[0xC3], [0xA9]] (by decide)
  have hvalid : Valid [0xC3, 0xA9] := ⟨['é'], by decide⟩
  rw [show [[0xC3], [0xA9]].flatten = ([0xC3, 0xA9] : List UInt8) from rfl,
    sanitize_valid hvalid] at htext
  exact ⟨pieces, htext, (hall fun _ => rfl).1⟩

end UAssign.Proxy

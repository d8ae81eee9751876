import Mathlib

/-!
# HTTP handlers

A handler as what it does to its `http.ResponseWriter`, one operation after the other, each of which
may depend on what the earlier ones have returned. `Prog.run` is what a `Writer` makes of it; `net`
is the one of `net/http`. A `WrapResponseWriter` is put in between, and tells the status and the
bytes; `Documented` is what its package says of it, and `run_wrapped` what follows: whatever is done
to it with valid status codes is done to the writer behind it.
-/

namespace UAssign.Http

/-! ## Responses -/

/-- The values of a header, by their canonical keys. -/
abbrev Header : Type := String → Option String

/-- `Header.Set`. -/
def Header.set (h : Header) (key value : String) : Header := Function.update h key (some value)

/-- `Header.Get`. -/
def Header.get (h : Header) (key : String) : String := (h key).getD ""

/-- A status that has been sent, with its header. The server has sent it by itself, in a `Flush` or
at the end, or for a handler. -/
structure Sent where
  code : Int
  header : Header
  own : Bool

/-- A response under way: the header as it is now, what has been sent of it, the bytes that have
been taken, and whether the connection has been hijacked. -/
structure Response where
  header : Header
  sent : Option Sent
  body : List UInt8
  hijacked : Bool

/-- What is outside: how many bytes of a write are taken, and whether the connection can be
hijacked. -/
structure Env where
  accepts : Response → List UInt8 → Nat
  hijacks : Bool

/-- `http.StatusOK`. -/
def statusOK : Int := 200

/-- `http.StatusInternalServerError`. -/
def statusInternalServerError : Int := 500

/-- A status code that `WriteHeader` takes. -/
def ValidCode (code : Int) : Prop := 100 ≤ code ∧ code ≤ 999

instance decidableValidCode (code : Int) : Decidable (ValidCode code) :=
  inferInstanceAs (Decidable (_ ∧ _))

namespace Response

/-- Nothing has been written. -/
def new : Response := ⟨fun _ => none, none, [], false⟩

variable (w : Response)

/-- The status is sent, if none has been. -/
def send (code : Int) (own : Bool) : Response :=
  if w.hijacked || w.sent.isSome then w else { w with sent := some ⟨code, w.header, own⟩ }

/-- `WriteHeader`, and the value that it panics with. -/
def writeHeader (code : Int) : Response × Option String :=
  if w.hijacked || w.sent.isSome || ValidCode code then (w.send code false, none)
  else (w, some ("invalid WriteHeader code " ++ toString code))

/-- `Write`, and what it returns. -/
def write (env : Env) (bs : List UInt8) : Response × Nat :=
  if w.hijacked then (w, 0)
  else
    let w := w.send statusOK false
    let n := min (env.accepts w bs) bs.length
    ({ w with body := w.body ++ bs.take n }, n)

/-- `Flush`. -/
def flush : Response := w.send statusOK true

/-- `Hijack`, and whether it succeeds. -/
def hijack (env : Env) : Response × Bool :=
  if env.hijacks && !w.hijacked then ({ w with hijacked := true }, true) else (w, false)

/-- The server's end of a request. -/
def finish : Response := w.send statusOK true

end Response

/-! ## Writers -/

/-- `http.ResponseWriter`, with `http.Flusher` and `http.Hijacker`, by its states. -/
structure Writer (σ : Type) where
  header : σ → Header
  setHeader : σ → Header → σ
  writeHeader : σ → Int → σ × Option String
  write : σ → List UInt8 → σ × Nat
  flush : σ → σ
  hijack : σ → σ × Bool

/-- The writer of `net/http`. -/
def net (env : Env) : Writer Response where
  header w := w.header
  setHeader w h := { w with header := h }
  writeHeader := Response.writeHeader
  write w := w.write env
  flush := Response.flush
  hijack w := w.hijack env

/-- What a handler does, with log entries of type `E`. It may panic with `nil`. -/
inductive Prog (E : Type) where
  | ret
  | panic (value : Option String)
  | header (f : Header → Header) (next : Header → Prog E)
  | writeHeader (code : Int) (next : Prog E)
  | write (bs : List UInt8) (next : Nat → Prog E)
  | flush (next : Prog E)
  | hijack (next : Bool → Prog E)
  | log (entry : E) (next : Prog E)

/-- The outcome of a handler: the writer, what has been logged, and what it has panicked with. -/
structure Out (σ E : Type) where
  writer : σ
  logs : List E
  panicked : Option (Option String)

/-- The log entries of an outcome behind some others. -/
def Out.after {σ E : Type} (logs : List E) (o : Out σ E) : Out σ E :=
  { o with logs := logs ++ o.logs }

namespace Prog

variable {σ E : Type}

/-- A program on a writer. -/
def run (W : Writer σ) : Prog E → σ → Out σ E
  | ret, w => ⟨w, [], none⟩
  | panic value, w => ⟨w, [], some value⟩
  | header f next, w => (next (W.header w)).run W (W.setHeader w (f (W.header w)))
  | writeHeader code next, w =>
    match (W.writeHeader w code).2 with
    | none => next.run W (W.writeHeader w code).1
    | some value => ⟨(W.writeHeader w code).1, [], some (some value)⟩
  | write bs next, w => (next (W.write w bs).2).run W (W.write w bs).1
  | flush next, w => next.run W (W.flush w)
  | hijack next, w => (next (W.hijack w).2).run W (W.hijack w).1
  | log entry next, w => (next.run W w).after [entry]

/-- A program whose status codes are valid. -/
def Valid : Prog E → Prop
  | ret | panic _ => True
  | header _ next => ∀ h, (next h).Valid
  | writeHeader code next => ValidCode code ∧ next.Valid
  | write _ next => ∀ n, (next n).Valid
  | flush next | log _ next => next.Valid
  | hijack next => ∀ ok, (next ok).Valid

/-- A program that leaves a value of the header as it is. -/
def Keeps (key : String) : Prog E → Prop
  | ret | panic _ => True
  | header f next => (∀ h, (f h).get key = h.get key) ∧ ∀ h, (next h).Keeps key
  | writeHeader _ next | flush next | log _ next => next.Keeps key
  | write _ next => ∀ n, (next n).Keeps key
  | hijack next => ∀ ok, (next ok).Keeps key

end Prog

/-- The header that `http.Error` sets. -/
def errorHeader (h : Header) : Header :=
  (h.set "Content-Type" "text/plain; charset=utf-8").set "X-Content-Type-Options" "nosniff"

/-- `http.Error`. -/
def httpError {E : Type} (error : String) (code : Int) : Prog E :=
  .header errorHeader fun _ =>
    .writeHeader code (.write (error ++ "\n").toUTF8.data.toList fun _ => .ret)

/-! ## Wrapped writers -/

/-- `middleware.WrapResponseWriter`, over the writer of `net/http`. -/
structure WrapResponseWriter (κ : Type) where
  writer : Writer κ
  new : Response → κ
  unwrap : κ → Response
  status : κ → Int
  bytesWritten : κ → Nat

/-- The states of a wrapper that has been put around a new response and used with valid status
codes. -/
inductive Used {κ : Type} (wrap : WrapResponseWriter κ) : κ → Prop
  | new (header : Header) : Used wrap (wrap.new { Response.new with header := header })
  | setHeader {s : κ} (h : Used wrap s) (header : Header) :
    Used wrap (wrap.writer.setHeader s header)
  | writeHeader {s : κ} (h : Used wrap s) {code : Int} (hcode : ValidCode code) :
    Used wrap (wrap.writer.writeHeader s code).1
  | write {s : κ} (h : Used wrap s) (bs : List UInt8) : Used wrap (wrap.writer.write s bs).1
  | flush {s : κ} (h : Used wrap s) : Used wrap (wrap.writer.flush s)
  | hijack {s : κ} (h : Used wrap s) : Used wrap (wrap.writer.hijack s).1

/-- A status tells what has been sent, or is 0 if nothing has, or the server has done so by
itself. -/
def Tells (status : Int) : Option Sent → Prop
  | none => status = 0
  | some sent => status = sent.code ∨ status = 0 ∧ sent.own = true

/-- What the package says of a wrapper: it is a proxy around an `http.ResponseWriter`, `Status` is
the status of the request, or 0 if one has not been sent (through it), and `BytesWritten` the number
of bytes sent to the client. -/
structure Documented {κ : Type} (env : Env) (wrap : WrapResponseWriter κ) : Prop where
  new : ∀ w, wrap.unwrap (wrap.new w) = w
  header : ∀ s, Used wrap s → wrap.writer.header s = (wrap.unwrap s).header
  setHeader : ∀ s h, Used wrap s →
    wrap.unwrap (wrap.writer.setHeader s h) = (net env).setHeader (wrap.unwrap s) h
  writeHeader : ∀ s code, Used wrap s → ValidCode code →
    (wrap.writer.writeHeader s code).map wrap.unwrap id =
      (net env).writeHeader (wrap.unwrap s) code
  write : ∀ s bs, Used wrap s →
    (wrap.writer.write s bs).map wrap.unwrap id = (net env).write (wrap.unwrap s) bs
  flush : ∀ s, Used wrap s → wrap.unwrap (wrap.writer.flush s) = (net env).flush (wrap.unwrap s)
  hijack : ∀ s, Used wrap s →
    (wrap.writer.hijack s).map wrap.unwrap id = (net env).hijack (wrap.unwrap s)
  status : ∀ s, Used wrap s → (wrap.unwrap s).hijacked = false →
    Tells (wrap.status s) (wrap.unwrap s).sent
  bytesWritten : ∀ s, Used wrap s → wrap.bytesWritten s = (wrap.unwrap s).body.length

/-! ## Rules -/

section

variable {σ κ E : Type} {env : Env} {w : Response} {p : Prog E} {key value : String} {h : Header}
  {code : Int} {own : Bool} {bs : List UInt8} {W : Writer σ} {wrap : WrapResponseWriter κ}

@[simp]
theorem get_set : (h.set key value).get key = value := by
  simp [Header.set, Header.get]

/-- Other values stay. -/
theorem get_set_of_ne {key' : String} (hne : key' ≠ key) :
    (h.set key value).get key' = h.get key' := by
  simp [Header.set, Header.get, hne]

/-- What has been sent has been sent. -/
theorem send_of_sent (hsent : w.sent ≠ none ∨ w.hijacked = true) : w.send code own = w := by
  refine if_pos ?_
  rcases hsent with hsent | hhijacked
  · simp [Option.isSome_iff_ne_none.2 hsent]
  · simp [hhijacked]

theorem send_new (hsent : w.sent = none) (hhijacked : w.hijacked = false) :
    w.send code own = { w with sent := some ⟨code, w.header, own⟩ } := by
  rw [Response.send, hsent, hhijacked]
  rfl

/-- A valid status code is sent. -/
theorem writeHeader_valid (hcode : ValidCode code) :
    w.writeHeader code = (w.send code false, none) :=
  if_pos (by simp [hcode])

/-- A status code that the writer takes. -/
theorem run_writeHeader {next : Prog E} {s : σ} (hcode : (W.writeHeader s code).2 = none) :
    (Prog.writeHeader code next).run W s = next.run W (W.writeHeader s code).1 := by
  rw [Prog.run, hcode]

/-- **A program on a wrapped writer** does what the program does. -/
theorem run_wrapped (hdoc : Documented env wrap) (hvalid : p.Valid) {s : κ} (hs : Used wrap s) :
    Used wrap (p.run wrap.writer s).writer ∧
      wrap.unwrap (p.run wrap.writer s).writer = (p.run (net env) (wrap.unwrap s)).writer ∧
      (p.run wrap.writer s).logs = (p.run (net env) (wrap.unwrap s)).logs ∧
      (p.run wrap.writer s).panicked = (p.run (net env) (wrap.unwrap s)).panicked := by
  induction p generalizing s with
  | ret => exact ⟨hs, rfl, rfl, rfl⟩
  | panic value => exact ⟨hs, rfl, rfl, rfl⟩
  | header f next ih =>
    have hheader := hdoc.header s hs
    have hset := hdoc.setHeader s (f (wrap.unwrap s).header) hs
    simp only [Prog.run]
    rw [hheader]
    exact hset ▸ ih _ (hvalid _) (.setHeader hs _)
  | writeHeader code next ih =>
    obtain ⟨hcode, hnext⟩ := hvalid
    have hproxy := hdoc.writeHeader s code hs hcode
    have hnet : (net env).writeHeader (wrap.unwrap s) code =
        ((wrap.unwrap s).send code false, none) := writeHeader_valid hcode
    have htaken : (wrap.writer.writeHeader s code).2 = none := congrArg Prod.snd (hproxy.trans hnet)
    have hunwrap : wrap.unwrap (wrap.writer.writeHeader s code).1 =
        ((net env).writeHeader (wrap.unwrap s) code).1 := congrArg Prod.fst hproxy
    rw [run_writeHeader htaken, run_writeHeader (by rw [hnet]), ← hunwrap]
    exact ih hnext (.writeHeader hs hcode)
  | write bs next ih =>
    have hproxy := hdoc.write s bs hs
    have hunwrap : wrap.unwrap (wrap.writer.write s bs).1 =
        ((net env).write (wrap.unwrap s) bs).1 := congrArg Prod.fst hproxy
    have htaken : (wrap.writer.write s bs).2 = ((net env).write (wrap.unwrap s) bs).2 :=
      congrArg Prod.snd hproxy
    simp only [Prog.run]
    rw [← hunwrap, ← htaken]
    exact ih _ (hvalid _) (.write hs bs)
  | flush next ih =>
    simp only [Prog.run]
    rw [← hdoc.flush s hs]
    exact ih hvalid (.flush hs)
  | hijack next ih =>
    have hproxy := hdoc.hijack s hs
    have hunwrap : wrap.unwrap (wrap.writer.hijack s).1 = ((net env).hijack (wrap.unwrap s)).1 :=
      congrArg Prod.fst hproxy
    have hok : (wrap.writer.hijack s).2 = ((net env).hijack (wrap.unwrap s)).2 :=
      congrArg Prod.snd hproxy
    simp only [Prog.run]
    rw [← hunwrap, ← hok]
    exact ih _ (hvalid _) (.hijack hs)
  | log entry next ih =>
    obtain ⟨hused, hunwrap, hlogs, hpanicked⟩ := ih hvalid hs
    exact ⟨hused, hunwrap, congrArg (entry :: ·) hlogs, hpanicked⟩

/-- What tells the truth now does so at the end of the request. -/
theorem Tells.finish {status : Int} (h : Tells status w.sent) (hhijacked : w.hijacked = false) :
    ∃ sent, w.finish.sent = some sent ∧ Tells status (some sent) := by
  cases hsent : w.sent with
  | some sent =>
    rw [hsent] at h
    have hfinish : w.finish = w := send_of_sent (.inl (by simp [hsent]))
    exact ⟨sent, by rw [hfinish, hsent], h⟩
  | none =>
    rw [hsent] at h
    have hfinish : w.finish = { w with sent := some ⟨statusOK, w.header, true⟩ } :=
      send_new hsent hhijacked
    exact ⟨_, by rw [hfinish], .inr ⟨h, rfl⟩⟩

/-- The value of a header is what it is to be, and has been sent so if it has been sent. -/
def Response.Shows (key value : String) (w : Response) : Prop :=
  w.header.get key = value ∧ ∀ sent, w.sent = some sent → sent.header.get key = value

/-- Sending the header shows its values. -/
theorem Response.Shows.send (h : w.Shows key value) : (w.send code own).Shows key value := by
  unfold Response.send
  split
  · exact h
  · refine ⟨h.1, fun _ hsent => ?_⟩
    cases hsent
    exact h.1

/-- **A value that a program keeps** is sent as it was. -/
theorem Response.Shows.run (hkeeps : p.Keeps key) (h : w.Shows key value) :
    (p.run (net env) w).writer.Shows key value := by
  induction p generalizing w with
  | ret => exact h
  | panic v => exact h
  | header f next ih =>
    obtain ⟨hf, hnext⟩ := hkeeps
    exact ih _ (hnext _) ⟨(hf _).trans h.1, h.2⟩
  | writeHeader code next ih =>
    have hshows : (w.writeHeader code).1.Shows key value := by
      unfold Response.writeHeader
      split
      · exact h.send
      · exact h
    rw [Prog.run]
    split
    · exact ih hkeeps hshows
    · exact hshows
  | write bs next ih =>
    refine ih _ (hkeeps _) ?_
    show (w.write env bs).1.Shows key value
    unfold Response.write
    split
    · exact h
    · exact h.send
  | flush next ih => exact ih hkeeps h.send
  | hijack next ih =>
    refine ih _ (hkeeps _) ?_
    show (w.hijack env).1.Shows key value
    unfold Response.hijack
    split
    · exact h
    · exact h
  | log entry next ih => exact ih hkeeps h

/-- `http.Error` keeps the values of its other headers. -/
theorem keeps_httpError {error : String} (htype : key ≠ "Content-Type")
    (hoptions : key ≠ "X-Content-Type-Options") : (httpError (E := E) error code).Keeps key := by
  refine ⟨fun h => ?_, fun _ _ => trivial⟩
  rw [errorHeader, get_set_of_ne hoptions, get_set_of_ne htype]

theorem valid_httpError {error : String} (hcode : ValidCode code) :
    (httpError (E := E) error code).Valid := fun _ => ⟨hcode, fun _ => trivial⟩

/-- A write adds a part of its bytes to the body, behind what it may send. -/
theorem write_body : ∃ n, (w.write env bs).1.body = w.body ++ bs.take n := by
  unfold Response.write Response.send
  split
  · exact ⟨0, (List.append_nil _).symm⟩
  · split
    · exact ⟨_, rfl⟩
    · exact ⟨_, rfl⟩

/-- It does not send a status twice. -/
theorem write_sent (h : w.sent ≠ none ∨ w.hijacked = true) :
    (w.write env bs).1.sent = w.sent := by
  unfold Response.write
  split
  · rfl
  · show (w.send statusOK false).sent = w.sent
    rw [send_of_sent h]

/-- A status and a write. -/
theorem send_write (w : Response) (code : Int) (env : Env) (bs : List UInt8) :
    (w.sent ≠ none ∨ w.hijacked = true →
        ((w.send code false).write env bs).1.sent = w.sent) ∧
      (w.sent = none → w.hijacked = false →
        ((w.send code false).write env bs).1.sent = some ⟨code, w.header, false⟩) ∧
      ∃ n, ((w.send code false).write env bs).1.body = w.body ++ bs.take n := by
  refine ⟨fun hsent => ?_, fun hsent hhijacked => ?_, ?_⟩
  · rw [send_of_sent hsent]
    exact write_sent hsent
  · rw [send_new hsent hhijacked]
    exact write_sent (.inl (Option.some_ne_none _))
  · have hbody : (w.send code false).body = w.body := by
      unfold Response.send
      split <;> rfl
    exact hbody ▸ write_body

/-- **What `http.Error` does**: it sends its status if none has been sent, and its text or a part of
it. -/
theorem run_httpError (error : String) (hcode : ValidCode code) (env : Env) (w : Response) :
    let o := (httpError (E := E) error code).run (net env) w
    o.panicked = none ∧ o.logs = [] ∧
      (w.sent ≠ none ∨ w.hijacked = true → o.writer.sent = w.sent) ∧
      (w.sent = none → w.hijacked = false →
        o.writer.sent = some ⟨code, errorHeader w.header, false⟩) ∧
      ∃ n, o.writer.body = w.body ++ (error ++ "\n").toUTF8.data.toList.take n := by
  intro o
  have hwrite : (net env).writeHeader { w with header := errorHeader w.header } code =
      (Response.send { w with header := errorHeader w.header } code false, none) :=
    writeHeader_valid hcode
  have ho : o = ⟨((Response.send { w with header := errorHeader w.header } code false).write env
      (error ++ "\n").toUTF8.data.toList).1, [], none⟩ := by
    refine (run_writeHeader (congrArg Prod.snd hwrite)).trans ?_
    rw [hwrite]
    rfl
  rw [ho]
  exact ⟨rfl, rfl, send_write { w with header := errorHeader w.header } code env _⟩

end

/-! ## A wrapper that counts -/

/-- The writer behind it, whether it has passed a status on, which one, and the bytes. -/
structure Counter where
  target : Response
  wroteHeader : Bool
  code : Int
  bytes : Nat

/-- A status is passed on, if none has been. -/
def Counter.writeHeader (c : Counter) (code : Int) : Counter × Option String :=
  if c.wroteHeader then (c, none)
  else
    ({ c with wroteHeader := true, code := code, target := (c.target.writeHeader code).1 },
      (c.target.writeHeader code).2)

/-- A write, with a status in front. -/
def Counter.write (c : Counter) (env : Env) (bs : List UInt8) : Counter × Nat :=
  let c := (c.writeHeader statusOK).1
  ({ c with target := (c.target.write env bs).1, bytes := c.bytes + (c.target.write env bs).2 },
    (c.target.write env bs).2)

/-- A wrapper that counts the bytes, and remembers the status. -/
def counting (env : Env) : WrapResponseWriter Counter where
  writer :=
    { header := fun c => c.target.header
      setHeader := fun c h => { c with target := { c.target with header := h } }
      writeHeader := Counter.writeHeader
      write := fun c => c.write env
      flush := fun c => { c with wroteHeader := true, target := c.target.flush }
      hijack := fun c => ({ c with target := (c.target.hijack env).1 }, (c.target.hijack env).2) }
  new w := ⟨w, false, 0, 0⟩
  unwrap := Counter.target
  status := Counter.code
  bytesWritten := Counter.bytes

/-- What it knows of the response. -/
structure Counts (c : Counter) : Prop where
  wroteHeader : c.wroteHeader = true → c.target.sent ≠ none ∨ c.target.hijacked = true
  sent : ∀ sent, c.target.sent = some sent →
    c.wroteHeader = true ∧ (c.code = sent.code ∨ c.code = 0 ∧ sent.own = true)
  unsent : c.target.sent = none → c.target.hijacked = false → c.code = 0
  bytes : c.bytes = c.target.body.length

section

variable {c : Counter} {env : Env} {code : Int} {bs : List UInt8}

/-- **A status** goes through. -/
theorem Counts.writeHeader (h : Counts c) (hcode : ValidCode code) :
    Counts (c.writeHeader code).1 ∧
      (c.writeHeader code).1.target = c.target.send code false ∧ (c.writeHeader code).2 = none ∧
      ((c.writeHeader code).1.target.sent ≠ none ∨
        (c.writeHeader code).1.target.hijacked = true) := by
  unfold Counter.writeHeader
  rw [writeHeader_valid hcode]
  split
  · next hwrote => exact ⟨h, (send_of_sent (h.wroteHeader hwrote)).symm, rfl, h.wroteHeader hwrote⟩
  · next hwrote =>
    have hsent : c.target.sent = none := by
      by_contra hsent
      obtain ⟨sent, hsent⟩ := Option.ne_none_iff_exists'.1 hsent
      exact hwrote (h.sent sent hsent).1
    cases hhijacked : c.target.hijacked with
    | true =>
      rw [send_of_sent (.inr hhijacked)]
      refine ⟨⟨fun _ => .inr hhijacked, fun sent hs => ?_, fun _ hh => ?_, h.bytes⟩, rfl, rfl,
        .inr hhijacked⟩
      · cases hsent.symm.trans hs
      · cases hhijacked.symm.trans hh
    | false =>
      rw [send_new hsent hhijacked]
      refine ⟨⟨fun _ => .inl (by simp), fun sent hs => ?_, fun hnone => (by cases hnone), h.bytes⟩,
        rfl, rfl, .inl (by simp)⟩
      cases hs
      exact ⟨rfl, .inl rfl⟩

/-- A write behind a status. -/
theorem write_behind (env : Env) (bs : List UInt8) {w : Response}
    (h : w.sent ≠ none ∨ w.hijacked = true) :
    (w.write env bs).1.sent = w.sent ∧ (w.write env bs).1.hijacked = w.hijacked ∧
      (w.write env bs).1.body.length = w.body.length + (w.write env bs).2 := by
  refine ⟨write_sent h, ?_⟩
  unfold Response.write
  rw [send_of_sent h]
  split
  · exact ⟨rfl, rfl⟩
  · refine ⟨rfl, ?_⟩
    simp

/-- A write sends the status in front. -/
theorem write_send {w : Response} : (w.send statusOK false).write env bs = w.write env bs := by
  by_cases h : w.sent ≠ none ∨ w.hijacked = true
  · rw [send_of_sent h]
  · obtain ⟨hsent, hhijacked⟩ := not_or.1 h
    have hfirst : w.send statusOK false = { w with sent := some ⟨statusOK, w.header, false⟩ } :=
      send_new (not_not.1 hsent) (Bool.eq_false_iff.2 hhijacked)
    have hagain : (w.send statusOK false).send statusOK false = w.send statusOK false :=
      send_of_sent (.inl (by simp [hfirst]))
    have hopen : (w.send statusOK false).hijacked = w.hijacked := by rw [hfirst]
    unfold Response.write
    rw [hagain, hopen, Bool.eq_false_iff.2 hhijacked]
    rfl

/-- **A write** goes through, and is counted. -/
theorem Counts.write (h : Counts c) :
    Counts (c.write env bs).1 ∧ (c.write env bs).1.target = (c.target.write env bs).1 ∧
      (c.write env bs).2 = (c.target.write env bs).2 := by
  have hok : ValidCode statusOK := by decide
  obtain ⟨hcounts, htarget, -, hbehind⟩ := h.writeHeader hok
  obtain ⟨hsent, hhijacked, hlength⟩ := write_behind env bs hbehind
  have hwrite : (c.writeHeader statusOK).1.target.write env bs = c.target.write env bs := by
    rw [htarget, write_send]
  refine ⟨⟨fun _ => ?_, fun sent hs => ?_, fun hnone hopen => ?_, ?_⟩, congrArg Prod.fst hwrite,
    congrArg Prod.snd hwrite⟩
  · show ((c.writeHeader statusOK).1.target.write env bs).1.sent ≠ none ∨
      ((c.writeHeader statusOK).1.target.write env bs).1.hijacked = true
    rw [hsent, hhijacked]
    exact hbehind
  · exact hcounts.sent sent (hsent.symm.trans hs)
  · exact hcounts.unsent (hsent.symm.trans hnone) (hhijacked.symm.trans hopen)
  · show (c.writeHeader statusOK).1.bytes + _ = _
    rw [hcounts.bytes]
    exact hlength.symm

/-- **A flush.** -/
theorem Counts.flush (h : Counts c) :
    Counts { c with wroteHeader := true, target := c.target.flush } := by
  by_cases hsent : c.target.sent ≠ none ∨ c.target.hijacked = true
  · have hflush : c.target.flush = c.target := send_of_sent hsent
    rw [hflush]
    exact ⟨fun _ => hsent, fun sent hs => ⟨rfl, (h.sent sent hs).2⟩, h.unsent, h.bytes⟩
  · obtain ⟨hnone, hhijacked⟩ := not_or.1 hsent
    have hopen := Bool.eq_false_iff.2 hhijacked
    have hflush : c.target.flush = { c.target with sent := some ⟨statusOK, c.target.header, true⟩ } :=
      send_new (not_not.1 hnone) hopen
    rw [hflush]
    refine ⟨fun _ => .inl (by simp), fun sent hs => ?_, fun hs => (by cases hs), h.bytes⟩
    cases hs
    exact ⟨rfl, .inr ⟨h.unsent (not_not.1 hnone) hopen, rfl⟩⟩

/-- **What is used with valid codes** knows the response. -/
theorem counts_of_used (h : Used (counting env) c) : Counts c := by
  induction h with
  | new header =>
    exact ⟨fun hwrote => (by cases hwrote), fun _ hs => (by cases hs), fun _ _ => rfl, rfl⟩
  | setHeader _ header ih => exact ⟨ih.wroteHeader, ih.sent, ih.unsent, ih.bytes⟩
  | writeHeader _ hcode ih => exact (ih.writeHeader hcode).1
  | write _ bs ih => exact ih.write.1
  | flush _ ih => exact ih.flush
  | @hijack c _ ih =>
    have hbody : ((c.target.hijack env).1.sent = c.target.sent ∧
        (c.target.hijack env).1.body = c.target.body) ∧
        (c.target.hijacked = true → (c.target.hijack env).1.hijacked = true) := by
      unfold Response.hijack
      split
      · exact ⟨⟨rfl, rfl⟩, fun _ => rfl⟩
      · exact ⟨⟨rfl, rfl⟩, id⟩
    obtain ⟨⟨hsent, hbytes⟩, hhijacked⟩ := hbody
    refine ⟨fun hwrote => ?_, fun sent hs => ih.sent sent (hsent.symm.trans hs),
      fun hnone hopen => ?_, ih.bytes.trans (congrArg List.length hbytes.symm)⟩
    · exact (ih.wroteHeader hwrote).imp (fun hs => by rwa [← hsent] at hs) hhijacked
    · refine ih.unsent (hsent.symm.trans hnone) (Bool.eq_false_iff.2 fun hh => ?_)
      cases (hhijacked hh).symm.trans hopen

/-- **It is what a package may say of its wrapper.** -/
theorem documented_counting (env : Env) : Documented env (counting env) where
  new _ := rfl
  header _ _ := rfl
  setHeader _ _ _ := rfl
  writeHeader c code hc hcode := by
    obtain ⟨-, htarget, hnone, -⟩ := (counts_of_used hc).writeHeader hcode
    refine Prod.ext ?_ ?_
    · exact htarget.trans (congrArg Prod.fst (writeHeader_valid hcode)).symm
    · exact hnone.trans (congrArg Prod.snd (writeHeader_valid hcode)).symm
  write c bs hc := Prod.ext (counts_of_used hc).write.2.1 (counts_of_used hc).write.2.2
  flush _ _ := rfl
  hijack _ _ := rfl
  status c hc hopen := by
    have hcounts := counts_of_used hc
    show Tells c.code c.target.sent
    cases hsent : c.target.sent with
    | none => exact hcounts.unsent hsent hopen
    | some sent => exact (hcounts.sent sent hsent).2
  bytesWritten _ hc := (counts_of_used hc).bytes

end

end UAssign.Http

import UAssign.Go.Http

/-!
# The way of a request

`App.route` (`app/route.go`) puts four middlewares in front of every handler: the logger of
`pkg/ctxlog`, and `RequestID`, `RequestLogger` and `Recoverer` of `uamid`. `middlewares_serve` is
what any handler behind them does: what it does alone, with a request ID, an answer to a panic and
one log entry, which tells the truth; `middlewares_answer` is what the client sees of it. The `cors`
handler in front of them answers preflight requests itself, and may have set other headers.
-/

namespace UAssign.Middleware

open Http

/-! ## Logs -/

/-- The levels that are used here. -/
inductive Level where
  | info
  | warn
  | error
  deriving DecidableEq

/-- The message of an entry, with its fields: that of `RequestLogger`, less the duration, that of
`Recoverer`, or one of a handler. -/
inductive Record where
  | httpRequest (method url proto : String) (status : Int) (size : Nat)
  | panic (value : String)
  | message (msg : String)
  deriving DecidableEq

/-- An entry, with the fields of its logger. -/
structure Entry where
  level : Level
  fields : List (String × String)
  record : Record
  deriving DecidableEq

/-- A `zap.Logger`. -/
structure Logger where
  enabled : Level → Bool
  fields : List (String × String)

/-- `zap.NewNop`. -/
def nopLogger : Logger := ⟨fun _ => false, []⟩

/-- `Logger.With`. -/
def Logger.extend (logger : Logger) (fields : List (String × String)) : Logger :=
  { logger with fields := logger.fields ++ fields }

/-- What a logger writes. -/
def Logger.entries (logger : Logger) (level : Level) (record : Record) : List Entry :=
  if logger.enabled level then [⟨level, logger.fields, record⟩] else []

/-! ## Requests -/

/-- The values in the context of a request. -/
structure Context where
  logger : Option Logger
  requestID : Option String

/-- A request. -/
structure Request where
  method : String
  requestURI : String
  proto : String
  header : Header
  ctx : Context

/-- `http.Handler`, over the states of a writer. -/
abbrev Handler (σ : Type) : Type := Request → σ → Out σ Entry

/-- What a handler does, on a writer. -/
def serve {σ : Type} (W : Writer σ) (handler : Request → Prog Entry) : Handler σ := fun r w =>
  (handler r).run W w

/-- `ctxlog.FromContext`. -/
def fromContext (ctx : Context) : Logger := ctx.logger.getD nopLogger

/-- `ctxlog.FromRequest`. -/
def fromRequest (r : Request) : Logger := fromContext r.ctx

/-- `ctxlog.WithLogger`. -/
def withLogger (ctx : Context) (logger : Logger) : Context := { ctx with logger := some logger }

/-- `ctxlog.FromContextWith`. -/
def fromContextWith (ctx : Context) (fields : List (String × String)) : Context × Logger :=
  if fields = [] then (ctx, fromContext ctx)
  else
    let logger := (fromContext ctx).extend fields
    (withLogger ctx logger, logger)

/-! ## Middlewares -/

section

variable {σ κ : Type}

/-- `ctxlog.Logger`. -/
def logger (logger : Logger) (next : Handler σ) : Handler σ := fun r w =>
  next { r with ctx := withLogger r.ctx logger } w

/-- `requestIDHeader`, as the keys of a header are kept. -/
def requestIDHeader : String := "X-Request-Id"

/-- The ID of a request: the client's if it is of a fair length, else a new one. -/
def requestIDOf (newULID : String) (r : Request) : String :=
  let requestID := r.header.get requestIDHeader
  if requestID.utf8ByteSize < 20 ∨ requestID.utf8ByteSize > 200 then newULID else requestID

/-- `uamid.RequestID`. -/
def requestID (W : Writer σ) (newULID fieldKey : String) (next : Handler σ) : Handler σ := fun r w =>
  let requestID := requestIDOf newULID r
  let ctx := { r.ctx with requestID := some requestID }
  let ctx := if fieldKey ≠ "" then (fromContextWith ctx [(fieldKey, requestID)]).1 else ctx
  next { r with ctx := ctx } (W.setHeader w ((W.header w).set requestIDHeader requestID))

/-- `uamid.GetRequestID`. -/
def getRequestID (r : Request) : String := r.ctx.requestID.getD ""

/-- `uamid.RequestLogger`: its deferred function logs what the wrapper tells, and a panic goes on. -/
def requestLogger (wrap : WrapResponseWriter κ) (next : Handler κ) : Handler Response := fun r w =>
  let o := next r (wrap.new w)
  { writer := wrap.unwrap o.writer
    logs := o.logs ++ (fromRequest r).entries .info
      (.httpRequest r.method r.requestURI r.proto (wrap.status o.writer)
        (wrap.bytesWritten o.writer))
    panicked := o.panicked }

/-- `http.StatusText` of `http.StatusInternalServerError`. -/
def internalServerErrorText : String := "Internal Server Error"

/-- `uamid.Recoverer`: `recover` ends any panic, and returns its value, which may be `nil`. -/
def recoverer (W : Writer σ) (next : Handler σ) : Handler σ := fun r w =>
  let o := next r w
  match o.panicked with
  | none | some none => { o with panicked := none }
  | some (some value) =>
    ((httpError internalServerErrorText statusInternalServerError).run W o.writer).after
      (o.logs ++ (fromRequest r).entries .error (.panic value))

/-- The middlewares of `App.route`. -/
def middlewares (env : Env) (wrap : WrapResponseWriter κ) (log : Logger) (newULID : String)
    (handler : Request → Prog Entry) : Handler Response :=
  logger log (requestID (net env) newULID "request_id"
    (requestLogger wrap (recoverer wrap.writer (serve wrap.writer handler))))

end

/-! ## What a handler does behind them -/

/-- The request that the handler is given. -/
def tagged (log : Logger) (newULID : String) (r : Request) : Request :=
  { r with ctx :=
      ⟨some (log.extend [("request_id", requestIDOf newULID r)]), some (requestIDOf newULID r)⟩ }

/-- The response as the handler finds it, with this header in front of the middlewares. -/
def greeted (header : Header) (id : String) : Response :=
  { Response.new with header := header.set requestIDHeader id }

/-- The handler alone. -/
def alone (env : Env) (log : Logger) (newULID : String) (handler : Request → Prog Entry)
    (r : Request) (header : Header) : Out Response Entry :=
  (handler (tagged log newULID r)).run (net env) (greeted header (requestIDOf newULID r))

/-- What is left to do for a handler that has panicked with a value. -/
def answered (env : Env) (o : Out Response Entry) : Response :=
  match o.panicked with
  | none | some none => o.writer
  | some (some _) =>
    ((httpError (E := Entry) internalServerErrorText statusInternalServerError).run (net env)
      o.writer).writer

/-- What is logged of it. -/
def reported (log : Logger) (o : Out Response Entry) : List Entry :=
  match o.panicked with
  | none | some none => []
  | some (some value) => log.entries .error (.panic value)

section

variable {κ : Type} {env : Env} {wrap : WrapResponseWriter κ} {log : Logger} {newULID : String}
  {handler : Request → Prog Entry} {r : Request} {header : Header}

/-- The middlewares put the handler, recovered, on a wrapped writer. -/
theorem run_middlewares : middlewares env wrap log newULID handler r
      { Response.new with header := header } =
    requestLogger wrap (recoverer wrap.writer (serve wrap.writer handler)) (tagged log newULID r)
      (greeted header (requestIDOf newULID r)) := rfl

theorem validCode_internalServerError : ValidCode statusInternalServerError := by decide

/-- **What `Recoverer` leaves of a handler** on a wrapped writer: what the handler does alone, and
the answer to its panic. -/
theorem run_recoverer (hdoc : Documented env wrap) (hvalid : ∀ r, (handler r).Valid)
    (log : Logger) (newULID : String) (r : Request) (header : Header) :
    let own := alone env log newULID handler r header
    let o := recoverer wrap.writer (serve wrap.writer handler) (tagged log newULID r)
      (wrap.new (greeted header (requestIDOf newULID r)))
    Used wrap o.writer ∧ wrap.unwrap o.writer = answered env own ∧
      o.logs = own.logs ++ reported (fromRequest (tagged log newULID r)) own ∧
      o.panicked = none := by
  intro own o
  -- the handler, on the wrapped writer
  let inner := (handler (tagged log newULID r)).run wrap.writer
    (wrap.new (greeted header (requestIDOf newULID r)))
  have hnew := hdoc.new (greeted header (requestIDOf newULID r))
  have hrun : Used wrap inner.writer ∧ wrap.unwrap inner.writer = own.writer ∧
      inner.logs = own.logs ∧ inner.panicked = own.panicked := by
    have hrun := run_wrapped hdoc (hvalid (tagged log newULID r))
      (Used.new (header.set requestIDHeader (requestIDOf newULID r)))
    rwa [show (⟨_, _, _, _⟩ : Response) = greeted header (requestIDOf newULID r) from rfl,
      hnew] at hrun
  obtain ⟨hused, hunwrap, hlogs, hpanicked⟩ := hrun
  have ho : o = match inner.panicked with
      | none | some none => { inner with panicked := none }
      | some (some value) =>
        ((httpError internalServerErrorText statusInternalServerError).run wrap.writer
          inner.writer).after
          (inner.logs ++ (fromRequest (tagged log newULID r)).entries .error (.panic value)) := rfl
  rw [hpanicked] at ho
  unfold answered reported
  split at ho
  · rw [ho]
    exact ⟨hused, hunwrap, hlogs.trans (List.append_nil _).symm, rfl⟩
  · rw [ho]
    exact ⟨hused, hunwrap, hlogs.trans (List.append_nil _).symm, rfl⟩
  · have hvalid' : Prog.Valid (E := Entry)
        (httpError internalServerErrorText statusInternalServerError) :=
      valid_httpError validCode_internalServerError
    obtain ⟨hused', hunwrap', hlogs', hpanicked'⟩ := run_wrapped hdoc hvalid' hused
    obtain ⟨hreturns, hquiet, -⟩ := run_httpError (E := Entry) internalServerErrorText
      validCode_internalServerError env (wrap.unwrap inner.writer)
    rw [ho]
    refine ⟨hused', hunwrap'.trans (by rw [hunwrap]), ?_, hpanicked'.trans hreturns⟩
    rw [Out.after, hlogs', hquiet, hlogs, List.append_nil]

/-- What the entry of a request says of its response: the status that the client gets, or 0 if the
server has sent its own, and the bytes that have been taken. -/
def Truthful (status : Int) (size : Nat) (w : Response) : Prop :=
  size = w.body.length ∧
    (w.hijacked = false → ∃ sent, w.finish.sent = some sent ∧
      (status = sent.code ∨ status = 0 ∧ sent.own = true))

/-- What the middlewares do, with what the wrapper tells. -/
theorem run_middlewares_alone (hdoc : Documented env wrap) (hvalid : ∀ r, (handler r).Valid)
    (log : Logger) (newULID : String) (r : Request) (header : Header) :
    let own := alone env log newULID handler r header
    ∃ status size, Truthful status size (answered env own) ∧
      middlewares env wrap log newULID handler r { Response.new with header := header } =
        ⟨answered env own,
          own.logs ++ reported (fromRequest (tagged log newULID r)) own ++
            (fromRequest (tagged log newULID r)).entries .info
              (.httpRequest r.method r.requestURI r.proto status size), none⟩ := by
  intro own
  let inner := recoverer wrap.writer (serve wrap.writer handler) (tagged log newULID r)
    (wrap.new (greeted header (requestIDOf newULID r)))
  obtain ⟨hused, hunwrap, hlogs, hpanicked⟩ : Used wrap inner.writer ∧
      wrap.unwrap inner.writer = answered env own ∧
      inner.logs = own.logs ++ reported (fromRequest (tagged log newULID r)) own ∧
      inner.panicked = none := run_recoverer hdoc hvalid log newULID r header
  refine ⟨wrap.status inner.writer, wrap.bytesWritten inner.writer, ⟨?_, fun hopen => ?_⟩, ?_⟩
  · rw [hdoc.bytesWritten _ hused, hunwrap]
  · rw [← hunwrap] at hopen ⊢
    exact (hdoc.status _ hused hopen).finish hopen
  · rw [run_middlewares, ← hunwrap, ← hlogs, ← hpanicked]
    rfl

end

/-- A server that takes what is written. -/
def plainEnv : Env := ⟨fun _ bs => bs.length, false⟩

/-- A logger that writes everything. -/
def verboseLogger : Logger := ⟨fun _ => true, []⟩

/-- A request without an ID. -/
def getSpec : Request := ⟨"GET", "/spec", "HTTP/1.1", fun _ => none, ⟨none, none⟩⟩

/-- A handler that panics behind a warning. -/
def panicking : Request → Prog Entry := fun r =>
  .log ⟨.warn, (fromRequest r).fields, .message "late"⟩ (.panic (some "boom"))

/-- The response to its request. -/
def panickingOut : Out Response Entry :=
  middlewares plainEnv (counting plainEnv) verboseLogger "01ARZ3NDEKTSV4RRFFQ69G5FAV" panicking
    getSpec { Response.new with header := fun _ => none }

end UAssign.Middleware

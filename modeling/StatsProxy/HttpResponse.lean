import StatsProxy.Dispatch
import StatsProxy.ReporterSetting

/-! The bytes of an answer. A response is a status line, header fields and an empty
line before the body; what is printed first decides whether an answer is one. -/
namespace StatsProxy
open CString Interaction Program

/-- The fields of `struct tm` that a date shows. -/
structure Tm where
  wday : Fin 7
  mday : Fin 32
  mon : Fin 12
  year : Nat
  hour : Fin 24
  min : Fin 60
  sec : Fin 61

def weekdays : Vector Bytes 7 :=
  #v[ascii "Sun", ascii "Mon", ascii "Tue", ascii "Wed", ascii "Thu", ascii "Fri", ascii "Sat"]

/-- A number below 100 with two digits. -/
def twoDigits (n : Nat) : Bytes := [UInt8.ofNat (48 + n / 10), UInt8.ofNat (48 + n % 10)]

/-- `strftime` with `%a %d %m %Y %H:%M:%S`. -/
def rfc1123date (tm : Tm) : Bytes :=
  weekdays[tm.wday] ++ ascii " " ++ twoDigits tm.mday ++ ascii " " ++ twoDigits (tm.mon.val + 1) ++
    ascii " " ++ printDecimal tm.year ++ ascii " " ++ twoDigits tm.hour ++ ascii ":" ++
    twoDigits tm.min ++ ascii ":" ++ twoDigits tm.sec

def crlf : Bytes := ascii "\r\n"

def writeHttpHeader (now : Tm) (mimeType : Bytes) : Bytes :=
  ascii "HTTP/1.1 200 OK\r\n" ++
    (ascii "X-Date: " ++ rfc1123date now ++ crlf) ++
    ascii "Server: Gear6 Memcached\r\n" ++
    ascii "MIME-version: 1.0\r\n" ++
    (ascii "Last-Modified: " ++ rfc1123date now ++ crlf) ++
    ascii "Cache-Control: no-cache\r\n" ++
    (ascii "Content-type: " ++ mimeType ++ crlf) ++ crlf

/-- What a print depends on: the time, and all text that is not fixed. -/
structure Surroundings where
  now : Tm
  page : Output → Bytes

def httpMovePerm : Nat := 301

/-- A status line alone. -/
def httpStatus (httpCode : Nat) (reason : String) : Bytes :=
  ascii "HTTP/1.1 " ++ printDecimal httpCode ++ ascii (" " ++ reason ++ "\r\n")

def clntRedirect (httpCode : Nat) (uri : Bytes) : Bytes :=
  if httpCode = httpMovePerm ∨ httpCode = httpMoveTemp then
    httpStatus httpCode "Found" ++ ascii "Location: " ++ uri ++ crlf
  else httpStatus httpCode "ERROR"

/-- `ERR_404`. -/
def err404 (uri : Bytes) : Bytes :=
  ascii "<html><head><title>404 Not Found</title></head><body><h1>Not Found</h1>" ++
    ascii "<p>The requested URL " ++ uri ++ ascii " was not found on this server.</p>" ++
    ascii "</body></html>\n"

/-- The error answers to a web client. -/
def clntError (env : Surroundings) (httpCode : Nat) (uri : Bytes) : Bytes :=
  if httpCode = httpNotFound then err404 uri
  else if httpCode = httpServUnavail then
    writeHttpHeader env.now (ascii "text/html") ++ env.page (.clientError httpCode uri)
  else httpStatus httpCode "ERROR"

/-- The bytes of a print to a web client. A text is fixed up to its first directive. -/
def Output.bytes (env : Surroundings) : Output → Bytes
  | .httpHeader mimeType => writeHttpHeader env.now mimeType
  | .redirect httpCode uri => clntRedirect httpCode uri
  | .clientError httpCode uri => clntError env httpCode uri
  | .text format => format.takeWhile (· ≠ 37) ++ env.page (.text format)
  | o => env.page o

def ClientEvent.bytes (env : Surroundings) : ClientEvent → Bytes
  | .print o => o.bytes env
  | _ => []

/-- All that is written to the client; the surroundings change from event to event. -/
def answerBytes : (Nat → Surroundings) → List ClientEvent → Bytes
  | _, [] => []
  | env, e :: log => e.bytes (env 0) ++ answerBytes (fun i => env (i+1)) log

/-- A line of a header. -/
def HeaderLine (line : Bytes) : Prop := 13 ∉ line ∧ 10 ∉ line

instance (line : Bytes) : Decidable (HeaderLine line) := inferInstanceAs (Decidable (_ ∧ _))

/-- A status line, header fields and an empty line, and then the body. -/
def HttpResponse (bytes : Bytes) : Prop :=
  ∃ (code reason : Bytes) (fields : List Bytes) (body : Bytes),
    bytes = ascii "HTTP/1.1 " ++ code ++ ascii " " ++ reason ++ crlf ++
      fields.flatMap (· ++ crlf) ++ crlf ++ body ∧
    code.length = 3 ∧ (∀ ch ∈ code, isDigit ch = true) ∧ HeaderLine reason ∧
    ∀ field ∈ fields, HeaderLine field ∧ 58 ∈ field

/-- The answer is complete: the request was served, or a null stream was used. -/
def Ended {α : Type} (r : Result ClientEvent ClientAnswer α) : Prop :=
  (∃ a log rest, r = .done a log rest) ∨ .crash ∈ r.trace

def ClientEvent.prints : ClientEvent → Bool
  | .print _ => true
  | _ => false

/-- Where this happens, `mcr-enable` and `mcr-disable` do not answer with an error page:
the reporter host is not found, the stream is null, or the reporter confirms. -/
def ClientEvent.unrefused : ClientEvent → Bool
  | .host2addr none | .fdopen false => true
  | .fgets (some line) => cString line = endLine
  | _ => false

/-- The reporter refused an operation, or could not be reached. -/
def OpRefused (log : List ClientEvent) : Prop := ∀ e ∈ log, e.unrefused = false

/-- The callback has an answer of its own for the target. -/
def Served (bep : Backend) (target : Bytes) : Callback → Prop
  | .reporter => baseUri target ∈ branchUris
  | .image => 63 ∉ target
  | .stats => ∃ entry, bep.uris.find? (·.uri = decodedTarget target) = some entry

section

variable {env : Nat → Surroundings} {log : List ClientEvent} {α β : Type}

theorem HttpResponse.head {bytes : Bytes} (h : HttpResponse bytes) : bytes.head? = some 72 := by
  obtain ⟨code, reason, fields, body, rfl, -⟩ := h
  rfl

theorem HttpResponse.emptyLine {bytes : Bytes} (h : HttpResponse bytes) :
    crlf ++ crlf <:+: bytes := by
  obtain ⟨code, reason, fields, body, rfl, -⟩ := h
  rcases List.eq_nil_or_concat' fields with rfl | ⟨front, last, rfl⟩
  · exact ⟨ascii "HTTP/1.1 " ++ code ++ ascii " " ++ reason, body, by simp⟩
  · exact ⟨ascii "HTTP/1.1 " ++ code ++ ascii " " ++ reason ++ crlf ++
      front.flatMap (· ++ crlf) ++ last, body, by simp⟩

theorem headerLine_append {left right : Bytes} (hl : HeaderLine left) (hr : HeaderLine right) :
    HeaderLine (left ++ right) := by
  unfold HeaderLine at *
  simp only [List.mem_append, not_or]
  exact ⟨⟨hl.1, hr.1⟩, hl.2, hr.2⟩

theorem headerLine_digits {text : Bytes} (h : ∀ ch ∈ text, isDigit ch = true) : HeaderLine text :=
  ⟨fun hmem => absurd (h _ hmem) (by decide), fun hmem => absurd (h _ hmem) (by decide)⟩

theorem headerLine_twoDigits {n : Nat} (h : n < 100) : HeaderLine (twoDigits n) := by
  apply headerLine_digits
  intro ch hch
  simp only [twoDigits, List.mem_cons, List.not_mem_nil, or_false] at hch
  rcases hch with rfl | rfl
  · exact (digit_ofNat (by omega)).1
  · exact (digit_ofNat (by omega)).1

theorem headerLine_printDecimal (n : Nat) : HeaderLine (printDecimal n) :=
  headerLine_digits (isDigit_printDecimal n)

theorem headerLine_date (tm : Tm) : HeaderLine (rfc1123date tm) := by
  have hday : ∀ day : Fin 7, HeaderLine weekdays[day] := by decide
  have hblank : HeaderLine (ascii " ") := by decide
  have hcolon : HeaderLine (ascii ":") := by decide
  unfold rfc1123date
  repeat' apply headerLine_append
  all_goals first
    | exact hday _
    | exact hblank
    | exact hcolon
    | exact headerLine_printDecimal _
    | exact headerLine_twoDigits (by omega)

theorem headerLine_html : HeaderLine (ascii "text/html") := by decide

/-- The fields of a header. -/
def headerFields (now : Tm) (mimeType : Bytes) : List Bytes :=
  [ascii "X-Date: " ++ rfc1123date now, ascii "Server: Gear6 Memcached",
    ascii "MIME-version: 1.0", ascii "Last-Modified: " ++ rfc1123date now,
    ascii "Cache-Control: no-cache", ascii "Content-type: " ++ mimeType]

theorem writeHttpHeader_fields (now : Tm) (mimeType : Bytes) : writeHttpHeader now mimeType =
    ascii "HTTP/1.1 " ++ ascii "200" ++ ascii " " ++ ascii "OK" ++ crlf ++
      (headerFields now mimeType).flatMap (· ++ crlf) ++ crlf := by
  have hstatus : ascii "HTTP/1.1 200 OK\r\n" =
      ascii "HTTP/1.1 " ++ ascii "200" ++ ascii " " ++ ascii "OK" ++ crlf := by decide
  have hserver : ascii "Server: Gear6 Memcached\r\n" = ascii "Server: Gear6 Memcached" ++ crlf := by
    decide
  have hversion : ascii "MIME-version: 1.0\r\n" = ascii "MIME-version: 1.0" ++ crlf := by decide
  have hcache : ascii "Cache-Control: no-cache\r\n" = ascii "Cache-Control: no-cache" ++ crlf := by
    decide
  simp only [writeHttpHeader, headerFields, hstatus, hserver, hversion, hcache,
    List.flatMap_cons, List.flatMap_nil, List.append_assoc, List.append_nil]

theorem headerFields_line (now : Tm) {mimeType : Bytes} (hmime : HeaderLine mimeType) :
    ∀ field ∈ headerFields now mimeType, HeaderLine field ∧ 58 ∈ field := by
  have hdate := headerLine_date now
  have hname : ∀ {name rest : Bytes}, HeaderLine name ∧ 58 ∈ name → HeaderLine rest →
      HeaderLine (name ++ rest) ∧ 58 ∈ name ++ rest :=
    fun h hrest => ⟨headerLine_append h.1 hrest, List.mem_append_left _ h.2⟩
  intro field hfield
  simp only [headerFields, List.mem_cons, List.not_mem_nil, or_false] at hfield
  rcases hfield with rfl | rfl | rfl | rfl | rfl | rfl
  · exact hname (by decide) hdate
  · decide
  · decide
  · exact hname (by decide) hdate
  · decide
  · exact hname (by decide) hmime

theorem header_response (now : Tm) {mimeType : Bytes} (hmime : HeaderLine mimeType)
    (body : Bytes) : HttpResponse (writeHttpHeader now mimeType ++ body) := by
  refine ⟨ascii "200", ascii "OK", headerFields now mimeType, body, ?_, by decide,
    by decide +kernel, by decide, headerFields_line now hmime⟩
  rw [writeHttpHeader_fields]

theorem answerBytes_append {front : List ClientEvent} (h : ∀ e ∈ front, e.prints = false)
    (env : Nat → Surroundings) (back : List ClientEvent) : ∃ env',
    answerBytes env (front ++ back) = answerBytes env' back := by
  induction front generalizing env with
  | nil => exact ⟨env, rfl⟩
  | cons e front ih =>
    rw [List.forall_mem_cons] at h
    obtain ⟨env', henv⟩ := ih h.2 (fun i => env (i+1))
    refine ⟨env', ?_⟩
    rw [List.cons_append, answerBytes, henv]
    cases e with
    | print o => exact nomatch h.1
    | _ => rfl

/-- A complete answer of the program is a response exactly if its events meet `P`. -/
def Answers (P : List ClientEvent → Prop) (m : Client α) : Prop :=
  ∀ inputs env, Ended (m.exec () inputs) →
    (HttpResponse (answerBytes env (m.exec () inputs).trace) ↔ P (m.exec () inputs).trace)

theorem Answers.congr {P Q : List ClientEvent → Prop} {m : Client α} (hm : Answers P m)
    (h : ∀ log, P log ↔ Q log) : Answers Q m :=
  fun inputs env hended => (hm inputs env hended).trans (h _)

/-- Every run of the program starts with this print. -/
def StartsWith (o : Output) (m : Client α) : Prop :=
  ∀ inputs, ∃ more, (m.exec () inputs).trace = .print o :: more

theorem startsWith_print (o : Output) : StartsWith o (print o) :=
  fun _ => ⟨[], rfl⟩

theorem StartsWith.bind {o : Output} {m : Client α} (h : StartsWith o m) (k : α → Client β) :
    StartsWith o (m >>= k) := by
  intro inputs
  obtain ⟨more, hm⟩ := h inputs
  rw [bind_exec]
  cases hr : m.exec () inputs with
  | done a log rest =>
    rw [hr] at hm
    rw [Result.trace_prepend]
    exact ⟨more ++ _, congrArg (· ++ _) hm⟩
  | waiting log =>
    rw [hr] at hm
    exact ⟨more, hm⟩
  | failed log =>
    rw [hr] at hm
    exact ⟨more, hm⟩

theorem answers_header {P : List ClientEvent → Prop} {m : Client α} {mimeType : Bytes}
    (h : StartsWith (.httpHeader mimeType) m) (hmime : HeaderLine mimeType) (hP : ∀ log, P log) :
    Answers P m := by
  intro inputs env _
  obtain ⟨more, hm⟩ := h inputs
  rw [hm]
  exact iff_of_true (header_response _ hmime _) (hP _)

/-- The answer is the text of `ERR_404`. -/
theorem answers_notFound {P : List ClientEvent → Prop} {m : Client α} {uri : Bytes}
    (h : StartsWith (.clientError httpNotFound uri) m) (hP : ∀ log, ¬P log) : Answers P m := by
  intro inputs env _
  obtain ⟨more, hm⟩ := h inputs
  rw [hm]
  refine iff_of_false ?_ (hP _)
  intro hresponse
  have hfirst : (answerBytes env (.print (.clientError httpNotFound uri) :: more)).head? =
      some 60 := rfl
  rw [hresponse.head] at hfirst
  contradiction

theorem hostError_bytes (env : Nat → Surroundings) (log : List ClientEvent) :
    ¬HttpResponse (answerBytes env (.host2addr none ::
      .print (.text (ascii "<b>Error: did not find reporter host %s</b>")) :: log)) := by
  intro h
  exact absurd h.head (by
    show some 60 ≠ some 72
    decide)

/-- What an operation on an instance has done when it returns: the host was not found,
or nothing was printed and it was refused exactly if there is an error. -/
inductive OpEnded : Int → List ClientEvent → Prop
  | noHost {err : Int} (h : err ≠ 0) : OpEnded err [.host2addr none,
    .print (.text (ascii "<b>Error: did not find reporter host %s</b>"))]
  | replied {err : Int} {log : List ClientEvent} (hquiet : ∀ e ∈ log, e.prints = false)
    (h : OpRefused log ↔ err ≠ 0) : OpEnded err log

/-- What it has done while it waits. -/
def OpStopped (log : List ClientEvent) : Prop :=
  (∀ e ∈ log, e.prints = false) ∧ (.crash ∈ log → .fdopen false ∈ log)

/-- The steps from the lookup of the host on. -/
theorem wp_mcrInstanceOp (op addr : Bytes) (port a : Nat) :
    wp (fun y => OpStopped y.2) (mcrInstanceOp op addr port) (fun err y => OpEnded err y.2)
      ((), [.host2addr (some a)]) := by
  unfold mcrInstanceOp mcrCommand mcrConnectRemote
  apply wp_bind
  apply wp_bind
  apply wp_clientCall (by simp [OpStopped, ClientEvent.prints])
  intro r
  cases r with
  | error e =>
    apply wp_pure
    apply wp_pure
    apply OpEnded.replied
    · simp [Machine.after, ClientEvent.prints]
    · simp [Machine.after, OpRefused, ClientEvent.unrefused]
  | ok fd =>
    apply wp_bind
    apply wp_clientCall (by simp [Machine.after, OpStopped, ClientEvent.prints])
    intro r
    cases r with
    | error e =>
      apply wp_pure
      apply wp_bind
      apply wp_pure
      apply wp_bind
      apply wp_emit
      apply wp_pure
      apply OpEnded.replied
      · simp [Machine.after, ClientEvent.prints]
      · simp [Machine.after, OpRefused, ClientEvent.unrefused]
    | ok _ =>
      apply wp_bind
      apply wp_clientCall (by simp [Machine.after, OpStopped, ClientEvent.prints])
      intro opened
      apply wp_pure
      cases opened with
      | false =>
        apply wp_bind
        apply wp_emit
        apply wp_halt
        simp [Machine.after, OpStopped, ClientEvent.prints]
      | true =>
        apply wp_bind
        apply wp_emit
        apply wp_bind
        apply wp_bind
        apply wp_clientCall (by simp [Machine.after, OpStopped, ClientEvent.prints])
        intro r
        cases r with
        | none =>
          apply wp_pure
          apply wp_bind
          apply wp_emit
          apply wp_bind
          apply wp_emit
          apply wp_pure
          apply OpEnded.replied
          · simp [Machine.after, ClientEvent.prints]
          · simp [Machine.after, OpRefused, ClientEvent.unrefused]
        | some line =>
          apply wp_pure
          apply wp_bind
          apply wp_emit
          apply wp_bind
          apply wp_emit
          apply wp_pure
          apply OpEnded.replied
          · simp [Machine.after, ClientEvent.prints]
          · simp [Machine.after, OpRefused, ClientEvent.unrefused]

theorem wp_mcrOp (op addr : Bytes) (port : Nat) :
    wp (fun y => OpStopped y.2) (mcrOp op addr port) (fun err y => OpEnded err y.2) ((), []) := by
  unfold mcrOp withReporter mcrGetAddr
  apply wp_bind
  apply wp_bind
  apply wp_clientCall ⟨nofun, nofun⟩
  intro r
  cases r with
  | none =>
    apply wp_pure
    apply wp_bind
    apply wp_emit
    apply wp_pure
    exact .noHost (by decide)
  | some a =>
    apply wp_pure
    exact wp_mcrInstanceOp op addr port a

theorem redirect_bytes (env : Nat → Surroundings) :
    ¬HttpResponse (answerBytes env [.print (.redirect httpMoveTemp (ascii "/mcr-config"))]) := by
  intro h
  have hbytes : answerBytes env [.print (.redirect httpMoveTemp (ascii "/mcr-config"))] =
      ascii "HTTP/1.1 302 Found\r\nLocation: /mcr-config\r\n" := by
    show clntRedirect httpMoveTemp (ascii "/mcr-config") ++ [] = _
    decide +kernel
  have hempty := h.emptyLine
  rw [hbytes] at hempty
  exact absurd hempty (by decide +kernel)

theorem endOperation_unrefused (err : Int) :
    Within (fun e => e.unrefused = false) (endOperation err) := by
  have hprint : ∀ o, Within (fun e => e.unrefused = false) (print o) :=
    fun _ => within_emit rfl
  unfold endOperation endPage errorText
  split
  · apply within_bind (hprint _)
    intro _
    exact within_bind (hprint _) fun _ => hprint _
  · exact hprint _

theorem endOperation_error {err : Int} (h : err ≠ 0) :
    StartsWith (.httpHeader (ascii "text/html")) (endOperation err) := by
  unfold endOperation
  rw [if_pos h]
  exact (startsWith_print _).bind _

/-- How an operation ends is how its answer starts. -/
theorem answers_endOperation {err : Int} {log : List ClientEvent} (hop : OpEnded err log)
    (inputs : List ClientAnswer) (env : Nat → Surroundings) :
    HttpResponse (answerBytes env (log ++ ((endOperation err).exec () inputs).trace)) ↔
      OpRefused (log ++ ((endOperation err).exec () inputs).trace) := by
  cases hop with
  | noHost h =>
    refine iff_of_false (hostError_bytes env _) ?_
    intro hrefused
    exact absurd (hrefused (.host2addr none) List.mem_cons_self) (by decide)
  | replied hquiet h =>
    obtain ⟨env', hbytes⟩ := answerBytes_append hquiet env ((endOperation err).exec () inputs).trace
    rw [hbytes]
    by_cases herr : err = 0
    · subst herr
      refine iff_of_false (redirect_bytes env') ?_
      intro hrefused
      exact h.mp (fun e he => hrefused e (List.mem_append_left _ he)) rfl
    · apply iff_of_true
      · obtain ⟨more, htrace⟩ := endOperation_error herr inputs
        rw [htrace]
        exact header_response _ headerLine_html _
      · intro e he
        rcases List.mem_append.mp he with he | he
        · exact h.mpr herr e he
        · exact endOperation_unrefused err () inputs e he

/-- The answer of `mcr-enable` and `mcr-disable` is a response exactly if the operation
was refused. -/
theorem answers_mcrOp (op addr : Bytes) (port : Nat) :
    Answers OpRefused (mcrOp op addr port >>= endOperation) := by
  intro inputs env hended
  have hop := wp_mcrOp op addr port inputs
  rw [bind_exec] at hended ⊢
  cases hr : (mcrOp op addr port).exec () inputs with
  | failed log =>
    rw [hr] at hop
    exact hop.elim
  | waiting log =>
    rw [hr] at hop hended
    simp only [Result.Meets, run_prod, run_log, List.nil_append] at hop
    obtain ⟨hquiet, hcrash⟩ := hop
    have hlost : .crash ∈ log := by
      rcases hended with ⟨a, log', rest, h⟩ | h
      · contradiction
      · exact h
    obtain ⟨env', hbytes⟩ := answerBytes_append hquiet env []
    rw [List.append_nil] at hbytes
    refine iff_of_false ?_ ?_
    · intro h
      have hhead := h.head
      rw [Result.trace, hbytes] at hhead
      contradiction
    · intro h
      exact absurd (h _ (hcrash hlost)) (by decide)
  | done err log rest =>
    rw [hr] at hop
    simp only [Result.Meets, run_prod, run_log, List.nil_append] at hop
    rw [Result.trace_prepend]
    exact answers_endOperation hop _ env

/-- A run of two programs ends in the second, or crashes in the first. -/
theorem ended_bind {m : Client α} {k : α → Client β} {inputs : List ClientAnswer}
    (h : Ended ((m >>= k).exec () inputs)) : .crash ∈ (m.exec () inputs).trace ∨
      ∃ a log rest, m.exec () inputs = .done a log rest ∧ Ended ((k a).exec () rest) := by
  rcases h with ⟨b, log, rest, hdone⟩ | hcrash
  · obtain ⟨a, first, middle, last, hm, hk, -⟩ := bind_done hdone
    exact Or.inr ⟨a, first, middle, hm, Or.inl ⟨b, last, rest, hk⟩⟩
  · rw [bind_exec] at hcrash
    cases hm : m.exec () inputs with
    | waiting log => exact Or.inl (by rwa [hm] at hcrash)
    | failed log => exact Or.inl (by rwa [hm] at hcrash)
    | done a log rest =>
      rw [hm, Result.trace_prepend, List.mem_append] at hcrash
      rcases hcrash with hcrash | hcrash
      · exact Or.inl hcrash
      · exact Or.inr ⟨a, log, rest, rfl, Or.inr hcrash⟩

theorem answers_bind {P : List ClientEvent → Prop} {m : Client α} {f : α → β}
    (hm : Answers P m) : Answers P (m >>= fun a => pure (f a)) := by
  intro inputs env hended
  have htrace : ((m >>= fun a => (pure (f a) : Client β)).exec () inputs).trace =
      (m.exec () inputs).trace := by
    rw [bind_exec]
    cases m.exec () inputs with
    | done a log rest => exact (Result.trace_prepend _ _).trans (List.append_nil _)
    | waiting log => rfl
    | failed log => rfl
  rw [htrace]
  apply hm
  rcases ended_bind hended with hcrash | ⟨a, log, rest, hdone, -⟩
  · exact Or.inr hcrash
  · exact Or.inl ⟨a, log, rest, hdone⟩

/-- The condition on a reporter uri. -/
def UriServed (uri : Bytes) (p : ReporterParams) (log : List ClientEvent) : Prop :=
  uri ∈ branchUris ∧
    ∀ enable addr port, reporterUriOp uri p = some (.instanceOp enable addr port) → OpRefused log

theorem answers_reporterUri (uri : Bytes) (p : ReporterParams) :
    Answers (UriServed uri p) (reporterUri uri p) := by
  obtain ⟨addr, port, key⟩ := p
  have hpage : ∀ {P : List ClientEvent → Prop} (refresh : Option Int) (k : Unit → Client Unit),
      (∀ log, P log) → Answers P (reporterPage refresh >>= k) := by
    intro P refresh k hP
    exact answers_header (((startsWith_print _).bind _).bind k) headerLine_html hP
  unfold UriServed reporterUriOp reporterUri
  rw [mem_branchUris]
  by_cases hconfig : uri = ascii "mcr-config"
  · rw [if_pos hconfig, if_pos hconfig]
    exact hpage _ _ fun _ => ⟨Or.inl hconfig, nofun⟩
  · rw [if_neg hconfig, if_neg hconfig]
    by_cases hkeys : uri ∈ topKeysUris
    · rw [if_pos hkeys, if_pos hkeys]
      apply hpage
      intro log
      refine ⟨Or.inr (Or.inl hkeys), fun _ _ _ hop => ?_⟩
      cases addr <;> cases port <;> exact nomatch hop
    · rw [if_neg hkeys, if_neg hkeys]
      by_cases hclients : uri ∈ topClientsUris
      · rw [if_pos hclients, if_pos hclients]
        apply hpage
        intro log
        refine ⟨Or.inr (Or.inr (Or.inl hclients)), fun _ _ _ hop => ?_⟩
        cases addr <;> cases port <;> cases key <;> exact nomatch hop
      · rw [if_neg hclients, if_neg hclients]
        by_cases hop : uri ∈ mcrOpUris
        · rw [if_pos hop, if_pos hop]
          have hmissing : Answers (fun log => (uri = ascii "mcr-config" ∨ uri ∈ topKeysUris ∨
              uri ∈ topClientsUris ∨ uri ∈ mcrOpUris) ∧ ∀ enable addr port,
                none = some (ReporterOp.instanceOp enable addr port) → OpRefused log)
              (print (.httpHeader (ascii "text/html")) >>= fun _ =>
                endPage 1 (ascii "Error: addr+port+key parameters not specified")) :=
            answers_header ((startsWith_print _).bind _) headerLine_html fun _ =>
              ⟨Or.inr (Or.inr (Or.inr hop)), nofun⟩
          cases addr with
          | none => exact hmissing
          | some addr => cases port with
            | zero => exact hmissing
            | succ port =>
              intro inputs env hended
              rw [answers_mcrOp _ _ _ inputs env hended]
              constructor
              · exact fun h => ⟨Or.inr (Or.inr (Or.inr hop)), fun _ _ _ _ => h⟩
              · exact fun h => h.2 _ _ _ rfl
        · rw [if_neg hop, if_neg hop]
          apply answers_notFound (startsWith_print _)
          simp [hconfig, hkeys, hclients, hop]

theorem answers_imageCallback (uri : Bytes) :
    Answers (fun _ => uri = ascii "logo.png") (imageCallback uri) := by
  unfold imageCallback
  split
  · next h =>
    exact answers_header ((startsWith_print _).bind _) (by decide) fun _ => h
  · next h => exact answers_notFound ((startsWith_print _).bind _) fun _ => h

/-- Nothing is printed first, and no null stream is used. -/
theorem answers_quiet {p : Prop} {m : Client α} {k : α → Client β}
    (hm : Within (fun e => e.prints = false ∧ e ≠ .crash) m)
    (hk : ∀ a, Answers (fun _ => p) (k a)) : Answers (fun _ => p) (m >>= k) := by
  intro inputs env hended
  have hquiet := hm () inputs
  rcases ended_bind hended with hcrash | ⟨a, log, rest, hdone, hlast⟩
  · exact absurd rfl (hquiet _ hcrash).2
  · rw [hdone] at hquiet
    obtain ⟨env', hbytes⟩ := answerBytes_append (fun e he => (hquiet e he).1) env
      ((k a).exec () rest).trace
    rw [bind_exec, hdone, Result.trace_prepend]
    show HttpResponse (answerBytes env (log ++ ((k a).exec () rest).trace)) ↔ p
    rw [Result.trace] at hbytes
    rw [hbytes]
    exact hk a rest env' hlast

theorem answers_unavailable {P : List ClientEvent → Prop} {m : Client α} {uri : Bytes}
    (h : StartsWith (.clientError httpServUnavail uri) m) (hP : ∀ log, P log) : Answers P m := by
  intro inputs env _
  obtain ⟨more, hm⟩ := h inputs
  rw [hm]
  refine iff_of_true ?_ (hP _)
  show HttpResponse (writeHttpHeader (env 0).now (ascii "text/html") ++ _ ++ _)
  rw [List.append_assoc]
  exact header_response _ headerLine_html _

theorem answers_statsCallback (bep : Backend) (uri : Bytes) :
    Answers (fun _ => ∃ entry, bep.uris.find? (·.uri = uri) = some entry)
      (statsCallback bep .httpClient uri) := by
  rw [find_isSome_iff]
  unfold statsCallback
  split
  · next h => exact answers_notFound ((startsWith_print _).bind _) fun _ => not_not_intro h
  · next h =>
    apply answers_quiet
    · exact within_emit ⟨rfl, nofun⟩
    · intro _
      apply answers_quiet
      · apply within_bind
        · exact within_ask
        · intro a
          exact within_bind (within_emit ⟨rfl, nofun⟩) fun _ => within_pure _
      · intro r
        dsimp only
        split
        · exact answers_unavailable ((startsWith_print _).bind _) fun _ => h
        · exact answers_header ((startsWith_print _).bind _) headerLine_html fun _ => h

end

/-- An answer to a web client is a response exactly if the target is served, and an
operation on an instance was refused. -/
theorem httpResponse_iff {bep : Backend} {servRequest : Bytes} {inputs : List ClientAnswer}
    {env : Nat → Surroundings}
    (hmethod : (scanRequest servRequest).1 = ascii "GET" ∨
      (scanRequest servRequest).1 = ascii "POST")
    (hended : Ended ((handleRequest bep servRequest).exec () inputs)) :
    HttpResponse (answerBytes env ((handleRequest bep servRequest).exec () inputs).trace) ↔
      (∃ cb, findCallback bep (baseUri (requestTarget servRequest)) = some cb ∧
        Served bep (requestTarget servRequest) cb) ∧
      ∀ enable addr port, requestOp bep servRequest = some (.instanceOp enable addr port) →
        OpRefused ((handleRequest bep servRequest).exec () inputs).trace := by
  have hgood : ¬badMethod (scanRequest servRequest).1 = true := by
    rcases hmethod with h | h <;> rw [h] <;> decide
  have htype : clientType (scanRequest servRequest).1 = .httpClient := by
    rcases hmethod with h | h <;> rw [h] <;> decide
  suffices h : Answers (fun log =>
      (∃ cb, findCallback bep (baseUri (requestTarget servRequest)) = some cb ∧
        Served bep (requestTarget servRequest) cb) ∧
      ∀ enable addr port, requestOp bep servRequest = some (.instanceOp enable addr port) →
        OpRefused log) (handleRequest bep servRequest) from h inputs env hended
  unfold handleRequest requestOp
  dsimp only
  rw [if_neg hgood, if_neg hgood, htype, ← requestTarget]
  cases hcb : findCallback bep (baseUri (requestTarget servRequest)) with
  | none => exact answers_notFound ((startsWith_print _).bind _) (by simp)
  | some cb =>
    have hserved : (∃ cb', some cb = some cb' ∧ Served bep (requestTarget servRequest) cb') ↔
        Served bep (requestTarget servRequest) cb := by simp
    rw [hserved]
    cases cb with
    | reporter =>
      have hsystem := (findCallback_cases hcb).resolve_right (by simp)
      have huri := cutParams_decodedTarget hsystem
      apply (answers_bind (answers_reporterUri _ _)).congr
      intro log
      rw [UriServed, ← decodedTarget, huri]
      dsimp only [reporterOp]
      rw [huri]
      rfl
    | image =>
      have hsystem := (findCallback_cases hcb).resolve_right (by simp)
      have huri : baseUri (requestTarget servRequest) = ascii "logo.png" :=
        systemUris_image _ hsystem rfl
      apply (answers_imageCallback _).congr
      intro log
      rw [← huri, ← decodedTarget, decodedTarget_image hsystem]
      exact (and_iff_left (by simp)).symm
    | stats =>
      apply (answers_statsCallback bep _).congr
      intro log
      exact (and_iff_left (by simp)).symm

def missingRequest : Bytes := ascii "GET /nothing HTTP/1.1\r\n"

def epoch : Tm := ⟨4, 1, 0, 1970, 0, 0, 0⟩

/-- The third answer is that no connection can be made. -/
def refusedAnswers : List ClientAnswer := [{}, {}, { connect := .error EBADF }]

/-- An operation that is refused is answered with a page. -/
theorem httpResponse_refused : HttpResponse (answerBytes (fun _ => ⟨epoch, fun _ => []⟩)
    ((handleRequest sampleWorld.bep disableRequest).exec () refusedAnswers).trace) := by
  have hended : Ended ((handleRequest sampleWorld.bep disableRequest).exec () refusedAnswers) :=
    Or.inl ⟨true, _, [], by rfl⟩
  apply (httpResponse_iff (by decide +kernel) hended).mpr
  constructor
  · exact ⟨.reporter, by decide +kernel, by unfold Served; decide +kernel⟩
  · intro _ _ _ _
    unfold OpRefused
    decide +kernel

/-- No header stands before the page that tells of a missing target. -/
theorem httpResponse_fails : ¬∀ bep servRequest inputs env,
    (scanRequest servRequest).1 = ascii "GET" ∨ (scanRequest servRequest).1 = ascii "POST" →
    Ended ((handleRequest bep servRequest).exec () inputs) →
    HttpResponse (answerBytes env ((handleRequest bep servRequest).exec () inputs).trace) := by
  intro h
  have hended : Ended ((handleRequest sampleWorld.bep missingRequest).exec () []) :=
    Or.inl ⟨true, _, [], by rfl⟩
  have hresponse := h sampleWorld.bep missingRequest [] (fun _ => ⟨epoch, fun _ => []⟩)
    (by decide +kernel) hended
  exact absurd hresponse.head (by decide +kernel)

end StatsProxy

import StatsProxy.HttpResponse
import StatsProxy.Library.Assuming
import StatsProxy.Library.Framing
import StatsProxy.StatsText

/-! The conversation with a telnet client. Its requests are answered in order, each with
the list of a uri, until one is not: the error is one line, and the last. From the text
alone the client tells the answers apart. -/
namespace StatsProxy
open CString Framing Interaction Program

/-- What an error answer to a telnet client shows; the message is that of `strerror`. -/
structure TelnetError where
  settings : LocalSettings
  lastError : Nat
  message : Bytes

def TelnetError.host (err : TelnetError) : Bytes := err.settings.backhost.getD (ascii "(null)")

/-- The branch of `clntError` for a telnet client. -/
def TelnetError.text (err : TelnetError) : Bytes :=
  if err.lastError = 0 then ascii "ERROR\r\n"
  else ascii "ERROR (" ++ err.host ++ ascii ":" ++ printDecimal err.settings.backport ++
    ascii " - " ++ err.message ++ ascii ")\r\n"

/-- The bytes of a print, which depend on the type of the client. -/
def Output.toClient (env : Surroundings) (err : TelnetError) (type : ClientType) :
    Output → Bytes
  | .rawStats stats => rawPrintStats stats
  | .clientError httpCode uri =>
    match type with
    | .memcacheClient => err.text
    | .httpClient => clntError env httpCode uri
  | o => o.bytes env

/-- The type that the connection has, and all that was printed. -/
structure ClientView where
  type : ClientType
  text : Bytes

/-- A bad method leaves the type as it is. -/
def ClientView.next (env : Surroundings) (err : TelnetError) (v : ClientView) :
    ClientEvent → ClientView
  | .request (some line) =>
    let method := (scanRequest line).1
    if badMethod method then v else { v with type := clientType method }
  | .print o => { v with text := v.text ++ o.toClient env err v.type }
  | _ => v

/-- The record of a client is cleared when it is allocated. -/
def clientView (env : Surroundings) (err : TelnetError) (log : List ClientEvent) : ClientView :=
  log.foldl (ClientView.next env err) ⟨.memcacheClient, []⟩

/-- A request with the list it is answered with. -/
structure ServedRequest where
  line : Bytes
  uri : Bytes
  stats : List StatsEntry

def ServedRequest.events (s : ServedRequest) : List ClientEvent :=
  [.request (some s.line), .rdlock, .cached true s.stats, .print (.rawStats s.stats), .unlock]

/-- The line asks for the stats of this uri of the backend. -/
structure AsksFor (bep : Backend) (line uri : Bytes) : Prop where
  method : (scanRequest line).1 = ascii "stats"
  found : findCallback bep (baseUri (requestTarget line)) = some .stats
  decoded : decodedTarget (requestTarget line) = uri
  configured : ∃ entry ∈ bep.uris, entry.uri = uri

/-- A web client is served by other callbacks, or with a page. -/
structure TelnetLine (bep : Backend) (line : Bytes) : Prop where
  method : (scanRequest line).1 ≠ ascii "GET" ∧ (scanRequest line).1 ≠ ascii "POST"
  uri : ∀ cb, findCallback bep (baseUri (requestTarget line)) = some cb → cb = .stats

def ClientEvent.Telnet (bep : Backend) : ClientEvent → Prop
  | .request (some line) => TelnetLine bep line
  | _ => True

/-- What can follow the requests that are answered. -/
inductive SessionEnd (bep : Backend) : List ClientEvent → Prop where
  | waiting : SessionEnd bep []
  | closed : SessionEnd bep [.request none]
  | locking (line uri : Bytes) (asks : AsksFor bep line uri) :
      SessionEnd bep [.request (some line), .rdlock]
  | refused (line uri : Bytes) (stats : List StatsEntry) (asks : AsksFor bep line uri) :
      SessionEnd bep [.request (some line), .rdlock, .cached false stats,
        .print (.clientError httpServUnavail uri), .unlock]
  | rejected (line uri : Bytes) (httpCode : Nat) (telnet : TelnetLine bep line)
      (asksNot : ∀ uri, ¬AsksFor bep line uri) :
      SessionEnd bep [.request (some line), .print (.clientError httpCode uri)]

/-- A session that has served these requests. -/
structure Session (bep : Backend) (served : List ServedRequest) (last log : List ClientEvent) :
    Prop where
  asked : ∀ s ∈ served, AsksFor bep s.line s.uri
  log : log = served.flatMap ServedRequest.events ++ last
  last : SessionEnd bep last

/-- An entry that is printed as one line, whose name ends at the blank. -/
structure StatsEntry.Printable (entry : StatsEntry) : Prop where
  noBlank : 32 ∉ entry.name
  name : 10 ∉ entry.name
  value : 10 ∉ entry.v.text

instance (entry : StatsEntry) : Decidable entry.Printable :=
  decidable_of_iff (32 ∉ entry.name ∧ 10 ∉ entry.name ∧ 10 ∉ entry.v.text)
    ⟨fun ⟨noBlank, name, value⟩ => ⟨noBlank, name, value⟩,
      fun h => ⟨h.noBlank, h.name, h.value⟩⟩

/-- The message of an error is one line. -/
structure TelnetError.OneLine (err : TelnetError) : Prop where
  host : 10 ∉ err.host
  message : 10 ∉ err.message

def endLineCr : Bytes := ascii "END\r"

/-- The answers a client has seen the end of, each with its lines. -/
def readAnswers (text : Bytes) : List (List Bytes) := frames endLineCr (frames 10 text)

/-- The name and the value in a line of an answer. -/
def statFields (line : Bytes) : Bytes × Bytes :=
  let body := line.drop sessionPrefix.length
  (body.takeWhile (· ≠ 32), ((body.dropWhile (· ≠ 32)).drop 1).dropLast)

/-- What a client gets from the text of a session. -/
def clientReads (text : Bytes) : List (List (Bytes × Bytes)) :=
  (readAnswers text).map (·.map statFields)

def StatsEntry.fields (entry : StatsEntry) : Bytes × Bytes := (entry.name, entry.v.text)

def ServedRequest.fields (s : ServedRequest) : List (Bytes × Bytes) :=
  s.stats.map StatsEntry.fields

def statLines (stats : List StatsEntry) : List Bytes :=
  stats.map fun entry => statLine entry ++ [13]

section

variable {bep : Backend} {type : ClientType} {line uri : Bytes} {served : List ServedRequest}
  {last log : List ClientEvent}

theorem statsCallback_unknown (h : ∀ entry ∈ bep.uris, entry.uri ≠ uri)
    (inputs : List ClientAnswer) : (statsCallback bep type uri).exec () inputs =
      .done true [.print (.clientError httpNotFound uri)] inputs := by
  rw [statsCallback, if_pos (by simpa using h)]
  rfl

theorem statsCallback_waits (h : ∃ entry ∈ bep.uris, entry.uri = uri) :
    (statsCallback bep type uri).exec () [] = .waiting [.rdlock] := by
  rw [statsCallback, if_neg (by simpa using h)]
  rfl

/-- A telnet client gets the list of the uri, or an error. -/
theorem statsCallback_reads (h : ∃ entry ∈ bep.uris, entry.uri = uri) (a : ClientAnswer)
    (rest : List ClientAnswer) :
    (statsCallback bep .memcacheClient uri).exec () (a :: rest) =
      if a.polling = true then
        .done false [.rdlock, .cached true a.stats, .print (.rawStats a.stats), .unlock] rest
      else
        .done true [.rdlock, .cached false a.stats, .print (.clientError httpServUnavail uri),
          .unlock] rest := by
  rw [statsCallback, if_neg (by simpa using h)]
  cases hpolling : a.polling <;>
    simp [bind_exec, emit, readCached, clientCall, ask, hpolling, print, Result.prepend]

theorem TelnetLine.stats (ht : TelnetLine bep line) (h : ¬badMethod (scanRequest line).1 = true) :
    (scanRequest line).1 = ascii "stats" := by
  simp only [badMethod, List.mem_cons, ht.method.1, ht.method.2] at h
  simpa using h

/-- A line that does not ask for stats is answered with an error. -/
theorem handleRequest_rejects (ht : TelnetLine bep line) (hnone : ∀ uri, ¬AsksFor bep line uri)
    (inputs : List ClientAnswer) : ∃ code uri, (handleRequest bep line).exec () inputs =
      .done true [.print (.clientError code uri)] inputs := by
  unfold handleRequest
  dsimp only
  split
  · exact ⟨_, _, rfl⟩
  · rename_i hmethod
    have hstats := ht.stats hmethod
    rw [← requestTarget]
    cases hcb : findCallback bep (baseUri (requestTarget line)) with
    | none => exact ⟨_, _, rfl⟩
    | some cb =>
      obtain rfl := ht.uri cb hcb
      refine ⟨_, _, statsCallback_unknown ?_ inputs⟩
      intro entry hentry heq
      exact hnone _ ⟨hstats, hcb, rfl, entry, hentry, heq⟩

theorem handleRequest_asks (h : AsksFor bep line uri) :
    handleRequest bep line = statsCallback bep .memcacheClient uri := by
  have hgood : badMethod (scanRequest line).1 = false := by
    rw [h.method]
    decide
  have htype : clientType (scanRequest line).1 = .memcacheClient := by
    rw [h.method]
    decide
  unfold handleRequest
  dsimp only
  rw [if_neg (by simp [hgood]), htype, ← requestTarget, h.found]
  dsimp only
  rw [← decodedTarget, h.decoded]
  rfl

theorem Session.ends (h : Session bep served [] log) {more : List ClientEvent}
    (hmore : SessionEnd bep more) : Session bep served more (log ++ more) := by
  refine ⟨h.asked, ?_, hmore⟩
  rw [h.log, List.append_nil]

/-- A request that is answered is one more. -/
theorem Session.serves (h : Session bep served [] log) {s : ServedRequest}
    (hs : AsksFor bep s.line s.uri) : Session bep (served ++ [s]) [] (log ++ s.events) := by
  refine ⟨List.forall_mem_append.mpr ⟨h.asked, List.forall_mem_singleton.mpr hs⟩, ?_, .waiting⟩
  rw [h.log, List.append_nil, List.append_nil, List.flatMap_append, List.flatMap_singleton]

/-- What one request does to a session of a telnet client. -/
theorem handleRequest_session (h : Session bep served [] log) (ht : TelnetLine bep line) :
    wlp (fun _ e => e.Telnet bep)
      (fun y => ∃ served last, Session bep served last y.2) (handleRequest bep line)
      (fun closed y => ∃ served last, Session bep served last y.2 ∧
        (closed = false → last = []))
      ((), log ++ [.request (some line)]) := by
  have hrun : ∀ events : List ClientEvent,
      (run ((), log ++ [.request (some line)]) events).2 =
        log ++ .request (some line) :: events := by
    intro events
    rw [run_prod, run_log, List.append_assoc, List.singleton_append]
  intro inputs _
  by_cases hask : ∃ uri, AsksFor bep line uri
  · obtain ⟨uri, hask⟩ := hask
    rw [handleRequest_asks hask]
    cases inputs with
    | nil =>
      rw [statsCallback_waits hask.configured, Result.Reaches, hrun]
      exact ⟨served, _, h.ends (.locking line uri hask)⟩
    | cons a rest =>
      rw [statsCallback_reads hask.configured]
      split
      · rw [Result.Reaches, hrun]
        exact ⟨_, [], h.serves (s := ⟨line, uri, a.stats⟩) hask, fun _ => rfl⟩
      · rw [Result.Reaches, hrun]
        exact ⟨served, _, h.ends (.refused line uri a.stats hask), fun h => absurd h (by decide)⟩
  · rw [not_exists] at hask
    obtain ⟨code, uri, hexec⟩ := handleRequest_rejects ht hask inputs
    rw [hexec, Result.Reaches, hrun]
    exact ⟨served, _, h.ends (.rejected line uri code ht hask), fun h => absurd h (by decide)⟩

theorem wlp_clientCall {α : Type} {E : Unit × List ClientEvent → ClientEvent → Prop}
    {I : Unit × List ClientEvent → Prop} {x : Unit × List ClientEvent}
    {outcome : ClientAnswer → α} {event : α → ClientEvent}
    {Q : α → Unit × List ClientEvent → Prop} (hI : I x)
    (h : ∀ r, E x (event r) → Q r (Machine.after x (event r))) :
    wlp E I (clientCall outcome event) Q x := by
  apply wlp_bind
  apply wlp_ask hI
  intro a
  apply wlp_bind
  apply wlp_emit
  intro he
  exact wlp_pure (h _ he)

/-- Whatever the environment answers, the session is one of answered requests and an end. -/
theorem handleFrontendRequest_session (inputs : List ClientAnswer)
    (ht : ∀ e ∈ ((handleFrontendRequest bep).exec () inputs).trace, e.Telnet bep) :
    ∃ served last, Session bep served last ((handleFrontendRequest bep).exec () inputs).trace := by
  have hrun : wlp (fun _ e => e.Telnet bep) (fun y => ∃ served last, Session bep served last y.2)
      (handleFrontendRequest bep) (fun _ y => ∃ served last, Session bep served last y.2)
      ((), ([] : List ClientEvent)) := by
    apply wlp_loop (fun _ y => ∃ served, Session bep served [] y.2)
      (fun _ _ ⟨served, hy⟩ => ⟨served, [], hy⟩)
    · rintro _ y ⟨served, hy⟩
      apply wlp_bind
      apply wlp_clientCall ⟨served, [], hy⟩
      intro r hr
      cases r with
      | none =>
        have hends := hy.ends .closed
        exact wlp_pure ⟨served, _, hends⟩
      | some line =>
        apply wlp_bind
        apply wlp_post (handleRequest_session hy hr)
        rintro closed z ⟨served', last, hz, hopen⟩
        cases closed with
        | true => exact wlp_pure ⟨served', last, hz⟩
        | false =>
          obtain rfl := hopen rfl
          exact wlp_pure ⟨served', hz⟩
    · exact ⟨[], nofun, rfl, .waiting⟩
  have hallowed : Allowed (fun _ e => e.Telnet bep) ((), ([] : List ClientEvent))
      ((handleFrontendRequest bep).exec () inputs).trace :=
    (allowed_log (P := fun _ e => e.Telnet bep)).mpr (atEach_of_mem fun e he _ => ht e he)
  have hend := run_of_wlp hrun (fun _ _ hy => hy) hallowed
  rwa [run_prod, run_log, List.nil_append] at hend

variable {env : Surroundings} {err : TelnetError}

theorem next_request (v : ClientView) (line : Bytes) :
    v.next env err (.request (some line)) = if badMethod (scanRequest line).1 then v else
      { v with type := clientType (scanRequest line).1 } :=
  rfl

theorem next_stats {v : ClientView} (h : (scanRequest line).1 = ascii "stats") :
    v.next env err (.request (some line)) = ⟨.memcacheClient, v.text⟩ := by
  rw [next_request, h]
  rfl

/-- An answered request adds the text of its list, -/
theorem view_served {s : ServedRequest} (hs : AsksFor bep s.line s.uri) (v : ClientView) :
    s.events.foldl (ClientView.next env err) v =
      ⟨.memcacheClient, v.text ++ rawPrintStats s.stats⟩ := by
  rw [ServedRequest.events, List.foldl_cons, next_stats hs.method]
  rfl

theorem view_flatMap (hserved : ∀ s ∈ served, AsksFor bep s.line s.uri) (text : Bytes) :
    (served.flatMap ServedRequest.events).foldl (ClientView.next env err)
        ⟨.memcacheClient, text⟩ =
      ⟨.memcacheClient, text ++ served.flatMap fun s => rawPrintStats s.stats⟩ := by
  induction served generalizing text with
  | nil => exact congrArg _ (List.append_nil text).symm
  | cons s served ih =>
    rw [List.forall_mem_cons] at hserved
    rw [List.flatMap_cons, List.foldl_append, view_served hserved.1, ih hserved.2,
      List.flatMap_cons, List.append_assoc]

/-- and the end of a session at most an error. -/
theorem SessionEnd.view (h : SessionEnd bep last) (text : Bytes) :
    (last.foldl (ClientView.next env err) ⟨.memcacheClient, text⟩).text = text ∨
      (last.foldl (ClientView.next env err) ⟨.memcacheClient, text⟩).text =
        text ++ err.text := by
  cases h with
  | waiting => exact Or.inl rfl
  | closed => exact Or.inl rfl
  | locking line uri hask =>
    rw [List.foldl_cons, next_stats hask.method]
    exact Or.inl rfl
  | refused line uri stats hask =>
    rw [List.foldl_cons, next_stats hask.method]
    exact Or.inr rfl
  | rejected line uri httpCode ht =>
    have hsame : ClientView.next env err ⟨.memcacheClient, text⟩ (.request (some line)) =
        ⟨.memcacheClient, text⟩ := by
      by_cases hmethod : badMethod (scanRequest line).1 = true
      · rw [next_request, if_pos hmethod]
      · exact next_stats (ht.stats hmethod)
    rw [List.foldl_cons, hsame]
    exact Or.inr rfl

theorem Session.view (h : Session bep served last log) :
    (clientView env err log).text = served.flatMap (fun s => rawPrintStats s.stats) ∨
      (clientView env err log).text =
        served.flatMap (fun s => rawPrintStats s.stats) ++ err.text := by
  rw [clientView, h.log, List.foldl_append, view_flatMap h.asked, List.nil_append]
  exact h.last.view _

/-- The lines of a printed list, with its terminator. -/
theorem rawPrintStats_frames (stats : List StatsEntry) :
    rawPrintStats stats = (statLines stats ++ [endLineCr]).flatMap (· ++ [10]) := by
  have hline : ascii "\r\n" = [13, 10] := by decide
  have hend : endMarker = endLineCr ++ [10] := by decide
  rw [rawPrintStats, statLines, List.flatMap_append, List.flatMap_map, hline, hend]
  simp

theorem printable_line {entry : StatsEntry} (h : entry.Printable) :
    10 ∉ statLine entry ++ [13] := by
  rw [List.mem_append, not_or]
  exact ⟨not_mem_statLine h.name h.value (by decide), by decide⟩

/-- No line of a list is the terminator. -/
theorem endLine_notMem (stats : List StatsEntry) : endLineCr ∉ statLines stats := by
  intro hmem
  obtain ⟨entry, -, hline⟩ := List.mem_map.mp hmem
  have hhead := congrArg List.head? hline
  exact absurd hhead (by simp [statLine, sessionPrefix, endLineCr, ascii])

theorem readAnswers_served {lists : List (List StatsEntry)}
    (h : ∀ stats ∈ lists, ∀ entry ∈ stats, entry.Printable) (tail : Bytes) :
    readAnswers (lists.flatMap rawPrintStats ++ tail) =
      lists.map statLines ++ readAnswers tail := by
  have hlines : ∀ line ∈ lists.flatMap (fun stats => statLines stats ++ [endLineCr]),
      (10 : UInt8) ∉ line := by
    intro line hline
    obtain ⟨stats, hstats, hmem⟩ := List.mem_flatMap.mp hline
    rcases List.mem_append.mp hmem with hmem | hmem
    · obtain ⟨entry, hentry, rfl⟩ := List.mem_map.mp hmem
      exact printable_line (h stats hstats entry hentry)
    · rw [List.mem_singleton.mp hmem]
      decide
  have htext : lists.flatMap rawPrintStats =
      (lists.flatMap fun stats => statLines stats ++ [endLineCr]).flatMap (· ++ [10]) := by
    rw [List.flatMap_assoc]
    exact List.flatMap_congr fun stats _ => rawPrintStats_frames stats
  have hanswers : ∀ answer ∈ lists.map statLines, endLineCr ∉ answer := by
    intro answer hanswer
    obtain ⟨stats, -, rfl⟩ := List.mem_map.mp hanswer
    exact endLine_notMem stats
  rw [readAnswers, htext, frames_flatMap hlines, readAnswers, ← frames_flatMap hanswers,
    List.flatMap_map]

/-- An error is one line and no answer. -/
theorem readAnswers_error (h : err.OneLine) : readAnswers err.text = [] := by
  have hline : ∃ line, err.text = line ++ [10] ∧ 10 ∉ line ∧ line ≠ endLineCr := by
    rw [TelnetError.text]
    split
    · exact ⟨ascii "ERROR\r", rfl, by decide, by decide⟩
    · refine ⟨ascii "ERROR (" ++ err.host ++ ascii ":" ++ printDecimal err.settings.backport ++
        ascii " - " ++ err.message ++ ascii ")\r", by simp [ascii], ?_, ?_⟩
      · have hport : (10 : UInt8) ∉ printDecimal err.settings.backport := by
          intro hmem
          exact absurd (isDigit_printDecimal _ _ hmem) (by decide)
        simp only [List.mem_append, not_or]
        exact ⟨⟨⟨⟨⟨⟨by decide, h.host⟩, by decide⟩, hport⟩, by decide⟩, h.message⟩, by decide⟩
      · intro heq
        have hsecond := congrArg (·[1]?) heq
        exact absurd hsecond (by simp [endLineCr, ascii])
  obtain ⟨line, htext, hnone, hne⟩ := hline
  rw [readAnswers, htext, ← List.append_nil (line ++ [10]), List.append_assoc,
    List.singleton_append, frames_frame hnone]
  apply frames_unfinished
  rw [frames, List.mem_singleton]
  exact Ne.symm hne

theorem statFields_line {entry : StatsEntry} (h : entry.Printable) :
    statFields (statLine entry ++ [13]) = entry.fields := by
  have hbody : (statLine entry ++ [13]).drop sessionPrefix.length =
      entry.name ++ 32 :: (entry.v.text ++ [13]) := by
    rw [statLine, List.append_assoc, List.append_assoc, List.append_assoc, List.drop_left]
    simp [ascii]
  have hname : ∀ ch ∈ entry.name, decide (ch ≠ 32) = true := by
    intro ch hch
    rw [decide_eq_true_eq]
    exact fun heq => h.noBlank (heq ▸ hch)
  rw [statFields, hbody, List.takeWhile_append_of_pos hname, List.dropWhile_append_of_pos hname]
  simp [StatsEntry.fields]

theorem clientReads_served {text tail : Bytes}
    (htext : text = served.flatMap (fun s => rawPrintStats s.stats) ++ tail)
    (htail : readAnswers tail = [])
    (h : ∀ s ∈ served, ∀ entry ∈ s.stats, entry.Printable) :
    clientReads text = served.map ServedRequest.fields := by
  have hlists : ∀ stats ∈ served.map ServedRequest.stats, ∀ entry ∈ stats, entry.Printable := by
    intro stats hstats
    obtain ⟨s, hs, rfl⟩ := List.mem_map.mp hstats
    exact h s hs
  have hread := readAnswers_served hlists tail
  rw [List.flatMap_map] at hread
  rw [clientReads, htext, hread, htail, List.append_nil, List.map_map, List.map_map]
  apply List.map_congr_left
  intro s hs
  rw [Function.comp, Function.comp, statLines, List.map_map, ServedRequest.fields]
  apply List.map_congr_left
  intro entry hentry
  exact statFields_line (h s hs entry hentry)

end

/-- A telnet client that reads its text up to any point has the answers to its first
requests, each with all its names and values, and in the end it has them all. -/
theorem session_readBack (bep : Backend) (env : Surroundings) (err : TelnetError)
    (inputs : List ClientAnswer) (herr : err.OneLine)
    (ht : ∀ e ∈ ((handleFrontendRequest bep).exec () inputs).trace, e.Telnet bep)
    (hprint : ∀ stats, .cached true stats ∈ ((handleFrontendRequest bep).exec () inputs).trace →
      ∀ entry ∈ stats, entry.Printable) :
    ∃ served last,
      Session bep served last ((handleFrontendRequest bep).exec () inputs).trace ∧
      clientReads (clientView env err ((handleFrontendRequest bep).exec () inputs).trace).text =
        served.map ServedRequest.fields ∧
      ∀ seen, seen <+:
          (clientView env err ((handleFrontendRequest bep).exec () inputs).trace).text →
        clientReads seen <+: served.map ServedRequest.fields := by
  obtain ⟨served, last, hsession⟩ := handleFrontendRequest_session inputs ht
  have hprintable : ∀ s ∈ served, ∀ entry ∈ s.stats, entry.Printable := by
    intro s hs
    apply hprint
    rw [hsession.log]
    apply List.mem_append_left
    exact List.mem_flatMap.mpr ⟨s, hs, by simp [ServedRequest.events]⟩
  have hread : clientReads
      (clientView env err ((handleFrontendRequest bep).exec () inputs).trace).text =
        served.map ServedRequest.fields := by
    rcases hsession.view  with htext | htext
    · rw [← List.append_nil (List.flatMap _ served)] at htext
      exact clientReads_served htext rfl hprintable
    · exact clientReads_served htext (readAnswers_error herr) hprintable
  refine ⟨served, last, hsession, hread, ?_⟩
  intro seen hseen
  rw [← hread]
  exact (frames_front (frames_front hseen)).map _

/-- Two requests that are answered, and one that is not. -/
def telnetAnswers : List ClientAnswer :=
  [{ request := some (ascii "stats items\r\n") },
    { stats := [⟨ascii "pid", .alpha (ascii "7")⟩, ⟨ascii "threads", .uint64 4⟩] },
    { request := some (ascii "stats sizes\r\n") }, {}, { request := some (ascii "version\r\n") }]

def telnetTrace : List ClientEvent :=
  ((handleFrontendRequest sampleWorld.bep).exec () telnetAnswers).trace

theorem telnetTrace_eq : telnetTrace =
    [.request (some (ascii "stats items\r\n")), .rdlock,
      .cached true [⟨ascii "pid", .alpha (ascii "7")⟩, ⟨ascii "threads", .uint64 4⟩],
      .print (.rawStats [⟨ascii "pid", .alpha (ascii "7")⟩, ⟨ascii "threads", .uint64 4⟩]),
      .unlock, .request (some (ascii "stats sizes\r\n")), .rdlock, .cached true [],
      .print (.rawStats []), .unlock, .request (some (ascii "version\r\n")),
      .print (.clientError httpBadRequest [])] := by
  decide +kernel

def telnetSurroundings : Surroundings := ⟨epoch, fun _ => []⟩

theorem session_readBack_sample :
    ∃ served last, Session sampleWorld.bep served last telnetTrace ∧
      clientReads (clientView telnetSurroundings ⟨sampleSettings, 0, []⟩ telnetTrace).text =
        served.map ServedRequest.fields ∧
      ∀ seen, seen <+:
          (clientView telnetSurroundings ⟨sampleSettings, 0, []⟩ telnetTrace).text →
        clientReads seen <+: served.map ServedRequest.fields := by
  have hstats : ∀ line : Bytes, (scanRequest line).1 = ascii "stats" →
      findCallback sampleWorld.bep (baseUri (requestTarget line)) = some .stats →
      TelnetLine sampleWorld.bep line := by
    intro line hmethod hfound
    refine ⟨by rw [hmethod]; decide, fun cb hcb => ?_⟩
    rw [hfound, Option.some.injEq] at hcb
    exact hcb.symm
  have htelnet : ∀ e ∈ telnetTrace, e.Telnet sampleWorld.bep := by
    rw [telnetTrace_eq]
    simp only [List.forall_mem_cons, ClientEvent.Telnet, true_and]
    refine ⟨hstats _ (by decide +kernel) (by decide +kernel),
      hstats _ (by decide +kernel) (by decide +kernel), ⟨by decide +kernel, ?_⟩, nofun⟩
    intro cb hcb
    have hnone : findCallback sampleWorld.bep
        (baseUri (requestTarget (ascii "version\r\n"))) = none := by
      decide +kernel
    rw [hnone] at hcb
    contradiction
  have hprint : ∀ stats, .cached true stats ∈ telnetTrace → ∀ entry ∈ stats, entry.Printable := by
    intro stats hmem
    rw [telnetTrace_eq] at hmem
    simp only [List.mem_cons, reduceCtorEq, ClientEvent.cached.injEq, true_and, false_or,
      or_false, List.not_mem_nil] at hmem
    rcases hmem with rfl | rfl
    · decide
    · exact nofun
  exact session_readBack sampleWorld.bep telnetSurroundings ⟨sampleSettings, 0, []⟩ telnetAnswers
    ⟨by decide, by decide⟩ htelnet hprint

end StatsProxy

import StatsProxy.Frontend
import StatsProxy.RunBackend

/-! The memcache-reporter setting against what a request makes the frontend send
to the reporter. A request names at most one operation, and its command is sent
whenever the connection is opened: no callback looks at the setting. -/
namespace StatsProxy
open CString Interaction Program

inductive ReporterOp where
  | instances
  | topKeys (op addr : Bytes) (port : Nat)
  | topClients (key addr : Bytes) (port : Nat)
  | instanceOp (enable : Bool) (addr : Bytes) (port : Nat)

def ReporterOp.command : ReporterOp → Bytes
  | .instances => ascii "show instances\r\n"
  | .topKeys op addr port => topKeysCmd op addr port tkTime tkNum
  | .topClients key addr port => topClientsCmd key addr port tcTime tcNum
  | .instanceOp enable addr port =>
    instanceCmd (if enable then ascii "add" else ascii "del") addr port

/-- The operation of a reporter uri with its parameters. -/
def reporterUriOp (uri : Bytes) (p : ReporterParams) : Option ReporterOp :=
  if uri = ascii "mcr-config" then some .instances
  else if uri ∈ topKeysUris then
    match p.addr, p.port with
    | some addr, port+1 =>
      some (.topKeys (if uri.drop 9 = ascii "select" then ascii "all" else uri.drop 9) addr
        (port + 1))
    | _, _ => none
  else if uri ∈ topClientsUris then
    match p.addr, p.port, p.key with
    | some addr, port+1, some key => some (.topClients key addr (port + 1))
    | _, _, _ => none
  else if uri ∈ mcrOpUris then
    match p.addr, p.port with
    | some addr, port+1 => some (.instanceOp (uri = ascii "mcr-enable") addr (port + 1))
    | _, _ => none
  else none

/-- The operation that a decoded uri names. -/
def reporterOp (decodedUri : Bytes) : Option ReporterOp :=
  reporterUriOp (cString (cutParams decodedUri)) (scanParams decodedUri)

/-- The operation that a request line names. -/
def requestOp (bep : Backend) (servRequest : Bytes) : Option ReporterOp :=
  let (method, uri) := scanRequest servRequest
  if badMethod method then none
  else match findCallback bep (baseUri (stripSlash uri)) with
    | some .reporter => reporterOp (cString (uriDecode (stripSlash uri)))
    | _ => none

/-- The events that neither open the reporter connection nor write to it. -/
def ClientEvent.silent : ClientEvent → Bool
  | .fputs _ | .fdopen true => false
  | _ => true

def Untouched (log : List ClientEvent) : Prop :=
  .fdopen true ∉ log ∧ ∀ text, .fputs text ∉ log

/-- What has been written is the command of `op`, once the connection is open. -/
def Contact (op : Option ReporterOp) (log : List ClientEvent) : Prop :=
  ∀ text, .fputs text ∈ log ↔ .fdopen true ∈ log ∧ op.map ReporterOp.command = some text

section

variable {op : Option ReporterOp} {log : List ClientEvent} {e : ClientEvent} {α β : Type}

theorem Untouched.contact (h : Untouched log) : Contact op log :=
  fun text => iff_of_false (h.2 text) fun hopen => h.1 hopen.1

theorem silent_ne (he : e.silent = true) : .fdopen true ≠ e ∧ ∀ text, .fputs text ≠ e := by
  constructor
  · rintro rfl
    contradiction
  · rintro text rfl
    contradiction

theorem Untouched.snoc (h : Untouched log) (he : e.silent = true) : Untouched (log ++ [e]) := by
  obtain ⟨hopen, hputs⟩ := silent_ne he
  simp only [Untouched, List.mem_append, List.mem_singleton, not_or]
  exact ⟨⟨h.1, hopen⟩, fun text => ⟨h.2 text, hputs text⟩⟩

theorem Contact.snoc (h : Contact op log) (he : e.silent = true) : Contact op (log ++ [e]) := by
  obtain ⟨hopen, hputs⟩ := silent_ne he
  intro text
  simp only [List.mem_append, List.mem_singleton, hopen, hputs text, or_false]
  exact h text

theorem contact_sent {op : ReporterOp} (h : Untouched log) :
    Contact (some op) (log ++ [.fdopen true] ++ [.fputs op.command]) := by
  intro text
  simp only [List.mem_append, List.mem_singleton, h.2 text, reduceCtorEq, false_or, or_false,
    or_true, true_and, ClientEvent.fputs.injEq, Option.map_some, Option.some.injEq]
  exact eq_comm

/-- A program whose events are all silent. -/
def Silent (m : Client α) : Prop :=
  ∀ I : Unit × List ClientEvent → Prop,
    (∀ x e, e.silent = true → I x → I (Machine.after x e)) → Keeps I m

theorem silent_pure (a : α) : Silent (pure a : Client α) :=
  fun _ _ => keeps_pure a

theorem silent_bind {m : Client α} {k : α → Client β} (hm : Silent m) (hk : ∀ a, Silent (k a)) :
    Silent (m >>= k) :=
  fun I hI => keeps_bind (hm I hI) fun a => hk a I hI

theorem silent_emit (he : e.silent = true) : Silent (emit e : Client Unit) :=
  fun _ hI => keeps_emit fun x => hI x e he

theorem silent_print (o : Output) : Silent (print o) := silent_emit rfl

theorem silent_clientCall {outcome : ClientAnswer → α} {event : α → ClientEvent}
    (he : ∀ a, (event a).silent = true) : Silent (clientCall outcome event) := by
  intro I hI
  apply keeps_bind keeps_ask
  intro a
  apply keeps_bind (keeps_emit fun x => hI x _ (he _))
  intro _
  exact keeps_pure _

theorem silent_fgetsLine : Silent fgetsLine := silent_clientCall fun _ => rfl

theorem silent_readReply (stop : Bytes → Option Int) : Silent (readReply stop) := by
  intro I hI
  apply keeps_loop
  intro _
  unfold replyStep
  apply keeps_bind (silent_fgetsLine I hI)
  intro r
  split
  · exact keeps_pure _
  · split <;> exact keeps_pure _

theorem silent_closeStream (c : McrStream) : Silent (closeStream c) := by
  unfold closeStream
  split
  · exact silent_emit rfl
  · exact silent_pure _

theorem silent_closeDescriptor (c : McrStream) : Silent (closeDescriptor c) := by
  unfold closeDescriptor
  split
  · exact silent_emit rfl
  · exact silent_pure _

theorem silent_mcrBail (c : McrStream) (err : Int) : Silent (mcrBail c err) :=
  silent_bind (silent_closeStream c) fun _ =>
    silent_bind (silent_closeDescriptor c) fun _ => silent_pure err

/-- A program that sends the command of `op`, if it opens the connection. -/
def Performs (op : Option ReporterOp) (m : Client α) : Prop :=
  ∀ x : Unit × List ClientEvent, Untouched x.2 →
    wp (fun y => Contact op y.2) m (fun _ y => Contact op y.2) x

/-- `U` holds until the connection is opened, and `C` from there on as well, where
opening it and sending the command of `op` are one step. -/
structure Contacts (op : Option ReporterOp) (U C : List ClientEvent → Prop) : Prop where
  contact : ∀ log, U log → C log
  untouched : ∀ log e, e.silent = true → U log → U (log ++ [e])
  contacted : ∀ log e, e.silent = true → C log → C (log ++ [e])
  sent : ∀ o log, op = some o → U log → C (log ++ [.fdopen true] ++ [.fputs o.command])

/-- A program that does no more than that. -/
def Handles (op : Option ReporterOp) (m : Client α) : Prop :=
  ∀ U C, Contacts op U C → ∀ x : Unit × List ClientEvent, U x.2 →
    wp (fun y => C y.2) m (fun _ y => C y.2) x

theorem contacts_contact (op : Option ReporterOp) : Contacts op Untouched (Contact op) where
  contact _ h := h.contact
  untouched _ _ he h := h.snoc he
  contacted _ _ he h := h.snoc he
  sent o log ho h := by
    subst ho
    exact contact_sent h

theorem Handles.performs {m : Client α} (hm : Handles op m) : Performs op m :=
  hm _ _ (contacts_contact op)

theorem Silent.handles {m : Client α} (hm : Silent m) : Handles op m := by
  intro U C h x hx
  apply hm
  · intro x e he hx
    exact h.contacted _ _ he hx
  · exact h.contact _ hx

theorem handles_after {m : Client α} {k : α → Client β} (hm : Silent m)
    (hk : ∀ a, Handles op (k a)) : Handles op (m >>= k) := by
  intro U C h x hx
  have hkeep := hm (fun y => U y.2) (fun y e he hy => h.untouched _ _ he hy) x hx
  apply wp_bind
  apply wp_mono hkeep
  · intro y hy
    exact h.contact _ hy
  · intro a y hy
    exact hk a U C h y hy

theorem handles_before {m : Client α} {k : α → Client β} (hm : Handles op m)
    (hk : ∀ a, Silent (k a)) : Handles op (m >>= k) := by
  intro U C h x hx
  apply wp_bind
  apply wp_post (hm U C h x hx)
  intro a y hy
  exact hk a _ (fun z e he hz => h.contacted _ _ he hz) y hy

/-- The command is written right after the connection is opened. -/
theorem handles_mcrCommand {op : ReporterOp} {reply : Client Int} (hreply : Silent reply) :
    Handles (some op) (mcrCommand op.command reply) := by
  intro U C h x hx
  have hbail : ∀ (c : McrStream) (err : Int) (log : List ClientEvent), C log →
      wp (fun y => C y.2) (mcrBail c err) (fun _ y => C y.2) ((), log) := by
    intro c err log hlog
    exact silent_mcrBail c err _ (fun z e he hz => h.contacted _ _ he hz) _ hlog
  unfold mcrCommand mcrConnectRemote
  apply wp_bind
  apply wp_bind
  apply wp_clientCall (h.contact _ hx)
  intro r
  have hsocket : U (x.2 ++ [.socket r]) := h.untouched _ _ rfl hx
  cases r with
  | error err =>
    apply wp_pure
    exact hbail _ _ _ (h.contact _ hsocket)
  | ok fd =>
    apply wp_bind
    apply wp_clientCall (h.contact _ hsocket)
    intro r
    have hconnect : U (x.2 ++ [.socket (.ok fd)] ++ [.connect r]) := h.untouched _ _ rfl hsocket
    cases r with
    | error err =>
      apply wp_pure
      exact hbail _ _ _ (h.contact _ hconnect)
    | ok _ =>
      apply wp_bind
      apply wp_clientCall (h.contact _ hconnect)
      intro opened
      apply wp_pure
      cases opened with
      | false =>
        apply wp_bind
        apply wp_emit
        apply wp_halt
        apply h.contacted _ _ rfl
        apply h.contacted _ _ rfl
        exact h.contact _ hconnect
      | true =>
        apply wp_bind
        apply wp_emit
        have hsent := h.sent op _ rfl hconnect
        apply wp_bind
        apply wp_post (hreply (fun y => C y.2) (fun z e he hz => h.contacted _ _ he hz) _ hsent)
        intro err y hy
        exact hbail _ _ y.2 hy

theorem handles_withReporter {m : Client Int} (hm : Handles op m) :
    Handles op (withReporter m) := by
  unfold withReporter mcrGetAddr
  apply handles_after
  · apply silent_bind (silent_clientCall fun _ => rfl)
    intro r
    cases r <;> exact silent_pure _
  · intro err
    split
    · apply Silent.handles
      apply silent_bind (silent_print _)
      intro _
      exact silent_pure _
    · exact hm

theorem handles_reportPage {m : Client Int} (hm : Handles op m) :
    Handles op (reportPage m) := by
  unfold reportPage
  apply handles_before hm
  intro err
  split
  · exact silent_pure _
  · exact silent_bind (silent_print _) fun _ => silent_pure _

theorem handles_config : Handles (some .instances) writeHtmlMcrConfig := by
  apply handles_withReporter
  apply handles_reportPage
  apply handles_after (silent_clientCall fun _ => rfl)
  intro r
  cases r with
  | error e => exact (silent_pure _).handles
  | ok fd => exact @handles_mcrCommand .instances _ (silent_readReply _)

theorem handles_topKeys (addr : Bytes) (port : Nat) (op : Bytes) :
    Handles (some (.topKeys (if op = ascii "select" then ascii "all" else op) addr port))
      (writeHtmlMcrTopKeys addr port op tkTime tkNum) := by
  apply handles_withReporter
  apply handles_reportPage
  exact @handles_mcrCommand (.topKeys _ addr port) _ (silent_readReply _)

theorem handles_topClients (addr : Bytes) (port : Nat) (key : Bytes) :
    Handles (some (.topClients key addr port))
      (writeHtmlMcrTopClients addr port key tcTime tcNum) := by
  apply handles_withReporter
  apply handles_reportPage
  exact @handles_mcrCommand (.topClients key addr port) _ (silent_readReply _)

theorem handles_mcrOp (enable : Bool) (addr : Bytes) (port : Nat) :
    Handles (some (.instanceOp enable addr port))
      (mcrOp (if enable then ascii "add" else ascii "del") addr port) := by
  apply handles_withReporter
  apply @handles_mcrCommand (.instanceOp enable addr port)
  apply silent_bind silent_fgetsLine
  intro r
  cases r <;> exact silent_pure _

theorem silent_reporterPage (refresh : Option Int) : Silent (reporterPage refresh) := by
  apply silent_bind (silent_print _)
  intro _
  apply silent_bind (silent_print _)
  intro _
  apply silent_bind
  · cases refresh
    · exact silent_pure _
    · exact silent_print _
  · intro _
    exact silent_print _

theorem silent_endPage (err : Int) (message : Bytes) : Silent (endPage err message) := by
  apply silent_bind
  · unfold errorText
    split
    · exact silent_print _
    · exact silent_pure _
  · intro _
    exact silent_print _

theorem silent_endOperation (err : Int) : Silent (endOperation err) := by
  unfold endOperation
  split
  · exact silent_bind (silent_print _) fun _ => silent_endPage _ _
  · exact silent_print _

theorem handles_reporterUri (uri : Bytes) (p : ReporterParams) :
    Handles (reporterUriOp uri p) (reporterUri uri p) := by
  obtain ⟨addr, port, key⟩ := p
  have hmissing : ∀ {op : Option ReporterOp} {m : Client Unit} (message : Bytes), Silent m →
      Handles op (m >>= fun _ => endPage 1 message) := by
    intro op m message hm
    exact (silent_bind hm fun _ => silent_endPage _ _).handles
  unfold reporterUriOp reporterUri
  by_cases hconfig : uri = ascii "mcr-config"
  · rw [if_pos hconfig, if_pos hconfig]
    apply handles_after (silent_reporterPage _)
    intro _
    exact handles_before handles_config fun err => silent_endPage err _
  · rw [if_neg hconfig, if_neg hconfig]
    by_cases hkeys : uri ∈ topKeysUris
    · rw [if_pos hkeys, if_pos hkeys]
      cases addr with
      | none => exact hmissing _ (silent_reporterPage _)
      | some addr => cases port with
        | zero => exact hmissing _ (silent_reporterPage _)
        | succ port =>
          apply handles_after (silent_reporterPage _)
          intro _
          exact handles_before (handles_topKeys _ _ _) fun err => silent_endPage err _
    · rw [if_neg hkeys, if_neg hkeys]
      by_cases hclients : uri ∈ topClientsUris
      · rw [if_pos hclients, if_pos hclients]
        cases addr with
        | none => exact hmissing _ (silent_reporterPage _)
        | some addr => cases port with
          | zero => exact hmissing _ (silent_reporterPage _)
          | succ port => cases key with
            | none => exact hmissing _ (silent_reporterPage _)
            | some key =>
              apply handles_after (silent_reporterPage _)
              intro _
              exact handles_before (handles_topClients _ _ _) fun err => silent_endPage err _
      · rw [if_neg hclients, if_neg hclients]
        by_cases hop : uri ∈ mcrOpUris
        · rw [if_pos hop, if_pos hop]
          cases addr with
          | none => exact hmissing _ (silent_print _)
          | some addr => cases port with
            | zero => exact hmissing _ (silent_print _)
            | succ port =>
              have henable := handles_mcrOp (uri = ascii "mcr-enable") addr (port + 1)
              simp only [decide_eq_true_eq] at henable
              exact handles_before henable silent_endOperation
        · rw [if_neg hop, if_neg hop]
          exact (silent_print _).handles

/-- The callback sends what the decoded uri names. -/
theorem handles_reporterCallback (uri : Bytes) :
    Handles (reporterOp uri) (reporterCallback uri) :=
  handles_before (handles_reporterUri _ _) fun _ => silent_pure true

theorem silent_imageCallback (uri : Bytes) : Silent (imageCallback uri) := by
  unfold imageCallback
  split
  · apply silent_bind (silent_print _)
    intro _
    exact silent_bind (silent_print _) fun _ => silent_pure true
  · exact silent_bind (silent_print _) fun _ => silent_pure true

theorem silent_statsCallback (bep : Backend) (type : ClientType) (uri : Bytes) :
    Silent (statsCallback bep type uri) := by
  unfold statsCallback
  split
  · exact silent_bind (silent_print _) fun _ => silent_pure true
  · apply silent_bind (silent_emit rfl)
    intro _
    apply silent_bind (silent_clientCall fun _ => rfl)
    intro r
    dsimp only
    split
    · apply silent_bind (silent_print _)
      intro _
      exact silent_bind (silent_emit rfl) fun _ => silent_pure true
    · split
      · apply silent_bind (silent_print _)
        intro _
        exact silent_bind (silent_emit rfl) fun _ => silent_pure false
      · repeat' first
          | exact silent_print _
          | exact silent_emit rfl
          | exact silent_pure true
          | apply silent_bind
          | intro _

theorem handles_handleRequest (bep : Backend) (servRequest : Bytes) :
    Handles (requestOp bep servRequest) (handleRequest bep servRequest) := by
  have herror : ∀ {op : Option ReporterOp} (code : Nat) (uri : Bytes),
      Handles op (print (.clientError code uri) >>= fun _ => pure true) :=
    fun _ _ => (silent_bind (silent_print _) fun _ => silent_pure true).handles
  unfold requestOp handleRequest
  dsimp only
  split
  · exact herror _ _
  · cases hcb : findCallback bep (baseUri (stripSlash (scanRequest servRequest).2)) with
    | none => exact herror _ _
    | some cb => cases cb with
      | reporter => exact handles_reporterCallback _
      | image => exact (silent_imageCallback _).handles
      | stats => exact (silent_statsCallback _ _ _).handles

end

/-- A command line starts with its word. -/
def startsChange (line : Bytes) : Bool :=
  line.takeWhile (fun ch => ch ≠ 32 && ch ≠ 13 && ch ≠ 10) ∈ [ascii "add", ascii "del"]

/-- Some line after the first is an "add" or a "del". -/
def changesLater : Bytes → Bool
  | [] => false
  | ch :: rest => (ch = 10 && startsChange rest) || changesLater rest

/-- The text has an "add" or a "del" command. -/
def changesReporting (text : Bytes) : Bool := startsChange text || changesLater text

def ReporterOp.args : ReporterOp → List Bytes
  | .instances => []
  | .topKeys op addr _ => [op, addr]
  | .topClients key addr _ => [key, addr]
  | .instanceOp _ addr _ => [addr]

def ReporterOp.isInstanceOp : ReporterOp → Bool
  | .instanceOp _ _ _ => true
  | _ => false

/-- The operation is "add" or "del", or an argument brings in such a line. -/
def ReporterOp.changes (op : ReporterOp) : Bool :=
  op.isInstanceOp || op.args.any changesLater

theorem startsChange_append (front : Bytes) (ch : UInt8) (back : Bytes)
    (hch : ch = 32 ∨ ch = 13 ∨ ch = 10) :
    startsChange (front ++ ch :: back) = startsChange front := by
  have hstop : (ch ≠ 32 && ch ≠ 13 && ch ≠ 10) = false := by
    rcases hch with rfl | rfl | rfl <;> rfl
  unfold startsChange
  congr 2
  induction front with
  | nil => simp only [List.nil_append, List.takeWhile_cons, hstop, List.takeWhile_nil]; rfl
  | cons c front ih => simp only [List.cons_append, List.takeWhile_cons, ih]

/-- Pieces of a text that a blank or a line end keeps apart. -/
theorem changesLater_append (front : Bytes) (ch : UInt8) (back : Bytes)
    (hch : ch = 32 ∨ ch = 13 ∨ ch = 10) :
    changesLater (front ++ ch :: back) = (changesLater front || changesLater (ch :: back)) := by
  induction front with
  | nil => simp [changesLater]
  | cons c front ih =>
    rw [List.cons_append, changesLater, changesLater, ih, startsChange_append _ _ _ hch,
      Bool.or_assoc]

theorem changesLater_of_notMem {text : Bytes} (h : 10 ∉ text) : changesLater text = false := by
  induction text with
  | nil => rfl
  | cons ch text ih =>
    rw [List.mem_cons, not_or] at h
    simp only [changesLater, Ne.symm h.1, decide_false, Bool.false_and, Bool.false_or]
    exact ih h.2

/-- An argument and the blank after it. -/
theorem changesLater_arg (arg rest : Bytes) :
    changesLater (arg ++ 32 :: rest) = (changesLater arg || changesLater rest) := by
  rw [changesLater_append _ _ _ (Or.inl rfl)]
  simp [changesLater]

theorem changesReporting_word {word : Bytes} (hword : 10 ∉ word) (rest : Bytes) :
    changesReporting (word ++ 32 :: rest) = (startsChange word || changesLater rest) := by
  rw [changesReporting, startsChange_append _ _ _ (Or.inl rfl), changesLater_arg,
    changesLater_of_notMem hword, Bool.false_or]

theorem changesLater_line {text : Bytes} (h : 10 ∉ text) :
    changesLater (text ++ ascii "\r\n") = false := by
  rw [show ascii "\r\n" = [13, 10] by decide, changesLater_append _ _ _ (Or.inr (Or.inl rfl)),
    changesLater_of_notMem h]
  decide

theorem printDecimal_noNewline (n : Nat) : 10 ∉ printDecimal n := by
  unfold printDecimal
  split
  · decide
  · intro hmem
    exact isDigit_ne (isDigit_decimalDigits n 10 hmem) (by decide) rfl

theorem blank_noNewline : 10 ∉ ascii " " := by decide

/-- A command with two words from the parameters, and no newline in what follows. -/
theorem changesReporting_args {word text : Bytes} (hword : 10 ∉ word)
    (hchange : startsChange word = false) (htext : 10 ∉ text) (arg addr : Bytes) :
    changesReporting (word ++ 32 :: (arg ++ 32 :: (addr ++ 32 :: (text ++ ascii "\r\n")))) =
      (changesLater arg || changesLater addr) := by
  rw [changesReporting_word hword, changesLater_arg, changesLater_arg, changesLater_line htext,
    Bool.or_false, hchange, Bool.false_or]

theorem topKeysCmd_changes (op addr : Bytes) (port mcrtime nkeys : Nat) :
    changesReporting (topKeysCmd op addr port mcrtime nkeys) =
      (changesLater op || changesLater addr) := by
  have hsplit : topKeysCmd op addr port mcrtime nkeys = ascii "top-keys" ++ 32 :: (op ++ 32 ::
      (addr ++ 32 :: (printDecimal port ++ ascii " " ++ printDecimal mcrtime ++ ascii " " ++
        printDecimal nkeys ++ ascii "\r\n"))) := by
    have hword : ascii "top-keys " = ascii "top-keys" ++ [32] := by decide
    have hblank : ascii " " = [32] := by decide
    simp [topKeysCmd, hword, hblank]
  have hline : 10 ∉ printDecimal port ++ ascii " " ++ printDecimal mcrtime ++ ascii " " ++
      printDecimal nkeys := by
    simp [printDecimal_noNewline, blank_noNewline]
  rw [hsplit]
  exact changesReporting_args (by decide) (by decide) hline op addr

theorem topClientsCmd_changes (key addr : Bytes) (port mcrtime nclnts : Nat) :
    changesReporting (topClientsCmd key addr port mcrtime nclnts) =
      (changesLater key || changesLater addr) := by
  let count := if key = ascii "ops" then ascii " " ++ printDecimal nclnts else []
  have hcount : 10 ∉ count := by
    unfold count
    split
    · simp [printDecimal_noNewline, blank_noNewline]
    · exact List.not_mem_nil
  have hsplit : topClientsCmd key addr port mcrtime nclnts = ascii "top-clnts" ++ 32 :: (key ++
      32 :: (addr ++ 32 :: (printDecimal port ++ ascii " " ++ printDecimal mcrtime ++ count ++
        ascii "\r\n"))) := by
    have hword : ascii "top-clnts " = ascii "top-clnts" ++ [32] := by decide
    have hblank : ascii " " = [32] := by decide
    simp [topClientsCmd, hword, hblank, count]
  have hline : 10 ∉ printDecimal port ++ ascii " " ++ printDecimal mcrtime ++ count := by
    simp [printDecimal_noNewline, blank_noNewline, hcount]
  rw [hsplit]
  exact changesReporting_args (by decide) (by decide) hline key addr

theorem instanceCmd_changes (enable : Bool) (addr : Bytes) (port : Nat) :
    changesReporting (instanceCmd (if enable then ascii "add" else ascii "del") addr port) =
      true := by
  have hsplit : ∀ op : Bytes, op ≠ ascii "del-all" → instanceCmd op addr port =
      op ++ 32 :: (addr ++ ascii " " ++ printDecimal port ++ ascii "\r\n") := by
    intro op hop
    have hblank : ascii " " = [32] := by decide
    simp [instanceCmd, hop, hblank]
  cases enable with
  | true =>
    rw [if_pos rfl, hsplit _ (by decide), changesReporting_word (by decide),
      show startsChange (ascii "add") = true by decide, Bool.true_or]
  | false =>
    rw [if_neg (by decide), hsplit _ (by decide), changesReporting_word (by decide),
      show startsChange (ascii "del") = true by decide, Bool.true_or]

theorem changes_command (op : ReporterOp) : changesReporting op.command = op.changes := by
  cases op with
  | instances => decide
  | topKeys op addr port =>
    rw [ReporterOp.command, topKeysCmd_changes]
    simp [ReporterOp.changes, ReporterOp.isInstanceOp, ReporterOp.args]
  | topClients key addr port =>
    rw [ReporterOp.command, topClientsCmd_changes]
    simp [ReporterOp.changes, ReporterOp.isInstanceOp, ReporterOp.args]
  | instanceOp enable addr port => exact instanceCmd_changes enable addr port

/-- The setting is enforced in what a run writes to the reporter. -/
def Enforced (reporter : Option Bytes) (trace : List ClientEvent) : Prop :=
  (reporter ≠ some (ascii "modify") →
    ∀ text, .fputs text ∈ trace → changesReporting text = false) ∧
  (reporter = some (ascii "off") → ∀ text, .fputs text ∉ trace)

/-- The setting allows the operation. -/
def Permitted (reporter : Option Bytes) (op : ReporterOp) : Prop :=
  reporter = some (ascii "modify") ∨ (reporter ≠ some (ascii "off") ∧ op.changes = false)

theorem contact_handleRequest (bep : Backend) (servRequest : Bytes) (inputs : List ClientAnswer) :
    Contact (requestOp bep servRequest) ((handleRequest bep servRequest).exec () inputs).trace := by
  have hwp := (handles_handleRequest bep servRequest).performs ((), []) ⟨nofun, fun _ => nofun⟩
  have hrun := run_of_wp hwp (fun _ _ h => h) inputs
  rw [run_prod, run_log] at hrun
  exact hrun

/-- A request respects the setting exactly if the setting allows the operation
that the request names, or the connection to the reporter is not opened. -/
theorem enforced_iff (bep : Backend) (servRequest : Bytes) (inputs : List ClientAnswer) :
    Enforced bep.settings.reporter ((handleRequest bep servRequest).exec () inputs).trace ↔
      ∀ op, requestOp bep servRequest = some op →
        .fdopen true ∈ ((handleRequest bep servRequest).exec () inputs).trace →
        Permitted bep.settings.reporter op := by
  have hcontact := contact_handleRequest bep servRequest inputs
  generalize ((handleRequest bep servRequest).exec () inputs).trace = trace at hcontact ⊢
  constructor
  · rintro ⟨hchange, hoff⟩ op hop hopen
    have hsent : .fputs op.command ∈ trace := by
      apply (hcontact _).mpr
      exact ⟨hopen, by rw [hop]; rfl⟩
    by_cases hmodify : bep.settings.reporter = some (ascii "modify")
    · exact Or.inl hmodify
    · refine Or.inr ⟨fun hr => hoff hr _ hsent, ?_⟩
      rw [← changes_command]
      exact hchange hmodify _ hsent
  · intro hpermitted
    have hsent : ∀ text, .fputs text ∈ trace → ∃ op, op.command = text ∧
        Permitted bep.settings.reporter op := by
      intro text htext
      obtain ⟨hopen, hcommand⟩ := (hcontact text).mp htext
      obtain ⟨op, hop, rfl⟩ := Option.map_eq_some_iff.mp hcommand
      exact ⟨op, rfl, hpermitted op hop hopen⟩
    constructor
    · intro hmodify text htext
      obtain ⟨op, rfl, hp⟩ := hsent text htext
      rw [changes_command]
      exact (hp.resolve_left hmodify).2
    · intro hoff text htext
      obtain ⟨op, -, hp⟩ := hsent text htext
      rcases hp with hmodify | hview
      · rw [hoff] at hmodify
        contradiction
      · exact hview.1 hoff

def disableRequest : Bytes := ascii "GET /mcr-disable?addr=127.0.0.1&port=11211 HTTP/1.1\r\n"

def offBackend : Backend := (World.initial sampleSettings sampleUris).bep

/-- The reporter is off, and is told to delete an instance. -/
theorem enforced_fails : ¬∀ bep servRequest inputs,
    Enforced bep.settings.reporter ((handleRequest bep servRequest).exec () inputs).trace := by
  intro h
  have hoff := (h offBackend disableRequest (List.replicate 5 {})).2 rfl
    (ascii "del 127.0.0.1 11211\r\n")
  exact hoff (by decide +kernel)

end StatsProxy

import StatsProxy.ReporterSetting

/-! One command line for each operation. A request writes exactly the command of
its operation; that text is one line with the operation's words, unless an
argument is empty or brings in a blank or a line break of its own. -/
namespace StatsProxy
open CString Interaction Program

/-- The word of the command and its arguments. -/
def ReporterOp.words : ReporterOp → List Bytes
  | .instances => [ascii "show", ascii "instances"]
  | .topKeys op addr port =>
    [ascii "top-keys", op, addr, printDecimal port, printDecimal tkTime, printDecimal tkNum]
  | .topClients key addr port =>
    [ascii "top-clnts", key, addr, printDecimal port, printDecimal tcTime] ++
      if key = ascii "ops" then [printDecimal tcNum] else []
  | .instanceOp enable addr port =>
    [if enable then ascii "add" else ascii "del", addr, printDecimal port]

/-- All that is written on the connection. -/
def written (log : List ClientEvent) : Bytes :=
  log.flatMap fun e => match e with
    | .fputs text => text
    | _ => []

/-- One line, with its only line break at its end, that splits into the words. -/
def CommandLine (words : List Bytes) (text : Bytes) : Prop :=
  ∃ line, text = line ++ ascii "\r\n" ∧ 13 ∉ line ∧ 10 ∉ line ∧ strtok (ascii " ") line = words

/-- The connection gets the one command line of the operation, if it is opened. -/
def OneCommand (op : Option ReporterOp) (log : List ClientEvent) : Prop :=
  (.fdopen true ∉ log → written log = []) ∧
    (.fdopen true ∈ log → ∃ o, op = some o ∧ CommandLine o.words (written log))

/-- An argument that stays one word of one line. -/
def PlainWord (word : Bytes) : Prop := word ≠ [] ∧ 32 ∉ word ∧ 13 ∉ word ∧ 10 ∉ word

theorem printDecimal_plain (n : Nat) : PlainWord (printDecimal n) := by
  have hbyte : ∀ {ch : UInt8}, isDigit ch = false → ch ∉ printDecimal n :=
    fun hch hmem => isDigit_ne (isDigit_printDecimal n _ hmem) hch rfl
  exact ⟨printDecimal_ne_nil n, hbyte (by decide), hbyte (by decide), hbyte (by decide)⟩

/-- Only the arguments come from the request. -/
theorem ReporterOp.plainWords_iff (op : ReporterOp) :
    (∀ word ∈ op.words, PlainWord word) ↔ ∀ arg ∈ op.args, PlainWord arg := by
  have hword : ∀ text : Bytes, (text ≠ [] ∧ 32 ∉ text ∧ 13 ∉ text ∧ 10 ∉ text) → PlainWord text :=
    fun _ h => h
  cases op with
  | instances =>
    simp only [ReporterOp.words, ReporterOp.args, List.forall_mem_cons, List.not_mem_nil,
      false_imp_iff, implies_true, and_true, iff_true]
    exact ⟨hword _ (by decide), hword _ (by decide)⟩
  | topKeys op addr port =>
    simp only [ReporterOp.words, ReporterOp.args, List.forall_mem_cons, List.not_mem_nil,
      false_imp_iff, implies_true, and_true, printDecimal_plain]
    exact and_iff_right (hword _ (by decide))
  | topClients key addr port =>
    have hcount : ∀ word ∈ (if key = ascii "ops" then [printDecimal tcNum] else []),
        PlainWord word := by
      intro word hmem
      split at hmem
      · rw [List.mem_singleton.mp hmem]
        exact printDecimal_plain _
      · contradiction
    simp only [ReporterOp.words, ReporterOp.args, List.forall_mem_append, List.forall_mem_cons,
      List.not_mem_nil, false_imp_iff, implies_true, and_true, printDecimal_plain]
    exact (and_iff_left hcount).trans (and_iff_right (hword _ (by decide)))
  | instanceOp enable addr port =>
    simp only [ReporterOp.words, ReporterOp.args, List.forall_mem_cons, List.not_mem_nil,
      false_imp_iff, implies_true, and_true, printDecimal_plain]
    apply and_iff_right
    apply hword
    cases enable <;> decide

theorem ReporterOp.command_words (op : ReporterOp) :
    op.command = (ascii " ").intercalate op.words ++ ascii "\r\n" := by
  have hkeys : ascii "top-keys " = ascii "top-keys" ++ ascii " " := by decide
  have hclients : ascii "top-clnts " = ascii "top-clnts" ++ ascii " " := by decide
  cases op with
  | instances => decide
  | topKeys op addr port =>
    simp [ReporterOp.command, ReporterOp.words, topKeysCmd, hkeys, List.intercalate]
  | topClients key addr port =>
    simp only [ReporterOp.command, ReporterOp.words, topClientsCmd]
    split <;> simp [hclients, List.intercalate]
  | instanceOp enable addr port =>
    have hop : (if enable then ascii "add" else ascii "del") ≠ ascii "del-all" := by
      cases enable <;> decide
    simp [ReporterOp.command, ReporterOp.words, instanceCmd, hop, List.intercalate]

/-- The command is one line with the operation's words exactly if the arguments
stay words. -/
theorem ReporterOp.commandLine_iff (op : ReporterOp) :
    CommandLine op.words op.command ↔ ∀ arg ∈ op.args, PlainWord arg := by
  rw [← op.plainWords_iff]
  have hne : op.words ≠ [] := by
    cases op <;> exact nofun
  constructor
  · rintro ⟨line, htext, hcr, hlf, hwords⟩ word hword
    rw [op.command_words, List.append_left_inj] at htext
    subst htext
    obtain ⟨hword', hblank⟩ := (strtok_intercalate hne).mp hwords word hword
    exact ⟨hword', hblank, fun h => hcr ((mem_intercalate_blank (by decide)).mpr ⟨word, hword, h⟩),
      fun h => hlf ((mem_intercalate_blank (by decide)).mpr ⟨word, hword, h⟩)⟩
  · intro h
    refine ⟨_, op.command_words, ?_, ?_, ?_⟩
    · rw [mem_intercalate_blank (by decide)]
      rintro ⟨word, hword, hmem⟩
      exact (h word hword).2.2.1 hmem
    · rw [mem_intercalate_blank (by decide)]
      rintro ⟨word, hword, hmem⟩
      exact (h word hword).2.2.2 hmem
    · exact (strtok_intercalate hne).mpr fun word hword => ⟨(h word hword).1, (h word hword).2.1⟩

theorem written_append (log more : List ClientEvent) :
    written (log ++ more) = written log ++ written more :=
  List.flatMap_append

/-- What is written is the command, once. -/
def Sent (op : Option ReporterOp) (log : List ClientEvent) : Prop :=
  (.fdopen true ∉ log → written log = []) ∧
    (.fdopen true ∈ log → ∃ o, op = some o ∧ written log = o.command)

theorem written_silent {log : List ClientEvent} {e : ClientEvent} (he : e.silent = true) :
    written (log ++ [e]) = written log := by
  rw [written_append]
  cases e <;> first | contradiction | exact List.append_nil _

theorem contacts_sent (op : Option ReporterOp) :
    Contacts op (fun log => .fdopen true ∉ log ∧ written log = []) (Sent op) where
  contact log h := ⟨fun _ => h.2, fun hopen => absurd hopen h.1⟩
  untouched log e he h := by
    rw [written_silent he, List.mem_append, List.mem_singleton, not_or]
    exact ⟨⟨h.1, (silent_ne he).1⟩, h.2⟩
  contacted log e he h := by
    have hmem : .fdopen true ∈ log ++ [e] ↔ .fdopen true ∈ log := by
      rw [List.mem_append, List.mem_singleton]
      exact or_iff_left (silent_ne he).1
    unfold Sent
    rw [written_silent he, hmem]
    exact h
  sent o log ho h := by
    have hwritten : written (log ++ [.fdopen true] ++ [.fputs o.command]) = o.command := by
      rw [written_append, written_append, h.2]
      simp [written]
    exact ⟨fun hopen => absurd (by simp) hopen, fun _ => ⟨o, ho, hwritten⟩⟩

theorem sent_handleRequest (bep : Backend) (servRequest : Bytes) (inputs : List ClientAnswer) :
    Sent (requestOp bep servRequest) ((handleRequest bep servRequest).exec () inputs).trace := by
  have hwp := handles_handleRequest bep servRequest _ _ (contacts_sent _) ((), []) ⟨nofun, rfl⟩
  have hrun := run_of_wp hwp (fun _ _ h => h) inputs
  rw [run_prod, run_log] at hrun
  exact hrun

/-- A request makes one command line reach the reporter exactly if the connection
is not opened or no argument of the operation is empty or has a blank, a carriage
return or a newline. -/
theorem oneCommand_iff (bep : Backend) (servRequest : Bytes) (inputs : List ClientAnswer) :
    OneCommand (requestOp bep servRequest) ((handleRequest bep servRequest).exec () inputs).trace ↔
      ∀ op, requestOp bep servRequest = some op →
        .fdopen true ∈ ((handleRequest bep servRequest).exec () inputs).trace →
        ∀ arg ∈ op.args, PlainWord arg := by
  obtain ⟨hnone, hsome⟩ := sent_handleRequest bep servRequest inputs
  constructor
  · rintro ⟨-, hone⟩ op hop hopen
    obtain ⟨o, ho, hwritten⟩ := hsome hopen
    obtain ⟨o', ho', hline⟩ := hone hopen
    obtain rfl : o = op := Option.some.inj (ho.symm.trans hop)
    obtain rfl : o' = o := Option.some.inj (ho'.symm.trans ho)
    rw [hwritten] at hline
    exact o'.commandLine_iff.mp hline
  · intro hplain
    refine ⟨hnone, fun hopen => ?_⟩
    obtain ⟨o, ho, hwritten⟩ := hsome hopen
    refine ⟨o, ho, ?_⟩
    rw [hwritten]
    exact o.commandLine_iff.mpr (hplain o ho hopen)

/-- The key has a line break and a command of its own. -/
def injectingRequest : Bytes :=
  ascii "GET /top-clients-ops?addr=127.0.0.1&port=11211&key=k%0d%0adel%20b%201 HTTP/1.1\r\n"

theorem oneCommand_fails : ¬∀ bep servRequest inputs,
    OneCommand (requestOp bep servRequest)
      ((handleRequest bep servRequest).exec () inputs).trace := by
  intro h
  have hopen : .fdopen true ∈
      ((handleRequest offBackend injectingRequest).exec () (List.replicate 5 {})).trace := by
    rw [injectingRequest, ascii_ofList]
    decide +kernel
  have hbreaks : (written ((handleRequest offBackend injectingRequest).exec ()
      (List.replicate 5 {})).trace).count 10 = 2 := by
    rw [injectingRequest, ascii_ofList]
    decide +kernel
  obtain ⟨-, -, line, htext, -, hlf, -⟩ :=
    (h offBackend injectingRequest (List.replicate 5 {})).2 hopen
  rw [htext, List.count_append, List.count_eq_zero_of_not_mem hlf] at hbreaks
  exact absurd hbreaks (by decide)

end StatsProxy

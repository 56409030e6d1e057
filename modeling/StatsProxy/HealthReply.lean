import StatsProxy.HealthCheck

/-! What a health check leaves of the reply on its connection. At most eight bytes
are read, and an error is recognised only if it stands in these. -/
namespace StatsProxy
open CString Interaction Program Poller

/-- The replies to the liveness command. -/
inductive LivenessReply : Bytes → Prop
  | stored : LivenessReply livenessOk
  | notStored : LivenessReply (ascii "NOT_STORED\r\n")
  | error : LivenessReply (ascii "ERROR\r\n")
  | reason (word : Bytes) (hword : word = ascii "CLIENT_ERROR " ∨ word = ascii "SERVER_ERROR ")
      (text : Bytes) : LivenessReply (word ++ text ++ ascii "\r\n")

/-- The socket delivers the bytes of the reply in order, and the stream ends after
the last of them if it does. -/
structure DeliversOnly (reply : Bytes) (log : List Event) : Prop where
  bytes : received log <+: reply
  eof : AtEach (fun before e => ∀ len, e = .read len (.ok []) → received before = reply) log

/-- The first eight bytes of the replies. -/
def livenessHeads : List Bytes :=
  [livenessOk, ascii "NOT_STOR", ascii "ERROR\r\n", ascii "CLIENT_E", ascii "SERVER_E"]

section

variable {reply data : Bytes}

theorem LivenessReply.head (h : LivenessReply reply) :
    reply.take livenessOk.length ∈ livenessHeads := by
  cases h with
  | stored => decide
  | notStored => decide
  | error => decide
  | reason word hword text =>
    have hlen : livenessOk.length ≤ word.length := by
      rcases hword with rfl | rfl <;> decide
    rw [List.append_assoc, List.take_append_of_le_length hlen]
    rcases hword with rfl | rfl <;> decide

/-- Only one reply has eight bytes, and a shorter one is an error. -/
theorem LivenessReply.length (h : LivenessReply reply) :
    (reply.length = livenessOk.length ↔ reply = livenessOk) ∧
      (reply.length < livenessOk.length → hasError reply = true) := by
  cases h with
  | stored => exact ⟨by simp, fun hlt => absurd hlt (Nat.lt_irrefl _)⟩
  | notStored => decide
  | error => decide
  | reason word hword text =>
    have hword : livenessOk.length < word.length := by
      rcases hword with rfl | rfl <;> decide
    have hlong : livenessOk.length < (word ++ text ++ ascii "\r\n").length := by
      rw [List.length_append, List.length_append]
      omega
    refine ⟨iff_of_false hlong.ne' fun heq => ?_, fun hlt => absurd hlt hlong.not_gt⟩
    rw [heq] at hlong
    exact Nat.lt_irrefl _ hlong

/-- No reply ends in its first eight bytes with `END`, and only a short one has an
error there. -/
theorem LivenessReply.fragment (h : LivenessReply reply) (hdata : data <+: reply)
    (hlen : data.length ≤ livenessOk.length) :
    hasEnd data = false ∧ (hasError data = true → data.length < livenessOk.length) := by
  have hheads : ∀ head ∈ livenessHeads, ∀ k < livenessOk.length + 1,
      hasEnd (head.take k) = false ∧
        (hasError (head.take k) = true → (head.take k).length < livenessOk.length) := by
    decide +kernel
  have htake : data = (reply.take livenessOk.length).take data.length := by
    rw [List.take_take, Nat.min_eq_left hlen]
    exact List.prefix_iff_eq_take.mp hdata
  rw [htake]
  exact hheads _ h.head _ (Nat.lt_succ_of_le hlen)

/-- The server has closed the connection. -/
def Event.readEnded : Event → Bool
  | .read _ (.ok []) => true
  | _ => false

theorem deliversOnly_of_noEof {log : List Event} (hbytes : received log <+: reply)
    (heof : log.all (!·.readEnded)) : DeliversOnly reply log where
  bytes := hbytes
  eof := by
    apply atEach_of_mem
    rintro e he before len rfl
    exact absurd (List.all_eq_true.mp heof _ he) (by simp [Event.readEnded])

theorem DeliversOnly.back {front back : List Event} (h : DeliversOnly reply (front ++ back))
    (hfront : ∀ e ∈ front, ¬e.IsRead) : DeliversOnly reply back where
  bytes := by
    have hbytes := h.bytes
    rwa [received_append, received_nil hfront, List.nil_append] at hbytes
  eof := by
    intro before e after hsplit len he
    have hwhole := (atEach_append.mp h.eof).2 before e after hsplit len he
    rwa [received_append, received_nil hfront, List.nil_append] at hwhole

theorem DeliversOnly.front {front back : List Event} (h : DeliversOnly reply (front ++ back)) :
    DeliversOnly reply front where
  bytes := by
    have hbytes := h.bytes
    rw [received_append] at hbytes
    exact (List.prefix_append _ _).trans hbytes
  eof := (atEach_append.mp h.eof).1

/-- When the stream ends the reply has been received. -/
theorem DeliversOnly.whole {log : List Event} (h : DeliversOnly reply log) (hhit : HitEof log) :
    received log = reply := by
  obtain ⟨len, hmem⟩ := hhit
  obtain ⟨before, after, rfl⟩ := List.append_of_mem hmem
  have hwhole := h.eof before _ after rfl len rfl
  have hleading : received before <+: received (before ++ .read len (.ok []) :: after) := by
    rw [received_append]
    exact List.prefix_append _ _
  exact h.bytes.eq_of_length_le (hwhole ▸ hleading.length_le)

/-- After the read the connection is closed or nothing is left of the reply, unless
eight bytes of a longer reply have come. -/
theorem healthRead_inStep {sk : SocketState} {fd : Int} {r : ReadLoop} {w : World}
    {log : List Event} (hreply : LivenessReply reply) (h : ReadEnd livenessOk.length sk fd r w log)
    (hd : DeliversOnly reply log) :
    (w.bep.fd = -1 ∨ received log = reply) ↔
      (reply = livenessOk ∨ (received log).length < livenessOk.length) := by
  have hlength := h.length
  rw [h.data] at hlength
  obtain ⟨hend, herror⟩ := hreply.fragment hd.bytes hlength
  cases h.outcome with
  | full _ _ hfull _ _ _ hopen =>
    rw [h.data] at hfull
    have hpos : 0 ≤ fd := by
      apply h.opened
      rw [h.data]
      exact List.ne_nil_of_length_eq_add_one (n := 7) hfull
    constructor
    · rintro (hclosed | hwhole)
      · omega
      · exact Or.inl (hreply.length.1.mp (hwhole ▸ hfull))
    · rintro (hstored | hshort)
      · apply Or.inr (hd.bytes.eq_of_length _)
        rw [hfull, hstored]
      · omega
  | ended _ _ hmarker =>
    rw [h.data, hend] at hmarker
    contradiction
  | eof _ _ hroom hplain hhit =>
    have hwhole := hd.whole hhit
    rw [h.data] at hroom hplain
    have hcontra := hreply.length.2 (hwhole ▸ hroom)
    rw [← hwhole, hplain.2] at hcontra
    contradiction
  | cancelled _ _ hmarker _ _ hclosed =>
    rw [h.data] at hmarker
    exact iff_of_true (Or.inl hclosed) (Or.inr (herror hmarker))
  | broken _ _ hroom _ _ _ _ hclosed =>
    rw [h.data] at hroom
    exact iff_of_true (Or.inl hclosed) (Or.inr hroom)

end

/-- Where the command has failed the connection is closed, unless all of it had been
accepted. -/
theorem healthUnsent_inStep {w : World} {wrote : List Event} {err : Nat} {reply : Bytes}
    (hreply : LivenessReply reply) (h : WriteEnd w livenessCmd err (run w wrote, wrote))
    (herr : err ≠ 0) :
    ((run w wrote).bep.fd = -1 ∨ [] = reply) ↔
      ¬Recovered livenessCmd wrote ∧
        (reply = livenessOk ∨ ([] : Bytes).length < livenessOk.length) := by
  have hrefused : Refused wrote := by
    by_contra hnone
    exact herr (h.err.mpr hnone)
  have hne : [] ≠ reply := by
    rintro rfl
    exact absurd hreply.head (by decide)
  rcases h.outcome with ⟨hall, hsame, hpos⟩ | ⟨hpart, hclosed, -⟩
  · have hfd : 0 ≤ w.bep.fd := hpos (by decide)
    have hnot : (run w wrote).bep.fd ≠ -1 := by
      dsimp only at hsame
      omega
    exact iff_of_false (not_or_intro hnot hne) fun hcond => hcond.1 ⟨hall, hrefused⟩
  · exact iff_of_true (Or.inl hclosed)
      ⟨fun hrec => Nat.ne_of_lt hpart hrec.1, Or.inr (by decide)⟩

/-- A health check leaves its connection closed or the reply read exactly if no write
was made up for, and the reply has no ninth byte or does not come that far. -/
theorem getHealth_inStep_iff (w : World) (i : Nat) (inputs rest : List Answer)
    (trace : List Event) (reply : Bytes) (hfd : -1 ≤ w.bep.fd) (hreply : LivenessReply reply)
    (h : (getHealth i).exec w inputs = .done () trace rest) (hd : DeliversOnly reply trace) :
    ((run w trace).bep.fd = -1 ∨ received trace = reply) ↔
      ¬Recovered livenessCmd trace ∧
        (reply = livenessOk ∨ (received trace).length < livenessOk.length) := by
  obtain ⟨p, front, given, err, wrote, left, back, hask, hwrite, hreplied, rfl⟩ :=
    getHealth_calls h
  have hfront := within_done (within_askHealth silent_gettimeofday silent_time i) hask
  have hwrote : ∀ e ∈ wrote, ¬e.IsRead :=
    fun e he => not_isRead_of_ofWrite (within_done (within_spMemcacheWrite livenessCmd) hwrite e he)
  have hopen : -1 ≤ (run w front).bep.fd := by
    rw [run_fd w fun e he => (hfront e he).sameFd]
    exact hfd
  have hwritten := write_done hopen hwrite
  have hd' := (hd.back fun e he => (hfront e he).noRead).back hwrote
  have hreceived : received (front ++ (wrote ++ back)) = received back := by
    rw [received_append, received_append, received_nil fun e he => (hfront e he).noRead,
      received_nil hwrote]
    rfl
  rw [hreceived, run_append, run_append]
  by_cases herr : err = 0
  · subst herr
    obtain ⟨r, reads, after, stop, hread, rfl⟩ := healthReply_sent hreplied
    have hreads := within_done (within_spMemcacheRead _ _ _) hread
    have htail : ∀ e ∈ Event.gettimeofday stop :: update i
        ((run (run (run w front) wrote) reads).bep.stats i).length
        (healthEntries p.pollDelta p.polltimeBuf (livenessOf r)
          (max 0 (toInt64 (stop - p.start)))), e.Silent :=
      List.forall_mem_cons.mpr ⟨silent_gettimeofday stop, silent_update⟩
    have hback : ∀ e ∈ reads ++ Event.gettimeofday stop :: update i
        ((run (run (run w front) wrote) reads).bep.stats i).length
        (healthEntries p.pollDelta p.polltimeBuf (livenessOf r)
          (max 0 (toInt64 (stop - p.start)))), ¬e.IsWrite := by
      intro e he
      rcases List.mem_append.mp he with he | he
      · exact not_isWrite_of_ofRead (hreads e he)
      · exact (htail e he).noWrite
    have hnot : ¬Recovered livenessCmd wrote := fun hrec => hwritten.err.mp rfl hrec.2
    rw [recovered_middle (fun e he => (hfront e he).noWrite) hback, run_append,
      run_fd _ fun e he => (htail e he).sameFd, received_append,
      received_nil fun e he => (htail e he).noRead, List.append_nil, and_iff_right hnot]
    exact healthRead_inStep hreply (read_done (hwritten.fd_ge hopen) hread) hd'.front
  · cases healthReply_unsent herr hreplied
    rw [recovered_middle (fun e he => (hfront e he).noWrite)
      (fun e he => (silent_update e he).noWrite), run_fd _ fun e he => (silent_update e he).sameFd,
      received_nil fun e he => (silent_update e he).noRead]
    exact healthUnsent_inStep hreply hwritten herr

theorem getHealth_inStep_iff_stored :
    (run connectedWorld (sampleHealth (sentAnswers ++ storedAnswers)).trace).bep.fd = -1 ∨
      received (sampleHealth (sentAnswers ++ storedAnswers)).trace = livenessOk := by
  have hdone : sampleHealth (sentAnswers ++ storedAnswers) =
      .done () (sampleHealth (sentAnswers ++ storedAnswers)).trace [] := by
    decide +kernel
  have hbytes : received (sampleHealth (sentAnswers ++ storedAnswers)).trace <+: livenessOk := by
    decide +kernel
  have heof : (sampleHealth (sentAnswers ++ storedAnswers)).trace.all (!·.readEnded) := by
    decide +kernel
  apply (getHealth_inStep_iff connectedWorld 0 _ [] _ livenessOk (by decide) .stored hdone
    (deliversOnly_of_noEof hbytes heof)).mpr
  refine ⟨?_, Or.inl rfl⟩
  rintro ⟨-, offered, e, hmem⟩
  have hok : (sampleHealth (sentAnswers ++ storedAnswers)).trace.all (!·.writeFailed) := by
    decide +kernel
  exact absurd (List.all_eq_true.mp hok _ hmem) (by simp [Event.writeFailed])

/-- The first fragment of `NOT_STORED`; the rest stays on the connection. -/
def notStoredAnswers : List Answer :=
  [{ read := .ok (ascii "NOT_STORED\r\n") }, { time := 0 }, { gettimeofday := 7 }]

theorem getHealth_outOfStep :
    LivenessReply (ascii "NOT_STORED\r\n") ∧
      sampleHealth (sentAnswers ++ notStoredAnswers) =
        .done () (sampleHealth (sentAnswers ++ notStoredAnswers)).trace [] ∧
      DeliversOnly (ascii "NOT_STORED\r\n")
        (sampleHealth (sentAnswers ++ notStoredAnswers)).trace ∧
      ¬((run connectedWorld (sampleHealth (sentAnswers ++ notStoredAnswers)).trace).bep.fd = -1 ∨
        received (sampleHealth (sentAnswers ++ notStoredAnswers)).trace =
          ascii "NOT_STORED\r\n") := by
  refine ⟨.notStored, by decide +kernel, ?_, by decide +kernel⟩
  exact deliversOnly_of_noEof (by decide +kernel) (by decide +kernel)

end StatsProxy

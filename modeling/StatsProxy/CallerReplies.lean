import StatsProxy.HealthReply
import StatsProxy.LongReplies
import StatsProxy.PublishedReplies

/-! What the result of `spMemcacheWrite` tells its callers. Where it agrees with what was sent,
a caller reads exactly the reply or leaves no connection, unless it stops before the reply
ends. -/
namespace StatsProxy
open CString Interaction Program Poller

/-- The callers, by the command they send. -/
inductive Caller : Bytes → (Nat → Poller Unit) → Prop
  | getStat (i : Nat) (uri : Bytes) : Caller (statsCmd uri) (statReply i)
  | getHealth (i pollDelta : Nat) (polltimeBuf : Bytes) (sk : SocketState) (start : Int) :
    Caller livenessCmd (healthReply i pollDelta polltimeBuf sk start)

/-- What a caller does with the result of a call, on a socket that delivers one reply. -/
inductive CallerRuns (w : World) (cmd reply : Bytes) (err : Nat) (trace more : List Event) : Prop
  | intro (next : Nat → Poller Unit) (inputs rest : List Answer) (caller : Caller cmd next)
      (done : (next err).exec (run w trace) inputs = .done () more rest)
      (delivers : DeliversOnly reply more)

/-- The result of a call tells what was sent. Its caller then reads exactly the reply, in the
bounds of its array, or no connection is left. -/
structure Tells (w : World) (cmd reply : Bytes) (err : Nat) (trace : List Event) : Prop where
  sent : err = 0 ↔ accepted trace = cmd.length
  closed : err ≠ 0 ↔ (run w trace).bep.fd = -1
  caller : ∀ more, CallerRuns w cmd reply err trace more →
    InBounds more ∧ (received more = reply ∨ (run (run w trace) more).bep.fd = -1)

/-- The buffer that the last of the bytes was read into. -/
def lastRead (bytes : Bytes) : Bytes := bytes.drop ((bytes.length - 1) / maxStatSz * maxStatSz)

/-- After these bytes a caller reads no more and leaves the connection open: the text that ends a
reply is in the buffer, or the buffer is full and the reply one to the health check or without a
stat. -/
def Stops (cmd bytes : Bytes) : Prop :=
  hasError (lastRead bytes) = false ∧ (hasEnd (lastRead bytes) = true ∨
    if cmd = livenessCmd then bytes.length = livenessOk.length
    else bytes.length = maxStatSz ∧ spMemcacheStatsAddStats bytes = [])

/-- A caller that stops has the whole reply, and no search has left the array. -/
def ReadsWhole (w : World) (cmd reply : Bytes) (err : Nat) (trace : List Event) : Prop :=
  ∀ more, CallerRuns w cmd reply err trace more →
    InBounds more ∧ (Stops cmd (received more) → received more = reply)

section

variable {w : World} {cmd reply : Bytes} {log back : List Event} {sk : SocketState} {fd : Int}

theorem lastRead_append {front last : Bytes} (hfront : maxStatSz ∣ front.length)
    (hpos : 0 < last.length) (hlast : last.length ≤ maxStatSz) :
    lastRead (front ++ last) = last := by
  obtain ⟨n, hn⟩ := hfront
  have hlen : (front ++ last).length - 1 = (last.length - 1) + n * maxStatSz := by
    rw [List.length_append, hn, Nat.mul_comm]
    omega
  have hpart : last.length - 1 < maxStatSz := by omega
  rw [lastRead, hlen, Nat.add_mul_div_right _ _ (by decide), Nat.div_eq_of_lt hpart, Nat.zero_add,
    Nat.mul_comm, ← hn]
  exact List.drop_left

theorem lastRead_short {bytes : Bytes} (h : bytes.length ≤ maxStatSz) : lastRead bytes = bytes := by
  have hmax : maxStatSz = 32768 := rfl
  rw [lastRead, Nat.div_eq_of_lt (by omega), Nat.zero_mul]
  exact List.drop_zero

theorem FullBuffers.dvd {buffers : List Bytes} (h : FullBuffers buffers) :
    maxStatSz ∣ buffers.flatten.length := by
  rw [h.flatten_length]
  exact Dvd.intro_left _ rfl

theorem statsCmd_ne_livenessCmd (uri : Bytes) : statsCmd uri ≠ livenessCmd := by
  intro heq
  have htwo := congrArg (List.take 2) heq
  have hstats : (statsCmd uri).take 2 = ascii "st" := by
    rw [statsCmd, List.take_take, List.append_assoc]
    rfl
  rw [hstats] at htwo
  exact absurd htwo (by decide)

/-- Where the reading goes on, or breaks off, the buffer read last has no end of a reply. -/
theorem hasEnd_lastRead {buffers : List Bytes} {last : Bytes} (h : FullBuffers buffers)
    (hroom : last.length < maxStatSz) (hplain : Plain last) :
    hasEnd (lastRead (buffers.flatten ++ last)) = false := by
  by_cases hempty : last = []
  · rcases List.eq_nil_or_concat' buffers with rfl | ⟨front, buffer, rfl⟩
    · rw [hempty]
      rfl
    · have hbuffer := List.mem_append_right front (List.mem_singleton_self buffer)
      have hfull := h.length buffer hbuffer
      have hfront : maxStatSz ∣ front.flatten.length := by
        have hall := h.dvd
        rw [List.flatten_append, List.length_append, List.flatten_singleton, hfull] at hall
        exact (Nat.dvd_add_left (dvd_refl _)).mp hall
      rw [hempty, List.append_nil, List.flatten_append, List.flatten_singleton,
        lastRead_append hfront (hfull ▸ (by decide)) hfull.le]
      exact (h.plain buffer hbuffer).1
  · rw [lastRead_append h.dvd (List.length_pos_iff.mpr hempty) hroom.le]
    exact hplain.1

/-- So no caller stops there. -/
theorem not_stops (hcmd : cmd ≠ livenessCmd) {buffers : List Bytes} {last : Bytes}
    (h : FullBuffers buffers) (hroom : last.length < maxStatSz) (hplain : Plain last) :
    ¬Stops cmd (buffers.flatten ++ last) := by
  rintro ⟨-, hstops⟩
  rw [if_neg hcmd, hasEnd_lastRead h hroom hplain] at hstops
  obtain ⟨hlen, hnone⟩ := hstops.resolve_left (fun hend => nomatch hend)
  rw [List.length_append, h.flatten_length] at hlen
  have hone : buffers.length = 1 ∧ last = [] := by
    have hmax : maxStatSz = 32768 := rfl
    rw [hmax] at hlen hroom
    exact ⟨by omega, List.eq_nil_of_length_eq_zero (by omega)⟩
  obtain ⟨buffer, rfl⟩ := List.length_eq_one_iff.mp hone.1
  apply h.stats (List.cons_ne_nil _ _)
  rw [hone.2, List.append_nil, List.flatten_singleton] at hnone
  rw [parseBuffers, List.flatMap_singleton, hnone]

theorem ne_closed {fd' : Int} (hfd : 0 ≤ fd) (hsame : fd' = fd) : fd' ≠ -1 := by
  omega

/-- The reading of a stats reply stops exactly where it leaves the connection open before the end
of the stream. -/
theorem RepliesEnd.stops_iff (hcmd : cmd ≠ livenessCmd) {buffers : List Bytes} {last : Bytes}
    {r : Nat × List StatsEntry} (hfd : 0 ≤ fd) (h : RepliesEnd sk fd buffers last r w log) :
    Stops cmd (received log) ↔ ¬HitEof log ∧ w.bep.fd ≠ -1 := by
  have hread : last ≠ [] → lastRead (received log) = last := by
    intro hne
    rw [h.bytes]
    exact lastRead_append h.full.dvd (List.length_pos_iff.mpr hne) h.length
  cases h.outcome with
  | noStats hfirst hfull hplain hnone _ hhit _ hsame =>
    have hbytes : received log = last := by
      rw [h.bytes, hfirst]
      rfl
    refine iff_of_true ⟨?_, Or.inr ?_⟩ ⟨hhit, ne_closed hfd hsame⟩
    · rw [hbytes, lastRead_short hfull.le]
      exact hplain.2
    · rw [if_neg hcmd, hbytes]
      exact ⟨hfull, hnone⟩
  | ended hmarker hplain _ hhit _ hsame =>
    have hne : last ≠ [] := by
      rintro rfl
      contradiction
    refine iff_of_true ⟨?_, Or.inl ?_⟩ ⟨hhit, ne_closed hfd hsame⟩
    · rw [hread hne]
      exact hplain
    · rw [hread hne]
      exact hmarker
  | eof hroom hplain _ hhit =>
    rw [h.bytes]
    exact iff_of_false (not_stops hcmd h.full hroom hplain) fun hopen => hopen.1 hhit
  | cancelled hmarker _ _ _ hclosed =>
    have hne : last ≠ [] := by
      rintro rfl
      contradiction
    refine iff_of_false ?_ fun hopen => hopen.2 hclosed
    rintro ⟨hplain, -⟩
    rw [hread hne, hmarker] at hplain
    contradiction
  | broken hroom hplain _ _ _ _ hclosed =>
    rw [h.bytes]
    exact iff_of_false (not_stops hcmd h.full hroom hplain) fun hopen => hopen.2 hclosed

/-- The same for the eight bytes of a health check. -/
theorem ReadEnd.stops_iff {r : ReadLoop} (hfd : 0 ≤ fd)
    (h : ReadEnd livenessOk.length sk fd r w log) :
    Stops livenessCmd (received log) ↔ ¬HitEof log ∧ w.bep.fd ≠ -1 := by
  have hstops : Stops livenessCmd (received log) ↔ hasError r.data = false ∧
      (hasEnd r.data = true ∨ r.data.length = livenessOk.length) := by
    rw [← h.data, Stops, if_pos rfl, lastRead_short (h.length.trans (by decide))]
  rw [hstops]
  cases h.outcome with
  | full _ _ hfull hplain hhit _ hsame =>
    exact iff_of_true ⟨hplain.2, Or.inr hfull⟩ ⟨hhit, ne_closed hfd hsame⟩
  | ended _ _ hmarker hplain hhit _ hsame =>
    exact iff_of_true ⟨hplain, Or.inl hmarker⟩ ⟨hhit, ne_closed hfd hsame⟩
  | eof _ _ hroom hplain hhit =>
    rw [hplain.1]
    exact iff_of_false (fun hover => hover.2.elim nofun hroom.ne) fun hopen => hopen.1 hhit
  | cancelled _ _ hmarker _ _ hclosed =>
    rw [hmarker]
    exact iff_of_false (fun hover => nomatch hover.1) fun hopen => hopen.2 hclosed
  | broken _ _ hroom hplain _ _ _ hclosed =>
    rw [hplain.1]
    exact iff_of_false (fun hover => hover.2.elim nofun hroom.ne) fun hopen => hopen.2 hclosed

/-- What a caller does after its reading changes nothing of this. -/
theorem stops_silent (hback : ∀ e ∈ back, e.Silent)
    (h : Stops cmd (received log) ↔ ¬HitEof log ∧ (run w log).bep.fd ≠ -1) :
    Stops cmd (received (log ++ back)) ↔
      ¬HitEof (log ++ back) ∧ (run w (log ++ back)).bep.fd ≠ -1 := by
  have hhit : HitEof (log ++ back) ↔ HitEof log := by
    rw [hitEof_append]
    apply or_iff_left
    rintro ⟨len, hmem⟩
    exact (hback _ hmem).noRead ⟨len, _, rfl⟩
  rw [received_append, received_nil fun e he => (hback e he).noRead, List.append_nil, hhit,
    run_append, run_fd _ fun e he => (hback e he).sameFd]
  exact h

theorem Caller.stops_iff {next : Nat → Poller Unit} {inputs rest : List Answer}
    {more : List Event} (h : Caller cmd next) (hfd : 0 ≤ w.bep.fd)
    (hdone : (next 0).exec w inputs = .done () more rest) :
    Stops cmd (received more) ↔ ¬HitEof more ∧ (run w more).bep.fd ≠ -1 := by
  have hopen : -1 ≤ w.bep.fd := by omega
  cases h with
  | getStat i uri =>
    obtain ⟨r, reads, left, hreads, rfl⟩ := statReply_sent hdone
    obtain ⟨-, buffers, last, hend⟩ := replies_done hopen hreads
    exact stops_silent silent_update (hend.stops_iff (statsCmd_ne_livenessCmd uri) hfd)
  | getHealth i pollDelta polltimeBuf sk start =>
    obtain ⟨r, reads, left, stop, hread, rfl⟩ := healthReply_sent hdone
    exact stops_silent (List.forall_mem_cons.mpr ⟨silent_gettimeofday stop, silent_update⟩)
      ((read_done hopen hread).stops_iff hfd)

/-- A caller that is told of an error reads nothing. -/
theorem Caller.unsent {next : Nat → Poller Unit} {inputs rest : List Answer}
    {more : List Event} {err : Nat} (h : Caller cmd next) (herr : err ≠ 0)
    (hdone : (next err).exec w inputs = .done () more rest) : ∀ e ∈ more, e.Silent := by
  cases h with
  | getStat i uri =>
    rw [statReply_unsent herr hdone]
    exact List.forall_mem_nil _
  | getHealth i pollDelta polltimeBuf sk start =>
    rw [healthReply_unsent herr hdone]
    exact silent_update

theorem not_stops_nil (cmd : Bytes) : ¬Stops cmd [] := by
  rintro ⟨-, hend | hfull⟩
  · contradiction
  · split at hfull
    · contradiction
    · exact absurd hfull.1 (by decide)

/-- A caller has read the reply or leaves no connection, unless it stops before the end. -/
theorem CallerRuns.one_iff {err : Nat} {trace more : List Event}
    (h : CallerRuns w cmd reply err trace more) (hge : -1 ≤ (run w trace).bep.fd)
    (hclosed : err ≠ 0 ↔ (run w trace).bep.fd = -1) :
    (received more = reply ∨ (run (run w trace) more).bep.fd = -1) ↔
      (Stops cmd (received more) → received more = reply) := by
  obtain ⟨next, inputs, rest, hcaller, hdone, hdelivers⟩ := h
  by_cases herr : err = 0
  · subst herr
    have hopen : 0 ≤ (run w trace).bep.fd := by
      have hne := hclosed.not.mp (not_not_intro rfl)
      omega
    rw [hcaller.stops_iff hopen hdone]
    constructor
    · rintro (hwhole | hfd) ⟨-, hfd'⟩
      · exact hwhole
      · exact absurd hfd hfd'
    · intro hstops
      by_cases hhit : HitEof more
      · exact Or.inl (hdelivers.whole hhit)
      · by_cases hfd : (run (run w trace) more).bep.fd = -1
        · exact Or.inr hfd
        · exact Or.inl (hstops ⟨hhit, hfd⟩)
  · have hsilent := hcaller.unsent herr hdone
    rw [received_nil fun e he => (hsilent e he).noRead,
      run_fd _ fun e he => (hsilent e he).sameFd]
    exact iff_of_true (Or.inr (hclosed.mp herr)) fun hstops => absurd hstops (not_stops_nil cmd)

/-- A reply that ends once, in the first buffer, is read to its end. -/
theorem readsWhole_of_wholeReply {err : Nat} {trace : List Event} (hcmd : cmd ≠ livenessCmd)
    (hreply : WholeReply reply) (hshort : reply.length < maxStatSz) :
    ReadsWhole w cmd reply err trace := by
  rintro more ⟨next, inputs, rest, hcaller, hdone, hdelivers⟩
  have hbytes := hdelivers.bytes
  have hlen := hbytes.length_le.trans_lt hshort
  constructor
  · apply (inBounds_iff _).mpr hlen
    exact fun hmem => hreply.noNul (hbytes.subset hmem)
  · rintro ⟨-, hstops⟩
    rw [if_neg hcmd, lastRead_short hlen.le] at hstops
    by_contra hne
    rw [(hreply.part hbytes hne).1] at hstops
    exact hstops.elim nofun fun hfull => hlen.ne hfull.1

end

/-- The result tells what was sent and what is left of the reply unless a refused write was made
up for, or the time ran out without one, or there was nothing to send and no connection, or a
caller stops before the reply ends. -/
theorem spMemcacheWrite_tells_iff (w : World) (cmd reply : Bytes) (inputs rest : List Answer)
    (err : Nat) (trace : List Event) (hfd : -1 ≤ w.bep.fd)
    (h : (spMemcacheWrite cmd).exec w inputs = .done err trace rest) :
    Tells w cmd reply err trace ↔
      ¬Recovered cmd trace ∧ ¬Overrun cmd w.bep.settings.writeMs trace ∧
        ¬(cmd = [] ∧ w.bep.fd = -1) ∧ ReadsWhole w cmd reply err trace := by
  have hge : -1 ≤ (run w trace).bep.fd := (write_done hfd h).fd_ge hfd
  constructor
  · rintro ⟨hsent, hclosed, hcaller⟩
    obtain ⟨hrecovered, hoverrun, hempty⟩ := (writeResult_iff hfd h).mp ⟨hsent, hclosed⟩
    refine ⟨hrecovered, hoverrun, hempty, fun more hruns => ?_⟩
    obtain ⟨hin, hone⟩ := hcaller more hruns
    exact ⟨hin, (hruns.one_iff hge hclosed).mp hone⟩
  · rintro ⟨hrecovered, hoverrun, hempty, hwhole⟩
    obtain ⟨hsent, hclosed⟩ := (writeResult_iff hfd h).mpr ⟨hrecovered, hoverrun, hempty⟩
    refine ⟨hsent, hclosed, fun more hruns => ?_⟩
    obtain ⟨hin, hstops⟩ := hwhole more hruns
    exact ⟨hin, (hruns.one_iff hge hclosed).mpr hstops⟩

/-- The command of a stats uri, sent by a connected backend. -/
def sampleItems (inputs : List Answer) : Result Event Answer Nat :=
  (spMemcacheWrite (statsCmd (ascii "items"))).exec connectedWorld inputs

/-- It is sent in two writes. -/
def itemsParts : List Answer :=
  [{ time := 0 }, { write := .ok 5 }, { time := 0 }, { write := .ok 8 }, { time := 0 }]

def pidReply : Bytes := ascii "STAT pid 7\r\nEND\r\n"

/-- The reply comes in two fragments. -/
def pidAnswers : List Answer :=
  [{ time := 0 }, { read := .ok (ascii "STAT pid") }, { time := 0 },
    { read := .ok (ascii " 7\r\nEND\r\n") }, { time := 0 }]

/-- What the caller does with it. -/
def pidReads : List Event :=
  ((statReply 0 0).exec (run connectedWorld (sampleItems itemsParts).trace) pidAnswers).trace

theorem callerRuns_pidReply : CallerRuns connectedWorld (statsCmd (ascii "items")) pidReply 0
    (sampleItems itemsParts).trace pidReads :=
  ⟨statReply 0, pidAnswers, [], .getStat 0 (ascii "items"), by decide +kernel,
    deliversOnly_of_noEof (by decide +kernel) (by decide +kernel)⟩

theorem wholeReply_pidReply : WholeReply pidReply := by
  have hreply : WholeReply (ascii "STAT pid 7\r\n" ++ endMarker) :=
    wholeReply_append (by decide) (by decide) (by decide)
  have htext : ascii "STAT pid 7\r\n" ++ endMarker = pidReply := by decide
  rwa [htext] at hreply

/-- The caller of a command that was sent reads the whole reply. -/
theorem spMemcacheWrite_tells_iff_items :
    Tells connectedWorld (statsCmd (ascii "items")) pidReply 0 (sampleItems itemsParts).trace ∧
      CallerRuns connectedWorld (statsCmd (ascii "items")) pidReply 0
        (sampleItems itemsParts).trace pidReads ∧
      received pidReads = pidReply := by
  have hdone : sampleItems itemsParts = .done 0 (sampleItems itemsParts).trace [] := by
    decide +kernel
  have hall : accepted (sampleItems itemsParts).trace = (statsCmd (ascii "items")).length := by
    decide +kernel
  refine ⟨?_, callerRuns_pidReply, by decide +kernel⟩
  apply (spMemcacheWrite_tells_iff connectedWorld _ pidReply itemsParts [] 0 _ (by decide)
    hdone).mpr
  refine ⟨?_, fun h => Nat.ne_of_lt h.1 hall, by decide,
    readsWhole_of_wholeReply (statsCmd_ne_livenessCmd _) wholeReply_pidReply (by decide)⟩
  rintro ⟨-, offered, e, hmem⟩
  have hok : (sampleItems itemsParts).trace.all (!·.writeFailed) := by decide +kernel
  exact absurd (List.all_eq_true.mp hok _ hmem) (by simp [Event.writeFailed])

/-- The second write gets `EWOULDBLOCK`, the third takes the rest. -/
def recoveredAnswers : List Answer :=
  [{ time := 0 }, { write := .ok 2 }, { time := 0 }, { write := .error EAGAIN }, { poll := .ready },
    { time := 0 }, { write := .ok 5 }, { time := 0 }]

/-- The time runs out after the first write. -/
def overrunAnswers : List Answer :=
  [{ time := 0 }, { write := .ok 2 }, { gettimeofday := 10001 }]

/-- The liveness command, sent at once. -/
def livenessWrote : List Event :=
  [.command livenessCmd, .gettimeofday 0, .write livenessCmd (.ok 39), .gettimeofday 0]

/-- A failure is reported of a command that was sent, and none of one that was cut. Where the
result is right the caller can leave the end of the reply on its connection. -/
theorem spMemcacheWrite_misreports :
    (sampleSend recoveredAnswers = .done 11 (sampleSend recoveredAnswers).trace [] ∧
      ¬Tells connectedWorld (ascii "stats\r\n") pidReply 11
        (sampleSend recoveredAnswers).trace) ∧
    (sampleSend overrunAnswers = .done 0 (sampleSend overrunAnswers).trace [] ∧
      ¬Tells connectedWorld (ascii "stats\r\n") pidReply 0
        (sampleSend overrunAnswers).trace) ∧
    (spMemcacheWrite livenessCmd).exec connectedWorld
        [{ time := 0 }, { write := .ok 39 }, { time := 0 }] = .done 0 livenessWrote [] ∧
      ¬Tells connectedWorld livenessCmd (ascii "NOT_STORED\r\n") 0 livenessWrote := by
  refine ⟨⟨by decide +kernel, ?_⟩, ⟨by decide +kernel, ?_⟩, by decide +kernel, ?_⟩
  · intro h
    have hall : accepted (sampleSend recoveredAnswers).trace = (ascii "stats\r\n").length := by
      decide +kernel
    have hz := h.sent.mpr hall
    contradiction
  · intro h
    have hpart : accepted (sampleSend overrunAnswers).trace ≠ (ascii "stats\r\n").length := by
      decide +kernel
    exact hpart (h.sent.mp rfl)
  · intro h
    have hruns : CallerRuns connectedWorld livenessCmd (ascii "NOT_STORED\r\n") 0 livenessWrote
        ((healthReply 0 0 [] sampleSocketState 0 0).exec (run connectedWorld livenessWrote)
          notStoredAnswers).trace :=
      ⟨_, notStoredAnswers, [], .getHealth 0 0 [] sampleSocketState 0, by decide +kernel,
        deliversOnly_of_noEof (by decide +kernel) (by decide +kernel)⟩
    obtain ⟨-, hone⟩ := h.caller _ hruns
    exact absurd hone (by decide +kernel)

end StatsProxy

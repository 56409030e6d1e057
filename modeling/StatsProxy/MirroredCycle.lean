import StatsProxy.HealthCheck
import StatsProxy.PollerRun
import StatsProxy.ReplyAssembly

/-! Cycles with a server that answers. Whatever earlier cycles have left, one cycle in
which a connection comes about and each command is taken and answered in time makes every
list the one of the server's reply. -/
namespace StatsProxy
open CString Interaction Program Poller

/-- A command is taken in pieces, the last of them in time or not. -/
def Accepts (timeoutMs start : Int) : Bytes → List Answer → Prop
  | cmd, [] => cmd = []
  | cmd, a :: writes => cmd ≠ [] ∧ ∃ n, a.write = .ok n ∧
      (cmd.drop n ≠ [] → (a.gettimeofday - start).natAbs ≤ timeoutMs) ∧
      Accepts timeoutMs start (cmd.drop n) writes

/-- One answer serves a write and the clock after it. -/
def writeAnswers (writes : List Answer) : List Answer := writes.flatMap fun a => [a, a]

/-- An attempt to connect succeeds, at once or after a poll. One answer serves its calls. -/
structure Answer.Connects (a : Answer) : Prop where
  socket : ∃ fd, a.socket = .ok fd
  fcntl : a.fcntl = .ok ()
  connect : a.connect = .ok () ∨ a.connect = .error EINPROGRESS ∧ a.poll = .ready
  getsockopt : a.getsockopt = .ok 0

def Answer.connectCalls (a : Answer) : List Answer :=
  match a.connect with
  | .ok _ => [a, a, a, a]
  | .error _ => [a, a, a, a, a]

/-- An attempt to connect fails. -/
structure Answer.Refuses (a : Answer) : Prop where
  socket : ∃ fd, a.socket = .ok fd
  fcntl : a.fcntl = .ok ()
  connect : ∃ e, a.connect = .error e ∧ e ≠ EINPROGRESS

def connectAnswers (refused : List Answer) (a : Answer) : List Answer :=
  refused.flatMap (fun a => [a, a, a]) ++ a.connectCalls

/-- The answers to the calls of one poll, and the list that is published then. -/
inductive Serves (settings : LocalSettings) (u : UriEntry) :
    List Answer → List StatsEntry → Prop where
  | stat (start first : Answer) (writes rounds : List Answer) (reply : Bytes)
      (name : u.uri ≠ ascii "health")
      (taken : Accepts settings.writeMs start.gettimeofday (statsCmd u.uri) writes)
      (whole : WholeReply reply) (short : reply.length < maxStatSz)
      (delivered : DeliversReply settings.readMs first.gettimeofday reply rounds) :
      Serves settings u (start :: (writeAnswers writes ++ first :: roundAnswers rounds))
        (spMemcacheStatsAddStats reply)
  | health (session now text start sent stop : Answer) (writes rounds : List Answer)
      (name : u.uri = ascii "health")
      (taken : Accepts settings.writeMs sent.gettimeofday livenessCmd writes)
      (delivered : DeliversReply settings.readMs session.gettimeofday livenessOk rounds) :
      Serves settings u ([session, now, text, start, sent] ++
        (writeAnswers writes ++ (roundAnswers rounds ++ [stop])))
        (healthEntries (if 0 < u.lastpoll then toUInt64 (now.time - u.lastpoll) else 0) text.ctime 1
          (max 0 (toInt64 (stop.gettimeofday - start.gettimeofday))))

/-- The same for the uris of a cycle, with their records before and after it. -/
inductive ServesAll (settings : LocalSettings) :
    List UriEntry → List Answer → List UriEntry → Prop where
  | nil : ServesAll settings [] [] []
  | cons {u : UriEntry} {us us' : List UriEntry} {inputs more : List Answer}
      {stats : List StatsEntry} (now : Answer) (served : Serves settings u inputs stats)
      (rest : ServesAll settings us more us') :
      ServesAll settings (u :: us) (inputs ++ now :: more) (⟨u.uri, now.time, stats⟩ :: us')

/-- The answers to the calls of a cycle. -/
inductive ServesCycle (settings : LocalSettings) (us : List UriEntry) :
    List Answer → List UriEntry → Prop where
  | intro (start connected stop : Answer) (refused : List Answer) {inputs : List Answer}
      {us' : List UriEntry}
      (tries : refused.length < 6) (refuses : ∀ a ∈ refused, a.Refuses)
      (connects : connected.Connects) (served : ServesAll settings us inputs us') :
      ServesCycle settings us
        (start :: (connectAnswers refused connected ++ (inputs ++ [stop]))) us'

section

variable {w : World} {cmd : Bytes} {writes rounds : List Answer} {a : Answer}

theorem returns_backend_bind {k : Backend → Poller α} {inputs : List Answer} {r : α} {w' : World}
    (h : Returns (k w.bep) w inputs r w') : Returns (backend >>= k) w inputs r w' :=
  ((returns_get w).bind (returns_pure _ _)).bind h

theorem returns_event (e : Event) (w : World) :
    Returns (emit e : Poller Unit) w [] () (Machine.after w e) :=
  returns_emit e w

theorem returns_call (outcome : Answer → α) (event : α → Event) (a : Answer) (w : World) :
    Returns (call outcome event) w [a] (outcome a) (Machine.after w (event (outcome a))) :=
  (returns_ask a w).bind ((returns_event _ w).bind (returns_pure _ _))

theorem returns_updateTimeRemaining (sk : SocketState) (a : Answer) (w : World) :
    Returns (spMemcacheStatsUpdateTimeRemaining sk) w [a] (sk.update a.gettimeofday) w :=
  (returns_call Answer.gettimeofday .gettimeofday a w).bind (returns_pure _ _)

theorem returns_sessionInfo (timeoutMs : Int) (a : Answer) (w : World) :
    Returns (sessionInfo timeoutMs) w [a] ⟨a.gettimeofday, 0, timeoutMs, timeoutMs⟩ w :=
  (returns_call Answer.gettimeofday .gettimeofday a w).bind (returns_pure _ _)

theorem returns_ctime (a : Answer) (w : World) : Returns ctime w [a] a.ctime w :=
  (returns_ask a w).bind (returns_pure _ _)

/-- A write that is taken in part or whole, on an open connection. -/
theorem returns_write (hfd : 0 ≤ w.bep.fd) (offered : Bytes) {n : Nat} (ha : a.write = .ok n) :
    Returns (write offered) w [a] (.ok (min n offered.length)) w := by
  have hresult : writeResult w.bep.fd offered a.write = .ok (min n offered.length) := by
    unfold writeResult
    rw [if_neg (Int.not_lt.mpr hfd), ha]
  apply returns_backend_bind
  apply (returns_ask a w).bind
  show Returns (emit (.write offered (writeResult w.bep.fd offered a.write)) >>= fun _ =>
    pure (writeResult w.bep.fd offered a.write)) w [] _ w
  rw [hresult]
  exact (returns_event _ w).bind (returns_pure _ _)

/-- What the write loop holds when `cmd` is left to be sent. -/
structure WriteLoop.Left (timeoutMs start : Int) (cmd : Bytes) (s : WriteLoop) : Prop where
  offered : s.cmd.drop s.numChars = cmd
  left : s.i = cmd.length
  startTime : s.sk.startTime = start
  timeout : s.sk.timeout = timeoutMs

theorem returns_writeLoop {timeoutMs start : Int} {s : WriteLoop} (hfd : 0 ≤ w.bep.fd)
    (hs : s.Left timeoutMs start cmd) (h : Accepts timeoutMs start cmd writes) :
    Returns (loop writeStep s) w (writeAnswers writes) s.err w := by
  induction writes generalizing cmd s with
  | nil =>
    apply returns_loop_over writeStep_productive
    have hi : s.i = 0 := by
      rw [hs.left, show cmd = [] from h]
      rfl
    rw [writeStep, if_pos hi]
    exact returns_pure _ w
  | cons a writes ih =>
    obtain ⟨hne, n, ha, htime, hrest⟩ := h
    have hpos := List.length_pos_iff.mpr hne
    have hi : s.i ≠ 0 := by
      rw [hs.left]
      exact hpos.ne'
    let sent := min n cmd.length
    let next : WriteLoop := ⟨s.i - sent, cmd, sent, s.err, s.sk.update a.gettimeofday⟩
    have hdrop : cmd.drop sent = cmd.drop n := by
      rcases Nat.le_total n cmd.length with hle | hge
      · rw [show sent = n from Nat.min_eq_left hle]
      · rw [show sent = cmd.length from Nat.min_eq_right hge, List.drop_length,
          List.drop_eq_nil_of_le hge]
    have hnext : next.Left timeoutMs start (cmd.drop n) := by
      refine ⟨hdrop, ?_, hs.startTime, hs.timeout⟩
      show s.i - sent = _
      rw [hs.left, ← hdrop, List.length_drop]
    have hstep : Returns (writeStep s) w [a, a] (.inl next) w := by
      rw [writeStep, if_neg hi, hs.offered]
      apply (returns_write hfd cmd ha).bind
      apply (returns_updateTimeRemaining s.sk a w).bind
      have hgoes : ¬(0 < s.i - sent ∧ (s.sk.update a.gettimeofday).timeRemaining < 0) := by
        rintro ⟨hleft, hlate⟩
        have hmore : cmd.drop n ≠ [] := by
          rw [← hdrop, ← List.length_pos_iff, List.length_drop, ← hs.left]
          exact hleft
        have hin := htime hmore
        rw [← hs.timeout, ← hs.startTime] at hin
        unfold SocketState.update at hlate
        dsimp only at hlate
        omega
      rw [if_neg hgoes]
      exact returns_pure _ w
    exact returns_loop writeStep_productive hstep (ih hnext hrest)

/-- A command that is taken has been sent. -/
theorem returns_spMemcacheWrite {start : Answer} (hfd : 0 ≤ w.bep.fd)
    (h : Accepts w.bep.settings.writeMs start.gettimeofday cmd writes) :
    Returns (spMemcacheWrite cmd) w (start :: writeAnswers writes) 0 w := by
  apply (returns_event (.command cmd) w).bind
  apply returns_backend_bind
  apply (returns_sessionInfo w.bep.settings.writeMs start w).bind
  exact returns_writeLoop (s := ⟨cmd.length, cmd, 0, 0, _⟩) hfd ⟨rfl, rfl, rfl, rfl⟩ h

theorem returns_spMemcacheReadReplies {first : Answer} {reply : Bytes} (hfd : 0 ≤ w.bep.fd)
    (hreply : WholeReply reply) (hlen : reply.length < maxStatSz)
    (h : DeliversReply w.bep.settings.readMs first.gettimeofday reply rounds) :
    Returns spMemcacheReadReplies w (first :: roundAnswers rounds)
      (0, spMemcacheStatsAddStats reply) (Machine.after w (.setLastError 0)) := by
  intro rest
  obtain ⟨trace, hexec, -, hrun⟩ := h.replies hfd hreply hlen rest
  exact ⟨trace, hexec, hrun⟩

/-- The backend with a new connection. -/
def World.connected (w : World) (fd : Nat) : World :=
  ⟨{ w.bep with fd := (fd : Int) }, [(fd : Int)]⟩

theorem returns_socket (hopened : w.opened = []) {fd : Nat} (ha : a.socket = .ok fd) :
    Returns socket w [a] (fd : Int) ⟨w.bep, [(fd : Int)]⟩ := by
  apply (returns_ask a w).bind
  apply (returns_event (.socket a.socket) w).bind
  have hopens : Machine.after w (.socket (.ok fd)) = ⟨w.bep, [(fd : Int)]⟩ := by
    show (⟨w.bep, (fd : Int) :: w.opened⟩ : World) = _
    rw [hopened]
  rw [ha, hopens]
  exact returns_pure _ _

/-- An attempt up to the answer to its `connect`. -/
theorem returns_attempt (hfd : w.bep.fd = -1) (hopened : w.opened = []) {fd : Nat}
    (hsocket : a.socket = .ok fd) (hfcntl : a.fcntl = .ok ()) {inputs : List Answer} {err : Nat}
    {w' : World} (h : Returns (match a.connect with
      | .ok () => checkConnected
      | .error e => if e ≠ EINPROGRESS then bail e.code else do
        match ← poll with
        | .ready => checkConnected
        | _ => bail e.code) (w.connected fd) inputs err w') :
    Returns spMemcacheConnect w (a :: a :: a :: inputs) err w' := by
  apply (returns_assert (by simpa using hfd)).bind
  apply (returns_socket hopened hsocket).bind
  apply (returns_event (.setFd fd) _).bind
  rw [if_neg (Int.not_lt.mpr (Int.natCast_nonneg fd))]
  apply (returns_call Answer.fcntl .fcntl a (w.connected fd)).bind
  rw [hfcntl]
  exact (returns_call Answer.connect .connect a (w.connected fd)).bind h

/-- A successful attempt leaves the new descriptor. -/
theorem returns_connects (h : a.Connects) (hfd : w.bep.fd = -1) (hopened : w.opened = []) :
    ∃ fd, Returns spMemcacheConnect w a.connectCalls 0 (w.connected fd) := by
  obtain ⟨fd, hsocket⟩ := h.socket
  refine ⟨fd, ?_⟩
  have hchecked : Returns checkConnected (w.connected fd) [a] 0 (w.connected fd) := by
    apply (returns_call Answer.getsockopt .getsockopt a (w.connected fd)).bind
    rw [h.getsockopt]
    exact returns_pure _ _
  rcases h.connect with hconnect | ⟨hconnect, hpoll⟩
  · rw [Answer.connectCalls, hconnect]
    apply returns_attempt hfd hopened hsocket h.fcntl
    rw [hconnect]
    exact hchecked
  · rw [Answer.connectCalls, hconnect]
    apply returns_attempt hfd hopened hsocket h.fcntl
    rw [hconnect]
    dsimp only
    rw [if_neg (by simp)]
    apply (returns_call Answer.poll .poll a (w.connected fd)).bind
    rw [hpoll]
    exact hchecked

theorem returns_disconnect {fd : Nat} (hfd : w.bep.fd = fd) (hopened : w.opened = [(fd : Int)]) :
    Returns spMemcacheDisconnect w [] () ⟨{ w.bep with fd := -1 }, []⟩ := by
  have hopen : 0 ≤ w.bep.fd := by omega
  have hclose : Returns (close w.bep.fd) w [] () _ :=
    (returns_assert (by simp [hopened, hfd])).bind (returns_event (.close w.bep.fd) w)
  have herase : Machine.after (Machine.after w (.close w.bep.fd)) (.setFd (-1)) =
      ⟨{ w.bep with fd := -1 }, []⟩ := by
    show (⟨_, w.opened.erase w.bep.fd⟩ : World) = _
    rw [hopened, hfd, List.erase_cons_head]
    rfl
  rw [← herase]
  apply returns_backend_bind
  rw [if_pos hopen]
  exact hclose.bind (returns_event (.setFd (-1)) _)

/-- The backend after a failed attempt. -/
def World.refused (w : World) (err : Nat) : World :=
  ⟨{ w.bep with fd := -1, lastError := err }, []⟩

theorem returns_refuses (h : a.Refuses) (hfd : w.bep.fd = -1) (hopened : w.opened = []) :
    ∃ e : Errno, Returns spMemcacheConnect w [a, a, a] e.code (w.refused e.code) := by
  obtain ⟨fd, hsocket⟩ := h.socket
  obtain ⟨e, hconnect, hne⟩ := h.connect
  refine ⟨e, returns_attempt hfd hopened hsocket h.fcntl ?_⟩
  rw [hconnect]
  dsimp only
  rw [if_pos hne]
  apply (returns_disconnect (w := w.connected fd) rfl rfl).bind
  apply (returns_event (.setLastError e.code) _).bind
  exact returns_pure _ _

/-- Refused attempts that leave one more, which succeeds. -/
theorem returns_connectRetry {refused : List Answer} (hrefused : ∀ r ∈ refused, r.Refuses)
    (ha : a.Connects) (more err : Nat) (hfd : w.bep.fd = -1) (hopened : w.opened = []) :
    ∃ (fd lastError : Nat), Returns (connectRetry (refused.length + (more + 1)) err) w
      (connectAnswers refused a) 0
      ⟨{ w.bep with fd := (fd : Int), lastError := lastError }, [(fd : Int)]⟩ := by
  have hnone : ¬spMemcacheIsConnected w.bep = true := by simp [spMemcacheIsConnected, hfd]
  induction refused generalizing w err with
  | nil =>
    obtain ⟨fd, hconnect⟩ := returns_connects ha hfd hopened
    refine ⟨fd, w.bep.lastError, ?_⟩
    have hcalls : connectAnswers [] a = a.connectCalls ++ [] := (List.append_nil _).symm
    rw [List.length_nil, Nat.zero_add, connectRetry, hcalls]
    apply returns_backend_bind
    rw [if_neg hnone]
    apply hconnect.bind
    rw [if_pos rfl]
    exact returns_pure _ _
  | cons r refused ih =>
    rw [List.forall_mem_cons] at hrefused
    obtain ⟨e, hrefuse⟩ := returns_refuses hrefused.1 hfd hopened
    have hclosed : ¬spMemcacheIsConnected (w.refused e.code).bep = true := by
      simp [spMemcacheIsConnected, World.refused]
    obtain ⟨fd, lastError, hrest⟩ := ih (w := w.refused e.code) hrefused.2 e.code rfl rfl hclosed
    refine ⟨fd, lastError, ?_⟩
    have hcalls : connectAnswers (r :: refused) a = [r, r, r] ++ connectAnswers refused a := rfl
    rw [List.length_cons, Nat.add_right_comm, connectRetry, hcalls]
    apply returns_backend_bind
    rw [if_neg hnone]
    apply hrefuse.bind
    rw [if_neg e.ne]
    exact (returns_event (.sleep connRetryWait) (w.refused e.code)).bind hrest

theorem returns_setState (state : BackendState) (w : World) :
    Returns (setState state) w [] () ⟨{ w.bep with state }, w.opened⟩ :=
  (returns_event .wrlock w).bind
    ((returns_event (.setState state) w).bind (returns_event .unlock _))

/-- An open connection is kept. -/
theorem returns_connectRetry_open (hfd : 0 ≤ w.bep.fd) (tries err : Nat) :
    Returns (connectRetry tries err) w [] err w := by
  induction tries with
  | zero => exact returns_pure err w
  | succ tries ih =>
    rw [connectRetry]
    apply returns_backend_bind
    rw [spMemcacheIsConnected, if_pos (decide_eq_true hfd)]
    exact ih

theorem returns_publish (w : World) (i : Nat) (entries : List StatsEntry) :
    Returns (publish i entries) w [] () (w.publish i entries) := by
  apply (returns_event .wrlock w).bind
  have hremove : Returns (removeOldStats i) w [] () (w.publish i []) := by
    rw [← run_removeHeads w i (w.bep.stats i).length, ← List.map_const']
    exact returns_backend_bind ((returns_emits _ w).bind (returns_event _ _))
  apply hremove.bind
  have hinsert : Returns (addNewStats i entries) (w.publish i []) [] () (w.publish i entries) := by
    rw [← List.nil_append entries, ← run_insertTail]
    exact returns_emits _ _
  exact hinsert.bind (returns_event .unlock _)

/-- The read loop of a health check after these rounds. -/
def livenessLoop (timeoutMs start : Int) (rounds : List Answer) : ReadLoop :=
  rounds.foldl (ReadLoop.next livenessOk.length) ⟨[], 0, false, ⟨start, 0, timeoutMs, timeoutMs⟩⟩

structure LivenessRead (timeoutMs start : Int) (before : List Answer) (r : ReadLoop) : Prop where
  data : r.data = streamed before
  reading : r.done = false
  startTime : r.sk.startTime = start
  timeout : r.sk.timeout = timeoutMs
  timeRemaining : r.sk.timeRemaining = remaining timeoutMs start before

theorem liveness_plain {data : Bytes} (h : data <+: livenessOk) :
    hasEnd data = false ∧ hasError data = false := by
  have hall : ∀ n < 9, hasEnd (livenessOk.take n) = false ∧
      hasError (livenessOk.take n) = false := by
    decide
  rw [List.prefix_iff_eq_take.mp h]
  exact hall _ (Nat.lt_succ_of_le h.length_le)

/-- A fragment of the expected answer fits into the rest of its buffer. -/
theorem liveness_fragment {before : List Answer} (h : streamed (before ++ [a]) <+: livenessOk) :
    a.fragment (livenessOk.length - (streamed before).length) =
      a.fragment (room (streamed before)) := by
  have hlen := h.length_le
  rw [streamed_snoc, List.length_append] at hlen
  have hsize : livenessOk.length = 8 := by decide
  have hroom : room (streamed before) = maxStatSz - (streamed before).length := by
    rw [room, lastBuffer_short (by rw [maxStatSz]; omega)]
  rw [hroom, maxStatSz] at hlen ⊢
  unfold Answer.fragment at hlen ⊢
  cases hread : a.read with
  | error e => rfl
  | ok data =>
    simp only [hread] at hlen ⊢
    rw [List.length_take] at hlen
    rw [List.take_of_length_le (by omega), List.take_of_length_le (by omega)]

theorem liveness_leads {timeoutMs start : Int} (hfd : 0 ≤ w.bep.fd)
    (hlive : AtEach (fun before a => a.Live (remaining timeoutMs start before)) rounds)
    (hpart : AtEach (fun before _ => streamed before ≠ livenessOk) rounds)
    (hbytes : streamed rounds <+: livenessOk) :
    LivenessRead timeoutMs start rounds (livenessLoop timeoutMs start rounds) ∧
      ∀ rest, ∃ trace, run w trace = w ∧
        Leads (spMemcacheRead livenessOk.length ⟨start, 0, timeoutMs, timeoutMs⟩ false) w
          (roundAnswers rounds ++ rest) trace
          (loop (readStep livenessOk.length) (livenessLoop timeoutMs start rounds)) rest := by
  induction rounds using List.reverseRecOn with
  | nil =>
    refine ⟨⟨rfl, rfl, rfl, rfl, rfl⟩, ?_⟩
    exact fun rest => ⟨[], rfl, (Result.prepend_nil _).symm⟩
  | append_singleton rounds a ih =>
    obtain ⟨hlives, hlive⟩ := atEach_snoc.mp hlive
    obtain ⟨hparts, hpart⟩ := atEach_snoc.mp hpart
    have hfragment := liveness_fragment hbytes
    have hfront : streamed rounds <+: livenessOk := by
      rw [streamed_snoc] at hbytes
      exact (List.prefix_append _ _).trans hbytes
    obtain ⟨hr, hleads⟩ := ih hlives hparts hfront
    have hnext : livenessLoop timeoutMs start (rounds ++ [a]) =
        (livenessLoop timeoutMs start rounds).next livenessOk.length a := List.foldl_concat ..
    rw [hnext]
    generalize livenessLoop timeoutMs start rounds = r at hr hleads ⊢
    have hlt : r.data.length < livenessOk.length := by
      rw [hr.data]
      apply Nat.lt_of_le_of_ne hfront.length_le
      exact fun hlen => hpart (hfront.eq_of_length hlen)
    have hdata : (r.next livenessOk.length a).data = streamed (rounds ++ [a]) := by
      rw [streamed_snoc, ← hfragment, ← hr.data]
      rfl
    obtain ⟨hend, herror⟩ := liveness_plain hbytes
    rw [← hdata] at hend herror
    constructor
    · refine ⟨hdata, hend, hr.startTime, hr.timeout, ?_⟩
      rw [remaining_snoc, ← hr.startTime, ← hr.timeout]
      rfl
    · intro rest
      obtain ⟨trace, hrun, hlead⟩ := hleads (a.round ++ rest)
      have hstep := readStep_round hfd hlt hr.reading (hr.timeRemaining ▸ hlive) herror rest
      refine ⟨trace ++ a.events (livenessOk.length - r.data.length), ?_, ?_⟩
      · rw [run_append, hrun, run_round]
      · rw [roundAnswers_snoc]
        apply hlead.trans
        rw [hrun]
        exact leads_loop (readStep_productive _) hstep

/-- The expected answer is read whole. -/
theorem returns_readLiveness {timeoutMs start : Int} (hfd : 0 ≤ w.bep.fd)
    (h : DeliversReply timeoutMs start livenessOk rounds) :
    ∃ r : ReadLoop, r.err = 0 ∧ r.data = livenessOk ∧
      Returns (spMemcacheRead livenessOk.length ⟨start, 0, timeoutMs, timeoutMs⟩ false) w
        (roundAnswers rounds) r w := by
  obtain ⟨hr, hleads⟩ := liveness_leads hfd h.live h.unfinished (h.bytes ▸ List.prefix_refl _)
  have herr : (livenessLoop timeoutMs start rounds).err = 0 := by
    rcases List.eq_nil_or_concat' rounds with rfl | ⟨before, a, rfl⟩
    · rfl
    · obtain ⟨data, hread⟩ := h.last
      rw [livenessLoop, List.foldl_concat, ReadLoop.next, hread]
  generalize livenessLoop timeoutMs start rounds = r at hr hleads herr
  refine ⟨{ r with sk := { r.sk with bytesRcvd := r.data.length } }, herr,
    hr.data.trans h.bytes, fun rest => ?_⟩
  obtain ⟨trace, hrun, hlead⟩ := hleads rest
  have hfull : ¬(r.data.length < livenessOk.length ∧ r.done = false) := by
    rw [hr.data, h.bytes]
    exact fun hroom => Nat.lt_irrefl _ hroom.1
  have hover : (loop (readStep livenessOk.length) r).exec (run w trace) rest =
      .done { r with sk := { r.sk with bytesRcvd := r.data.length } } [] rest := by
    rw [loop_unfold (readStep_productive _)]
    unfold readStep
    rw [if_neg hfull]
    rfl
  refine ⟨trace, ?_, hrun⟩
  have hdone := hlead.done hover
  rwa [List.append_nil] at hdone

/-- The backend after a poll: its list is this one, and some error code is the last. -/
def World.polled (w : World) (i : Nat) (lastError : Nat) (stats : List StatsEntry) : World :=
  World.publish ⟨{ w.bep with lastError }, w.opened⟩ i stats

/-- A poll that is served publishes the list of the reply. -/
theorem returns_pollUri {u : UriEntry} {i : Nat} {inputs : List Answer} {stats : List StatsEntry}
    (hfd : 0 ≤ w.bep.fd) (hu : w.bep.uris[i]? = some u)
    (h : Serves w.bep.settings u inputs stats) :
    ∃ lastError, Returns (pollUri i u.uri) w inputs () (w.polled i lastError stats) := by
  cases h with
  | stat start first writes rounds reply name taken whole short delivered =>
    refine ⟨0, ?_⟩
    rw [pollUri, if_neg name, getStat]
    have hwrite := returns_spMemcacheWrite hfd taken
    have hread := returns_spMemcacheReadReplies hfd whole short delivered
    rw [← List.cons_append]
    apply hwrite.bind
    rw [if_pos rfl]
    rw [← List.append_nil (first :: _)]
    exact hread.bind (returns_publish _ i _)
  | health session now text start sent stop writes rounds name taken delivered =>
    refine ⟨w.bep.lastError, ?_⟩
    rw [pollUri, if_pos name]
    obtain ⟨r, herr, hdata, hread⟩ := returns_readLiveness hfd delivered
    have hlastpoll : w.bep.lastpoll i = u.lastpoll := by
      rw [Backend.lastpoll, hu]
      rfl
    have hcheck : cString r.data = livenessOk := by
      rw [hdata]
      decide
    apply returns_backend_bind
    apply (returns_sessionInfo w.bep.settings.readMs session w).bind
    apply (returns_call Answer.time .time now w).bind
    apply (returns_ctime text w).bind
    apply (returns_call Answer.gettimeofday .gettimeofday start w).bind
    apply (returns_spMemcacheWrite hfd taken).bind
    rw [if_neg (not_not_intro rfl)]
    apply hread.bind
    rw [← List.append_nil [stop]]
    apply (returns_call Answer.gettimeofday .gettimeofday stop w).bind
    rw [if_neg (not_not_intro herr), if_neg (not_not_intro hcheck), hlastpoll]
    exact returns_publish w i _

theorem modify_front (front : List UriEntry) (u : UriEntry) (rest : List UriEntry)
    (f : UriEntry → UriEntry) :
    (front ++ u :: rest).modify front.length f = front ++ f u :: rest := by
  induction front with
  | nil => rfl
  | cons v front ih => exact congrArg (v :: ·) ih

/-- A uri's turn from its `POLLING` on, with the turns after it. -/
def connectedTurn (uri : Bytes) (i : Nat) (rest : List (Bytes × Nat)) : Poller Bool := do
  setState .polling
  pollUri i uri
  let now ← time
  emit (.setLastpoll i now)
  pollUris rest

theorem pollUris_cons (uri : Bytes) (i : Nat) (rest : List (Bytes × Nat)) :
    pollUris ((uri, i) :: rest) = checkAndConnect >>= fun err =>
      if err ≠ 0 then pure false else connectedTurn uri i rest := rfl

/-- The backend after turns that were served. -/
def World.mirrored (w : World) (lastError : Nat) (uris : List UriEntry) : World :=
  ⟨{ w.bep with state := .polling, lastError, uris }, w.opened⟩

theorem returns_connectedTurn (front : List UriEntry) {u : UriEntry} {us us' : List UriEntry}
    (now : Answer) {inputs more : List Answer} {stats : List StatsEntry} (rest : List (Bytes × Nat))
    (hfd : 0 ≤ w.bep.fd) (huris : w.bep.uris = front ++ u :: us)
    (h : Serves w.bep.settings u inputs stats)
    (hrest : ∀ lastError, ∃ lastError', Returns (pollUris rest)
      (w.mirrored lastError (front ++ [⟨u.uri, now.time, stats⟩] ++ us)) more true
      (w.mirrored lastError' (front ++ [⟨u.uri, now.time, stats⟩] ++ us'))) :
    ∃ lastError, Returns (connectedTurn u.uri front.length rest) w (inputs ++ now :: more) true
      (w.mirrored lastError (front ++ ⟨u.uri, now.time, stats⟩ :: us')) := by
  let w' : World := ⟨{ w.bep with state := .polling }, w.opened⟩
  have hu : w'.bep.uris[front.length]? = some u := by simp [w', huris]
  obtain ⟨lastError, hpoll⟩ := returns_pollUri (w := w') hfd hu h
  obtain ⟨lastError', hend⟩ := hrest lastError
  rw [List.append_assoc, List.append_assoc] at hend
  refine ⟨lastError', (returns_setState .polling w).bind (hpoll.bind ?_)⟩
  apply (returns_call Answer.time .time now _).bind
  apply (returns_event (.setLastpoll front.length now.time) _).bind
  have hworld : Machine.after (w'.polled front.length lastError stats)
      (.setLastpoll front.length now.time) =
        w.mirrored lastError (front ++ ([⟨u.uri, now.time, stats⟩] ++ us)) := by
    show (⟨{ w.bep with
      state := .polling
      lastError
      uris := (w.bep.uris.modify front.length _).modify front.length _ }, w.opened⟩ : World) = _
    rw [huris, modify_front, modify_front]
    rfl
  rw [← hworld] at hend
  exact hend

theorem returns_checkAndConnect_open (hfd : 0 ≤ w.bep.fd) :
    Returns checkAndConnect w [] 0 ⟨{ w.bep with state := .connecting }, w.opened⟩ :=
  (returns_setState .connecting w).bind
    (returns_connectRetry_open (w := ⟨{ w.bep with state := .connecting }, w.opened⟩) hfd 6 0)

/-- The lists of the uris that are left become those of the replies. -/
theorem returns_pollUris (front : List UriEntry) {us us' : List UriEntry} {inputs : List Answer}
    (hfd : 0 ≤ w.bep.fd) (lastError : Nat) (h : ServesAll w.bep.settings us inputs us') :
    ∃ lastError', Returns (pollUris ((us.map UriEntry.uri).zipIdx front.length))
      (w.mirrored lastError (front ++ us)) inputs true (w.mirrored lastError' (front ++ us')) := by
  generalize hset : w.bep.settings = settings at h
  induction h generalizing front lastError with
  | nil => exact ⟨lastError, returns_pure true _⟩
  | @cons u us us' inputs more stats now served rest ih =>
    subst hset
    have hopen := returns_checkAndConnect_open (w := w.mirrored lastError (front ++ u :: us)) hfd
    have hrest : ∀ lastError, ∃ lastError', Returns
        (pollUris ((us.map UriEntry.uri).zipIdx (front.length + 1)))
        (w.mirrored lastError (front ++ [⟨u.uri, now.time, stats⟩] ++ us)) more true
        (w.mirrored lastError' (front ++ [⟨u.uri, now.time, stats⟩] ++ us')) := by
      intro lastError
      have hmore := ih (front ++ [⟨u.uri, now.time, stats⟩]) lastError
      rwa [List.length_append, List.length_singleton] at hmore
    obtain ⟨lastError', hturn⟩ := returns_connectedTurn
      (w := ⟨{ (w.mirrored lastError (front ++ u :: us)).bep with state := .connecting }, w.opened⟩)
      front now _ hfd rfl served hrest
    rw [List.map_cons, List.zipIdx_cons, pollUris_cons]
    exact ⟨lastError', hopen.bind hturn⟩

/-- A cycle that is served leaves the lists of the replies, and no connection. -/
theorem returns_pollCycle {inputs : List Answer} {us' : List UriEntry} (hfd : w.bep.fd = -1)
    (hopened : w.opened = []) (hne : w.bep.uris ≠ [])
    (h : ServesCycle w.bep.settings w.bep.uris inputs us') :
    ∃ lastError, Returns (pollCycle ()) w inputs (.inl ())
      ⟨{ w.bep with state := .polling, lastError, uris := us', fd := -1 }, []⟩ := by
  obtain @⟨start, connected, stop, refused, inputs, us', tries, refuses, connects, served⟩ := h
  obtain ⟨more, hmore⟩ : ∃ more, refused.length + (more + 1) = 6 := ⟨5 - refused.length, by omega⟩
  obtain ⟨fd, lastError, hconnect⟩ := returns_connectRetry
    (w := ⟨{ w.bep with state := .connecting }, w.opened⟩) refuses connects more 0 hfd hopened
  rw [hmore] at hconnect
  have hcheck : Returns checkAndConnect w (connectAnswers refused connected) 0 _ :=
    (returns_setState .connecting w).bind hconnect
  cases hus : w.bep.uris with
  | nil => exact absurd hus hne
  | cons u us =>
    rw [hus] at served
    cases served with
    | @cons _ _ us' inputs more stats now served rest =>
      let w' : World :=
        ⟨{ w.bep with state := .connecting, fd := (fd : Int), lastError }, [(fd : Int)]⟩
      have hfd' : 0 ≤ w'.bep.fd := Int.natCast_nonneg fd
      obtain ⟨lastError', hturn⟩ := returns_connectedTurn (w := w') [] now
        ((us.map UriEntry.uri).zipIdx 1) hfd' hus served fun lastError =>
          returns_pollUris (w := w') [⟨u.uri, now.time, stats⟩] hfd' lastError rest
      have hpoll : Returns (pollUris (w.bep.uris.map UriEntry.uri).zipIdx) w
          (connectAnswers refused connected ++ (inputs ++ now :: more)) true
          (w'.mirrored lastError' (⟨u.uri, now.time, stats⟩ :: us')) := by
        rw [hus, List.map_cons, List.zipIdx_cons, pollUris_cons]
        exact hcheck.bind hturn
      refine ⟨lastError', ?_⟩
      rw [← List.append_assoc]
      apply (returns_call Answer.gettimeofday .gettimeofday start w).bind
      apply returns_backend_bind
      apply hpoll.bind
      rw [if_pos rfl]
      apply (returns_disconnect (w := w'.mirrored lastError' _) rfl rfl).bind
      apply (returns_call Answer.gettimeofday .gettimeofday stop _).bind
      exact (returns_event (.usleep _) _).bind (returns_pure _ _)

/-- A cycle that is given up has no connection. -/
theorem pollUris_givenUp (us : List (Bytes × Nat)) {x : World × List Event}
    (h : Sound False w x) : wp (Sound False w) (pollUris us)
      (fun completed y => Sound False w y ∧ (completed = false → y.1.bep.fd = -1)) x := by
  induction us generalizing x with
  | nil => exact wp_pure ⟨h, fun hfalse => absurd hfalse (by decide)⟩
  | cons u rest ih =>
    apply wp_bind
    apply wp_post (checkAndConnect_spec h)
    intro err y hy
    split
    · rename_i he
      obtain ⟨hs, hfd⟩ := hy.1.fd_of_ne he
      exact wp_pure ⟨hs, fun _ => hfd⟩
    · rename_i he
      apply wp_bind
      apply wp_setState .polling
      apply wp_bind
      apply wp_post (keeps_pollUri u.2 u.1 _ (hy.1.polling (not_not.mp he)))
      intro _ z hz
      apply wp_bind
      apply wp_post (keeps_time z hz)
      intro now v hv
      apply wp_bind
      apply wp_emit
      exact ih (hv.quiet (.setLastpoll u.2 now) rfl rfl)

theorem pollCycle_closes {x : World × List Event} (h : Sound False w x) :
    wp (Sound False w) (pollCycle ()) (fun _ y => y.1.bep.fd = -1) x := by
  apply wp_bind
  apply wp_post (keeps_gettimeofday x h)
  intro start y hy
  apply wp_bind
  apply wp_backend
  apply wp_bind
  apply wp_post (pollUris_givenUp _ hy)
  rintro completed z ⟨hz, hgivenUp⟩
  split
  · apply wp_bind
    apply wp_post (spMemcacheDisconnect_spec hz)
    rintro _ v ⟨hv, hfd⟩
    apply wp_bind
    apply wp_call hv
    intro stop
    apply wp_bind
    apply wp_emit
    exact wp_pure hfd
  · rename_i hcompleted
    exact wp_pure (hgivenUp (Bool.not_eq_true _ ▸ hcompleted))

end

/-- A world in which a cycle of the poller begins, whatever happened in those before. -/
inductive CycleStart (settings : LocalSettings) (uris : List Bytes) : World → Prop where
  | first : CycleStart settings uris (run (World.initial settings uris) (stateSection .halted))
  | next {w : World} {inputs rest : List Answer} {trace : List Event}
      (start : CycleStart settings uris w)
      (cycle : (pollCycle ()).exec w inputs = .done (.inl ()) trace rest) :
      CycleStart settings uris (run w trace)

/-- A cycle begins without a connection. -/
theorem CycleStart.starts {settings : LocalSettings} {uris : List Bytes} {w : World}
    (h : CycleStart settings uris w) :
    Starts w ∧ w.bep.settings = settings ∧ w.bep.uris.map UriEntry.uri = uris := by
  induction h with
  | first =>
    refine ⟨⟨rfl, rfl⟩, rfl, ?_⟩
    rw [run_uris]
    simp [World.initial, Function.comp_def]
  | @next w inputs rest trace start cycle ih =>
    obtain ⟨hstarts, hsettings, huris⟩ := ih
    have hsound := pollCycle_spec hstarts.sound inputs
    have hclosed := pollCycle_closes hstarts.sound inputs
    rw [cycle] at hsound hclosed
    rw [Result.Meets, run_prod] at hsound hclosed
    have hopened : (run w trace).opened = [] := by
      rcases hsound.owned with ⟨-, hnone⟩ | ⟨hfd, -⟩
      · exact hnone
      · have : (run w trace).bep.fd = -1 := hclosed
        omega
    exact ⟨⟨hclosed, hopened⟩, (run_settings w trace).trans hsettings,
      (run_uris w trace).trans huris⟩

/-- Whatever the cycles before have left: if a connection comes about within six attempts
and the server takes each command and answers it in time, the lists are afterwards those of
the replies. -/
theorem pollCycle_mirrors {settings : LocalSettings} {uris : List Bytes} {w : World}
    {inputs : List Answer} {us' : List UriEntry} (hne : uris ≠ [])
    (hw : CycleStart settings uris w) (h : ServesCycle settings w.bep.uris inputs us')
    (rest : List Answer) :
    ∃ trace, (pollCycle ()).exec w (inputs ++ rest) = .done (.inl ()) trace rest ∧
      CycleStart settings uris (run w trace) ∧ (run w trace).bep.uris = us' ∧
      (run w trace).bep.state = .polling := by
  obtain ⟨⟨hfd, hopened⟩, hsettings, huris⟩ := hw.starts
  have hus : w.bep.uris ≠ [] := fun hnil => hne (by rw [← huris, hnil]; rfl)
  rw [← hsettings] at h
  obtain ⟨lastError, hcycle⟩ := returns_pollCycle hfd hopened hus h
  obtain ⟨trace, hexec, hrun⟩ := hcycle rest
  exact ⟨trace, hexec, .next hw hexec, by rw [hrun], by rw [hrun]⟩

def prompt : Answer := {}

def itemsAnswers : List Answer :=
  prompt :: (writeAnswers [{ write := .ok 5 }, { write := .ok 8 }] ++
    prompt :: roundAnswers cutRounds)

def healthAnswers : List Answer :=
  [prompt, { time := 9 }, { ctime := ascii "now" }, prompt, prompt] ++
    (writeAnswers [{ write := .ok 39 }] ++
      (roundAnswers [{ read := .ok livenessOk }] ++ [{ gettimeofday := 4 }]))

/-- The first attempt to connect is refused, the second has to wait. The command for
`items` goes out in two pieces. -/
def servedAnswers : List Answer :=
  prompt :: (connectAnswers [{ connect := .error ⟨111, by decide⟩ }]
    { connect := .error EINPROGRESS } ++
      ((itemsAnswers ++ { time := 7 } :: (healthAnswers ++ { time := 10 } :: [])) ++ [prompt]))

def servedUris : List UriEntry :=
  [⟨ascii "items", 7, spMemcacheStatsAddStats (ascii "STAT a 1\r\nEND\r\n")⟩,
    ⟨ascii "health", 10, healthEntries 0 (ascii "now") 1 4⟩]

theorem served_sample : ServesCycle sampleSettings
    [⟨ascii "items", 0, []⟩, ⟨ascii "health", 0, []⟩] servedAnswers servedUris := by
  have hreply : WholeReply (ascii "STAT a 1\r\n" ++ endMarker) :=
    wholeReply_append (by decide) (by decide) (by decide)
  have htext : ascii "STAT a 1\r\n" ++ endMarker = ascii "STAT a 1\r\nEND\r\n" := by
    decide
  rw [htext] at hreply
  have hitems : Serves sampleSettings ⟨ascii "items", 0, []⟩ itemsAnswers
      (spMemcacheStatsAddStats (ascii "STAT a 1\r\nEND\r\n")) :=
    .stat prompt prompt [{ write := .ok 5 }, { write := .ok 8 }] cutRounds _ (by decide)
      ⟨by decide, 5, rfl, by decide, by decide, 8, rfl, by decide, rfl⟩ hreply (by decide)
      ⟨by decide +kernel, by decide +kernel, by decide +kernel⟩
  have hhealth : Serves sampleSettings ⟨ascii "health", 0, []⟩ healthAnswers
      (healthEntries 0 (ascii "now") 1 4) :=
    .health prompt { time := 9 } { ctime := ascii "now" } prompt prompt { gettimeofday := 4 }
      [{ write := .ok 39 }] [{ read := .ok livenessOk }] rfl
      ⟨by decide, 39, rfl, by decide, rfl⟩
      ⟨by decide +kernel, by decide +kernel, by decide +kernel⟩
  refine .intro prompt { connect := .error EINPROGRESS } prompt
    [{ connect := .error ⟨111, by decide⟩ }] (by decide) ?_ ?_
    (.cons { time := 7 } hitems (.cons { time := 10 } hhealth .nil))
  · intro a ha
    rw [List.mem_singleton.mp ha]
    exact ⟨⟨3, rfl⟩, rfl, ⟨111, by decide⟩, rfl, by decide⟩
  · exact ⟨⟨3, rfl⟩, rfl, Or.inr ⟨rfl, rfl⟩, rfl⟩

theorem pollCycle_mirrors_sample :
    let w := run (World.initial sampleSettings [ascii "items", ascii "health"])
      (stateSection .halted)
    ∃ trace, (pollCycle ()).exec w (servedAnswers ++ []) = .done (.inl ()) trace [] ∧
      CycleStart sampleSettings [ascii "items", ascii "health"] (run w trace) ∧
      (run w trace).bep.uris = servedUris ∧ (run w trace).bep.state = .polling :=
  pollCycle_mirrors (by decide) .first served_sample []

end StatsProxy

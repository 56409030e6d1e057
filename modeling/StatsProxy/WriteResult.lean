import StatsProxy.Library.Assuming
import StatsProxy.RunBackend

/-! The result of `spMemcacheWrite`. It is 0 exactly when the command was sent and not 0
exactly when the connection was closed, unless a write that got `EWOULDBLOCK` was made up for
later, or the time ran out after writes that all succeeded. -/
namespace StatsProxy
open CString Interaction Program Poller

/-- The bytes a write has taken. -/
def Event.accepted : Event → Nat
  | .write _ (.ok n) => n
  | _ => 0

/-- The number of bytes the socket has accepted. -/
def accepted (log : List Event) : Nat := (log.map Event.accepted).sum

def Event.reading : Event → Option Int
  | .gettimeofday ms => some ms
  | _ => none

/-- The clock readings, in order. -/
def readings (log : List Event) : List Int := log.filterMap Event.reading

/-- The last clock reading is further from the first than the timeout allows. -/
def Late (timeoutMs : Int) (log : List Event) : Prop :=
  ∃ start now, (readings log).head? = some start ∧ (readings log).getLast? = some now ∧
    timeoutMs < (now - start).natAbs

/-- Some write got an error. -/
def Refused (log : List Event) : Prop := ∃ offered e, Event.write offered (.error e) ∈ log

/-- All was accepted, although some write got an error on the way. -/
def Recovered (cmd : Bytes) (log : List Event) : Prop :=
  accepted log = cmd.length ∧ Refused log

/-- The time ran out with bytes left, although no write got an error. -/
def Overrun (cmd : Bytes) (timeoutMs : Int) (log : List Event) : Prop :=
  accepted log < cmd.length ∧ ¬Refused log ∧ Late timeoutMs log

/-- What `getStat` does with the result of its call. -/
def statReply (i : Nat) (err : Nat) : Poller Unit := do
  if err = 0 then
    let r ← spMemcacheReadReplies
    publish i r.2

/-- What `getHealth` does with the result of its call. -/
def healthReply (i pollDelta : Nat) (polltimeBuf : Bytes) (sk : SocketState) (start : Int)
    (err : Nat) : Poller Unit := do
  if err ≠ 0 then publishHealth i pollDelta polltimeBuf 0 0
  else
    let r ← spMemcacheRead livenessOk.length sk false
    let stop ← gettimeofday
    let livenessDelta := max 0 (toInt64 (stop - start))
    if r.err ≠ 0 then publishHealth i pollDelta polltimeBuf 0 livenessDelta
    else if cString r.data ≠ livenessOk then publishHealth i pollDelta polltimeBuf 0 livenessDelta
    else publishHealth i pollDelta polltimeBuf 1 livenessDelta

theorem getStat_eq (i : Nat) (uri : Bytes) :
    getStat i uri = spMemcacheWrite (statsCmd uri) >>= statReply i := rfl

theorem getHealth_eq (i : Nat) :
    getHealth i = (do
      let bep ← backend
      let sk ← sessionInfo bep.settings.readMs
      let now ← time
      let polltimeBuf ← ctime
      let pollDelta := if 0 < bep.lastpoll i then toUInt64 (now - bep.lastpoll i) else 0
      let start ← gettimeofday
      spMemcacheWrite livenessCmd >>= healthReply i pollDelta polltimeBuf sk start) := rfl

def Event.IsRead (e : Event) : Prop := ∃ len r, e = .read len r

section

variable {w : World} {cmd : Bytes} {log : List Event}

theorem accepted_append (log more : List Event) :
    accepted (log ++ more) = accepted log + accepted more := by
  simp [accepted]

theorem accepted_zero (h : ∀ e ∈ log, e.accepted = 0) : accepted log = 0 := by
  apply List.sum_eq_zero
  intro n hn
  obtain ⟨e, he, rfl⟩ := List.mem_map.mp hn
  exact h e he

theorem refused_append (log more : List Event) :
    Refused (log ++ more) ↔ Refused log ∨ Refused more := by
  simp only [Refused, List.mem_append, exists_or]

theorem not_refused (h : ∀ e ∈ log, ∀ offered r, e ≠ .write offered r) : ¬Refused log := by
  rintro ⟨offered, err, hmem⟩
  exact h _ hmem offered _ rfl

theorem readings_append (log more : List Event) :
    readings (log ++ more) = readings log ++ readings more :=
  List.filterMap_append

theorem readings_head {start : Int} (h : (readings log).head? = some start) (more : List Event) :
    (readings (log ++ more)).head? = some start := by
  rw [readings_append, List.head?_append, h]
  rfl

/-- How the call stands: `s.i` bytes are left. -/
structure Writing (w : World) (cmd : Bytes) (s : WriteLoop) (x : World × List Event) : Prop where
  sum : accepted x.2 + s.i = cmd.length
  left : s.i ≠ 0 → (s.cmd.drop s.numChars).length = s.i
  fd : x.1.bep.fd = w.bep.fd
  opened : s.i ≠ cmd.length → 0 ≤ w.bep.fd
  err : s.err = 0 ↔ ¬Refused x.2
  timeout : s.sk.timeout = w.bep.settings.writeMs
  start : (readings x.2).head? = some s.sk.startTime

/-- How the call ends. -/
structure WriteEnd (w : World) (cmd : Bytes) (err : Nat) (x : World × List Event) : Prop where
  err : err = 0 ↔ ¬Refused x.2
  outcome : (accepted x.2 = cmd.length ∧ x.1.bep.fd = w.bep.fd ∧ (cmd ≠ [] → 0 ≤ w.bep.fd)) ∨
    (accepted x.2 < cmd.length ∧ x.1.bep.fd = -1 ∧
      (¬Refused x.2 → Late w.bep.settings.writeMs x.2))

def WriteAfter (w : World) (cmd : Bytes) : WriteLoop ⊕ Nat → World × List Event → Prop
  | .inl next, y => Writing w cmd next y
  | .inr err, y => WriteEnd w cmd err y

/-- Nothing is assumed of the environment. -/
abbrev Calls (m : Poller α) (Q : α → World × List Event → Prop) (x : World × List Event) : Prop :=
  wlp (fun _ _ => True) (fun _ => True) m Q x

theorem wlp_call {E : World × List Event → Event → Prop} {I : World × List Event → Prop}
    {x : World × List Event} {outcome : Answer → α} {event : α → Event}
    {Q : α → World × List Event → Prop} (hI : I x) (h : ∀ r, Q r (Machine.after x (event r))) :
    wlp E I (call outcome event) Q x := by
  apply wlp_bind
  apply wlp_ask hI
  intro a
  apply wlp_bind
  apply wlp_emit
  intro _
  exact wlp_pure (h _)

theorem wlp_backend {E : World × List Event → Event → Prop} {I : World × List Event → Prop}
    {x : World × List Event} {Q : Backend → World × List Event → Prop} (h : Q x.1.bep x) :
    wlp E I backend Q x := by
  apply wlp_bind
  apply wlp_get
  exact wlp_pure h

theorem wlp_write {E : World × List Event → Event → Prop} {I : World × List Event → Prop}
    {x : World × List Event} {offered : Bytes} {Q : SysResult Nat → World × List Event → Prop}
    (hI : I x) (h : ∀ r, (match r with
        | .ok n => 0 ≤ x.1.bep.fd ∧ n ≤ offered.length
        | .error _ => True) → Q r (Machine.after x (.write offered r))) :
    wlp E I (write offered) Q x := by
  apply wlp_bind
  apply wlp_backend
  apply wlp_bind
  apply wlp_ask hI
  intro a
  apply wlp_bind
  apply wlp_emit
  intro _
  apply wlp_pure
  apply h
  cases hr : writeResult x.1.bep.fd offered a.write with
  | ok n => exact writeResult_ok hr
  | error e => trivial

/-- The events of the `bail` label. -/
def Event.atLabel : Event → Bool
  | .close _ | .setFd _ | .setLastError _ => true
  | _ => false

theorem wlp_bail {E : World × List Event → Event → Prop} {I : World × List Event → Prop}
    {x : World × List Event} (hI : I x) (err : Nat) :
    wlp E I (bail err) (fun r y => r = err ∧ (-1 ≤ x.1.bep.fd → y.1.bep.fd = -1) ∧
      ∃ closing, y.2 = x.2 ++ closing ∧ (∀ e ∈ closing, e.atLabel = true) ∧
        .setLastError err ∈ closing) x := by
  unfold bail spMemcacheDisconnect
  apply wlp_bind
  apply wlp_bind
  apply wlp_backend
  split
  · apply wlp_bind
    apply wlp_bind
    apply wlp_assert hI
    intro _
    apply wlp_emit
    intro _
    apply wlp_emit
    intro _
    apply wlp_bind
    apply wlp_emit
    intro _
    apply wlp_pure
    refine ⟨rfl, fun _ => rfl, [.close x.1.bep.fd, .setFd (-1), .setLastError err], ?_, ?_, ?_⟩
    · simp [Machine.after]
    · simp [Event.atLabel]
    · simp
  · rename_i hclosed
    apply wlp_pure
    apply wlp_bind
    apply wlp_emit
    intro _
    apply wlp_pure
    refine ⟨rfl, ?_, [.setLastError err], rfl, ?_, List.mem_singleton_self _⟩
    · intro hfd
      show x.1.bep.fd = -1
      omega
    · simp [Event.atLabel]

theorem readings_label {closing : List Event} (h : ∀ e ∈ closing, e.atLabel = true) :
    readings closing = [] := by
  rw [readings, List.filterMap_eq_nil_iff]
  intro e he
  have hel := h e he
  cases e <;> first | rfl | contradiction

theorem calls_bail {x : World × List Event} (hfd : -1 ≤ x.1.bep.fd) (err : Nat) :
    Calls (bail err) (fun r y => r = err ∧ y.1.bep.fd = -1 ∧ accepted y.2 = accepted x.2 ∧
      (Refused y.2 ↔ Refused x.2) ∧ readings y.2 = readings x.2) x := by
  apply wlp_post (wlp_bail trivial err)
  rintro r y ⟨hr, hclosed, closing, hlog, hlabel, -⟩
  have haccepted : accepted closing = 0 := by
    apply accepted_zero
    intro e he
    have hat := hlabel e he
    cases e <;> first | rfl | cases hat
  have hrefused : ¬Refused closing := by
    apply not_refused
    intro e he offered r hwrite
    exact absurd (hlabel e he) (by simp [hwrite, Event.atLabel])
  refine ⟨hr, hclosed hfd, ?_, ?_, ?_⟩
  · rw [hlog, accepted_append, haccepted, Nat.add_zero]
  · rw [hlog, refused_append, or_iff_left hrefused]
  · rw [hlog, readings_append, readings_label hlabel, List.append_nil]

theorem Writing.bail {s : WriteLoop} {x : World × List Event} (h : Writing w cmd s x)
    (hfd : -1 ≤ w.bep.fd) (hi : s.i ≠ 0) {err : Nat} (herr : err = 0 ↔ ¬Refused x.2)
    (hlate : ¬Refused x.2 → Late w.bep.settings.writeMs x.2) :
    Calls (Sum.inr <$> StatsProxy.bail err : Poller (WriteLoop ⊕ Nat)) (WriteAfter w cmd) x := by
  apply wlp_bind
  apply wlp_post (calls_bail (h.fd ▸ hfd) err)
  rintro r y ⟨rfl, hclosed, haccepted, hrefused, hreadings⟩
  apply wlp_pure
  constructor
  · rw [herr, hrefused]
  · right
    have hsum := h.sum
    unfold Late at hlate ⊢
    rw [haccepted, hrefused, hreadings]
    exact ⟨by omega, hclosed, hlate⟩

/-- A write gets an error. -/
theorem Writing.refuse {s : WriteLoop} {x : World × List Event} (h : Writing w cmd s x)
    (hi : s.i ≠ 0) (e : Errno) :
    Writing w cmd { s with cmd := s.cmd.drop s.numChars, numChars := 0, err := e.code }
      (Machine.after x (.write (s.cmd.drop s.numChars) (.error e))) where
  sum := (congrArg (· + s.i) (accepted_append x.2 _)).trans h.sum
  left := fun _ => h.left hi
  fd := h.fd
  opened := h.opened
  err := iff_of_false e.ne (not_not_intro
    ⟨_, e, List.mem_append_right _ (List.mem_singleton_self _)⟩)
  timeout := h.timeout
  start := readings_head h.start _

theorem Writing.poll {s : WriteLoop} {x : World × List Event} (h : Writing w cmd s x)
    (r : PollResult) : Writing w cmd s (Machine.after x (.poll r)) where
  sum := (congrArg (· + s.i) (accepted_append x.2 _)).trans h.sum
  left := h.left
  fd := h.fd
  opened := h.opened
  err := h.err.trans (not_congr (by simp [Machine.after, Refused]))
  timeout := h.timeout
  start := readings_head h.start _

theorem calls_writeNext {s : WriteLoop} {x : World × List Event} (hfd : -1 ≤ w.bep.fd)
    (h : Writing w cmd { s with i := s.i - s.numChars } x) :
    Calls (writeNext s) (WriteAfter w cmd) x := by
  apply wlp_bind
  apply wlp_bind
  apply wlp_call trivial
  intro now
  apply wlp_pure
  have hrefused : Refused (x.2 ++ [.gettimeofday now]) ↔ Refused x.2 := by
    simp [Refused]
  have hnext : Writing w cmd ⟨s.i - s.numChars, s.cmd, s.numChars, s.err,
      { s.sk with timeRemaining := s.sk.timeout - (now - s.sk.startTime).natAbs }⟩
      (Machine.after x (.gettimeofday now)) := by
    constructor
    · exact (congrArg (· + _) (accepted_append x.2 _)).trans h.sum
    · exact h.left
    · exact h.fd
    · exact h.opened
    · exact h.err.trans (not_congr hrefused.symm)
    · exact h.timeout
    · exact readings_head h.start _
  split
  · rename_i htimeout
    apply hnext.bail hfd (Nat.ne_of_gt htimeout.1) hnext.err
    intro _
    refine ⟨s.sk.startTime, now, hnext.start, ?_, ?_⟩
    · show (readings (x.2 ++ [.gettimeofday now])).getLast? = _
      rw [readings_append]
      exact List.getLast?_concat
    · have hlate := htimeout.2
      have hms := h.timeout
      dsimp only at hlate hms
      omega
  · exact wlp_pure hnext

theorem calls_writeStep {s : WriteLoop} {x : World × List Event} (hfd : -1 ≤ w.bep.fd)
    (h : Writing w cmd s x) :
    Calls (writeStep s) (WriteAfter w cmd) x := by
  unfold writeStep
  split
  · rename_i hi
    apply wlp_pure
    constructor
    · exact h.err
    · left
      have hsum := h.sum
      refine ⟨by omega, h.fd, fun hne => h.opened ?_⟩
      rw [hi]
      exact fun hz => hne (List.length_eq_zero_iff.mp hz.symm)
  · rename_i hi
    have hlen := h.left hi
    have hsum := h.sum
    apply wlp_bind
    apply wlp_write trivial
    intro r hr
    cases r with
    | ok n =>
      obtain ⟨hopen, hn⟩ := hr
      rw [hlen] at hn
      have hrefused : Refused (x.2 ++ [.write (s.cmd.drop s.numChars) (.ok n)]) ↔ Refused x.2 := by
        simp [Refused]
      apply calls_writeNext hfd
      constructor
      · show accepted (x.2 ++ [_]) + (s.i - n) = _
        rw [accepted_append]
        simp only [accepted, Event.accepted, List.map_cons, List.map_nil, List.sum_singleton]
          at hsum ⊢
        omega
      · intro _
        show ((s.cmd.drop s.numChars).drop n).length = s.i - n
        rw [List.length_drop, hlen]
      · exact h.fd
      · exact fun _ => h.fd ▸ hopen
      · exact h.err.trans (not_congr hrefused.symm)
      · exact h.timeout
      · exact readings_head h.start _
    | error e =>
      have hagain := h.refuse hi e
      have hbail : ∀ (e' : Errno) (y : World × List Event),
          Writing w cmd { s with cmd := s.cmd.drop s.numChars, numChars := 0, err := e.code } y →
          Calls (Sum.inr <$> bail e'.code : Poller (WriteLoop ⊕ Nat)) (WriteAfter w cmd) y := by
        intro e' y hy
        have hrefused : Refused y.2 := by
          by_contra hn
          exact e.ne (hy.err.mpr hn)
        exact hy.bail hfd hi (iff_of_false e'.ne (not_not_intro hrefused)) (absurd hrefused)
      dsimp only
      split
      · apply wlp_bind
        apply wlp_call trivial
        intro r
        have hpoll := hagain.poll r
        cases r with
        | failed e' => exact hbail e' _ hpoll
        | timeout => exact calls_writeNext hfd hpoll
        | ready => exact calls_writeNext hfd hpoll
      · exact hbail e _ hagain

theorem calls_spMemcacheWrite (hfd : -1 ≤ w.bep.fd) (cmd : Bytes) :
    Calls (spMemcacheWrite cmd) (WriteEnd w cmd) (w, []) := by
  apply wlp_bind
  apply wlp_emit
  intro _
  apply wlp_bind
  apply wlp_bind
  apply wlp_get
  apply wlp_pure
  apply wlp_bind
  apply wlp_bind
  apply wlp_call trivial
  intro start
  apply wlp_pure
  apply wlp_loop (fun s y => Writing w cmd s y) (fun _ _ _ => trivial)
  · intro s y hy
    apply wlp_post (calls_writeStep hfd hy)
    intro r z hz
    cases r <;> exact hz
  · exact
    { sum := Nat.zero_add _
      left := fun _ => rfl
      fd := rfl
      opened := fun hne => absurd rfl hne
      err := iff_of_true rfl (by simp [Machine.after, Refused])
      timeout := rfl
      start := rfl }

theorem write_done {inputs rest : List Answer} {err : Nat} {trace : List Event}
    (hfd : -1 ≤ w.bep.fd) (h : (spMemcacheWrite cmd).exec w inputs = .done err trace rest) :
    WriteEnd w cmd err (run w trace, trace) := by
  have hcalls := calls_spMemcacheWrite hfd cmd inputs
  rw [h] at hcalls
  have hend := hcalls (allowed_true _ _)
  rwa [Result.Reaches, run_prod, run_log, List.nil_append] at hend

theorem emits_read (len : Nat) : Emits Event.IsRead (read len) := by
  apply emits_bind
  intro bep
  apply emits_bind
  intro a
  exact (emits_emit ⟨_, _, rfl⟩).bind _

theorem emits_spMemcacheRead {len : Nat} (hlen : 0 < len) (sk : SocketState) :
    Emits Event.IsRead (spMemcacheRead len sk false) := by
  unfold spMemcacheRead
  rw [loop_unfold (readStep_productive len)]
  apply Emits.bind
  unfold readStep
  rw [if_pos ⟨hlen, rfl⟩]
  exact (emits_read _).bind _

end

/-- The result agrees with what was sent and closed unless a refused write was made up for, or
the time ran out without one, or there was nothing to send and no connection. -/
theorem writeResult_iff {w : World} {cmd : Bytes} {inputs rest : List Answer} {err : Nat}
    {trace : List Event} (hfd : -1 ≤ w.bep.fd)
    (h : (spMemcacheWrite cmd).exec w inputs = .done err trace rest) :
    ((err = 0 ↔ accepted trace = cmd.length) ∧ (err ≠ 0 ↔ (run w trace).bep.fd = -1)) ↔
      ¬Recovered cmd trace ∧ ¬Overrun cmd w.bep.settings.writeMs trace ∧
        ¬(cmd = [] ∧ w.bep.fd = -1) := by
  obtain ⟨herr, hend⟩ := write_done hfd h
  dsimp only at herr hend
  constructor
  · rintro ⟨hsent, hclosed⟩
    refine ⟨?_, ?_, ?_⟩
    · rintro ⟨hall, hrefused⟩
      exact herr.mp (hsent.mpr hall) hrefused
    · rintro ⟨hpart, hnone, -⟩
      have hall := hsent.mp (herr.mpr hnone)
      omega
    · rintro ⟨rfl, hfd'⟩
      rcases hend with ⟨hall, hsame, -⟩ | ⟨hpart, -⟩
      · exact hclosed.mpr (hsame.trans hfd') (hsent.mpr hall)
      · exact Nat.not_lt_zero _ hpart
  · rintro ⟨hrecovered, hoverrun, hempty⟩
    rcases hend with ⟨hall, hsame, hopen⟩ | ⟨hpart, hclosed, hlate⟩
    · have hz : err = 0 := herr.mpr fun hrefused => hrecovered ⟨hall, hrefused⟩
      have hfd' : (run w trace).bep.fd ≠ -1 := by
        rw [hsame]
        intro hfd'
        by_cases hcmd : cmd = []
        · exact hempty ⟨hcmd, hfd'⟩
        · have := hopen hcmd
          omega
      exact ⟨iff_of_true hz hall, iff_of_false (not_not_intro hz) hfd'⟩
    · have hne : err ≠ 0 := fun hz => hoverrun ⟨hpart, herr.mp hz, hlate (herr.mp hz)⟩
      exact ⟨iff_of_false hne (Nat.ne_of_lt hpart), iff_of_true hne hclosed⟩

deriving instance DecidableEq for Answer

/-- A connected backend. -/
def connectedWorld : World := run sampleWorld [.socket (.ok 3), .setFd 3]

def Event.writeFailed : Event → Bool
  | .write _ (.error _) => true
  | _ => false

def sampleSend (inputs : List Answer) : Result Event Answer Nat :=
  (spMemcacheWrite (ascii "stats\r\n")).exec connectedWorld inputs

/-- The command is sent in two writes. -/
def partAnswers : List Answer :=
  [{ time := 0 }, { write := .ok 2 }, { time := 0 }, { write := .ok 5 }, { time := 0 }]

end StatsProxy

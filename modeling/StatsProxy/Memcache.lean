import StatsProxy.Backend

/-! The memcache client: connecting without blocking, sending a command, and
reading and parsing its reply under a deadline. Log texts are left out. -/
namespace StatsProxy
open CString Interaction Program Poller

def maxStatSz : Nat := 32768

def spMemcacheIsConnected (bep : Backend) : Bool := 0 ≤ bep.fd

def spMemcacheDisconnect : Poller Unit := do
  let bep ← backend
  if 0 ≤ bep.fd then
    close bep.fd
    emit (.setFd (-1))

/-- The `bail` label that connect, write and read share. -/
def bail (err : Nat) : Poller Nat := do
  spMemcacheDisconnect
  emit (.setLastError err)
  return err

/-- `spMemcacheConnect` from its `getsockopt` on. -/
def checkConnected : Poller Nat := do
  match ← getsockopt with
  | .error e => bail e.code
  | .ok res => if res ≠ 0 then bail res else return 0

def spMemcacheConnect : Poller Nat := do
  assert (·.bep.fd == -1)
  let fd ← socket
  emit (.setFd fd)
  -- err is still 0 at these two exits
  if fd < 0 then bail 0
  else match ← fcntl with
    | .error _ => bail 0
    | .ok () => match ← connect with
      | .ok () => checkConnected
      | .error e =>
        if e ≠ EINPROGRESS then bail e.code
        else match ← poll with
          | .ready => checkConnected
          | _ => bail e.code

structure SocketState where
  startTime : Int
  bytesRcvd : Nat
  timeout : Int
  timeRemaining : Int
deriving DecidableEq

def sessionInfo (timeoutMs : Int) : Poller SocketState := do
  let startTime ← gettimeofday
  return ⟨startTime, 0, timeoutMs, timeoutMs⟩

def spMemcacheStatsUpdateTimeRemaining (sk : SocketState) : Poller SocketState := do
  let now ← gettimeofday
  return { sk with timeRemaining := sk.timeout - (now - sk.startTime).natAbs }

structure WriteLoop where
  i : Nat
  cmd : Bytes
  numChars : Nat
  err : Nat
  sk : SocketState

/-- The end of the loop body of `spMemcacheWrite`, with its `i -= num_chars`. -/
def writeNext (s : WriteLoop) : Poller (WriteLoop ⊕ Nat) := do
  let sk ← spMemcacheStatsUpdateTimeRemaining s.sk
  if 0 < s.i - s.numChars ∧ sk.timeRemaining < 0 then .inr <$> bail s.err
  else return .inl { s with i := s.i - s.numChars, sk }

def writeStep (s : WriteLoop) : Poller (WriteLoop ⊕ Nat) := do
  if s.i = 0 then return .inr s.err
  else
    let cmd := s.cmd.drop s.numChars
    match ← write cmd with
    | .ok numChars => writeNext { s with cmd, numChars }
    | .error e =>
      if e = EAGAIN ∧ 0 < s.sk.timeRemaining then
        match ← poll with
        | .failed e' => .inr <$> bail e'.code
        | _ => writeNext { s with cmd, numChars := 0, err := e.code }
      else .inr <$> bail e.code

theorem writeStep_productive : Productive writeStep := by
  intro s w inputs next trace rest h
  unfold writeStep at h
  split at h
  · cases h
  · exact (asks_write _).bind _ _ _ _ _ _ h

def spMemcacheWrite (cmd : Bytes) : Poller Nat := do
  emit (.command cmd)
  let bep ← backend
  let sk ← sessionInfo bep.settings.writeMs
  loop writeStep ⟨cmd.length, cmd, 0, 0, sk⟩

/-- `data` is what the buffer holds: it is zero from there on. -/
structure ReadLoop where
  data : Bytes
  err : Nat
  done : Bool
  sk : SocketState
deriving DecidableEq

/-- The array holds a NUL: behind the buffer it is zero. The searches of the buffer end there;
without a NUL those of the code go on behind the array, and these end with it. -/
def Terminated (buffer : Bytes) : Prop :=
  0 ∈ buffer ++ List.replicate (maxStatSz - buffer.length) 0

theorem terminated_iff {buffer : Bytes} :
    Terminated buffer ↔ 0 ∈ buffer ∨ buffer.length < maxStatSz := by
  unfold Terminated
  rw [List.mem_append, List.mem_replicate, Nat.sub_ne_zero_iff_lt]
  simp

instance (buffer : Bytes) : Decidable (Terminated buffer) := decidable_of_iff' _ terminated_iff

def endMarker : Bytes := ascii "END\r\n"
def statCmdError : Bytes := ascii "ERROR"

def readBail (s : ReadLoop) (err : Nat) : Poller (ReadLoop ⊕ ReadLoop) := do
  let err ← bail err
  return .inr { s with err }

def readNext (s : ReadLoop) (eof : Bool) : Poller (ReadLoop ⊕ ReadLoop) := do
  let sk ← spMemcacheStatsUpdateTimeRemaining s.sk
  let done := s.done || eof || strstr (cString s.data) endMarker
  if strstr (cString s.data) statCmdError then readBail { s with sk, done } ECANCELED.code
  else return .inl { s with sk, done }

def readStep (len : Nat) (s : ReadLoop) : Poller (ReadLoop ⊕ ReadLoop) := do
  if s.data.length < len ∧ s.done = false then
    match ← read (len - s.data.length) with
    | .ok data => readNext { s with data := s.data ++ data, err := 0 } (data = [])
    | .error e =>
      if e = EINTR ∨ e = EAGAIN then
        if 0 < s.sk.timeRemaining then
          match ← poll with
          | .failed e' => readBail s e'.code
          | _ => readNext { s with err := e.code } false
        else readBail s e.code
      else readBail s e.code
  else return .inr { s with sk := { s.sk with bytesRcvd := s.data.length } }

theorem readStep_productive (len : Nat) : Productive (readStep len) := by
  intro s w inputs next trace rest h
  unfold readStep at h
  split at h
  · exact (asks_read _).bind _ _ _ _ _ _ h
  · cases h

/-- Reads into a zero-filled buffer of at least `len` bytes. -/
def spMemcacheRead (len : Nat) (sk : SocketState) (done : Bool) : Poller ReadLoop :=
  loop (readStep len) ⟨[], 0, done, sk⟩

theorem asks_spMemcacheRead {len : Nat} (hlen : 0 < len) (sk : SocketState) :
    Asks (spMemcacheRead len sk false) := by
  unfold spMemcacheRead
  rw [loop_unfold (readStep_productive len)]
  apply Asks.bind
  unfold readStep
  rw [if_pos ⟨hlen, rfl⟩]
  exact (asks_read _).bind _

def spMemcacheStatsParseBasic (str : Bytes) : Option (Bytes × Bytes) :=
  match strtok (ascii " ") str with
  | name :: value :: _ => some (name, value)
  | _ => none

def sessionPrefix : Bytes := ascii "STAT "

/-- A line without its `STAT `. -/
def rawStat (res : Bytes) : Bytes :=
  if sessionPrefix.isPrefixOf res then res.drop sessionPrefix.length else res

/-- The entries that are appended from a `Terminated` buffer; their number is what
`num_stats_added` grows by. -/
def spMemcacheStatsAddStats (statsInput : Bytes) : List StatsEntry :=
  (strtok (ascii "\r\n") (cString statsInput)).filterMap fun res =>
    (spMemcacheStatsParseBasic (rawStat res)).map fun p => ⟨p.1, .alpha p.2⟩

structure RepliesLoop where
  stats : List StatsEntry
  validStatsCnt : Nat
  done : Bool
  sk : SocketState

def repliesStep (s : RepliesLoop) : Poller (RepliesLoop ⊕ Nat × List StatsEntry) := do
  if s.done then return .inr (0, s.stats)
  else
    let r ← spMemcacheRead maxStatSz s.sk s.done
    if r.err = ECANCELED.code then return .inr (0, s.stats)
    else if r.err ≠ 0 then return .inr (r.err, s.stats)
    else
      let added := spMemcacheStatsAddStats r.data
      let validStatsCnt := s.validStatsCnt + added.length
      return .inl ⟨s.stats ++ added, validStatsCnt, r.done || validStatsCnt = 0, r.sk⟩

theorem repliesStep_productive : Productive repliesStep := by
  intro s w inputs next trace rest h
  unfold repliesStep at h
  split at h
  · cases h
  · rename_i hdone
    rw [Bool.not_eq_true] at hdone
    rw [hdone] at h
    exact (asks_spMemcacheRead (by decide) _).bind _ _ _ _ _ _ h

/-- The error code, and the list that was empty before the call. -/
def spMemcacheReadReplies : Poller (Nat × List StatsEntry) := do
  let bep ← backend
  let sk ← sessionInfo bep.settings.readMs
  let r ← loop repliesStep ⟨[], 0, false, sk⟩
  emit (.setLastError r.1)
  return r

end StatsProxy

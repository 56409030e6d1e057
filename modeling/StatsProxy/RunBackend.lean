import StatsProxy.Memcache

/-! The poller thread of a backend: one connection a cycle, one command for
each uri, and the lists it publishes under the write lock. -/
namespace StatsProxy
open CString Interaction Program Poller

/-- Two's complement narrowing of a C integer. -/
def toInt64 (x : Int) : Int := x.bmod (2 ^ 64)
def toUInt64 (x : Int) : Nat := (x % 2 ^ 64).toNat
def toUInt32 (x : Int) : Nat := (x % 2 ^ 32).toNat

def Backend.stats (bep : Backend) (i : Nat) : List StatsEntry :=
  (bep.uris[i]?.map UriEntry.stats).getD []

def Backend.lastpoll (bep : Backend) (i : Nat) : Int :=
  (bep.uris[i]?.map UriEntry.lastpoll).getD 0

/-- One event for each entry that is freed. -/
def removeOldStats (i : Nat) : Poller Unit := do
  let bep ← backend
  emits ((bep.stats i).map fun _ => .removeHead i)
  emit (.initStats i)

def addNewStats (i : Nat) (newStats : List StatsEntry) : Poller Unit :=
  emits (newStats.map (.insertTail i))

/-- The locked replacement at the end of `getStat` and of `getHealth`. -/
def publish (i : Nat) (entries : List StatsEntry) : Poller Unit := do
  emit .wrlock
  removeOldStats i
  addNewStats i entries
  emit .unlock

def setState (state : BackendState) : Poller Unit := do
  emit .wrlock
  emit (.setState state)
  emit .unlock

def connRetryWait : Nat := 3

def connectRetry : Nat → Nat → Poller Nat
  | 0, err => return err
  | tries+1, err => do
    let bep ← backend
    if spMemcacheIsConnected bep then connectRetry tries err
    else
      let err ← spMemcacheConnect
      if err = 0 then return err
      else
        emit (.sleep connRetryWait)
        connectRetry tries err

def checkAndConnect : Poller Nat := do
  setState .connecting
  connectRetry 6 0

def cmdSz : Nat := 64

/-- `snprintf` into a buffer of `cmdSz` bytes. -/
def statsCmd (uri : Bytes) : Bytes :=
  (ascii "stats " ++ uri ++ ascii "\r\n").take (cmdSz - 1)

def getStat (i : Nat) (uri : Bytes) : Poller Unit := do
  let err ← spMemcacheWrite (statsCmd uri)
  if err = 0 then
    let r ← spMemcacheReadReplies
    publish i r.2

def livenessCmd : Bytes := ascii "set __LIVENESS__ 0 0 12\r\nliveness chk\r\n"
def livenessOk : Bytes := ascii "STORED\r\n"

/-- From the label `fail` of `getHealth` on. -/
def publishHealth (i : Nat) (pollDelta : Nat) (polltimeBuf : Bytes) (livenessVal : Nat)
    (livenessDelta : Int) : Poller Unit :=
  publish i [
    ⟨ascii "statsAge", .uint64 pollDelta⟩,
    ⟨ascii "lastpoll", .alpha polltimeBuf⟩,
    ⟨ascii "liveness", .uint64 livenessVal⟩,
    ⟨ascii "respTimeMs", .uint64 (toUInt64 livenessDelta)⟩]

def getHealth (i : Nat) : Poller Unit := do
  let bep ← backend
  let sk ← sessionInfo bep.settings.readMs
  let now ← time
  let polltimeBuf ← ctime
  let pollDelta := if 0 < bep.lastpoll i then toUInt64 (now - bep.lastpoll i) else 0
  let start ← gettimeofday
  let err ← spMemcacheWrite livenessCmd
  if err ≠ 0 then publishHealth i pollDelta polltimeBuf 0 0
  else
    let r ← spMemcacheRead livenessOk.length sk false
    let stop ← gettimeofday
    let livenessDelta := max 0 (toInt64 (stop - start))
    if r.err ≠ 0 then publishHealth i pollDelta polltimeBuf 0 livenessDelta
    else if cString r.data ≠ livenessOk then publishHealth i pollDelta polltimeBuf 0 livenessDelta
    else publishHealth i pollDelta polltimeBuf 1 livenessDelta

def pollUri (i : Nat) (uri : Bytes) : Poller Unit :=
  if uri = ascii "health" then getHealth i else getStat i uri

/-- The uris of one poll cycle; `false` is the `goto restart`. -/
def pollUris : List (Bytes × Nat) → Poller Bool
  | [] => return true
  | (uri, i) :: rest => do
    let err ← checkAndConnect
    if err ≠ 0 then return false
    else
      setState .polling
      pollUri i uri
      let now ← time
      emit (.setLastpoll i now)
      pollUris rest

/-- The argument of `usleep`. -/
def sleepTime (pollfreqMs start stop : Int) : Nat :=
  let delta := max 0 (toInt64 (stop - start))
  let sleepTime := pollfreqMs - delta
  toUInt32 ((if sleepTime < 0 then 500 else sleepTime) * 1000)

def pollCycle (_ : Unit) : Poller (Unit ⊕ Empty) := do
  let start ← gettimeofday
  let bep ← backend
  if ← pollUris (bep.uris.map UriEntry.uri).zipIdx then
    spMemcacheDisconnect
    let stop ← gettimeofday
    emit (.usleep (sleepTime bep.settings.pollfreqMs start stop))
  return .inl ()

theorem pollCycle_productive : Productive pollCycle :=
  fun _ _ _ _ _ _ h => (asks_call _ _).bind _ _ _ _ _ _ h

def runBackend : Poller Empty := do
  setState .halted
  loop pollCycle ()

/-- A backend before its poller starts. -/
def World.initial (settings : LocalSettings) (uris : List Bytes) : World :=
  ⟨⟨settings, -1, .halted, 0, uris.map (⟨·, 0, []⟩)⟩, []⟩

def sampleSettings : LocalSettings where
  fronthost := some (ascii "localhost")
  frontaddr := 2130706433
  frontport := 9211
  backhost := some (ascii "localhost")
  backaddr := 2130706433
  backport := 11211
  pollfreqMs := 5000
  refreshfreqMs := 15000
  connectMs := 10000
  readMs := 10000
  writeMs := 10000
  reporter := some (ascii "off")

def sampleUris : List Bytes := [ascii "items", ascii "sizes"]

def sampleWorld : World := World.initial sampleSettings sampleUris

end StatsProxy

import StatsProxy.Library.CString
import StatsProxy.Library.Interaction

/-! The record of one backend and the calls its poller thread makes. All the
thread does is a list of events: the system calls with their outcomes, the
operations on the backend's rwlock, and the stores to the backend. -/
namespace StatsProxy
open CString Interaction

/-- Settings of one frontend/backend combination. The parser and the command
line give no local uris, and a proxy's uris are copied to its backend. -/
structure LocalSettings where
  fronthost : Option Bytes
  frontaddr : Nat
  frontport : Nat
  backhost : Option Bytes
  backaddr : Nat
  backport : Nat
  pollfreqMs : Int
  refreshfreqMs : Int
  connectMs : Int
  readMs : Int
  writeMs : Int
  reporter : Option Bytes
deriving DecidableEq

inductive StatsValue where
  | uint64 (value : Nat)
  | alpha (valueStr : Bytes)
deriving DecidableEq

structure StatsEntry where
  name : Bytes
  v : StatsValue
deriving DecidableEq

structure UriEntry where
  uri : Bytes
  lastpoll : Int
  stats : List StatsEntry
deriving DecidableEq

inductive BackendState where
  | halted | connecting | polling | fault
deriving DecidableEq

structure Backend where
  settings : LocalSettings
  fd : Int
  state : BackendState
  lastError : Nat
  uris : List UriEntry
deriving DecidableEq

/-- An `errno` that a failed call sets is never zero. -/
structure Errno where
  code : Nat
  ne : code ≠ 0
deriving DecidableEq

def EINTR : Errno := ⟨4, by decide⟩
def EBADF : Errno := ⟨9, by decide⟩
/-- `EWOULDBLOCK` is the same number. -/
def EAGAIN : Errno := ⟨11, by decide⟩
def EINPROGRESS : Errno := ⟨115, by decide⟩
def ECANCELED : Errno := ⟨125, by decide⟩

inductive SysResult (α : Type) where
  | ok (value : α)
  | error (e : Errno)
deriving DecidableEq

inductive PollResult where
  | failed (e : Errno)
  | timeout
  | ready
deriving DecidableEq

inductive Event where
  | socket (r : SysResult Nat)
  | fcntl (r : SysResult Unit)
  | connect (r : SysResult Unit)
  | poll (r : PollResult)
  /-- On success the value of `SO_ERROR`. -/
  | getsockopt (r : SysResult Nat)
  | write (offered : Bytes) (r : SysResult Nat)
  | read (len : Nat) (r : SysResult Bytes)
  | close (fd : Int)
  | gettimeofday (ms : Int)
  | time (now : Int)
  | sleep (seconds : Nat)
  | usleep (us : Nat)
  /-- Entry into `spMemcacheWrite`. -/
  | command (cmd : Bytes)
  | wrlock
  | unlock
  | setFd (fd : Int)
  | setState (state : BackendState)
  | setLastError (err : Nat)
  | setLastpoll (i : Nat) (now : Int)
  /-- The first entry of the list of uri `i` is freed. -/
  | removeHead (i : Nat)
  | initStats (i : Nat)
  | insertTail (i : Nat) (entry : StatsEntry)
deriving DecidableEq

/-- The stores that other threads can see. -/
def Event.store : Event → Backend → Backend
  | .setFd fd, bep => { bep with fd }
  | .setState state, bep => { bep with state }
  | .setLastError lastError, bep => { bep with lastError }
  | .setLastpoll i lastpoll, bep => { bep with uris := bep.uris.modify i ({ · with lastpoll }) }
  | .removeHead i, bep =>
    { bep with uris := bep.uris.modify i fun u => { u with stats := u.stats.tail } }
  | .initStats i, bep => { bep with uris := bep.uris.modify i ({ · with stats := [] }) }
  | .insertTail i entry, bep =>
    { bep with uris := bep.uris.modify i fun u => { u with stats := u.stats ++ [entry] } }
  | _, bep => bep

/-- The descriptors the thread has opened and not yet closed. -/
def Event.descriptors : Event → List Int → List Int
  | .socket (.ok fd), opened => fd :: opened
  | .close fd, opened => opened.erase fd
  | _, opened => opened

/-- What a poller thread works on. -/
structure World where
  bep : Backend
  opened : List Int
deriving DecidableEq

instance : Machine World Event where
  after w e := ⟨e.store w.bep, e.descriptors w.opened⟩

/-- The environment's answer to the next call, whichever it is. -/
structure Answer where
  socket : SysResult Nat := .ok 3
  fcntl : SysResult Unit := .ok ()
  connect : SysResult Unit := .ok ()
  poll : PollResult := .ready
  getsockopt : SysResult Nat := .ok 0
  write : SysResult Nat := .error EAGAIN
  read : SysResult Bytes := .error EAGAIN
  gettimeofday : Int := 0
  time : Int := 0
  ctime : Bytes := []

abbrev Poller := Program World Event Answer

namespace Poller
open Program

def backend : Poller Backend := do
  let w ← get
  return w.bep

def socket : Poller Int := do
  let a ← ask
  emit (.socket a.socket)
  match a.socket with
  | .ok fd => return fd
  | .error _ => return -1

/-- A call that is recorded with its outcome. -/
def call (outcome : Answer → α) (event : α → Event) : Poller α := do
  let a ← ask
  emit (event (outcome a))
  return outcome a

def fcntl : Poller (SysResult Unit) := call Answer.fcntl .fcntl
def connect : Poller (SysResult Unit) := call Answer.connect .connect
def poll : Poller PollResult := call Answer.poll .poll
def getsockopt : Poller (SysResult Nat) := call Answer.getsockopt .getsockopt
/-- A clock reading in milliseconds. -/
def gettimeofday : Poller Int := call Answer.gettimeofday .gettimeofday
def time : Poller Int := call Answer.time .time

/-- At most the offered bytes are accepted, and none on a closed descriptor. -/
def writeResult (fd : Int) (offered : Bytes) (r : SysResult Nat) : SysResult Nat :=
  if fd < 0 then .error EBADF
  else match r with
    | .ok n => .ok (min n offered.length)
    | .error e => .error e

def write (offered : Bytes) : Poller (SysResult Nat) := do
  let bep ← backend
  let a ← ask
  let r := writeResult bep.fd offered a.write
  emit (.write offered r)
  return r

/-- At most `len` bytes are delivered, and none on a closed descriptor. -/
def readResult (fd : Int) (len : Nat) (r : SysResult Bytes) : SysResult Bytes :=
  if fd < 0 then .error EBADF
  else match r with
    | .ok data => .ok (data.take len)
    | .error e => .error e

def read (len : Nat) : Poller (SysResult Bytes) := do
  let bep ← backend
  let a ← ask
  let r := readResult bep.fd len a.read
  emit (.read len r)
  return r

/-- A descriptor is closed only while the thread owns it. -/
def close (fd : Int) : Poller Unit := do
  assert (fd ∈ ·.opened)
  emit (.close fd)

/-- The C library's text for a time, without its newline. -/
def ctime : Poller Bytes := do
  let a ← ask
  return a.ctime

theorem writeResult_ok {fd : Int} {offered : Bytes} {r : SysResult Nat} {n : Nat}
    (h : writeResult fd offered r = .ok n) : 0 ≤ fd ∧ n ≤ offered.length := by
  unfold writeResult at h
  split at h
  · contradiction
  · split at h
    · cases h
      exact ⟨by omega, Nat.min_le_right _ _⟩
    · contradiction

theorem readResult_ok {fd : Int} {len : Nat} {r : SysResult Bytes} {data : Bytes}
    (h : readResult fd len r = .ok data) : 0 ≤ fd ∧ data.length ≤ len := by
  unfold readResult at h
  split at h
  · contradiction
  · split at h
    · cases h
      exact ⟨by omega, List.length_take_le _ _⟩
    · contradiction

theorem asks_call (outcome : Answer → α) (event : α → Event) : Asks (call outcome event) :=
  asks_ask.bind _

theorem asks_write (offered : Bytes) : Asks (write offered) :=
  asks_bind _ fun _ => asks_ask.bind _

theorem asks_read (len : Nat) : Asks (read len) :=
  asks_bind _ fun _ => asks_ask.bind _

section

variable {η : Type} [Machine η Event] {I : World × η → Prop} {x : World × η}

theorem wp_backend {Q : Backend → World × η → Prop} (h : Q x.1.bep x) : wp I backend Q x :=
  wp_bind (wp_get (wp_pure h))

theorem wp_call {outcome : Answer → α} {event : α → Event} {Q : α → World × η → Prop}
    (hI : I x) (h : ∀ r, Q r (Machine.after x (event r))) : wp I (call outcome event) Q x :=
  wp_bind (wp_ask hI fun _ => wp_bind (wp_emit (wp_pure (h _))))

theorem wp_socket {Q : Int → World × η → Prop} (hI : I x)
    (hok : ∀ fd : Nat, Q fd (Machine.after x (.socket (.ok fd))))
    (herr : ∀ e, Q (-1) (Machine.after x (.socket (.error e)))) : wp I socket Q x := by
  apply wp_bind
  apply wp_ask hI
  intro a
  apply wp_bind
  apply wp_emit
  cases a.socket with
  | ok fd => exact wp_pure (hok fd)
  | error e => exact wp_pure (herr e)

theorem wp_write {offered : Bytes} {Q : SysResult Nat → World × η → Prop} (hI : I x)
    (h : ∀ r, Q (writeResult x.1.bep.fd offered r)
      (Machine.after x (.write offered (writeResult x.1.bep.fd offered r)))) :
    wp I (write offered) Q x :=
  wp_bind (wp_backend (wp_bind (wp_ask hI fun _ => wp_bind (wp_emit (wp_pure (h _))))))

theorem wp_read {len : Nat} {Q : SysResult Bytes → World × η → Prop} (hI : I x)
    (h : ∀ r, Q (readResult x.1.bep.fd len r)
      (Machine.after x (.read len (readResult x.1.bep.fd len r)))) :
    wp I (read len) Q x :=
  wp_bind (wp_backend (wp_bind (wp_ask hI fun _ => wp_bind (wp_emit (wp_pure (h _))))))

theorem wp_close {fd : Int} {Q : Unit → World × η → Prop} (ho : fd ∈ x.1.opened)
    (h : Q () (Machine.after x (.close fd))) : wp I (close fd) Q x :=
  wp_bind (wp_assert (by simpa using ho) (wp_emit h))

theorem wp_ctime {Q : Bytes → World × η → Prop} (hI : I x) (h : ∀ text, Q text x) :
    wp I ctime Q x :=
  wp_bind (wp_ask hI fun _ => wp_pure (h _))

end

end Poller
end StatsProxy

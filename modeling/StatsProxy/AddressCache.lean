import StatsProxy.SharedStatics

/-! The calls of `mcr_getAddr`, one after the other, and the cache that its statics are meant
for. The first statement clears the record that the port would mark as valid. -/
namespace StatsProxy
open CString Threads

def ENOENT : Int := 2

/-- When a call is made, and the resolver at that time. -/
structure AddrCall where
  now : Int
  ns : NameService

/-- The result of a call, what it copies to its caller, and whether it called `host2addr`. -/
structure Fetched where
  err : Int
  mcrAddr : Option SockAddr
  lookedUp : Bool
deriving DecidableEq

/-- `host2addr` with the record it stores into. -/
def NameService.storeAddr (ns : NameService) (host : Bytes) (addr : SockAddr) : Int × SockAddr :=
  match ns.inetAddr host with
  | some a => (0, { addr with addr := a })
  | none => match ns.getHostByName host with
    | some hp => (0, { addr with addr := hp.addr })
    | none => (ENOENT, { addr with addr := INADDR_NONE })

/-- `mcr_getAddr`. -/
def Statics.mcrGetAddr (s : Statics) (reporter : Reporter) (c : AddrCall) : Fetched × Statics :=
  let s := { s with mcr := ⟨0, 0, 0⟩ }
  if c.now - s.nsValidTime > nsCacheTime ∨ s.mcr.port = 0 then
    let s := { s with nsValidTime := c.now, mcr := ⟨0, 0, 0⟩ }
    let found := c.ns.storeAddr reporter.addr s.mcr
    if found.1 ≠ 0 then (⟨found.1, none, true⟩, { s with mcr := found.2 })
    else
      let s := { s with mcr := { found.2 with family := AF_INET, port := htons reporter.port } }
      (⟨0, some s.mcr, true⟩, s)
  else (⟨0, some s.mcr, false⟩, s)

/-- The calls of a process with their outcomes. -/
def addrCalls (reporter : Reporter) : Statics → List AddrCall → List (AddrCall × Fetched)
  | _, [] => []
  | s, c :: calls =>
    (c, (s.mcrGetAddr reporter c).1) :: addrCalls reporter (s.mcrGetAddr reporter c).2 calls

/-- The resolver's answer to a lookup that is made in the call. -/
def AddrCall.answer (c : AddrCall) (reporter : Reporter) : Option Nat :=
  c.ns.host2addr reporter.addr

/-- The time and the answer of a lookup. -/
structure Lookup where
  time : Int
  answer : Option Nat

/-- The address a cache has, `NS_CACHE_TIME` seconds long after a lookup with an answer. -/
def Lookup.cached (last : Option Lookup) (now : Int) : Option Nat :=
  last.bind fun lookup => if now - lookup.time ≤ nsCacheTime then lookup.answer else none

def Reporter.sockAddr (reporter : Reporter) (addr : Nat) : SockAddr :=
  ⟨AF_INET, htons reporter.port, addr⟩

/-- What a call does that uses a cache. -/
structure UsesCache (reporter : Reporter) (last : Option Lookup) (c : AddrCall) (r : Fetched) :
    Prop where
  cached : ∀ addr, Lookup.cached last c.now = some addr →
    r = ⟨0, some (reporter.sockAddr addr), false⟩
  fresh : Lookup.cached last c.now = none → r.lookedUp = true
  sound : r.err = 0 → ∃ addr, r.mcrAddr = some (reporter.sockAddr addr) ∧
    (r.lookedUp = true ∧ c.answer reporter = some addr ∨
      ∃ lookup, last = some lookup ∧ lookup.answer = some addr)

/-- All calls use the cache, which `last` is the last lookup for. -/
def CacheWorks (reporter : Reporter) : Option Lookup → List (AddrCall × Fetched) → Prop
  | _, [] => True
  | last, (c, r) :: rest => UsesCache reporter last c r ∧
    CacheWorks reporter (if r.lookedUp then some ⟨c.now, c.answer reporter⟩ else last) rest

/-- The second call is not made within the time that an answer to the first one is valid. -/
def Expired (reporter : Reporter) (c c' : AddrCall) : Prop :=
  (c.answer reporter).isSome → nsCacheTime < c'.now - c.now

/-- What a call that looks up leaves and returns. -/
def lookupOutcome (reporter : Reporter) (now : Int) (s : Statics) : Option Nat → Fetched × Statics
  | some addr => (⟨0, some (reporter.sockAddr addr), true⟩,
      { s with nsValidTime := now, mcr := reporter.sockAddr addr })
  | none => (⟨ENOENT, none, true⟩, { s with nsValidTime := now, mcr := ⟨0, 0, INADDR_NONE⟩ })

/-- Every call looks up. -/
theorem mcrGetAddr_eq (s : Statics) (reporter : Reporter) (c : AddrCall) :
    s.mcrGetAddr reporter c = lookupOutcome reporter c.now s (c.answer reporter) := by
  unfold Statics.mcrGetAddr
  dsimp only
  rw [if_pos (Or.inr rfl), NameService.storeAddr, AddrCall.answer, NameService.host2addr]
  cases c.ns.inetAddr reporter.addr with
  | some addr => rfl
  | none => cases c.ns.getHostByName reporter.addr with
    | some hp => rfl
    | none => rfl

theorem mcrGetAddr_lookedUp (s : Statics) (reporter : Reporter) (c : AddrCall) :
    (s.mcrGetAddr reporter c).1.lookedUp = true := by
  rw [mcrGetAddr_eq]
  cases c.answer reporter <;> rfl

/-- The statements of a thread that runs alone do what the call does: 10 turns for a dotted
address, two more for a name, and fewer where the look-up fails. The resolver's record is its
own. -/
theorem statement_alone (s : Statics) (reporter : Reporter) (c : AddrCall) (t : RequestThread)
    (hidle : t.point = .idle) :
    ∃ turns hostent,
      run (statement c.ns reporter) ⟨s, fun _ => { t with calls := .mcrGetAddr :: t.calls }⟩
        (List.replicate turns ((), c.now)) =
      ⟨{ (s.mcrGetAddr reporter c).2 with hostent }, fun _ =>
        { t with received := t.received ++ (s.mcrGetAddr reporter c).1.mcrAddr.toList }⟩ := by
  rw [mcrGetAddr_eq, AddrCall.answer, NameService.host2addr]
  obtain ⟨calls, point, received, labels⟩ := t
  subst hidle
  cases hdot : c.ns.inetAddr reporter.addr with
  | some addr =>
    refine ⟨10, s.hostent, ?_⟩
    simp [run, List.replicate_succ, step_unit, statement, RequestThread.goto, hdot,
      lookupOutcome, Reporter.sockAddr]
  | none => cases hname : c.ns.getHostByName reporter.addr with
    | some hp =>
      refine ⟨12, hp, ?_⟩
      simp [run, List.replicate_succ, step_unit, statement, RequestThread.goto, hdot, hname,
        lookupOutcome, Reporter.sockAddr]
    | none =>
      refine ⟨8, s.hostent, ?_⟩
      simp [run, List.replicate_succ, step_unit, statement, RequestThread.goto, hdot, hname,
        lookupOutcome]

theorem usesCache_iff (reporter : Reporter) (last : Option Lookup) (s : Statics) (c : AddrCall) :
    UsesCache reporter last c (s.mcrGetAddr reporter c).1 ↔ Lookup.cached last c.now = none := by
  have hlooked := mcrGetAddr_lookedUp s reporter c
  constructor
  · intro h
    by_contra hcached
    obtain ⟨addr, haddr⟩ := Option.ne_none_iff_exists'.mp hcached
    rw [h.cached addr haddr] at hlooked
    contradiction
  · intro hnone
    refine ⟨?_, fun _ => hlooked, ?_⟩
    · intro addr haddr
      rw [hnone] at haddr
      contradiction
    · intro herr
      rw [mcrGetAddr_eq] at herr ⊢
      cases hanswer : c.answer reporter with
      | some addr => exact ⟨addr, rfl, Or.inl ⟨rfl, rfl⟩⟩
      | none =>
        rw [hanswer] at herr
        exact absurd (show ENOENT = 0 from herr) (by decide)

theorem expired_iff (reporter : Reporter) (c c' : AddrCall) :
    Lookup.cached (some ⟨c.now, c.answer reporter⟩) c'.now = none ↔ Expired reporter c c' := by
  rw [Expired, Lookup.cached, Option.bind_some]
  cases c.answer reporter with
  | none => simp
  | some addr =>
    rw [Option.isSome_some, ite_eq_right_iff]
    constructor
    · intro h _
      exact not_le.mp fun hle => absurd (h hle) (Option.some_ne_none addr)
    · intro h hle
      exact absurd hle (not_le.mpr (h rfl))

theorem cacheWorks_cons_iff (reporter : Reporter) (last : Option Lookup) (s : Statics)
    (c : AddrCall) (calls : List AddrCall) :
    CacheWorks reporter last (addrCalls reporter s (c :: calls)) ↔
      Lookup.cached last c.now = none ∧ List.IsChain (Expired reporter) (c :: calls) := by
  induction calls generalizing last s c with
  | nil =>
    rw [addrCalls, CacheWorks, usesCache_iff]
    simp [addrCalls, CacheWorks]
  | cons c' calls ih =>
    rw [addrCalls, CacheWorks, usesCache_iff, if_pos (mcrGetAddr_lookedUp s reporter c), ih,
      expired_iff, List.isChain_cons_cons]

/-- The cache works for a run exactly if each call is made only after the time that the
answer to the one before is valid. -/
theorem cacheWorks_iff (reporter : Reporter) (calls : List AddrCall) :
    CacheWorks reporter none (addrCalls reporter {} calls) ↔
      List.IsChain (Expired reporter) calls := by
  cases calls with
  | nil => exact iff_of_true trivial List.isChain_nil
  | cons c calls =>
    rw [cacheWorks_cons_iff]
    exact and_iff_right rfl

/-- A second later the reporter is looked up again. -/
theorem cacheWorks_fails : ¬∀ (reporter : Reporter) (calls : List AddrCall),
    (calls.map AddrCall.now).Pairwise (· ≤ ·) →
    CacheWorks reporter none (addrCalls reporter {} calls) := by
  intro h
  obtain ⟨-, hsecond, -⟩ := h sampleReporter [⟨1000, sampleNames⟩, ⟨1001, sampleNames⟩]
    (by decide)
  have hcached := hsecond.cached 2130706433 (by decide +kernel)
  exact absurd (congrArg Fetched.lookedUp hcached) (by decide +kernel)

end StatsProxy

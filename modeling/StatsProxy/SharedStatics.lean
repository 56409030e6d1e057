import StatsProxy.Library.CString
import StatsProxy.Library.Threads

/-! `mcr_getAddr` and `addr2host` statement by statement, and the `inet_ntoa` of their callers.
Their statics, and those that the resolver returns pointers to, belong to the process, and every
request runs in a thread of its own without a lock. -/
namespace StatsProxy
open CString Threads

structure SockAddr where
  family : Nat
  port : Nat
  addr : Nat
deriving DecidableEq

def AF_INET : Nat := 2
def INADDR_NONE : Nat := 2 ^ 32 - 1
def nsCacheTime : Int := 5 * 60
def maxHostNameLen : Nat := 64

def htons (port : Nat) : Nat := port % 256 * 256 + port / 256 % 256

/-- A `struct hostent`. -/
structure HostEnt where
  name : Bytes := []
  addr : Nat := 0
deriving DecidableEq

/-- The resolver. An address is `none` where `inet_addr` returns `INADDR_NONE`. -/
structure NameService where
  inetAddr : Bytes → Option Nat
  getHostByName : Bytes → Option HostEnt
  getHostByAddr : Nat → Option HostEnt
  inetNtoa : Nat → Bytes

/-- The settings of the reporter. -/
structure Reporter where
  addr : Bytes
  port : Nat

/-- `nsValidTime` and `mcr` of `mcr_getAddr`, `hostname` of `addr2host`, and the resolver's
own: the record that `gethostbyname` and `gethostbyaddr` return a pointer to and the buffer of
`inet_ntoa`. -/
structure Statics where
  nsValidTime : Int := 0
  mcr : SockAddr := ⟨0, 0, 0⟩
  hostname : Bytes := List.replicate maxHostNameLen 0
  hostent : HostEnt := {}
  ntoa : Bytes := []
deriving DecidableEq

inductive Call where
  | mcrGetAddr
  | addr2host (addr : Nat)
  | dotquad (addr : Nat)
deriving DecidableEq

/-- The statement that a thread does next, with the locals that it still reads. -/
inductive Point where
  | idle
  -- mcr_getAddr
  | clear
  | time
  | test (now : Int)
  | stamp (now : Int)
  | clearAgain
  | inetAddr
  | getHostByName
  | storeAddr
  | setFamily
  | setPort
  | copy
  -- addr2host, and the strdup of its caller
  | getHostByAddr (addr : Nat)
  | strncpy (addr : Nat)
  | strchr (addr : Nat)
  | trim (addr : Nat) (dot : Nat)
  | strdup (addr : Nat)
  | inetNtoa (addr : Nat)
  | strdupNtoa (addr : Nat)
  -- the inet_ntoa of the callers
  | dotquad (addr : Nat)
deriving DecidableEq

/-- A thread with the calls it has still to make and what it got from the others. -/
structure RequestThread where
  calls : List Call
  point : Point := .idle
  received : List SockAddr := []
  labels : List (Nat × Bytes) := []
deriving DecidableEq

def RequestThread.goto (t : RequestThread) (point : Point) : RequestThread := { t with point }

/-- `strncpy` fills up with NULs. -/
def strncpy (n : Nat) (target source : Bytes) : Bytes :=
  (cString source ++ List.replicate n 0).take n ++ target.drop n

/-- One statement; the clock tells the time. -/
def statement (ns : NameService) (reporter : Reporter) : Statement Int Statics RequestThread :=
  fun clock s t => match t.point with
  | .idle => match t.calls with
    | [] => (s, t)
    | .mcrGetAddr :: calls => (s, { t with calls, point := .clear })
    | .addr2host addr :: calls => (s, { t with calls, point := .getHostByAddr addr })
    | .dotquad addr :: calls => (s, { t with calls, point := .dotquad addr })
  | .clear => ({ s with mcr := ⟨0, 0, 0⟩ }, t.goto .time)
  | .time => (s, t.goto (.test clock))
  | .test now =>
    (s, t.goto (if now - s.nsValidTime > nsCacheTime ∨ s.mcr.port = 0 then .stamp now else .copy))
  | .stamp now => ({ s with nsValidTime := now }, t.goto .clearAgain)
  | .clearAgain => ({ s with mcr := ⟨0, 0, 0⟩ }, t.goto .inetAddr)
  | .inetAddr =>
    ({ s with mcr.addr := (ns.inetAddr reporter.addr).getD INADDR_NONE },
      t.goto (if (ns.inetAddr reporter.addr).isSome then .setFamily else .getHostByName))
  | .getHostByName => match ns.getHostByName reporter.addr with
    | some hostent => ({ s with hostent }, t.goto .storeAddr)
    | none => (s, t.goto .idle)
  | .storeAddr => ({ s with mcr.addr := s.hostent.addr }, t.goto .setFamily)
  | .setFamily => ({ s with mcr.family := AF_INET }, t.goto .setPort)
  | .setPort => ({ s with mcr.port := htons reporter.port }, t.goto .copy)
  | .copy => (s, { t with point := .idle, received := t.received ++ [s.mcr] })
  | .getHostByAddr addr => match ns.getHostByAddr addr with
    | some hostent => ({ s with hostent }, t.goto (.strncpy addr))
    | none => (s, t.goto (.inetNtoa addr))
  | .strncpy addr =>
    ({ s with hostname := StatsProxy.strncpy (maxHostNameLen - 1) s.hostname s.hostent.name },
      t.goto (.strchr addr))
  | .strchr addr =>
    (s, t.goto (match (cString s.hostname).findIdx? (· = 46) with
      | some dot => .trim addr dot
      | none => .strdup addr))
  | .trim addr dot => ({ s with hostname := s.hostname.set dot 0 }, t.goto (.strdup addr))
  | .strdup addr =>
    (s, { t with point := .idle, labels := t.labels ++ [(addr, cString s.hostname)] })
  | .inetNtoa addr => ({ s with ntoa := ns.inetNtoa addr }, t.goto (.strdupNtoa addr))
  | .strdupNtoa addr => (s, { t with point := .idle, labels := t.labels ++ [(addr, s.ntoa)] })
  | .dotquad addr => ({ s with ntoa := ns.inetNtoa addr }, t.goto .idle)

/-- `host2addr`. -/
def NameService.host2addr (ns : NameService) (host : Bytes) : Option Nat :=
  (ns.inetAddr host).or ((ns.getHostByName host).map HostEnt.addr)

/-- The name of an address: its host name without the domain. -/
def NameService.label (ns : NameService) (addr : Nat) : Bytes :=
  match ns.getHostByAddr addr with
  | some hp => ((cString hp.name).take (maxHostNameLen - 1)).takeWhile (· ≠ 46)
  | none => ns.inetNtoa addr

/-- The resolved reporter address with the configured port. -/
def Resolved (ns : NameService) (reporter : Reporter) (mcr : SockAddr) : Prop :=
  ∃ addr, ns.host2addr reporter.addr = some addr ∧ mcr = ⟨AF_INET, htons reporter.port, addr⟩

/-- The thread got what it gets when it runs alone. -/
structure Undisturbed (ns : NameService) (reporter : Reporter) (t : RequestThread) : Prop where
  received : ∀ mcr ∈ t.received, Resolved ns reporter mcr
  labels : ∀ entry ∈ t.labels, entry.2 = ns.label entry.1

/-- What the threads share and use over several statements. -/
inductive Static where
  | mcr | hostname | hostent | ntoa

/-- The statement stores into the static, or calls the function whose static it is. -/
def Point.writes : Point → Static → Bool
  | .clear, .mcr | .clearAgain, .mcr | .inetAddr, .mcr | .storeAddr, .mcr | .setFamily, .mcr
  | .setPort, .mcr => true
  | .strncpy _, .hostname | .trim _ _, .hostname => true
  | .getHostByName, .hostent | .getHostByAddr _, .hostent => true
  | .inetNtoa _, .ntoa | .dotquad _, .ntoa => true
  | _, _ => false

/-- The thread has filled the static, or found it valid, and has not read it to the end. -/
def Point.uses : Point → Static → Bool
  | .inetAddr, .mcr | .getHostByName, .mcr | .storeAddr, .mcr | .setFamily, .mcr | .setPort, .mcr
  | .copy, .mcr => true
  | .strchr _, .hostname | .trim _ _, .hostname | .strdup _, .hostname => true
  | .storeAddr, .hostent | .strncpy _, .hostent => true
  | .strdupNtoa _, .ntoa => true
  | _, _ => false

/-- The two states have the same in the static. -/
def Static.Same (s s' : Statics) : Static → Prop
  | .mcr => s'.mcr = s.mcr
  | .hostname => s'.hostname = s.hostname
  | .hostent => s'.hostent = s.hostent
  | .ntoa => s'.ntoa = s.ntoa

/-- A turn that stores into a static finds no other thread in its use. -/
def Exclusive {ι : Type} (s : State ι Statics RequestThread) (t : ι) : Prop :=
  ∀ u, u ≠ t → ∀ static, (s.threads t).point.writes static = true →
    (s.threads u).point.uses static = false

/-- What holds of the statics between any two statements. -/
structure Genuine (ns : NameService) (reporter : Reporter) (s : Statics) : Prop where
  record : s.mcr.port ≠ 0 → Resolved ns reporter s.mcr
  hostname : s.hostname.drop (maxHostNameLen - 1) = [0]

/-- What holds where a thread is. -/
def Point.Holds (ns : NameService) (reporter : Reporter) (s : Statics) : Point → Prop
  | .inetAddr => s.mcr.port = 0
  | .getHostByName => s.mcr.port = 0 ∧ ns.inetAddr reporter.addr = none
  | .storeAddr => (s.mcr.port = 0 ∧ ns.inetAddr reporter.addr = none) ∧
    ns.getHostByName reporter.addr = some s.hostent
  | .setFamily => s.mcr.port = 0 ∧ ns.host2addr reporter.addr = some s.mcr.addr
  | .setPort => s.mcr.family = AF_INET ∧ ns.host2addr reporter.addr = some s.mcr.addr
  | .copy => Resolved ns reporter s.mcr
  | .strncpy addr => ns.getHostByAddr addr = some s.hostent
  | .strchr addr => ∃ hp, ns.getHostByAddr addr = some hp ∧
    cString s.hostname = (cString hp.name).take (maxHostNameLen - 1)
  | .trim addr dot => (∃ hp, ns.getHostByAddr addr = some hp ∧
    cString s.hostname = (cString hp.name).take (maxHostNameLen - 1)) ∧
    (cString s.hostname).findIdx? (· = 46) = some dot
  | .strdup addr => cString s.hostname = ns.label addr
  | .inetNtoa addr => ns.getHostByAddr addr = none
  | .strdupNtoa addr => ns.getHostByAddr addr = none ∧ s.ntoa = ns.inetNtoa addr
  | _ => True

structure Assertion (ns : NameService) (reporter : Reporter) (s : Statics) (t : RequestThread) :
    Prop where
  sound : Genuine ns reporter s
  point : t.point.Holds ns reporter s
  undisturbed : Undisturbed ns reporter t

section

variable {ns : NameService} {reporter : Reporter} {s : Statics} {t : RequestThread}

theorem cString_strncpy (name : Bytes) (h : s.hostname.drop (maxHostNameLen - 1) = [0]) :
    cString (strncpy (maxHostNameLen - 1) s.hostname name) =
      (cString name).take (maxHostNameLen - 1) := by
  have hname : 0 ∉ (cString name).take (maxHostNameLen - 1) :=
    fun hmem => cString_noNul name (List.mem_of_mem_take hmem)
  rw [strncpy, h, List.take_append, List.append_assoc, List.take_replicate]
  cases min (maxHostNameLen - 1 - (cString name).length) (maxHostNameLen - 1) with
  | zero => exact cString_append_nul hname []
  | succ n => exact cString_append_nul hname _

theorem strncpy_drop (source target : Bytes) (n : Nat) :
    (strncpy n target source).drop n = target.drop n := by
  have hlen : ((cString source ++ List.replicate n 0).take n).length = n := by simp
  exact List.drop_left' hlen

/-- A NUL in the place of the first dot cuts the name off there. -/
theorem cString_trim {buffer : Bytes} {dot : Nat}
    (h : (cString buffer).findIdx? (· = 46) = some dot) :
    cString (buffer.set dot 0) = (cString buffer).takeWhile (· ≠ 46) := by
  induction buffer generalizing dot with
  | nil => simp [cString] at h
  | cons ch buffer ih =>
    by_cases hnul : ch = 0
    · simp [cString, hnul] at h
    · have hcons : ∀ rest, cString (ch :: rest) = ch :: cString rest := by
        intro rest
        exact List.takeWhile_cons_of_pos (by simpa using hnul)
      rw [hcons, List.findIdx?_cons] at h
      by_cases hdot : ch = 46
      · simp only [hdot, decide_true, if_true, Option.some.injEq] at h
        rw [← h, List.set_cons_zero, hcons, hdot]
        rfl
      · simp only [hdot, decide_false, Bool.false_eq_true, if_false] at h
        obtain ⟨d, hd, rfl⟩ := Option.map_eq_some_iff.mp h
        rw [List.set_cons_succ, hcons, hcons, ih hd,
          List.takeWhile_cons_of_pos (by simpa using hdot)]

/-- Where no dot is left, the name is the label. -/
theorem takeWhile_noDot {name : Bytes} (h : name.findIdx? (· = 46) = none) :
    name.takeWhile (· ≠ 46) = name := by
  rw [List.takeWhile_eq_self_iff]
  rw [List.findIdx?_eq_none_iff] at h
  intro ch hch
  simpa using h ch hch

theorem label_of_name {addr : Nat} {hp : HostEnt} (h : ns.getHostByAddr addr = some hp) :
    ns.label addr = ((cString hp.name).take (maxHostNameLen - 1)).takeWhile (· ≠ 46) := by
  rw [NameService.label, h]

/-- What a statement does not store into stays. -/
theorem statement_same (clock : Int) {static : Static} (h : t.point.writes static = false) :
    static.Same s (statement ns reporter clock s t).1 := by
  unfold statement
  cases hp : t.point with
  | idle => cases t.calls with
    | nil => cases static <;> rfl
    | cons call calls => cases call <;> cases static <;> rfl
  | getHostByName =>
    rw [hp] at h
    dsimp only
    cases ns.getHostByName reporter.addr with
    | none => cases static <;> rfl
    | some hostent => cases static <;> first | rfl | contradiction
  | getHostByAddr addr =>
    rw [hp] at h
    dsimp only
    cases ns.getHostByAddr addr with
    | none => cases static <;> rfl
    | some hostent => cases static <;> first | rfl | contradiction
  | _ =>
    rw [hp] at h
    cases static <;> first | rfl | contradiction

/-- Only what a thread uses matters to it. -/
theorem Point.Holds.congr {point : Point} {s' : Statics} (h : point.Holds ns reporter s)
    (hsame : ∀ static, point.uses static = true → static.Same s s') :
    point.Holds ns reporter s' := by
  have hmcr := hsame .mcr
  have hhostname := hsame .hostname
  have hhostent := hsame .hostent
  have hntoa := hsame .ntoa
  cases point <;> simp_all [Point.Holds, Point.uses, Static.Same]

theorem Undisturbed.goto (h : Undisturbed ns reporter t) (point : Point) :
    Undisturbed ns reporter (t.goto point) :=
  ⟨h.received, h.labels⟩

theorem Undisturbed.receive (h : Undisturbed ns reporter t) {mcr : SockAddr}
    (hmcr : Resolved ns reporter mcr) :
    Undisturbed ns reporter { t with point := .idle, received := t.received ++ [mcr] } := by
  refine ⟨?_, h.labels⟩
  intro old hold
  rcases List.mem_append.mp hold with hold | hold
  · exact h.received old hold
  · rw [List.mem_singleton.mp hold]
    exact hmcr

theorem Undisturbed.label (h : Undisturbed ns reporter t) {addr : Nat} {text : Bytes}
    (htext : text = ns.label addr) :
    Undisturbed ns reporter { t with point := .idle, labels := t.labels ++ [(addr, text)] } := by
  refine ⟨h.received, ?_⟩
  intro entry hentry
  rcases List.mem_append.mp hentry with hentry | hentry
  · exact h.labels entry hentry
  · rw [List.mem_singleton.mp hentry]
    exact htext

/-- What a statement does to the statics and to its own thread. -/
theorem statement_assertion (clock : Int) (h : Assertion ns reporter s t) :
    Assertion ns reporter (statement ns reporter clock s t).1
      (statement ns reporter clock s t).2 := by
  obtain ⟨hsound, hpoint, hthread⟩ := h
  have hcleared : ∀ {mcr : SockAddr}, mcr.port = 0 → Genuine ns reporter { s with mcr } := by
    intro mcr hport
    exact ⟨fun hne => absurd hport hne, hsound.hostname⟩
  have hgoto := hthread.goto
  unfold statement
  cases hp : t.point with
  | idle => cases hcalls : t.calls with
    | nil => exact ⟨hsound, hpoint, hthread⟩
    | cons call calls => cases call with
      | mcrGetAddr => exact ⟨hsound, trivial, hthread.received, hthread.labels⟩
      | addr2host addr => exact ⟨hsound, trivial, hthread.received, hthread.labels⟩
      | dotquad addr => exact ⟨hsound, trivial, hthread.received, hthread.labels⟩
  | clear => exact ⟨hcleared rfl, trivial, hgoto _⟩
  | time => exact ⟨hsound, trivial, hgoto _⟩
  | test now =>
    refine ⟨hsound, ?_, hgoto _⟩
    dsimp only [RequestThread.goto]
    split
    · trivial
    · next h => exact hsound.record fun hport => h (Or.inr hport)
  | stamp now => exact ⟨⟨hsound.record, hsound.hostname⟩, trivial, hgoto _⟩
  | clearAgain => exact ⟨hcleared rfl, rfl, hgoto _⟩
  | inetAddr =>
    rw [hp] at hpoint
    refine ⟨hcleared hpoint, ?_, hgoto _⟩
    cases haddr : ns.inetAddr reporter.addr with
    | none => exact ⟨hpoint, haddr⟩
    | some addr => exact ⟨hpoint, by rw [NameService.host2addr, haddr]; rfl⟩
  | getHostByName =>
    rw [hp] at hpoint
    dsimp only
    cases haddr : ns.getHostByName reporter.addr with
    | none => exact ⟨hsound, trivial, hgoto _⟩
    | some hostent => exact ⟨⟨hsound.record, hsound.hostname⟩, ⟨hpoint, haddr⟩, hgoto _⟩
  | storeAddr =>
    rw [hp] at hpoint
    obtain ⟨⟨hport, hdot⟩, haddr⟩ := hpoint
    refine ⟨hcleared hport, ⟨hport, ?_⟩, hgoto _⟩
    rw [NameService.host2addr, hdot, haddr]
    rfl
  | setFamily =>
    rw [hp] at hpoint
    exact ⟨hcleared hpoint.1, ⟨rfl, hpoint.2⟩, hgoto _⟩
  | setPort =>
    rw [hp] at hpoint
    have hresolved : Resolved ns reporter { s.mcr with port := htons reporter.port } := by
      refine ⟨s.mcr.addr, hpoint.2, ?_⟩
      rw [← hpoint.1]
    exact ⟨⟨fun _ => hresolved, hsound.hostname⟩, hresolved, hgoto _⟩
  | copy =>
    rw [hp] at hpoint
    exact ⟨hsound, trivial, hthread.receive hpoint⟩
  | getHostByAddr addr =>
    dsimp only
    cases hname : ns.getHostByAddr addr with
    | none => exact ⟨hsound, hname, hgoto _⟩
    | some hostent => exact ⟨⟨hsound.record, hsound.hostname⟩, hname, hgoto _⟩
  | strncpy addr =>
    rw [hp] at hpoint
    refine ⟨⟨hsound.record, ?_⟩, ⟨s.hostent, hpoint, ?_⟩, hgoto _⟩
    · exact (strncpy_drop _ _ _).trans hsound.hostname
    · exact cString_strncpy s.hostent.name hsound.hostname
  | strchr addr =>
    rw [hp] at hpoint
    refine ⟨hsound, ?_, hgoto _⟩
    cases hdot : (cString s.hostname).findIdx? (· = 46) with
    | none =>
      obtain ⟨name, hname, hcopied⟩ := hpoint
      show cString s.hostname = ns.label addr
      rw [label_of_name hname, ← hcopied, takeWhile_noDot hdot]
    | some dot => exact ⟨hpoint, hdot⟩
  | trim addr dot =>
    rw [hp] at hpoint
    obtain ⟨⟨name, hname, hcopied⟩, hdot⟩ := hpoint
    have hinside : dot < maxHostNameLen - 1 := by
      obtain ⟨hlt, -⟩ := List.findIdx?_eq_some_iff_getElem.mp hdot
      rw [hcopied, List.length_take] at hlt
      exact hlt.trans_le (Nat.min_le_left _ _)
    refine ⟨⟨hsound.record, ?_⟩, ?_, hgoto _⟩
    · exact (List.drop_set_of_lt hinside).trans hsound.hostname
    · show cString (s.hostname.set dot 0) = ns.label addr
      rw [cString_trim hdot, label_of_name hname, hcopied]
  | strdup addr =>
    rw [hp] at hpoint
    exact ⟨hsound, trivial, hthread.label hpoint⟩
  | inetNtoa addr =>
    rw [hp] at hpoint
    exact ⟨⟨hsound.record, hsound.hostname⟩, ⟨hpoint, rfl⟩, hgoto _⟩
  | strdupNtoa addr =>
    rw [hp] at hpoint
    obtain ⟨hname, hntoa⟩ := hpoint
    have hlabel : s.ntoa = ns.label addr := by
      rw [NameService.label, hname, hntoa]
    exact ⟨hsound, trivial, hthread.label hlabel⟩
  | dotquad addr => exact ⟨⟨hsound.record, hsound.hostname⟩, trivial, hgoto _⟩

theorem exclusive_outline {ι : Type} (ns : NameService) (reporter : Reporter) :
    Outline (statement ns reporter) (@Exclusive ι) (Assertion ns reporter) where
  own s t clock hs _ := statement_assertion clock (hs t)
  others s t clock u hs hmay hu := by
    refine ⟨(statement_assertion clock (hs t)).sound, ?_, (hs u).undisturbed⟩
    apply (hs u).point.congr
    intro static huse
    apply statement_same
    by_contra hwrites
    rw [hmay u hu static (by simpa using hwrites)] at huse
    contradiction

end

/-- All threads before their first statement. -/
def startThreads {ι : Type} (calls : ι → List Call) : State ι Statics RequestThread :=
  ⟨{}, fun t => { calls := calls t }⟩

section

variable {ι : Type} [DecidableEq ι]

/-- A request that runs alone is never kept from a turn. -/
theorem request_alone (ns : NameService) (reporter : Reporter) (calls : ι → List Call) {t : ι}
    {schedule : List (ι × Int)} (halone : ∀ turn ∈ schedule, turn.1 = t) :
    Allowed (statement ns reporter) Exclusive (startThreads calls) schedule := by
  apply allowed_alone (·.point = .idle) _ halone fun _ _ => rfl
  intro s hrest u hu static _
  rw [hrest u hu]
  rfl

/-- No request disturbs another while no thread stores into a static that another one is
using. -/
theorem requests_undisturbed (ns : NameService) (reporter : Reporter) (calls : ι → List Call)
    {schedule : List (ι × Int)}
    (hexclusive : Allowed (statement ns reporter) Exclusive (startThreads calls) schedule) :
    ∀ t, Undisturbed ns reporter
      ((run (statement ns reporter) (startThreads calls) schedule).threads t) := by
  have hstart : Holds (Assertion ns reporter) (startThreads calls) :=
    fun t => ⟨⟨fun hne => absurd rfl hne, rfl⟩, trivial, nofun, nofun⟩
  intro t
  exact ((exclusive_outline ns reporter).run hstart hexclusive t).undisturbed

end

def sampleNames : NameService where
  inetAddr host := if host = ascii "127.0.0.1" then some 2130706433 else none
  getHostByName host :=
    if host = ascii "localhost" then some ⟨ascii "localhost", 2130706433⟩ else none
  getHostByAddr addr :=
    if addr = 1 then some ⟨ascii "alpha.example", 1⟩
    else if addr = 2 then some ⟨ascii "beta", 2⟩
    else none
  inetNtoa _ := ascii "0.0.0.0"

def sampleReporter : Reporter := ⟨ascii "localhost", 22122⟩

/-- Each of two threads looks up the reporter and two names. -/
def sampleCalls (t : Bool) : List Call :=
  [.mcrGetAddr, .dotquad 3, .addr2host (if t then 1 else 2), .addr2host 3]

/-- One after the other. -/
def turnByTurn : List (Bool × Int) :=
  List.replicate 26 (true, 1000) ++ List.replicate 26 (false, 1000)

instance (P : Static → Prop) [DecidablePred P] : Decidable (∀ static, P static) :=
  decidable_of_iff (P .mcr ∧ P .hostname ∧ P .hostent ∧ P .ntoa) (by
    constructor
    · rintro ⟨hmcr, hhostname, hhostent, hntoa⟩ static
      cases static <;> assumption
    · exact fun h => ⟨h .mcr, h .hostname, h .hostent, h .ntoa⟩)

instance (s : State Bool Statics RequestThread) (t : Bool) : Decidable (Exclusive s t) :=
  inferInstanceAs (Decidable (∀ u : Bool, u ≠ t → ∀ _ : Static, _ → _))

theorem requests_turnByTurn :
    Undisturbed sampleNames sampleReporter ((run (statement sampleNames sampleReporter)
      (startThreads sampleCalls) turnByTurn).threads true) ∧
    Undisturbed sampleNames sampleReporter ((run (statement sampleNames sampleReporter)
      (startThreads sampleCalls) turnByTurn).threads false) := by
  have hthreads := requests_undisturbed sampleNames sampleReporter sampleCalls
    (by decide +kernel : Allowed _ Exclusive _ turnByTurn)
  exact ⟨hthreads true, hthreads false⟩

/-- The second thread clears the record before the first one copies it. -/
def clearedTurns : List (Bool × Int) :=
  List.replicate 11 (true, 1000) ++ List.replicate 2 (false, 1000) ++ [(true, 1000)]

theorem requests_disturbed : ¬∀ (ns : NameService) (reporter : Reporter)
    (calls : Bool → List Call) (schedule : List (Bool × Int)) (t : Bool), Undisturbed ns reporter
      ((run (statement ns reporter) (startThreads calls) schedule).threads t) := by
  intro h
  have hreceived := (h sampleNames sampleReporter sampleCalls clearedTurns true).received
    ⟨0, 0, 0⟩ (by decide +kernel)
  obtain ⟨addr, -, hmcr⟩ := hreceived
  have hfamily : 0 = AF_INET := congrArg SockAddr.family hmcr
  exact absurd hfamily (by decide)

end StatsProxy

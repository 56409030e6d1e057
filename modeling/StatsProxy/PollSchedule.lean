import StatsProxy.HealthDurations

/-! The schedule of a poller. Its endless loop is one cycle after another: in each the
uris have their turns in the configured order, each turn connects if need be, sends the
command of its uri, publishes once at most and notes the time; a cycle is given up only
when six attempts to connect have failed, and the next one starts with the first uri. -/
namespace StatsProxy
open CString Interaction Program Poller

/-- The events a schedule lays down: what is left out are the calls on the connection and
on the clock, and the stores that only the poller reads. -/
def Event.scheduled : Event → Bool
  | .wrlock | .unlock | .setState _ | .sleep _ | .command _ | .removeHead _ | .initStats _ => true
  | .insertTail .. | .setLastpoll .. | .usleep _ => true
  | _ => false

/-- What `pollUri` sends for a uri. -/
def uriCommand (uri : Bytes) : Bytes :=
  if uri = ascii "health" then livenessCmd else statsCmd uri

/-- The entries that take the place of `removed` others. -/
structure Publication where
  removed : Nat
  entries : List StatsEntry

/-- What a uri's turn leaves open: how many attempts to connect fail, what is published, and
the time. -/
structure Turn where
  failed : Nat
  publication : Option Publication
  now : Int

/-- The turns of one cycle, and how long it sleeps unless it is given up. -/
structure Cycle where
  turns : List Turn
  sleep : Option Nat

def attempts (failed : Nat) : List Event :=
  stateSection .connecting ++ List.replicate failed (.sleep connRetryWait)

def exchange (i : Nat) (uri : Bytes) : Option Publication → List Event
  | none => [.command (uriCommand uri)]
  | some p => .command (uriCommand uri) :: update i p.removed p.entries

def Turn.events (i : Nat) (uri : Bytes) (turn : Turn) : List Event :=
  attempts turn.failed ++ stateSection .polling ++ exchange i uri turn.publication ++
    [.setLastpoll i turn.now]

def turnsEvents (uris : List Bytes) (turns : List Turn) : List Event :=
  turns.zipIdx.flatMap fun t => t.1.events t.2 (uris.getD t.2 [])

def Cycle.events (uris : List Bytes) (cycle : Cycle) : List Event :=
  turnsEvents uris cycle.turns ++ match cycle.sleep with
    | some us => [.usleep us]
    | none => attempts 6

/-- A cycle over `n` uris. -/
structure Cycle.Valid (n : Nat) (cycle : Cycle) : Prop where
  connected : ∀ turn ∈ cycle.turns, turn.failed < 6
  complete : ∀ us, cycle.sleep = some us → cycle.turns.length = n
  givenUp : cycle.sleep = none → cycle.turns.length < n

def schedule (uris : List Bytes) (cycles : List Cycle) : List Event :=
  stateSection .halted ++ cycles.flatMap (Cycle.events uris)

/-- The events so far are the front of a schedule. -/
def OnSchedule (uris : List Bytes) (log : List Event) : Prop :=
  ∃ cycles : List Cycle, (∀ cycle ∈ cycles, cycle.Valid uris.length) ∧
    log.filter Event.scheduled <+: schedule uris cycles

/-- How far the turn of the next uri is. -/
inductive Phase where
  | idle
  | connecting (failed : Nat)
  | polling (failed : Nat)
  | asked (failed : Nat) (publication : Option Publication)

def Phase.events (i : Nat) (uri : Bytes) : Phase → List Event
  | .idle => []
  | .connecting failed => attempts failed
  | .polling failed => attempts failed ++ stateSection .polling
  | .asked failed publication =>
    attempts failed ++ stateSection .polling ++ exchange i uri publication

/-- A turn begins only while a uri is left. -/
def Phase.Valid (left : Nat) : Phase → Prop
  | .idle => True
  | .connecting failed | .polling failed | .asked failed _ => 0 < left ∧ failed < 6

/-- The cycles that are over, and the turns of this one that are. -/
structure Progress where
  cycles : List Cycle
  turns : List Turn
  phase : Phase

def Progress.events (uris : List Bytes) (s : Progress) : List Event :=
  schedule uris s.cycles ++ turnsEvents uris s.turns ++
    s.phase.events s.turns.length (uris.getD s.turns.length [])

structure Progress.Valid (n : Nat) (s : Progress) : Prop where
  cycles : ∀ cycle ∈ s.cycles, cycle.Valid n
  connected : ∀ turn ∈ s.turns, turn.failed < 6
  bound : s.turns.length ≤ n
  phase : s.phase.Valid (n - s.turns.length)

structure Scheduled (uris : List Bytes) (s : Progress) (x : World × List Event) : Prop where
  configured : x.1.bep.uris.map UriEntry.uri = uris
  valid : s.Valid uris.length
  events : x.2.filter Event.scheduled = s.events uris

section

variable {uris : List Bytes} {cycles : List Cycle} {turns : List Turn} {failed : Nat}
variable {s : Progress} {x : World × List Event}

theorem schedule_snoc (uris : List Bytes) (cycles : List Cycle) (cycle : Cycle) :
    schedule uris (cycles ++ [cycle]) = schedule uris cycles ++ cycle.events uris := by
  simp [schedule]

/-- The next uri is further on in its turn. -/
theorem Progress.Valid.phase_to {n : Nat} {phase phase' : Phase}
    (h : Progress.Valid n ⟨cycles, turns, phase⟩) (hphase : phase'.Valid (n - turns.length)) :
    Progress.Valid n ⟨cycles, turns, phase'⟩ :=
  ⟨h.cycles, h.connected, h.bound, hphase⟩

theorem turnsEvents_snoc (uris : List Bytes) (turns : List Turn) (turn : Turn) :
    turnsEvents uris (turns ++ [turn]) =
      turnsEvents uris turns ++ turn.events turns.length (uris.getD turns.length []) := by
  simp [turnsEvents, List.zipIdx_append]

/-- Begun turns can be completed to a cycle. -/
theorem onSchedule_of_turns {log : List Event}
    (hcycles : ∀ cycle ∈ cycles, cycle.Valid uris.length) (hturns : ∀ turn ∈ turns, turn.failed < 6)
    (hbound : turns.length ≤ uris.length)
    (hlog : log.filter Event.scheduled <+: schedule uris cycles ++ turnsEvents uris turns) :
    OnSchedule uris log := by
  obtain ⟨cycle, hvalid, hevents⟩ : ∃ cycle : Cycle, cycle.Valid uris.length ∧
      turnsEvents uris turns <+: cycle.events uris := by
    rcases Nat.lt_or_eq_of_le hbound with hlt | heq
    · exact ⟨⟨turns, none⟩, ⟨hturns, nofun, fun _ => hlt⟩, List.prefix_append _ _⟩
    · exact ⟨⟨turns, some 0⟩, ⟨hturns, fun _ _ => heq, nofun⟩, List.prefix_append _ _⟩
  refine ⟨cycles ++ [cycle], ?_, ?_⟩
  · exact List.forall_mem_append.mpr ⟨hcycles, List.forall_mem_singleton.mpr hvalid⟩
  · rw [schedule_snoc]
    exact hlog.trans ((List.prefix_append_right_inj _).mpr hevents)

theorem Scheduled.onSchedule (h : Scheduled uris s x) : OnSchedule uris x.2 := by
  obtain ⟨cycles, turns, phase⟩ := s
  obtain ⟨hcycles, hturns, hbound, hphase⟩ := h.valid
  have hevents := h.events
  have begun : ∀ turn : Turn, turn.failed < 6 → 0 < uris.length - turns.length →
      phase.events turns.length (uris.getD turns.length []) <+:
        turn.events turns.length (uris.getD turns.length []) → OnSchedule uris x.2 := by
    intro turn hturn hleft hpart
    have hmore : ∀ t ∈ turns ++ [turn], t.failed < 6 :=
      List.forall_mem_append.mpr ⟨hturns, List.forall_mem_singleton.mpr hturn⟩
    apply onSchedule_of_turns hcycles hmore
    · rw [List.length_append, List.length_singleton]
      omega
    · rw [hevents, Progress.events, turnsEvents_snoc, ← List.append_assoc]
      exact (List.prefix_append_right_inj _).mpr hpart
  cases phase with
  | idle =>
    apply onSchedule_of_turns hcycles hturns hbound
    rw [hevents, Progress.events]
    rw [Phase.events, List.append_nil]
  | connecting failed =>
    apply begun ⟨failed, none, 0⟩ hphase.2 hphase.1
    unfold Turn.events Phase.events
    simp only [List.append_assoc]
    exact List.prefix_append _ _
  | polling failed =>
    apply begun ⟨failed, none, 0⟩ hphase.2 hphase.1
    unfold Turn.events Phase.events
    rw [List.append_assoc]
    exact List.prefix_append _ _
  | asked failed publication =>
    apply begun ⟨failed, publication, 0⟩ hphase.2 hphase.1
    exact List.prefix_append _ _

theorem Scheduled.append (h : Scheduled uris s x) (s' : Progress) (hvalid : s'.Valid uris.length)
    (more : List Event) (hevents : s'.events uris = s.events uris ++ more.filter Event.scheduled) :
    Scheduled uris s' (run x more) where
  configured := by
    rw [run_prod, run_uris]
    exact h.configured
  valid := hvalid
  events := by rw [run_prod, run_log, List.filter_append, h.events, hevents]

theorem Scheduled.keeps (h : Scheduled uris s x) {e : Event} (he : e.scheduled = false) :
    Scheduled uris s (Machine.after x e) := by
  apply h.append s h.valid [e]
  rw [List.filter_singleton, he]
  exact (List.append_nil _).symm

/-- What a part of the poller does to a run that is on schedule. -/
abbrev Schedules (uris : List Bytes) (m : Poller α) (Q : α → World × List Event → Prop)
    (x : World × List Event) : Prop :=
  wlp (fun _ _ => True) (fun y => OnSchedule uris y.2) m Q x

theorem schedules_within {p : Event → Prop} {m : Poller α} (hm : Within p m)
    (hp : ∀ e, p e → e.scheduled = false) (h : Scheduled uris s x) :
    Schedules uris m (fun _ y => Scheduled uris s y) x :=
  wlp_within hm (fun _ _ hy he => hy.keeps (hp _ he)) (fun _ hy => hy.onSchedule) h

theorem unscheduled_of_atLabel (e : Event) (h : e.atLabel = true) : e.scheduled = false := by
  cases e <;> first | rfl | contradiction

theorem unscheduled_of_ofRead (e : Event) (h : e.ofRead = true) : e.scheduled = false := by
  cases e <;> first | rfl | contradiction

theorem unscheduled_of_ofWrite (e : Event) (h : e.ofWrite = true ∧ e.notCommand = true) :
    e.scheduled = false := by
  obtain ⟨hwrite, hcommand⟩ := h
  cases e <;> first | rfl | contradiction

theorem setState_schedules (state : BackendState) (h : Scheduled uris s x) (s' : Progress)
    (hvalid : s'.Valid uris.length)
    (hevents : s'.events uris = s.events uris ++ stateSection state) :
    Schedules uris (setState state) (fun _ y => Scheduled uris s' y) x := by
  unfold setState
  apply wlp_bind
  apply wlp_emit
  intro _
  apply wlp_bind
  apply wlp_emit
  intro _
  apply wlp_emit
  intro _
  exact h.append s' hvalid (stateSection state) hevents

/-- A code other than 0 leaves the backend disconnected. -/
def Attempted (uris : List Bytes) (s : Progress) (err : Nat) (y : World × List Event) : Prop :=
  Scheduled uris s y ∧ (err = 0 ∨ y.1.bep.fd = -1)

theorem bail_schedules (h : Scheduled uris s x) (hfd : -1 ≤ x.1.bep.fd) (err : Nat) :
    Schedules uris (bail err) (Attempted uris s) x := by
  unfold bail spMemcacheDisconnect
  apply wlp_bind
  apply wlp_bind
  apply wlp_backend
  split
  · apply wlp_bind
    apply wlp_bind
    apply wlp_assert h.onSchedule
    intro _
    apply wlp_emit
    intro _
    apply wlp_emit
    intro _
    apply wlp_bind
    apply wlp_emit
    intro _
    have hclosed := ((h.keeps (e := .close x.1.bep.fd) rfl).keeps (e := .setFd (-1)) rfl)
    exact wlp_pure ⟨hclosed.keeps (e := .setLastError err) rfl, Or.inr rfl⟩
  · apply wlp_pure
    apply wlp_bind
    apply wlp_emit
    intro _
    refine wlp_pure ⟨h.keeps (e := .setLastError err) rfl, Or.inr ?_⟩
    show x.1.bep.fd = -1
    omega

theorem checkConnected_schedules (h : Scheduled uris s x) (hfd : -1 ≤ x.1.bep.fd) :
    Schedules uris checkConnected (Attempted uris s) x := by
  apply wlp_bind
  apply wlp_call h.onSchedule
  intro r
  have hcall := h.keeps (e := .getsockopt r) rfl
  cases r with
  | error e => exact bail_schedules hcall hfd _
  | ok res =>
    dsimp only
    split
    · exact bail_schedules hcall hfd _
    · exact wlp_pure ⟨hcall, Or.inl rfl⟩

/-- With a new descriptor, if there is one. -/
theorem socket_schedules (h : Scheduled uris s x) :
    Schedules uris socket (fun fd y => Scheduled uris s y ∧ -1 ≤ fd) x := by
  apply wlp_bind
  apply wlp_ask h.onSchedule
  intro a
  apply wlp_bind
  apply wlp_emit
  intro _
  have hcall := h.keeps (e := .socket a.socket) rfl
  cases hr : a.socket with
  | ok fd => exact wlp_pure ⟨hr ▸ hcall, by omega⟩
  | error e => exact wlp_pure ⟨hr ▸ hcall, le_refl _⟩

theorem spMemcacheConnect_schedules (h : Scheduled uris s x) :
    Schedules uris spMemcacheConnect (Attempted uris s) x := by
  apply wlp_bind
  apply wlp_assert h.onSchedule
  intro _
  apply wlp_bind
  apply wlp_post (socket_schedules h)
  rintro fd y ⟨hy, hge⟩
  apply wlp_bind
  apply wlp_emit
  intro _
  have hfd := hy.keeps (e := .setFd fd) rfl
  split
  · exact bail_schedules hfd hge 0
  · apply wlp_bind
    apply wlp_call hfd.onSchedule
    intro r
    have hfcntl := hfd.keeps (e := .fcntl r) rfl
    cases r with
    | error e => exact bail_schedules hfcntl hge 0
    | ok _ =>
      apply wlp_bind
      apply wlp_call hfcntl.onSchedule
      intro r
      have hconnect := hfcntl.keeps (e := .connect r) rfl
      cases r with
      | ok _ => exact checkConnected_schedules hconnect hge
      | error e =>
        dsimp only
        split
        · exact bail_schedules hconnect hge _
        · apply wlp_bind
          apply wlp_call hconnect.onSchedule
          intro r
          have hpoll := hconnect.keeps (e := .poll r) rfl
          cases r with
          | ready => exact checkConnected_schedules hpoll hge
          | failed e' => exact bail_schedules hpoll hge _
          | timeout => exact bail_schedules hpoll hge _

theorem connectRetry_connected (hfd : 0 ≤ x.1.bep.fd) (tries : Nat) (h : Scheduled uris s x) :
    Schedules uris (connectRetry tries 0) (fun err y => err = 0 ∧ Scheduled uris s y) x := by
  induction tries with
  | zero => exact wlp_pure ⟨rfl, h⟩
  | succ tries ih =>
    rw [connectRetry]
    apply wlp_bind
    apply wlp_backend
    rw [spMemcacheIsConnected, if_pos (decide_eq_true hfd)]
    exact ih

/-- Where connecting for the next uri ends: in its turn, or at the start of a new cycle. -/
def Connected (uris : List Bytes) (cycles : List Cycle) (turns : List Turn) (err : Nat)
    (y : World × List Event) : Prop :=
  if err = 0 then ∃ failed, Scheduled uris ⟨cycles, turns, .connecting failed⟩ y
  else Scheduled uris ⟨cycles ++ [⟨turns, none⟩], [], .idle⟩ y

theorem attempts_succ (failed : Nat) :
    attempts (failed + 1) = attempts failed ++ [.sleep connRetryWait] := by
  rw [attempts, List.replicate_succ', ← List.append_assoc]
  rfl

/-- One more attempt has failed. -/
theorem Scheduled.retry (h : Scheduled uris ⟨cycles, turns, .connecting failed⟩ x)
    (hfailed : failed + 1 < 6) : Scheduled uris ⟨cycles, turns, .connecting (failed + 1)⟩
      (Machine.after x (.sleep connRetryWait)) := by
  refine h.append ⟨cycles, turns, .connecting (failed + 1)⟩
    (h.valid.phase_to ⟨h.valid.phase.1, hfailed⟩) [.sleep connRetryWait] ?_
  rw [Progress.events, Phase.events, attempts_succ, ← List.append_assoc]
  rfl

/-- The last attempt has failed. -/
theorem Scheduled.giveUp (h : Scheduled uris ⟨cycles, turns, .connecting 5⟩ x) :
    Scheduled uris ⟨cycles ++ [⟨turns, none⟩], [], .idle⟩
      (Machine.after x (.sleep connRetryWait)) := by
  obtain ⟨hcycles, hturns, hbound, hleft, -⟩ := h.valid
  have hcycle : Cycle.Valid uris.length ⟨turns, none⟩ :=
    ⟨hturns, nofun, fun _ => Nat.lt_of_sub_pos hleft⟩
  refine h.append ⟨cycles ++ [⟨turns, none⟩], [], .idle⟩ ⟨?_, nofun, Nat.zero_le _, trivial⟩
    [.sleep connRetryWait] ?_
  · exact List.forall_mem_append.mpr ⟨hcycles, List.forall_mem_singleton.mpr hcycle⟩
  · rw [Progress.events, Progress.events, schedule_snoc, Cycle.events, Phase.events, Phase.events]
    dsimp only
    rw [attempts_succ 5]
    simp only [turnsEvents, List.zipIdx_nil, List.flatMap_nil, List.append_nil, List.append_assoc]
    rfl

/-- The attempts that are left, for a backend that is not connected. -/
theorem connectRetry_schedules (tries err : Nat) (hfd : x.1.bep.fd < 0)
    (hfailed : failed + (tries + 1) = 6)
    (h : Scheduled uris ⟨cycles, turns, .connecting failed⟩ x) :
    Schedules uris (connectRetry (tries + 1) err) (Connected uris cycles turns) x := by
  induction tries generalizing failed err x with
  | zero =>
    obtain rfl : failed = 5 := by omega
    rw [connectRetry]
    apply wlp_bind
    apply wlp_backend
    rw [spMemcacheIsConnected, if_neg (by simpa using hfd)]
    apply wlp_bind
    apply wlp_post (spMemcacheConnect_schedules h)
    rintro err y ⟨hy, -⟩
    split
    · rename_i herr
      apply wlp_pure
      rw [Connected, if_pos herr]
      exact ⟨5, hy⟩
    · rename_i herr
      apply wlp_bind
      apply wlp_emit
      intro _
      apply wlp_pure
      rw [Connected, if_neg herr]
      exact hy.giveUp
  | succ tries ih =>
    rw [connectRetry]
    apply wlp_bind
    apply wlp_backend
    rw [spMemcacheIsConnected, if_neg (by simpa using hfd)]
    apply wlp_bind
    apply wlp_post (spMemcacheConnect_schedules h)
    rintro err y ⟨hy, hfail⟩
    split
    · rename_i herr
      apply wlp_pure
      rw [Connected, if_pos herr]
      exact ⟨failed, hy⟩
    · rename_i herr
      apply wlp_bind
      apply wlp_emit
      intro _
      have hclosed := hfail.resolve_left herr
      have hfd' : (Machine.after y (.sleep connRetryWait)).1.bep.fd < 0 := by
        show y.1.bep.fd < 0
        omega
      exact ih err hfd' (by omega) (hy.retry (by omega))

theorem checkAndConnect_schedules (hleft : turns.length < uris.length)
    (h : Scheduled uris ⟨cycles, turns, .idle⟩ x) :
    Schedules uris checkAndConnect (Connected uris cycles turns) x := by
  apply wlp_bind
  apply wlp_post (setState_schedules .connecting h ⟨cycles, turns, .connecting 0⟩
    (h.valid.phase_to ⟨Nat.sub_pos_of_lt hleft, by decide⟩) _)
  · intro _ y hy
    by_cases hfd : 0 ≤ y.1.bep.fd
    · apply wlp_post (connectRetry_connected hfd 6 hy)
      rintro err z ⟨rfl, hz⟩
      rw [Connected, if_pos rfl]
      exact ⟨0, hz⟩
    · exact connectRetry_schedules 5 0 (by omega) rfl hy
  · rw [Progress.events, Progress.events, Phase.events, Phase.events, List.append_nil, attempts,
      List.replicate_zero, List.append_nil]

/-- In the turn of the next uri, with its command sent. -/
def Asked (uris : List Bytes) (cycles : List Cycle) (turns : List Turn) (failed : Nat)
    (y : World × List Event) : Prop :=
  ∃ publication, Scheduled uris ⟨cycles, turns, .asked failed publication⟩ y

theorem command_schedules {uri : Bytes} (huri : uris[turns.length]? = some uri)
    (h : Scheduled uris ⟨cycles, turns, .polling failed⟩ x) :
    Schedules uris (spMemcacheWrite (uriCommand uri))
      (fun _ y => Scheduled uris ⟨cycles, turns, .asked failed none⟩ y) x := by
  apply wlp_bind
  apply wlp_emit
  intro _
  apply schedules_within (within_writeCommand _) unscheduled_of_ofWrite
  refine h.append ⟨cycles, turns, .asked failed none⟩ (h.valid.phase_to h.valid.phase)
    [.command (uriCommand uri)] ?_
  rw [Progress.events, Progress.events, Phase.events, Phase.events, exchange, List.getD, huri,
    ← List.append_assoc]
  rfl

theorem publish_schedules (entries : List StatsEntry)
    (h : Scheduled uris ⟨cycles, turns, .asked failed none⟩ x) :
    Schedules uris (publish turns.length entries)
      (fun _ y => Asked uris cycles turns failed y) x := by
  apply wlp_of_wp
  apply wp_publish
  let n := (x.1.bep.stats turns.length).length
  have hall : (update turns.length n entries).filter Event.scheduled =
      update turns.length n entries := by
    rw [List.filter_eq_self]
    intro e he
    obtain rfl | rfl | rfl | ⟨entry, rfl⟩ | rfl := mem_update he <;> rfl
  refine ⟨some ⟨n, entries⟩, h.append ⟨cycles, turns, .asked failed (some ⟨n, entries⟩)⟩
    (h.valid.phase_to h.valid.phase) _ ?_⟩
  rw [hall, Progress.events, Progress.events, Phase.events, Phase.events]
  simp [exchange]

theorem statReply_schedules (err : Nat)
    (h : Scheduled uris ⟨cycles, turns, .asked failed none⟩ x) :
    Schedules uris (statReply turns.length err)
      (fun _ y => Asked uris cycles turns failed y) x := by
  unfold statReply
  split
  · apply wlp_bind
    apply wlp_post (schedules_within within_spMemcacheReadReplies unscheduled_of_ofRead h)
    intro r y hy
    exact publish_schedules r.2 hy
  · exact wlp_pure ⟨none, h⟩

theorem healthReply_schedules (pollDelta : Nat) (polltimeBuf : Bytes) (sk : SocketState)
    (start : Int) (err : Nat) (h : Scheduled uris ⟨cycles, turns, .asked failed none⟩ x) :
    Schedules uris (healthReply turns.length pollDelta polltimeBuf sk start err)
      (fun _ y => Asked uris cycles turns failed y) x := by
  unfold healthReply
  split
  · exact publish_schedules _ h
  · apply wlp_bind
    apply wlp_post (schedules_within (within_spMemcacheRead _ _ _) unscheduled_of_ofRead h)
    intro r y hy
    apply wlp_bind
    apply wlp_call hy.onSchedule
    intro stop
    have hstop := hy.keeps (e := .gettimeofday stop) rfl
    split
    · exact publish_schedules _ hstop
    · split
      · exact publish_schedules _ hstop
      · exact publish_schedules _ hstop

theorem getHealth_schedules (huri : uris[turns.length]? = some (ascii "health"))
    (h : Scheduled uris ⟨cycles, turns, .polling failed⟩ x) :
    Schedules uris (getHealth turns.length) (fun _ y => Asked uris cycles turns failed y) x := by
  rw [getHealth_eq]
  apply wlp_bind
  apply wlp_backend
  apply wlp_bind
  apply wlp_post (schedules_within (within_sessionInfo (p := (·.ofRead = true)) (fun _ => rfl) _)
    unscheduled_of_ofRead h)
  intro sk y hy
  apply wlp_bind
  apply wlp_call hy.onSchedule
  intro now
  have hnow := hy.keeps (e := .time now) rfl
  apply wlp_bind
  apply wlp_bind
  apply wlp_ask hnow.onSchedule
  intro a
  apply wlp_pure
  apply wlp_bind
  apply wlp_call hnow.onSchedule
  intro start
  have hstart := hnow.keeps (e := .gettimeofday start) rfl
  apply wlp_bind
  have hcommand := command_schedules huri hstart
  rw [uriCommand, if_pos rfl] at hcommand
  apply wlp_post hcommand
  intro err z hz
  exact healthReply_schedules _ _ sk start err hz

theorem pollUri_schedules {uri : Bytes} (huri : uris[turns.length]? = some uri)
    (h : Scheduled uris ⟨cycles, turns, .polling failed⟩ x) :
    Schedules uris (pollUri turns.length uri) (fun _ y => Asked uris cycles turns failed y) x := by
  unfold pollUri
  split
  · rename_i hhealth
    exact getHealth_schedules (hhealth ▸ huri) h
  · rename_i hne
    rw [getStat_eq]
    apply wlp_bind
    have hcommand := command_schedules huri h
    rw [uriCommand, if_neg hne] at hcommand
    apply wlp_post hcommand
    intro err y hy
    exact statReply_schedules err hy

/-- The turn of a uri is over when its time is noted. -/
theorem Asked.over (h : Asked uris cycles turns failed x) (now : Int) :
    ∃ turn, Scheduled uris ⟨cycles, turns ++ [turn], .idle⟩
      (Machine.after x (.setLastpoll turns.length now)) := by
  obtain ⟨publication, h⟩ := h
  obtain ⟨hcycles, hturns, hbound, hleft, hfailed⟩ := h.valid
  refine ⟨⟨failed, publication, now⟩, h.append ⟨cycles, turns ++ [_], .idle⟩
    ⟨hcycles, ?_, ?_, trivial⟩ [.setLastpoll turns.length now] ?_⟩
  · exact List.forall_mem_append.mpr ⟨hturns, List.forall_mem_singleton.mpr hfailed⟩
  · rw [List.length_append, List.length_singleton]
    exact Nat.lt_of_sub_pos hleft
  · rw [Progress.events, Progress.events, Phase.events, Phase.events, turnsEvents_snoc, Turn.events]
    simp only [List.append_nil, List.append_assoc]
    rfl

/-- The uris that are left have their turns, unless the cycle is given up. -/
theorem pollUris_schedules (us : List (Bytes × Nat)) (hus : us = uris.zipIdx.drop turns.length)
    (h : Scheduled uris ⟨cycles, turns, .idle⟩ x) :
    Schedules uris (pollUris us) (fun completed y => ∃ cycles turns,
      Scheduled uris ⟨cycles, turns, .idle⟩ y ∧
        if completed then turns.length = uris.length else turns = []) x := by
  induction us generalizing turns x with
  | nil =>
    apply wlp_pure
    refine ⟨cycles, turns, h, ?_⟩
    have hge := List.drop_eq_nil_iff.mp hus.symm
    rw [List.length_zipIdx] at hge
    exact Nat.le_antisymm h.valid.bound hge
  | cons u rest ih =>
    have hlt : turns.length < uris.zipIdx.length := by
      by_contra hge
      rw [List.drop_eq_nil_of_le (Nat.le_of_not_lt hge)] at hus
      contradiction
    rw [List.drop_eq_getElem_cons hlt, List.getElem_zipIdx, Nat.zero_add] at hus
    rw [List.length_zipIdx] at hlt
    obtain ⟨rfl, hrest⟩ := List.cons.inj hus
    rw [pollUris]
    apply wlp_bind
    apply wlp_post (checkAndConnect_schedules hlt h)
    intro err y hy
    unfold Connected at hy
    split
    · rename_i herr
      rw [if_neg herr] at hy
      exact wlp_pure ⟨_, [], hy, rfl⟩
    · rename_i herr
      rw [if_pos (not_not.mp herr)] at hy
      obtain ⟨failed, hy⟩ := hy
      apply wlp_bind
      apply wlp_post (setState_schedules .polling hy ⟨cycles, turns, .polling failed⟩
        (hy.valid.phase_to hy.valid.phase)
        (by simp only [Progress.events, Phase.events, List.append_assoc]))
      intro _ z hz
      apply wlp_bind
      apply wlp_post (pollUri_schedules (List.getElem?_eq_getElem hlt) hz)
      rintro _ v ⟨publication, hv⟩
      apply wlp_bind
      apply wlp_call hv.onSchedule
      intro now
      apply wlp_bind
      apply wlp_emit
      intro _
      obtain ⟨turn, hturn⟩ := Asked.over ⟨publication, hv.keeps (e := .time now) rfl⟩ now
      apply ih _ hturn
      rw [hrest, List.length_append, List.length_singleton]

/-- A cycle is complete when its sleep begins. -/
theorem Scheduled.slept (h : Scheduled uris ⟨cycles, turns, .idle⟩ x)
    (hcomplete : turns.length = uris.length) (us : Nat) :
    Scheduled uris ⟨cycles ++ [⟨turns, some us⟩], [], .idle⟩ (Machine.after x (.usleep us)) := by
  have hcycle : Cycle.Valid uris.length ⟨turns, some us⟩ :=
    ⟨h.valid.connected, fun _ _ => hcomplete, nofun⟩
  refine h.append ⟨cycles ++ [⟨turns, some us⟩], [], .idle⟩
    ⟨?_, nofun, Nat.zero_le _, trivial⟩ [.usleep us] ?_
  · exact List.forall_mem_append.mpr ⟨h.valid.cycles, List.forall_mem_singleton.mpr hcycle⟩
  · rw [Progress.events, Progress.events, schedule_snoc, Cycle.events]
    simp only [Phase.events, turnsEvents, List.zipIdx_nil, List.flatMap_nil, List.append_nil,
      List.append_assoc]
    rfl

theorem pollCycle_schedules (h : Scheduled uris ⟨cycles, [], .idle⟩ x) :
    Schedules uris (pollCycle ())
      (fun _ y => ∃ cycles, Scheduled uris ⟨cycles, [], .idle⟩ y) x := by
  apply wlp_bind
  apply wlp_call h.onSchedule
  intro start
  have hstart := h.keeps (e := .gettimeofday start) rfl
  apply wlp_bind
  apply wlp_backend
  apply wlp_bind
  apply wlp_post (pollUris_schedules _ _ hstart)
  · rintro completed y ⟨cycles, turns, hy, hcompleted⟩
    split
    · rename_i hdone
      rw [if_pos hdone] at hcompleted
      apply wlp_bind
      apply wlp_post (schedules_within (within_disconnect fun _ he => he)
        unscheduled_of_atLabel hy)
      intro _ z hz
      apply wlp_bind
      apply wlp_call hz.onSchedule
      intro stop
      apply wlp_bind
      apply wlp_emit
      intro _
      apply wlp_pure
      have hstop := hz.keeps (e := .gettimeofday stop) rfl
      exact ⟨_, hstop.slept hcompleted _⟩
    · rename_i hdone
      rw [if_neg hdone] at hcompleted
      exact wlp_pure ⟨cycles, hcompleted ▸ hy⟩
  · rw [hstart.configured]
    rfl

end

/-- Whatever the connection does, all a poller does that others can see is the front of a
schedule. -/
theorem runBackend_onSchedule (settings : LocalSettings) (uris : List Bytes)
    (inputs : List Answer) :
    OnSchedule uris (runBackend.exec (World.initial settings uris) inputs).trace := by
  have hidle : Scheduled uris ⟨[], [], .idle⟩
      (run (World.initial settings uris, []) (stateSection .halted)) := by
    refine ⟨?_, ⟨List.forall_mem_nil _, List.forall_mem_nil _, Nat.zero_le _, trivial⟩, ?_⟩
    · simp [World.initial, run_prod, run_uris, Function.comp_def]
    · rw [run_prod, run_log]
      rfl
  have hrun : Schedules uris runBackend (fun _ y => OnSchedule uris y.2)
      (World.initial settings uris, []) := by
    apply wlp_bind
    apply wlp_bind
    apply wlp_emit
    intro _
    apply wlp_bind
    apply wlp_emit
    intro _
    apply wlp_emit
    intro _
    apply wlp_loop (fun _ y => ∃ cycles, Scheduled uris ⟨cycles, [], .idle⟩ y)
      (fun _ _ hy => hy.elim fun _ h => h.onSchedule) _ _ ⟨[], hidle⟩
    rintro _ y ⟨cycles, hy⟩
    apply wlp_post (pollCycle_schedules hy)
    intro r z hz
    cases r with
    | inl next => exact hz
    | inr a => exact a.elim
  have hend := run_of_wlp hrun (fun _ _ hy => hy) (allowed_true _ (runBackend.exec _ inputs).trace)
  rwa [run_prod, run_log, List.nil_append] at hend

end StatsProxy

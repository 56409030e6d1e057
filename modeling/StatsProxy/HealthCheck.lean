import StatsProxy.CallEvents

/-! The health check. The liveness it publishes tells whether the eight bytes of the
expected reply were delivered in time; only these eight bytes are read of a reply. -/
namespace StatsProxy
open CString Interaction Program Poller

/-- What `getHealth` knows when it sends its command. -/
structure HealthStart where
  sk : SocketState
  pollDelta : Nat
  polltimeBuf : Bytes
  start : Int
deriving DecidableEq

/-- `getHealth` up to its call of `spMemcacheWrite`. -/
def askHealth (i : Nat) : Poller HealthStart := do
  let bep ← backend
  let sk ← sessionInfo bep.settings.readMs
  let now ← time
  let polltimeBuf ← ctime
  let pollDelta := if 0 < bep.lastpoll i then toUInt64 (now - bep.lastpoll i) else 0
  let start ← gettimeofday
  return ⟨sk, pollDelta, polltimeBuf, start⟩

/-- The four entries of a health uri. -/
def healthEntries (pollDelta : Nat) (polltimeBuf : Bytes) (livenessVal : Nat)
    (livenessDelta : Int) : List StatsEntry :=
  [⟨ascii "statsAge", .uint64 pollDelta⟩, ⟨ascii "lastpoll", .alpha polltimeBuf⟩,
    ⟨ascii "liveness", .uint64 livenessVal⟩,
    ⟨ascii "respTimeMs", .uint64 (toUInt64 livenessDelta)⟩]

/-- The eight bytes were delivered before the stream ended and before the read broke off. -/
def Delivered (sk : SocketState) (log : List Event) : Prop :=
  ∃ front, front <+: log ∧ received front = livenessOk ∧ ¬HitEof front ∧ Unbroken sk front

/-- What `getHealth` compares. -/
def livenessOf (r : ReadLoop) : Nat := if r.err = 0 ∧ cString r.data = livenessOk then 1 else 0

theorem getHealth_split (i : Nat) :
    getHealth i = askHealth i >>= fun p => spMemcacheWrite livenessCmd >>=
      healthReply i p.pollDelta p.polltimeBuf p.sk p.start := by
  rw [getHealth_eq]
  unfold askHealth
  simp only [bind_bind, bind_pure_left]

theorem publishHealth_eq (i pollDelta : Nat) (polltimeBuf : Bytes) (livenessVal : Nat)
    (livenessDelta : Int) : publishHealth i pollDelta polltimeBuf livenessVal livenessDelta =
      publish i (healthEntries pollDelta polltimeBuf livenessVal livenessDelta) := rfl

section

variable {w : World} {i pollDelta : Nat} {polltimeBuf : Bytes} {sk : SocketState} {start : Int}
  {inputs rest : List Answer} {trace : List Event}

theorem silent_gettimeofday (now : Int) : (Event.gettimeofday now).Silent := by
  constructor <;> simp [Event.IsRead, Event.IsWrite]

theorem silent_time (now : Int) : (Event.time now).Silent := by
  constructor <;> simp [Event.IsRead, Event.IsWrite]

/-- Before its command `getHealth` only asks for the time. -/
theorem within_askHealth {p : Event → Prop} (hclock : ∀ now, p (.gettimeofday now))
    (htime : ∀ now, p (.time now)) (i : Nat) : Within p (askHealth i) := by
  unfold askHealth
  apply within_bind
  · exact within_backend
  · intro bep
    apply within_bind
    · exact within_sessionInfo hclock _
    · intro sk
      apply within_bind
      · exact within_call htime
      · intro now
        apply within_bind
        · exact within_bind within_ask fun _ => within_pure _
        · intro polltimeBuf
          apply within_bind
          · exact within_call hclock
          · exact fun _ => within_pure _

/-- The tail of `getHealth` after a command that was sent. -/
theorem healthReply_sent (h : (healthReply i pollDelta polltimeBuf sk start 0).exec w inputs =
      .done () trace rest) :
    ∃ r reads left stop, (spMemcacheRead livenessOk.length sk false).exec w inputs =
        .done r reads left ∧
      trace = reads ++ .gettimeofday stop :: update i ((run w reads).bep.stats i).length
        (healthEntries pollDelta polltimeBuf (livenessOf r) (max 0 (toInt64 (stop - start)))) := by
  unfold healthReply at h
  rw [if_neg (not_not_intro rfl)] at h
  obtain ⟨r, reads, left, last, hread, hrest, rfl⟩ := bind_done h
  obtain ⟨stop, clock, left', last', hstop, hend, rfl⟩ := bind_done hrest
  cases call_done hstop
  refine ⟨r, reads, left, stop, hread, ?_⟩
  have hpublish : (publish i (healthEntries pollDelta polltimeBuf (livenessOf r)
      (max 0 (toInt64 (stop - start))))).exec (run (run w reads) [.gettimeofday stop]) left' =
        .done () last' rest := by
    unfold livenessOf
    split at hend
    · rename_i herr
      rw [if_neg fun hlive => herr hlive.1]
      exact hend
    · rename_i herr
      split at hend
      · rename_i hdata
        rw [if_neg fun hlive => hdata hlive.2]
        exact hend
      · rename_i hdata
        rw [if_pos ⟨not_not.mp herr, not_not.mp hdata⟩]
        exact hend
  rw [publish_done hpublish]
  rfl

/-- The tail of `getHealth` after a command that was not sent. -/
theorem healthReply_unsent {err : Nat} (herr : err ≠ 0)
    (h : (healthReply i pollDelta polltimeBuf sk start err).exec w inputs = .done () trace rest) :
    trace = update i (w.bep.stats i).length (healthEntries pollDelta polltimeBuf 0 0) := by
  unfold healthReply at h
  rw [if_pos herr, publishHealth_eq] at h
  exact publish_done h

/-- The comparison succeeds exactly when the eight bytes were delivered. -/
theorem livenessOf_iff {r : ReadLoop} {fd : Int} {w' : World} {log : List Event}
    (h : ReadEnd livenessOk.length sk fd r w' log) : livenessOf r = 1 ↔ Delivered sk log := by
  have hone : livenessOf r = 1 ↔ r.err = 0 ∧ cString r.data = livenessOk := by
    unfold livenessOf
    split <;> simp_all
  have hlive : hasEnd livenessOk = false ∧ hasError livenessOk = false := by
    decide
  rw [hone]
  constructor
  · rintro ⟨herr, hstring⟩
    have hdata : r.data = livenessOk := by
      have hleading := List.takeWhile_prefix (· ≠ 0) (l := r.data)
      rw [← cString, hstring] at hleading
      exact (hleading.eq_of_length_le h.length).symm
    have hfull : r.data.length = livenessOk.length := congrArg List.length hdata
    cases h.outcome with
    | full _ _ _ _ hhit hunbroken =>
      exact ⟨log, List.prefix_refl _, h.data.symm.trans hdata, hhit, hunbroken⟩
    | ended _ _ hmarker =>
      rw [hdata, hlive.1] at hmarker
      contradiction
    | eof _ _ hroom => omega
    | cancelled herr' => exact absurd (herr'.symm.trans herr) (by decide)
    | broken herr' => exact absurd herr herr'
  · rintro ⟨front, ⟨back, rfl⟩, hfront, -, -⟩
    have hdata : r.data = livenessOk := by
      have hsplit := h.data
      rw [received_append, hfront] at hsplit
      have hlength := h.length
      rw [hsplit, List.length_append] at hlength
      have hback : received back = [] := List.eq_nil_of_length_eq_zero (by omega)
      rw [hsplit, hback, List.append_nil]
    have hfull : r.data.length = livenessOk.length := congrArg List.length hdata
    have hstring : cString r.data = livenessOk := by
      rw [hdata]
      decide
    refine ⟨?_, hstring⟩
    cases h.outcome with
    | full herr => exact herr
    | ended herr => exact herr
    | eof herr => exact herr
    | cancelled _ _ hmarker =>
      rw [hdata, hlive.2] at hmarker
      contradiction
    | broken _ _ hroom => omega

/-- A run of `getHealth` by its calls. -/
theorem getHealth_calls (h : (getHealth i).exec w inputs = .done () trace rest) :
    ∃ p front given err wrote left back,
      (askHealth i).exec w inputs = .done p front given ∧
      (spMemcacheWrite livenessCmd).exec (run w front) given = .done err wrote left ∧
      (healthReply i p.pollDelta p.polltimeBuf p.sk p.start err).exec (run (run w front) wrote)
        left = .done () back rest ∧
      trace = front ++ (wrote ++ back) := by
  rw [getHealth_split] at h
  obtain ⟨p, front, given, last, hask, hrest, rfl⟩ := bind_done h
  obtain ⟨err, wrote, left, back, hwrite, hreply, rfl⟩ := bind_done hrest
  exact ⟨p, front, given, err, wrote, left, back, hask, hwrite, hreply, rfl⟩

end

/-- In every run the list of the uri becomes the four entries. If the command was sent
the liveness is 1 exactly when the eight bytes were delivered, and else 0. -/
theorem getHealth_liveness (w : World) (i : Nat) (inputs given left rest : List Answer)
    (trace front wrote : List Event) (p : HealthStart) (err : Nat)
    (hi : i < w.bep.uris.length) (hfd : -1 ≤ w.bep.fd)
    (h : (getHealth i).exec w inputs = .done () trace rest)
    (hask : (askHealth i).exec w inputs = .done p front given)
    (hwrite : (spMemcacheWrite livenessCmd).exec (run w front) given = .done err wrote left) :
    ∃ livenessVal livenessDelta,
      (run w trace).bep.stats i =
        healthEntries p.pollDelta p.polltimeBuf livenessVal livenessDelta ∧
      (err = 0 → ∃ r reads after, (spMemcacheRead livenessOk.length p.sk false).exec
          (run w (front ++ wrote)) left = .done r reads after ∧
        (livenessVal = 1 ↔ Delivered p.sk reads) ∧
        (livenessVal = 0 ↔ ¬Delivered p.sk reads)) := by
  obtain ⟨p', front', given', err', wrote', left', back, hask', hwrite', hreply, rfl⟩ :=
    getHealth_calls h
  cases hask'.symm.trans hask
  cases hwrite'.symm.trans hwrite
  have hlen : ∀ log, i < (run w log).bep.uris.length := fun log => (run_length w log).symm ▸ hi
  by_cases herr : err = 0
  · subst herr
    obtain ⟨r, reads, after, stop, hread, rfl⟩ := healthReply_sent hreply
    have hopen : -1 ≤ (run (run w front) wrote).bep.fd := by
      have hsilent := within_done (within_askHealth silent_gettimeofday silent_time i) hask
      have hfront : (run w front).bep.fd = w.bep.fd :=
        run_fd w fun e he => (hsilent e he).sameFd
      exact (write_done (hfront ▸ hfd) hwrite).fd_ge (hfront ▸ hfd)
    have hiff := livenessOf_iff (read_done hopen hread)
    refine ⟨livenessOf r, max 0 (toInt64 (stop - p.start)), ?_, fun _ => ?_⟩
    · have hsplit : front ++ (wrote ++ (reads ++ .gettimeofday stop :: update i
          ((run (run (run w front) wrote) reads).bep.stats i).length
          (healthEntries p.pollDelta p.polltimeBuf (livenessOf r)
            (max 0 (toInt64 (stop - p.start)))))) =
          (front ++ wrote ++ reads ++ [.gettimeofday stop]) ++ update i
            ((run (run (run w front) wrote) reads).bep.stats i).length
            (healthEntries p.pollDelta p.polltimeBuf (livenessOf r)
              (max 0 (toInt64 (stop - p.start)))) := by simp
      rw [hsplit, run_append]
      exact stats_update_self _ _ _ _ (hlen _)
    · rw [run_append]
      refine ⟨r, reads, after, hread, hiff, ?_⟩
      rw [← hiff]
      unfold livenessOf
      split <;> simp
  · refine ⟨0, 0, ?_, fun hz => absurd hz herr⟩
    rw [healthReply_unsent herr hreply, ← List.append_assoc, run_append]
    exact stats_update_self _ _ _ _ (hlen _)

def sampleHealth (inputs : List Answer) : Result Event Answer Unit :=
  (getHealth 0).exec connectedWorld inputs

/-- The answers to `getHealth` up to the end of its write, which takes all. -/
def sentAnswers : List Answer :=
  [{ time := 0 }, { time := 100 }, { ctime := ascii "now" }, { time := 0 }, { time := 0 },
    { write := .ok 39 }, { time := 0 }]

/-- The reply comes in two fragments. -/
def storedAnswers : List Answer :=
  [{ read := .ok (ascii "STOR") }, { time := 0 }, { read := .ok (ascii "ED\r\n") }, { time := 0 },
    { gettimeofday := 7 }]

theorem getHealth_liveness_stored :
    ∃ livenessDelta,
      (run connectedWorld (sampleHealth (sentAnswers ++ storedAnswers)).trace).bep.stats 0 =
        healthEntries 0 (ascii "now") 1 livenessDelta := by
  have hdone : sampleHealth (sentAnswers ++ storedAnswers) =
      .done () (sampleHealth (sentAnswers ++ storedAnswers)).trace [] := by
    decide +kernel
  have hask : (askHealth 0).exec connectedWorld (sentAnswers ++ storedAnswers) =
      .done ⟨⟨0, 0, 10000, 10000⟩, 0, ascii "now", 0⟩
        [.gettimeofday 0, .time 100, .gettimeofday 0]
        ((sentAnswers ++ storedAnswers).drop 4) := by
    decide +kernel
  have hwrite : (spMemcacheWrite livenessCmd).exec
      (run connectedWorld [.gettimeofday 0, .time 100, .gettimeofday 0])
      ((sentAnswers ++ storedAnswers).drop 4) =
      .done 0 [.command livenessCmd, .gettimeofday 0, .write livenessCmd (.ok 39),
        .gettimeofday 0] storedAnswers := by
    decide +kernel
  obtain ⟨livenessVal, livenessDelta, hstats, hsent⟩ := getHealth_liveness connectedWorld 0
    (sentAnswers ++ storedAnswers) _ _ [] _ _ _ _ 0 (by decide) (by decide) hdone hask hwrite
  obtain ⟨r, reads, after, hread, hone, -⟩ := hsent rfl
  have hlive : r.err = 0 ∧ cString r.data = livenessOk := by
    have hknown : (spMemcacheRead livenessOk.length ⟨0, 0, 10000, 10000⟩ false).exec
        (run connectedWorld ([.gettimeofday 0, .time 100, .gettimeofday 0] ++
          [.command livenessCmd, .gettimeofday 0, .write livenessCmd (.ok 39), .gettimeofday 0]))
        storedAnswers = .done ⟨livenessOk, 0, false, ⟨0, 8, 10000, 10000⟩⟩
          [.read 8 (.ok (ascii "STOR")), .gettimeofday 0, .read 4 (.ok (ascii "ED\r\n")),
            .gettimeofday 0] [{ gettimeofday := 7 }] := by
      decide +kernel
    cases hread.symm.trans hknown
    decide +kernel
  have hdelivered := (livenessOf_iff (read_done (by decide) hread)).mp (if_pos hlive)
  refine ⟨livenessDelta, ?_⟩
  rw [hstats, hone.mpr hdelivered]

end StatsProxy

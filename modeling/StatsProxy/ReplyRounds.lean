import StatsProxy.ReadRounds
import StatsProxy.RepliesOutcome

/-! `spMemcacheReadReplies` round by round. What the rounds have delivered fills one
buffer after the other; as long as nothing ends the call the two loops stand at the
last of these. -/
namespace StatsProxy
open CString Interaction Program Poller

/-- What stands in the buffer when these bytes have been read. -/
def lastBuffer (bytes : Bytes) : Bytes := bytes.drop (bytes.length / maxStatSz * maxStatSz)

/-- How much is asked for next. -/
def room (bytes : Bytes) : Nat := maxStatSz - (lastBuffer bytes).length

/-- What the rounds deliver. -/
def streamed (rounds : List Answer) : Bytes :=
  rounds.foldl (fun bytes a => bytes ++ a.fragment (room bytes)) []

def roundAnswers (rounds : List Answer) : List Answer := rounds.flatMap Answer.round

/-- The time left after the rounds. -/
def remaining (timeoutMs start : Int) (rounds : List Answer) : Int :=
  match rounds.getLast? with
  | none => timeoutMs
  | some a => timeoutMs - (a.gettimeofday - start).natAbs

/-- The buffer as the round leaves it. -/
def bufferAfter (before : List Answer) (a : Answer) : Bytes :=
  lastBuffer (streamed before) ++ a.fragment (room (streamed before))

/-- The round ends nothing: the reading goes on, no marker is in the buffer, and if it
fills the first buffer this has a stat. -/
structure GoesOn (timeoutMs start : Int) (before : List Answer) (a : Answer) : Prop where
  live : a.Live (remaining timeoutMs start before)
  plain : Plain (bufferAfter before a)
  stats : (streamed before).length < maxStatSz → maxStatSz ≤ (streamed (before ++ [a])).length →
    spMemcacheStatsAddStats (streamed (before ++ [a])) ≠ []

/-- The two loops, from the condition of the inner one on. -/
def filling (s : RepliesLoop) (r : ReadLoop) : Poller (Nat × List StatsEntry) :=
  loop (readStep maxStatSz) r >>= repliesNext s >>= fun r => match r with
    | .inl next => loop repliesStep next
    | .inr result => pure result

/-- Where the loops stand after rounds that have ended nothing. -/
structure Standing (timeoutMs start : Int) (before : List Answer) (s : RepliesLoop)
    (r : ReadLoop) : Prop where
  going : s.done = false
  reading : r.done = false
  data : r.data = lastBuffer (streamed before)
  startTime : r.sk.startTime = start
  timeout : r.sk.timeout = timeoutMs
  timeRemaining : r.sk.timeRemaining = remaining timeoutMs start before
  first : (streamed before).length < maxStatSz → s.stats = [] ∧ s.validStatsCnt = 0
  later : maxStatSz ≤ (streamed before).length → s.validStatsCnt ≠ 0

/-- The last statements of `spMemcacheReadReplies`. -/
def lastError (r : Nat × List StatsEntry) : Poller (Nat × List StatsEntry) := do
  emit (.setLastError r.1)
  return r

section

variable {bytes fragment : Bytes} {before rounds : List Answer} {a : Answer}

theorem lastBuffer_length (bytes : Bytes) :
    (lastBuffer bytes).length = bytes.length % maxStatSz := by
  unfold lastBuffer
  rw [List.length_drop, Nat.mod_eq_sub_div_mul]

theorem lastBuffer_lt (bytes : Bytes) : (lastBuffer bytes).length < maxStatSz := by
  rw [lastBuffer_length]
  exact Nat.mod_lt _ (by decide)

theorem lastBuffer_short (h : bytes.length < maxStatSz) : lastBuffer bytes = bytes := by
  unfold lastBuffer
  rw [Nat.div_eq_of_lt h]
  simp

theorem room_pos (bytes : Bytes) : 0 < room bytes :=
  Nat.sub_pos_of_lt (lastBuffer_lt bytes)

/-- A buffer that is filled gives way to an empty one. -/
theorem lastBuffer_append (h : fragment.length ≤ room bytes) :
    lastBuffer (bytes ++ fragment) =
      if fragment.length = room bytes then [] else lastBuffer bytes ++ fragment := by
  have hpos : 0 < maxStatSz := by decide
  have hsplit : bytes.length =
      maxStatSz * (bytes.length / maxStatSz) + (lastBuffer bytes).length := by
    rw [lastBuffer_length]
    exact (Nat.div_add_mod _ _).symm
  have hmod := lastBuffer_lt bytes
  unfold room at h ⊢
  rw [lastBuffer, List.length_append]
  split
  · rename_i hfull
    have hlen : bytes.length + fragment.length = (bytes.length / maxStatSz + 1) * maxStatSz := by
      rw [Nat.succ_mul, Nat.mul_comm]
      omega
    rw [hlen, Nat.mul_div_cancel _ hpos, ← hlen, ← List.length_append]
    exact List.drop_length
  · rename_i hpart
    have hdiv : (bytes.length + fragment.length) / maxStatSz = bytes.length / maxStatSz := by
      apply Nat.div_eq_of_lt_le
      · exact Nat.le_trans (Nat.div_mul_le_self _ _) (Nat.le_add_right _ _)
      · rw [Nat.succ_mul, Nat.mul_comm]
        omega
    rw [hdiv]
    exact List.drop_append_of_le_length (Nat.div_mul_le_self _ _)

theorem streamed_snoc (before : List Answer) (a : Answer) :
    streamed (before ++ [a]) = streamed before ++ a.fragment (room (streamed before)) := by
  simp [streamed]

theorem roundAnswers_snoc (before : List Answer) (a : Answer) (rest : List Answer) :
    roundAnswers (before ++ [a]) ++ rest = roundAnswers before ++ (a.round ++ rest) := by
  simp [roundAnswers]

theorem remaining_snoc (timeoutMs start : Int) (before : List Answer) (a : Answer) :
    remaining timeoutMs start (before ++ [a]) =
      timeoutMs - (a.gettimeofday - start).natAbs := by
  simp [remaining]

theorem loop_repliesStep {s : RepliesLoop} (h : s.done = false) :
    loop repliesStep s = filling s ⟨[], 0, false, s.sk⟩ := by
  rw [loop_unfold repliesStep_productive, repliesStep_eq h]
  unfold filling spMemcacheRead
  congr 1
  funext r
  cases r <;> rfl

section

variable {s : RepliesLoop} {r : ReadLoop}

theorem loop_repliesStep_done (h : s.done = true) : loop repliesStep s = pure (0, s.stats) := by
  rw [loop_unfold repliesStep_productive]
  unfold repliesStep
  rw [if_pos h]
  exact bind_pure_left _ _

theorem loop_readStep_over (h : ¬(r.data.length < maxStatSz ∧ r.done = false)) :
    loop (readStep maxStatSz) r =
      pure { r with sk := { r.sk with bytesRcvd := r.data.length } } := by
  rw [loop_unfold (readStep_productive maxStatSz)]
  unfold readStep
  rw [if_neg h]
  exact bind_pure_left _ _

/-- A buffer that has been read without an error is parsed. -/
theorem filling_parsed (h : ¬(r.data.length < maxStatSz ∧ r.done = false)) (herr : r.err = 0) :
    filling s r = loop repliesStep
      ⟨s.stats ++ spMemcacheStatsAddStats r.data,
        s.validStatsCnt + (spMemcacheStatsAddStats r.data).length,
        r.done || s.validStatsCnt + (spMemcacheStatsAddStats r.data).length = 0,
        { r.sk with bytesRcvd := r.data.length }⟩ := by
  have hcancel : (0 : Nat) ≠ ECANCELED.code := by decide
  unfold filling
  rw [loop_readStep_over h, bind_pure_left]
  unfold repliesNext
  dsimp only
  rw [if_neg (herr ▸ hcancel), if_neg (not_not_intro herr)]
  exact bind_pure_left _ _

theorem Standing.short {timeoutMs start : Int} (h : Standing timeoutMs start before s r) :
    r.data.length < maxStatSz := by
  rw [h.data]
  exact lastBuffer_lt _

theorem Standing.next_data {timeoutMs start : Int} (h : Standing timeoutMs start before s r)
    (a : Answer) : (r.next maxStatSz a).data = bufferAfter before a := by
  unfold ReadLoop.next bufferAfter room
  rw [h.data]

/-- What a standing loop does in a round that does not end the read at once. -/
theorem Standing.round {timeoutMs start : Int} {w : World}
    (h : Standing timeoutMs start before s r) (hfd : 0 ≤ w.bep.fd)
    (hlive : a.Live (remaining timeoutMs start before))
    (hplain : hasError (bufferAfter before a) = false) (rest : List Answer) :
    Leads (filling s r) w (a.round ++ rest) (a.events (room (streamed before)))
      (filling s (r.next maxStatSz a)) rest := by
  have hround := readStep_round hfd h.short h.reading (h.timeRemaining ▸ hlive)
    (h.next_data a ▸ hplain) rest
  rw [h.data] at hround
  unfold filling
  apply Leads.bind
  apply Leads.bind
  exact leads_loop (readStep_productive maxStatSz) hround

/-- A round that delivers all that was asked for fills the buffer. -/
theorem bufferAfter_full
    (hfull : (a.fragment (room (streamed before))).length = room (streamed before)) :
    (bufferAfter before a).length = maxStatSz ∧ ∃ data, a.read = .ok data := by
  constructor
  · have hpart := lastBuffer_lt (streamed before)
    rw [bufferAfter, List.length_append, hfull, room]
    omega
  · have hpos := room_pos (streamed before)
    unfold Answer.fragment at hfull
    cases hread : a.read with
    | ok data => exact ⟨data, rfl⟩
    | error e =>
      rw [hread] at hfull
      exact absurd hfull hpos.ne

theorem next_err (r : ReadLoop) {data : Bytes} (hread : a.read = .ok data) :
    (r.next maxStatSz a).err = 0 := by
  simp [ReadLoop.next, hread]

/-- The buffer is full after the round, and the next is begun. -/
theorem Standing.full {timeoutMs start : Int} (h : Standing timeoutMs start before s r)
    (hgo : GoesOn timeoutMs start before a)
    (hfull : (a.fragment (room (streamed before))).length = room (streamed before)) :
    ∃ s' r', Standing timeoutMs start (before ++ [a]) s' r' ∧
      filling s (r.next maxStatSz a) = filling s' r' := by
  obtain ⟨hlength, data, hread⟩ := bufferAfter_full hfull
  have herr := next_err r hread
  have hdata := h.next_data a
  have hdone : (r.next maxStatSz a).done = false := by
    have hend := hgo.plain.1
    rwa [← hdata] at hend
  have hstreamed := streamed_snoc before a
  have hlong : maxStatSz ≤ (streamed (before ++ [a])).length := by
    have hmod := lastBuffer_length (streamed before)
    have hdiv := Nat.mod_le (streamed before).length maxStatSz
    rw [hstreamed, List.length_append, hfull, room]
    omega
  have hcount : s.validStatsCnt + (spMemcacheStatsAddStats (bufferAfter before a)).length ≠ 0 := by
    by_cases hshort : (streamed before).length < maxStatSz
    · have hone : streamed (before ++ [a]) = bufferAfter before a := by
        rw [hstreamed, bufferAfter, lastBuffer_short hshort]
      have hstats := hgo.stats hshort hlong
      rw [hone] at hstats
      have := List.length_pos_of_ne_nil hstats
      omega
    · have := h.later (Nat.not_lt.mp hshort)
      omega
  have hparsed := filling_parsed (s := s) (r := r.next maxStatSz a)
    (fun hroom => absurd hroom.1 (by rw [hdata, hlength]; exact Nat.lt_irrefl _)) herr
  rw [hparsed, loop_repliesStep (by
    rw [hdone, hdata, Bool.false_or]
    exact decide_eq_false hcount)]
  refine ⟨_, _, ?_, rfl⟩
  exact
    { going := by
        rw [hdone, hdata, Bool.false_or]
        exact decide_eq_false hcount
      reading := rfl
      data := by
        rw [hstreamed, lastBuffer_append (fragment_length _ _), if_pos hfull]
      startTime := h.startTime
      timeout := h.timeout
      timeRemaining := by
        rw [remaining_snoc, ← h.startTime, ← h.timeout]
        rfl
      first := fun hshort => absurd hlong (Nat.not_le.mpr hshort)
      later := fun _ => hdata ▸ hcount }

theorem Standing.step {timeoutMs start : Int} {w : World} (h : Standing timeoutMs start before s r)
    (hfd : 0 ≤ w.bep.fd) (hgo : GoesOn timeoutMs start before a) (rest : List Answer) :
    ∃ s' r', Standing timeoutMs start (before ++ [a]) s' r' ∧
      Leads (filling s r) w (a.round ++ rest) (a.events (room (streamed before)))
        (filling s' r') rest := by
  have hdata := h.next_data a
  have hleads := h.round hfd hgo.live hgo.plain.2 rest
  by_cases hfull : (a.fragment (room (streamed before))).length = room (streamed before)
  · obtain ⟨s', r', hstanding, heq⟩ := h.full hgo hfull
    exact ⟨s', r', hstanding, heq ▸ hleads⟩
  · refine ⟨s, _, ?_, hleads⟩
    have hfragment := fragment_length a (room (streamed before))
    have hstreamed := streamed_snoc before a
    exact
      { going := h.going
        reading := by
          have hend := hgo.plain.1
          rwa [← hdata] at hend
        data := by
          rw [hdata, hstreamed, lastBuffer_append hfragment, if_neg hfull]
          rfl
        startTime := h.startTime
        timeout := h.timeout
        timeRemaining := by
          rw [remaining_snoc, ← h.startTime, ← h.timeout]
          rfl
        first := by
          intro hshort
          rw [hstreamed, List.length_append] at hshort
          exact h.first (by omega)
        later := by
          intro hlong
          apply h.later
          by_contra hshort
          -- the first buffer would be full
          rw [hstreamed, List.length_append] at hlong
          rw [room, lastBuffer_short (Nat.not_le.mp hshort)] at hfull hfragment hlong
          omega }

/-- The call begins with a clock reading and an empty buffer. -/
theorem replies_begin (w : World) (first : Answer) (rest : List Answer) :
    ∃ s r, Standing w.bep.settings.readMs first.gettimeofday [] s r ∧
      Leads spMemcacheReadReplies w (first :: rest) [.gettimeofday first.gettimeofday]
        (filling s r >>= lastError) rest := by
  let sk : SocketState := ⟨first.gettimeofday, 0, w.bep.settings.readMs, w.bep.settings.readMs⟩
  have hback : backend.exec w (first :: rest) = .done w.bep [] (first :: rest) := rfl
  have hsession : (sessionInfo w.bep.settings.readMs).exec w (first :: rest) =
      .done sk [.gettimeofday first.gettimeofday] rest := rfl
  refine ⟨⟨[], 0, false, sk⟩, ⟨[], 0, false, sk⟩, ?_, ?_⟩
  · exact
      { going := rfl
        reading := rfl
        data := rfl
        startTime := rfl
        timeout := rfl
        timeRemaining := rfl
        first := fun _ => ⟨rfl, rfl⟩
        later := fun h => absurd h (by decide) }
  · have hstart : loop repliesStep ⟨[], 0, false, sk⟩ =
        filling ⟨[], 0, false, sk⟩ ⟨[], 0, false, sk⟩ := loop_repliesStep rfl
    rw [← hstart]
    exact (leads_of_done hback _).trans (leads_of_done hsession _)

/-- After rounds that end nothing the loops stand at the last buffer. -/
theorem replies_standing {w : World} (hfd : 0 ≤ w.bep.fd) (first : Answer)
    (hgo : AtEach (GoesOn w.bep.settings.readMs first.gettimeofday) rounds) (rest : List Answer) :
    ∃ s r trace, Standing w.bep.settings.readMs first.gettimeofday rounds s r ∧
      received trace = streamed rounds ∧ run w trace = w ∧
      Leads spMemcacheReadReplies w (first :: (roundAnswers rounds ++ rest)) trace
        (filling s r >>= lastError) rest := by
  induction rounds using List.reverseRecOn generalizing rest with
  | nil =>
    obtain ⟨s, r, hstanding, hleads⟩ := replies_begin w first rest
    exact ⟨s, r, _, hstanding, rfl, rfl, hleads⟩
  | append_singleton rounds a ih =>
    obtain ⟨hfront, hlast⟩ := atEach_snoc.mp hgo
    obtain ⟨s, r, trace, hstanding, hreceived, hrun, hleads⟩ := ih hfront (a.round ++ rest)
    obtain ⟨s', r', hstanding', hstep⟩ := hstanding.step hfd hlast rest
    refine ⟨s', r', trace ++ a.events (room (streamed rounds)), hstanding', ?_, ?_, ?_⟩
    · rw [received_append, hreceived, received_round, streamed_snoc]
    · rw [run_append, hrun, run_round]
    · rw [roundAnswers_snoc]
      apply hleads.trans
      rw [hrun]
      exact hstep.bind lastError

end

end

end StatsProxy

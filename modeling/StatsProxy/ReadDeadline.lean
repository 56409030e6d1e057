import StatsProxy.LongReplies
import StatsProxy.WriteSends

/-! When `spMemcacheReadReplies` returns. The deadline is looked at only after a read
that has failed, so a server that goes on sending keeps the call in its loops. -/
namespace StatsProxy
open CString Interaction Program Poller

/-- The first rounds of an endless sequence. -/
def firstRounds (rounds : Nat → Answer) (n : Nat) : List Answer := (List.range n).map rounds

/-- Each round leaves a NUL in the array, where the searches of the buffer end. -/
def Contained (rounds : List Answer) : Prop :=
  AtEach (fun before a => Terminated (bufferAfter before a)) rounds

instance (rounds : List Answer) : Decidable (Contained rounds) :=
  inferInstanceAs (Decidable (AtEach _ _))

/-- The server drips: no round ends the call as long as the searches stay in the array. -/
def Drips (w : World) (start : Answer) (rounds : Nat → Answer) : Prop :=
  0 ≤ w.bep.fd ∧ ∀ n, Contained (firstRounds rounds (n + 1)) →
    GoesOn w.bep.settings.readMs start.gettimeofday (firstRounds rounds n) (rounds n)

/-- The call returns on finitely many of the answers, and no search of what it has read leaves the
array. -/
def Returns (w : World) (start : Answer) (rounds : Nat → Answer) : Prop :=
  ∃ n, (0 ≤ w.bep.fd → Contained (firstRounds rounds n)) ∧ ∃ r trace left,
    spMemcacheReadReplies.exec w (start :: roundAnswers (firstRounds rounds n)) =
      .done r trace left

section

variable {w : World} {start a : Answer} {rounds : Nat → Answer} {before : List Answer}
  {s : RepliesLoop} {r : ReadLoop} {timeoutMs now : Int}

theorem firstRounds_succ (rounds : Nat → Answer) (n : Nat) :
    firstRounds rounds (n + 1) = firstRounds rounds n ++ [rounds n] := by
  simp [firstRounds, List.range_succ]

theorem atEach_firstRounds {P : List Answer → Answer → Prop} {n : Nat}
    (h : ∀ k < n, P (firstRounds rounds k) (rounds k)) : AtEach P (firstRounds rounds n) := by
  induction n with
  | zero => exact atEach_nil
  | succ n ih =>
    rw [firstRounds_succ, atEach_snoc]
    exact ⟨ih fun k hk => h k (Nat.lt_succ_of_lt hk), h n (Nat.lt_succ_self n)⟩

theorem Contained.front {n k : Nat} (h : Contained (firstRounds rounds n)) (hk : k ≤ n) :
    Contained (firstRounds rounds k) := by
  induction n, hk using Nat.le_induction with
  | base => exact h
  | succ n _ ih =>
    rw [firstRounds_succ] at h
    exact ih (AtEach.front h (List.prefix_append _ _))

/-- A standing loop waits for a read. -/
theorem Standing.asks (h : Standing timeoutMs now before s r) :
    Asks (filling s r >>= lastError) := by
  have hloop : Asks (loop (readStep maxStatSz) r) := by
    rw [loop_unfold (readStep_productive maxStatSz)]
    apply Asks.bind
    unfold readStep
    rw [if_pos ⟨h.short, h.reading⟩]
    exact (asks_read _).bind _
  exact ((hloop.bind _).bind _).bind _

/-- A dripping server keeps the call waiting. -/
theorem Drips.waits (h : Drips w start rounds) {n : Nat} (hin : Contained (firstRounds rounds n))
    (r : Nat × List StatsEntry) (trace : List Event) (left : List Answer) :
    spMemcacheReadReplies.exec w (start :: roundAnswers (firstRounds rounds n)) ≠
      .done r trace left := by
  cases n with
  | zero =>
    obtain ⟨s, r, hstanding, hleads⟩ := replies_begin w start []
    exact fun hexec => hleads.unfinished hstanding.asks hexec
  | succ n =>
    have hgo : ∀ k < n + 1, GoesOn w.bep.settings.readMs start.gettimeofday
        (firstRounds rounds k) (rounds k) := fun k hk => h.2 k (hin.front hk)
    obtain ⟨s, r, front, hstanding, -, -, hleads⟩ :=
      replies_standing h.1 start (atEach_firstRounds hgo) []
    rw [List.append_nil] at hleads
    exact fun hexec => hleads.unfinished hstanding.asks hexec

/-- The two loops end with a buffer that is not to be continued. -/
theorem filling_ends (h : Ends (loop (readStep maxStatSz) r)
    (fun r _ _ => r.done = true ∨ r.err ≠ 0) (w, ([] : List Event)) inputs) :
    ∃ result trace left, (filling s r >>= lastError).exec w inputs = .done result trace left := by
  have hends : Ends (filling s r >>= lastError) (fun _ _ _ => True) (w, ([] : List Event))
      inputs := by
    apply ends_bind
    unfold filling
    apply ends_bind
    apply ends_bind
    apply ends_post h
    intro r' rest y hr
    unfold repliesNext
    split
    · exact ends_pure (ends_pure (ends_bind (ends_emit (ends_pure trivial))))
    · split
      · exact ends_pure (ends_pure (ends_bind (ends_emit (ends_pure trivial))))
      · rename_i herr
        have hdone : r'.done = true := hr.resolve_right herr
        apply ends_pure
        dsimp only
        rw [loop_repliesStep_done (by simp [hdone])]
        exact ends_pure (ends_bind (ends_emit (ends_pure trivial)))
  obtain ⟨result, trace, left, hexec, -⟩ := hends
  exact ⟨result, trace, left, hexec⟩

/-- A round that ends the read ends the call. -/
theorem Standing.over (h : Standing timeoutMs now before s r) (ho : Owned w)
    (hover : ¬(0 ≤ w.bep.fd ∧ a.Live (remaining timeoutMs now before) ∧
      Plain (bufferAfter before a))) (rest : List Answer) :
    ∃ result trace left, (filling s r >>= lastError).exec w (a.round ++ rest) =
      .done result trace left := by
  rw [← h.timeRemaining, ← h.next_data] at hover
  apply filling_ends
  apply ends_loop (readStep_productive maxStatSz)
  apply ends_post (readStep_over (x := (w, ([] : List Event))) ho h.short h.reading hover rest)
  intro result left y hresult
  cases result with
  | inl next =>
    have hdone : next.done = true := hresult
    dsimp only
    rw [loop_readStep_over fun hgoing => absurd hgoing.2 (by simp [hdone])]
    exact ends_pure (Or.inl hdone)
  | inr r => exact Or.inr hresult

/-- A first buffer without a stat ends the call. -/
theorem Standing.noStats (h : Standing timeoutMs now before s r) (hfd : 0 ≤ w.bep.fd)
    (hlive : a.Live (remaining timeoutMs now before)) (hplain : Plain (bufferAfter before a))
    (hshort : (streamed before).length < maxStatSz)
    (hlong : maxStatSz ≤ (streamed (before ++ [a])).length)
    (hnone : spMemcacheStatsAddStats (streamed (before ++ [a])) = []) (rest : List Answer) :
    ∃ result trace left, (filling s r >>= lastError).exec w (a.round ++ rest) =
      .done result trace left := by
  have hcount := h.first hshort
  have hfull : (a.fragment (room (streamed before))).length = room (streamed before) := by
    have hfragment := fragment_length a (room (streamed before))
    have hroom : room (streamed before) = maxStatSz - (streamed before).length := by
      rw [room, lastBuffer_short hshort]
    rw [streamed_snoc, List.length_append] at hlong
    omega
  obtain ⟨hlength, data, hread⟩ := bufferAfter_full hfull
  have hdata := h.next_data a
  have hround := h.round hfd hlive hplain.2 rest
  have hbuffer : bufferAfter before a = streamed (before ++ [a]) := by
    rw [streamed_snoc, bufferAfter, lastBuffer_short hshort]
  have hend : filling s (r.next maxStatSz a) = pure (0, []) := by
    have hover : ¬((r.next maxStatSz a).data.length < maxStatSz ∧
        (r.next maxStatSz a).done = false) := by
      rw [hdata, hlength]
      exact fun hgoing => Nat.lt_irrefl _ hgoing.1
    rw [filling_parsed hover (next_err r hread), hdata, hbuffer, hnone,
      loop_repliesStep_done (by simp [hcount.2]), hcount.1]
    rfl
  have hlast : (filling s (r.next maxStatSz a) >>= lastError).exec w rest =
      .done (0, []) [.setLastError 0] rest := by
    rw [hend, bind_pure_left]
    rfl
  rw [← run_round w a (room (streamed before))] at hlast
  exact ⟨_, _, _, (hround.bind lastError).done hlast⟩

/-- The call returns at the first round that does not go on. -/
theorem returns_of_not_drips (ho : Owned w) (h : ¬Drips w start rounds) :
    Returns w start rounds := by
  by_cases hfd : 0 ≤ w.bep.fd
  · unfold Drips at h
    push Not at h
    obtain ⟨last, hin, hstop⟩ := h hfd
    classical
    have hsome : ∃ n, ¬GoesOn w.bep.settings.readMs start.gettimeofday (firstRounds rounds n)
        (rounds n) := ⟨last, hstop⟩
    obtain ⟨n, hle, hn, hbefore⟩ : ∃ n ≤ last, ¬GoesOn w.bep.settings.readMs
        start.gettimeofday (firstRounds rounds n) (rounds n) ∧ ∀ k < n,
          GoesOn w.bep.settings.readMs start.gettimeofday (firstRounds rounds k) (rounds k) :=
      ⟨Nat.find hsome, Nat.find_min' hsome hstop, Nat.find_spec hsome,
        fun k hk => not_not.mp (Nat.find_min hsome hk)⟩
    obtain ⟨s, r, trace, hstanding, -, hrun, hleads⟩ :=
      replies_standing hfd start (atEach_firstRounds hbefore) ((rounds n).round ++ [])
    have hlast : ∃ result more left, (filling s r >>= lastError).exec w ((rounds n).round ++ []) =
        .done result more left := by
      by_cases hover : (rounds n).Live
          (remaining w.bep.settings.readMs start.gettimeofday (firstRounds rounds n)) ∧
          Plain (bufferAfter (firstRounds rounds n) (rounds n))
      · by_contra hwaits
        apply hn
        refine ⟨hover.1, hover.2, fun hshort hlong hnone => hwaits ?_⟩
        exact hstanding.noStats hfd hover.1 hover.2 hshort hlong hnone []
      · exact hstanding.over ho (fun hgoing => hover hgoing.2) []
    obtain ⟨result, more, left, hexec⟩ := hlast
    rw [← roundAnswers_snoc, ← firstRounds_succ, List.append_nil] at hleads
    rw [← hrun] at hexec
    have hfront := hin.front (Nat.succ_le_succ hle)
    exact ⟨n + 1, fun _ => hfront, result, _, left, hleads.done hexec⟩
  · obtain ⟨s, r, hstanding, hleads⟩ := replies_begin w start ((rounds 0).round ++ [])
    obtain ⟨result, more, left, hexec⟩ :=
      hstanding.over ho (a := rounds 0) (fun hgoing => hfd hgoing.1) []
    have hanswers : (rounds 0).round ++ [] = roundAnswers (firstRounds rounds 1) := by
      simp [roundAnswers, firstRounds]
    rw [hanswers] at hleads hexec
    exact ⟨1, fun hopen => absurd hopen hfd, result, _, left, hleads.done hexec⟩

/-- After the deadline a dripping server has to deliver with every read. -/
theorem Drips.delivers (h : Drips w start rounds) {n : Nat}
    (hin : Contained (firstRounds rounds (n + 2)))
    (hlate : (rounds n).Late start.gettimeofday w.bep.settings.readMs) :
    ∃ data, (rounds (n + 1)).read = .ok data ∧ data ≠ [] := by
  have hlive := (h.2 (n + 1) hin).live
  rw [firstRounds_succ, remaining_snoc, Answer.Live] at hlive
  unfold Answer.Late at hlate
  cases hread : (rounds (n + 1)).read with
  | ok data =>
    rw [hread] at hlive
    exact ⟨data, rfl, hlive⟩
  | error e =>
    rw [hread] at hlive
    have := hlive.2.1
    omega

end

/-- The call returns, on an endless sequence of answers, exactly if some round ends it before
one has left no NUL in the array. -/
theorem spMemcacheReadReplies_returns_iff (w : World) (ho : Owned w) (start : Answer)
    (rounds : Nat → Answer) : Returns w start rounds ↔ ¬Drips w start rounds := by
  constructor
  · rintro ⟨n, hin, r, trace, left, hexec⟩ hdrips
    exact hdrips.waits (hin hdrips.1) r trace left hexec
  · exact returns_of_not_drips ho

theorem owned_connectedWorld : Owned connectedWorld := Or.inr ⟨by decide, by decide⟩

theorem late_connectedWorld : Answer.Late 0 connectedWorld.bep.settings.readMs
    { gettimeofday := 20000 } := by
  unfold Answer.Late
  decide

theorem spMemcacheReadReplies_returns_iff_silent :
    Returns connectedWorld {} fun _ => { gettimeofday := 20000 } := by
  apply (spMemcacheReadReplies_returns_iff connectedWorld owned_connectedWorld {} _).mpr
  intro hdrips
  obtain ⟨data, hread, -⟩ := hdrips.delivers (n := 0) (by decide) late_connectedWorld
  contradiction

/-! A server that never stops sending, and a clock that is past the deadline from the
first read on. -/

/-- A stat, and letters up to the NUL at the end of the array. -/
def endlessData : Bytes :=
  [(⟨ascii "a", .alpha (ascii "1")⟩ : StatsEntry)].flatMap
    (fun entry => statLine entry ++ ascii "\r\n") ++ (List.replicate 32757 120 ++ [0])

def endlessRounds (_ : Nat) : Answer := { read := .ok endlessData, gettimeofday := 20000 }

theorem endlessData_length : endlessData.length = maxStatSz := by
  rw [endlessData, List.length_append, List.length_append, List.length_replicate]
  decide

theorem plain_endlessData : Plain endlessData := by
  have hletters : ∀ ch : UInt8, ch ∉ ascii "STAT a 1\r\nx" →
      ch ∉ ascii "STAT a 1\r\n" ++ List.replicate 32757 120 := by
    intro ch hch hmem
    apply hch
    rcases List.mem_append.mp hmem with hline | hrest
    · exact (List.Sublist.subset (by decide)) hline
    · rw [List.eq_of_mem_replicate hrest]
      decide
  have hnul := hletters 0 (by decide)
  have htext : cString endlessData =
      cString (ascii "STAT a 1\r\n" ++ List.replicate 32757 120) := by
    have hsplit : endlessData =
        ascii "STAT a 1\r\n" ++ List.replicate 32757 120 ++ 0 :: [] := by
      rw [endlessData, ← List.append_assoc]
      rfl
    rw [hsplit, cString_append_nul hnul, cString_of_nul hnul]
  have hreply : WholeReply (ascii "STAT a 1\r\n" ++ List.replicate 32757 120 ++ endMarker) :=
    wholeReply_append hnul (hletters 69 (by decide)) (hletters 82 (by decide))
  have hplain : Plain (ascii "STAT a 1\r\n" ++ List.replicate 32757 120) := by
    apply hreply.part (List.prefix_append _ _)
    intro hsame
    exact absurd (List.append_cancel_left ((List.append_nil _).trans hsame)) (by decide)
  unfold Plain StatsProxy.hasEnd StatsProxy.hasError at hplain ⊢
  rwa [htext]

theorem addStats_endlessData : spMemcacheStatsAddStats endlessData ≠ [] := by
  rw [endlessData, addStats_lines_append, List.singleton_append]
  · exact List.cons_ne_nil _ _
  · intro entry hentry
    rw [List.mem_singleton.mp hentry]
    exact clean_alpha (by decide) (by decide)

/-- Every round fills a buffer. -/
theorem fragment_endlessRounds {bytes : Bytes} (h : lastBuffer bytes = []) (n : Nat) :
    room bytes = maxStatSz ∧ (endlessRounds n).fragment (room bytes) = endlessData := by
  have hroom : room bytes = maxStatSz := by
    rw [room, h]
    rfl
  refine ⟨hroom, ?_⟩
  rw [hroom, ← endlessData_length]
  exact List.take_length

theorem streamed_endlessRounds (n : Nat) :
    lastBuffer (streamed (firstRounds endlessRounds n)) = [] ∧
      (streamed (firstRounds endlessRounds n)).length = n * maxStatSz := by
  induction n with
  | zero => exact ⟨rfl, (Nat.zero_mul _).symm⟩
  | succ n ih =>
    obtain ⟨hroom, hfragment⟩ := fragment_endlessRounds ih.1 n
    have hfits : endlessData.length = room (streamed (firstRounds endlessRounds n)) :=
      endlessData_length.trans hroom.symm
    rw [firstRounds_succ, streamed_snoc, hfragment, lastBuffer_append hfits.le, if_pos hfits,
      List.length_append, ih.2, endlessData_length, Nat.succ_mul]
    exact ⟨rfl, rfl⟩

theorem bufferAfter_endlessRounds (n : Nat) :
    bufferAfter (firstRounds endlessRounds n) (endlessRounds n) = endlessData := by
  have hempty := (streamed_endlessRounds n).1
  rw [bufferAfter, (fragment_endlessRounds hempty n).2, hempty, List.nil_append]

theorem contained_endlessRounds (n : Nat) : Contained (firstRounds endlessRounds n) := by
  apply atEach_firstRounds
  intro k _
  rw [bufferAfter_endlessRounds, terminated_iff, endlessData]
  exact Or.inl (List.mem_append_right _ (List.mem_append_right _ (List.mem_singleton_self 0)))

theorem drips_endlessRounds : Drips connectedWorld {} endlessRounds := by
  refine ⟨by decide, fun n _ => ?_⟩
  obtain ⟨hempty, hlength⟩ := streamed_endlessRounds n
  obtain ⟨-, hfragment⟩ := fragment_endlessRounds hempty n
  have hne : endlessData ≠ [] := by
    intro hnil
    have hlen := endlessData_length
    rw [hnil] at hlen
    contradiction
  exact
    { live := hne
      plain := by
        rw [bufferAfter_endlessRounds]
        exact plain_endlessData
      stats := by
        intro hshort _
        have hzero : n = 0 := by
          rw [hlength, ← Nat.one_mul maxStatSz, ← Nat.mul_assoc, Nat.mul_one] at hshort
          exact Nat.lt_one_iff.mp (Nat.lt_of_mul_lt_mul_right hshort)
        have hfirst : streamed (firstRounds endlessRounds n) = [] := by
          rw [hzero]
          rfl
        rw [streamed_snoc, hfragment, hfirst]
        exact addStats_endlessData }

/-- The call stays in its loops although the deadline is past, and no search leaves the array. -/
theorem spMemcacheReadReplies_pastDeadline :
    Owned connectedWorld ∧
      (∀ n, (endlessRounds n).Late 0 connectedWorld.bep.settings.readMs) ∧
      (∀ n, Contained (firstRounds endlessRounds n)) ∧
      ∀ n r trace left, spMemcacheReadReplies.exec connectedWorld
        (({} : Answer) :: roundAnswers (firstRounds endlessRounds n)) ≠ .done r trace left :=
  ⟨owned_connectedWorld, fun _ => late_connectedWorld, contained_endlessRounds,
    fun n => drips_endlessRounds.waits (contained_endlessRounds n)⟩

end StatsProxy

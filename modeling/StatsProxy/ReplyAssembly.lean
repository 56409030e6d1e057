import StatsProxy.ReplyRounds

/-! A reply that fits into one buffer is put together from its fragments. However
it is cut, and however often a read is tried again, the terminator is complete only
when all of the reply has come. -/
namespace StatsProxy
open CString Interaction Program Poller

/-- A reply whose terminator stands only at its end. -/
structure WholeReply (reply : Bytes) : Prop where
  noNul : 0 ∉ reply
  ended : endMarker <:+ reply
  once : ∀ front back, reply = front ++ endMarker ++ back → back = []
  plain : ¬statCmdError <:+: reply

/-- The rounds deliver the reply in fragments, with reads to be tried again between
them, and nothing more. -/
structure DeliversReply (timeoutMs start : Int) (reply : Bytes) (rounds : List Answer) : Prop where
  live : AtEach (fun before a => a.Live (remaining timeoutMs start before)) rounds
  bytes : streamed rounds = reply
  unfinished : AtEach (fun before _ => streamed before ≠ reply) rounds

section

variable {reply bytes : Bytes} {timeoutMs start : Int} {before rounds : List Answer} {a : Answer}

theorem WholeReply.hasEnd (h : WholeReply reply) : hasEnd reply = true := by
  unfold StatsProxy.hasEnd
  rw [cString_of_nul h.noNul, strstr_iff]
  exact h.ended.isInfix

theorem WholeReply.noError (h : WholeReply reply) (hbytes : bytes <+: reply) :
    hasError bytes = false := by
  have hnul : 0 ∉ bytes := fun hmem => h.noNul (hbytes.subset hmem)
  rw [← Bool.not_eq_true]
  unfold hasError
  rw [cString_of_nul hnul, strstr_iff]
  exact fun herror => h.plain (herror.trans hbytes.isInfix)

/-- No marker is complete before the last byte. -/
theorem WholeReply.part (h : WholeReply reply) (hbytes : bytes <+: reply) (hne : bytes ≠ reply) :
    Plain bytes := by
  refine ⟨?_, h.noError hbytes⟩
  have hnul : 0 ∉ bytes := fun hmem => h.noNul (hbytes.subset hmem)
  rw [← Bool.not_eq_true]
  unfold StatsProxy.hasEnd
  rw [cString_of_nul hnul, strstr_iff]
  rintro ⟨front, back, rfl⟩
  obtain ⟨more, rfl⟩ := hbytes
  have hlast := h.once front (back ++ more) (by simp)
  apply hne
  rw [(List.append_eq_nil_iff.mp hlast).2, List.append_nil]

/-- A text with no letter of the markers in it may precede the terminator. -/
theorem wholeReply_append {body : Bytes} (hnul : 0 ∉ body) (hE : 69 ∉ body) (hR : 82 ∉ body) :
    WholeReply (body ++ endMarker) where
  noNul := by
    rw [List.mem_append, not_or]
    exact ⟨hnul, by decide⟩
  ended := List.suffix_append _ _
  once := by
    intro front back hsplit
    have hlength := congrArg List.length hsplit
    simp only [List.length_append] at hlength
    by_cases hinside : front.length < body.length
    · -- the terminator would begin inside the text
      have hfirst : (body ++ endMarker)[front.length]? = some 69 := by
        rw [hsplit, List.append_assoc, List.getElem?_append_right (Nat.le_refl _), Nat.sub_self]
        rfl
      rw [List.getElem?_append_left hinside] at hfirst
      exact absurd (List.mem_of_getElem? hfirst) hE
    · exact List.eq_nil_of_length_eq_zero (by omega)
  plain := by
    intro herror
    have hmem : 82 ∈ body ++ endMarker := herror.subset (by decide)
    rw [List.mem_append] at hmem
    exact hmem.elim hR (by decide)

theorem streamed_leads (before more : List Answer) :
    streamed before <+: streamed (before ++ more) := by
  induction more using List.reverseRecOn with
  | nil => simp
  | append_singleton more a ih =>
    rw [← List.append_assoc, streamed_snoc]
    exact ih.trans (List.prefix_append _ _)

/-- As long as less than a buffer has come, the buffer is what has come. -/
theorem bufferAfter_short (h : (streamed (before ++ [a])).length < maxStatSz) :
    bufferAfter before a = streamed (before ++ [a]) := by
  have hshort : (streamed before).length < maxStatSz :=
    Nat.lt_of_le_of_lt (streamed_leads before [a]).length_le h
  rw [streamed_snoc, bufferAfter, lastBuffer_short hshort]

/-- All rounds but the last end nothing. -/
theorem DeliversReply.goesOn (hreply : WholeReply reply) (hlen : reply.length < maxStatSz)
    (h : DeliversReply timeoutMs start reply (rounds ++ [a])) :
    AtEach (GoesOn timeoutMs start) rounds := by
  intro before b after hsplit
  obtain ⟨c, after', hafter⟩ : ∃ c after', after ++ [a] = c :: after' :=
    List.exists_cons_of_ne_nil (by simp)
  have hwhole : rounds ++ [a] = (before ++ [b]) ++ c :: after' := by
    rw [hsplit, ← hafter]
    simp
  have hleads : streamed (before ++ [b]) <+: reply := by
    rw [← h.bytes, hwhole]
    exact streamed_leads _ _
  have hshort : (streamed (before ++ [b])).length < maxStatSz :=
    Nat.lt_of_le_of_lt hleads.length_le hlen
  exact
    { live := (atEach_snoc.mp h.live).1 before b after hsplit
      plain := by
        rw [bufferAfter_short hshort]
        exact hreply.part hleads (h.unfinished _ c after' hwhole)
      stats := fun _ hfull => absurd hfull (Nat.not_le.mpr hshort) }

/-- The last round delivers the rest of the reply. -/
theorem DeliversReply.last (h : DeliversReply timeoutMs start reply (rounds ++ [a])) :
    ∃ data, a.read = .ok data := by
  have hne := (atEach_snoc.mp h.unfinished).2
  have hbytes := h.bytes
  rw [streamed_snoc, Answer.fragment] at hbytes
  cases hread : a.read with
  | ok data => exact ⟨data, rfl⟩
  | error e =>
    rw [hread] at hbytes
    exact absurd ((List.append_nil _).symm.trans hbytes) hne

/-- The call ends when the reply is complete, with its entries. -/
theorem DeliversReply.replies {w : World} {first : Answer} (hfd : 0 ≤ w.bep.fd)
    (hreply : WholeReply reply) (hlen : reply.length < maxStatSz)
    (h : DeliversReply w.bep.settings.readMs first.gettimeofday reply rounds) (rest : List Answer) :
    ∃ trace, spMemcacheReadReplies.exec w (first :: (roundAnswers rounds ++ rest)) =
        .done (0, spMemcacheStatsAddStats reply) trace rest ∧
      received trace = reply ∧ run w trace = Machine.after w (.setLastError 0) := by
  rcases List.eq_nil_or_concat' rounds with rfl | ⟨rounds, a, rfl⟩
  · have hnone : [] = reply := h.bytes
    have hend := hreply.ended
    rw [← hnone] at hend
    exact absurd (List.suffix_nil.mp hend) (by decide)
  have hbytes := h.bytes
  have hshort : (streamed (rounds ++ [a])).length < maxStatSz := hbytes ▸ hlen
  have hbuffer : bufferAfter rounds a = reply := (bufferAfter_short hshort).trans hbytes
  obtain ⟨s, r, trace, hstanding, hreceived, hrun, hleads⟩ :=
    replies_standing hfd first (h.goesOn hreply hlen) (a.round ++ rest)
  have hround := hstanding.round hfd (atEach_snoc.mp h.live).2
    (hbuffer ▸ hreply.noError (List.prefix_refl reply)) rest
  have hdata := (hstanding.next_data a).trans hbuffer
  have hdone : (r.next maxStatSz a).done = true := by
    have hend := hreply.hasEnd
    rwa [← hdata] at hend
  obtain ⟨data, hread⟩ := h.last
  have hstats : s.stats = [] :=
    (hstanding.first (Nat.lt_of_le_of_lt (streamed_leads rounds [a]).length_le hshort)).1
  have hend : filling s (r.next maxStatSz a) = pure (0, spMemcacheStatsAddStats reply) := by
    rw [filling_parsed (fun hgoing => absurd hgoing.2 (by simp [hdone])) (next_err r hread),
      loop_repliesStep_done (by simp [hdone]), hstats, hdata]
    rfl
  refine ⟨trace ++ (a.events (room (streamed rounds)) ++ [.setLastError 0]), ?_, ?_, ?_⟩
  · rw [roundAnswers_snoc]
    apply hleads.done
    rw [hrun]
    apply (hround.bind lastError).done
    rw [hend, bind_pure_left]
    rfl
  · rw [received_append, received_append, hreceived, received_round, ← hbytes, streamed_snoc]
    simp [received, Event.delivered]
  · rw [run_append, run_append, hrun, run_round]
    rfl

end

/-- However the reply is cut into fragments, the call returns its entries, with the
connection open and no byte left or taken beyond it. -/
theorem spMemcacheReadReplies_assembles (w : World) (first : Answer) (rounds rest : List Answer)
    (reply : Bytes) (hfd : 0 ≤ w.bep.fd) (hreply : WholeReply reply)
    (hlen : reply.length < maxStatSz)
    (h : DeliversReply w.bep.settings.readMs first.gettimeofday reply rounds) :
    ∃ trace, spMemcacheReadReplies.exec w (first :: (roundAnswers rounds ++ rest)) =
        .done (0, spMemcacheStatsAddStats reply) trace rest ∧
      (run w trace).bep.fd = w.bep.fd ∧ (run w trace).bep.lastError = 0 ∧
      received trace = reply := by
  obtain ⟨trace, hexec, hreceived, hrun⟩ := h.replies hfd hreply hlen rest
  exact ⟨trace, hexec, by rw [hrun]; rfl, by rw [hrun]; rfl, hreceived⟩

/-- The reply is cut in the name and in the terminator, and two reads fail. -/
def cutRounds : List Answer :=
  [{ read := .ok (ascii "STAT a") }, { read := .error EAGAIN }, { read := .ok (ascii " 1\r\nEN") },
    { read := .error EINTR, poll := .timeout }, { read := .ok (ascii "D\r\n") }]

theorem spMemcacheReadReplies_assembles_cut :
    ∃ trace, spMemcacheReadReplies.exec connectedWorld
        (({} : Answer) :: (roundAnswers cutRounds ++ [])) =
        .done (0, spMemcacheStatsAddStats (ascii "STAT a 1\r\nEND\r\n")) trace [] ∧
      (run connectedWorld trace).bep.fd = connectedWorld.bep.fd ∧
      (run connectedWorld trace).bep.lastError = 0 ∧
      received trace = ascii "STAT a 1\r\nEND\r\n" := by
  have hreply : WholeReply (ascii "STAT a 1\r\n" ++ endMarker) :=
    wholeReply_append (by decide) (by decide) (by decide)
  have htext : ascii "STAT a 1\r\n" ++ endMarker = ascii "STAT a 1\r\nEND\r\n" := by
    decide
  rw [htext] at hreply
  apply spMemcacheReadReplies_assembles connectedWorld {} cutRounds [] _ (by decide) hreply
    (by decide)
  exact
    { live := by decide +kernel
      bytes := by decide +kernel
      unfinished := by decide +kernel }

end StatsProxy

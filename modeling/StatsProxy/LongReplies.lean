import StatsProxy.ReplyAssembly
import StatsProxy.StatsText

/-! Replies of any length and the array they are read into. The searches of the buffer
stop at a NUL, and a buffer that is full of a reply has none. -/
namespace StatsProxy
open CString Interaction Program Poller

/-- After each read the searches of the buffer end inside the array. -/
def InBounds (log : List Event) : Prop :=
  AtEach (fun before e => ∀ len data, e = .read len (.ok data) →
    Terminated (lastBuffer (received before) ++ data)) log

/-- What has no NUL is searched in bounds exactly if it is shorter than the array. -/
theorem inBounds_iff {log : List Event} (hnul : 0 ∉ received log) :
    InBounds log ↔ (received log).length < maxStatSz := by
  constructor
  · intro hin
    induction log using List.reverseRecOn with
    | nil => decide
    | append_singleton log e ih =>
      obtain ⟨hfront, hlast⟩ := atEach_snoc.mp hin
      rw [received_append] at hnul ⊢
      rw [List.mem_append, not_or] at hnul
      have hshort := ih hnul.1 hfront
      have hother : received [e] = [] ∨ ∃ len data, e = .read len (.ok data) := by
        cases e with
        | read len r =>
          cases r with
          | ok data => exact Or.inr ⟨len, data, rfl⟩
          | error e => exact Or.inl rfl
        | _ => exact Or.inl rfl
      rcases hother with hnone | ⟨len, data, rfl⟩
      · rw [hnone, List.append_nil]
        exact hshort
      · have hread := hlast len data rfl
        have hdata : received [.read len (.ok data)] = data := List.append_nil _
        rw [hdata] at hnul ⊢
        rw [lastBuffer_short hshort, terminated_iff, List.mem_append] at hread
        exact hread.resolve_left (not_or_intro hnul.1 hnul.2)
  · rintro hshort before e after rfl len data rfl
    have hdata : received (before ++ .read len (.ok data) :: after) =
        received before ++ (data ++ received after) := received_append _ _
    rw [hdata, List.length_append, List.length_append] at hshort
    rw [lastBuffer_short (by omega), terminated_iff, List.length_append]
    exact Or.inr (by omega)

/-- Lines of clean entries are read one by one, whatever follows them. -/
theorem addStats_lines_append {stats : List StatsEntry} (hclean : ∀ entry ∈ stats, entry.Clean)
    (rest : Bytes) :
    spMemcacheStatsAddStats
        (stats.flatMap (fun entry => statLine entry ++ ascii "\r\n") ++ rest) =
      stats ++ spMemcacheStatsAddStats rest := by
  induction stats with
  | nil => rfl
  | cons entry stats ih =>
    rw [List.forall_mem_cons] at hclean
    have hentry := hclean.1
    have hnul : 0 ∉ statLine entry ++ [13, 10] := by
      rw [List.mem_append, not_or]
      exact ⟨not_mem_statLine hentry.name.noNul hentry.text.noNul (by decide), by decide⟩
    have hline : ∀ ch ∈ statLine entry, ch ∉ ascii "\r\n" := by
      intro ch hch hend
      rcases mem_lineEnd.mp hend with rfl | rfl
      · exact (statLine_clean hentry).1 hch
      · exact (statLine_clean hentry).2 hch
    have hsplit : (entry :: stats).flatMap (fun entry => statLine entry ++ ascii "\r\n") ++ rest =
        statLine entry ++ [13, 10] ++
          (stats.flatMap (fun entry => statLine entry ++ ascii "\r\n") ++ rest) := by
      simp [ascii]
    rw [hsplit, addStats_eq_lines, cString_append hnul, List.append_assoc, List.cons_append,
      List.singleton_append, strtok_append_cons (by decide), strtok_delimiter (by decide),
      strtok_word (statLine_ne entry) hline, List.filterMap_append, ← addStats_eq_lines,
      ih hclean.2, List.filterMap_cons, lineEntry_statLine hentry]
    rfl

/-- A reply of stat lines with a terminator only at its end. -/
theorem wholeReply_stats {stats : List StatsEntry} (hclean : ∀ entry ∈ stats, entry.Clean)
    (honce : ∀ front back, rawPrintStats stats = front ++ endMarker ++ back → back = [])
    (hplain : ¬statCmdError <:+: rawPrintStats stats) : WholeReply (rawPrintStats stats) where
  noNul := rawPrintStats_noNul hclean
  ended := List.suffix_append _ _
  once := honce
  plain := hplain

/-- A reply of stat lines is read whole, to the entries of all its lines, and searched
in bounds, exactly if it is shorter than the buffer. -/
theorem spMemcacheReadReplies_whole_iff (w : World) (first : Answer) (rounds rest : List Answer)
    (stats : List StatsEntry) (hfd : 0 ≤ w.bep.fd) (hclean : ∀ entry ∈ stats, entry.Clean)
    (honce : ∀ front back, rawPrintStats stats = front ++ endMarker ++ back → back = [])
    (hplain : ¬statCmdError <:+: rawPrintStats stats)
    (h : DeliversReply w.bep.settings.readMs first.gettimeofday (rawPrintStats stats) rounds) :
    (∃ trace, spMemcacheReadReplies.exec w (first :: (roundAnswers rounds ++ rest)) =
        .done (0, spMemcacheStatsAddStats (rawPrintStats stats)) trace rest ∧
      received trace = rawPrintStats stats ∧ InBounds trace) ↔
      (rawPrintStats stats).length < maxStatSz := by
  have hreply := wholeReply_stats hclean honce hplain
  constructor
  · rintro ⟨trace, -, hreceived, hin⟩
    rw [← hreceived]
    exact (inBounds_iff (hreceived ▸ hreply.noNul)).mp hin
  · intro hlen
    obtain ⟨trace, hexec, hreceived, -⟩ := h.replies hfd hreply hlen rest
    refine ⟨trace, hexec, hreceived, (inBounds_iff ?_).mpr ?_⟩
    · exact hreceived ▸ hreply.noNul
    · exact hreceived ▸ hlen

theorem spMemcacheReadReplies_whole_iff_short :
    ∃ trace, spMemcacheReadReplies.exec connectedWorld
        (({} : Answer) :: (roundAnswers cutRounds ++ [])) =
        .done (0, spMemcacheStatsAddStats (rawPrintStats [⟨ascii "a", .alpha (ascii "1")⟩])) trace
          [] ∧
      received trace = rawPrintStats [⟨ascii "a", .alpha (ascii "1")⟩] ∧ InBounds trace := by
  have hclean : ∀ entry ∈ [(⟨ascii "a", .alpha (ascii "1")⟩ : StatsEntry)], entry.Clean := by
    intro entry hentry
    rw [List.mem_singleton.mp hentry]
    exact clean_alpha (by decide) (by decide)
  have hreply : WholeReply (rawPrintStats [⟨ascii "a", .alpha (ascii "1")⟩]) :=
    wholeReply_append (by decide) (by decide) (by decide)
  apply (spMemcacheReadReplies_whole_iff connectedWorld {} cutRounds [] _ (by decide) hclean
    hreply.once hreply.plain ?_).mpr (by decide)
  exact
    { live := by decide +kernel
      bytes := by decide +kernel
      unfinished := by decide +kernel }

/-! A reply of 2732 lines. The first buffer ends after the name of a stat. -/

def longStat : StatsEntry := ⟨ascii "ab", .alpha (ascii "12")⟩

def firstBuffer : Bytes :=
  (List.replicate 2730 longStat).flatMap (fun entry => statLine entry ++ ascii "\r\n") ++
    ascii "STAT ab "

def secondBuffer : Bytes := ascii "12\r\nSTAT ab 12\r\nEND\r\n"

def longRounds : List Answer := [{ read := .ok firstBuffer }, { read := .ok secondBuffer }]

theorem longStat_clean (n : Nat) : ∀ entry ∈ List.replicate n longStat, entry.Clean := by
  intro entry hentry
  rw [List.eq_of_mem_replicate hentry]
  exact clean_alpha (by decide) (by decide)

theorem firstBuffer_length : firstBuffer.length = maxStatSz := by
  have hline : (statLine longStat ++ ascii "\r\n").length = 12 := by
    decide
  rw [firstBuffer, List.length_append, List.length_flatMap, List.map_replicate, hline,
    List.sum_replicate]
  decide

/-- Each buffer parsed alone: the stat between them has no value in the first and no
name in the second. -/
theorem addStats_buffers :
    parseBuffers [firstBuffer] = List.replicate 2730 longStat ∧
      spMemcacheStatsAddStats secondBuffer = [longStat] := by
  have htail : spMemcacheStatsAddStats (ascii "STAT ab ") = [] := by
    decide
  refine ⟨?_, by decide⟩
  rw [parseBuffers, List.flatMap_singleton, firstBuffer,
    addStats_lines_append (longStat_clean 2730), htail, List.append_nil]

theorem longReply_split :
    rawPrintStats (List.replicate 2732 longStat) = firstBuffer ++ secondBuffer := by
  have hcount : 2732 = 2730 + 2 := rfl
  rw [hcount, List.replicate_add, rawPrintStats, List.flatMap_append, firstBuffer,
    List.append_assoc, List.append_assoc]
  rfl

theorem wholeReply_long : WholeReply (rawPrintStats (List.replicate 2732 longStat)) := by
  have hlines : ∀ ch : UInt8, ch ∉ statLine longStat ++ ascii "\r\n" →
      ch ∉ (List.replicate 2732 longStat).flatMap fun entry => statLine entry ++ ascii "\r\n" := by
    intro ch hline hmem
    obtain ⟨entry, hentry, hch⟩ := List.mem_flatMap.mp hmem
    rw [List.eq_of_mem_replicate hentry] at hch
    exact hline hch
  exact wholeReply_append (hlines 0 (by decide)) (hlines 69 (by decide)) (hlines 82 (by decide))

/-- A buffer that is filled by one read, and the rest of the reply by another. -/
theorem streamed_two {first second : Bytes} (hfirst : first.length = maxStatSz)
    (hsecond : second.length ≤ maxStatSz) :
    streamed [{ read := .ok first }] = first ∧
      streamed [{ read := .ok first }, { read := .ok second }] = first ++ second := by
  have hroom : room [] = maxStatSz := by
    decide
  have hfull : room first = maxStatSz := by
    rw [room, lastBuffer_length, hfirst, Nat.mod_self, Nat.sub_zero]
  have hone : streamed [{ read := .ok first }] = first := by
    show [] ++ first.take (room []) = first
    rw [hroom, ← hfirst, List.take_length, List.nil_append]
  refine ⟨hone, ?_⟩
  have hsnoc := streamed_snoc [{ read := .ok first }] { read := .ok second }
  rw [hone, hfull] at hsnoc
  have hfragment : Answer.fragment { read := .ok second } maxStatSz = second :=
    List.take_of_length_le hsecond
  rw [hfragment] at hsnoc
  exact hsnoc

theorem delivers_two {timeoutMs start : Int} {first second : Bytes}
    (hfirst : first.length = maxStatSz) (hsecond : second.length ≤ maxStatSz) (hne : second ≠ []) :
    DeliversReply timeoutMs start (first ++ second)
      [{ read := .ok first }, { read := .ok second }] where
  live := by
    rw [atEach_cons, atEach_cons]
    refine ⟨?_, hne, atEach_nil⟩
    rintro rfl
    contradiction
  bytes := (streamed_two hfirst hsecond).2
  unfinished := by
    rw [atEach_cons, atEach_cons, (streamed_two hfirst hsecond).1]
    refine ⟨?_, ?_, atEach_nil⟩
    · intro hnil
      exact hne (List.append_eq_nil_iff.mp hnil.symm).2
    · intro hsame
      exact hne (List.append_cancel_left ((List.append_nil _).trans hsame)).symm

/-- The stat that stands across the boundary of the buffers is lost. -/
theorem spMemcacheReadReplies_losesStat :
    (∀ entry ∈ List.replicate 2732 longStat, entry.Clean) ∧
      WholeReply (rawPrintStats (List.replicate 2732 longStat)) ∧
      DeliversReply connectedWorld.bep.settings.readMs 0
        (rawPrintStats (List.replicate 2732 longStat)) longRounds ∧
      ¬∃ trace, spMemcacheReadReplies.exec connectedWorld
          (({} : Answer) :: (roundAnswers longRounds ++ [])) =
          .done (0, spMemcacheStatsAddStats (rawPrintStats (List.replicate 2732 longStat))) trace
            [] ∧
        received trace = rawPrintStats (List.replicate 2732 longStat) := by
  refine ⟨longStat_clean 2732, wholeReply_long, ?_, ?_⟩
  · rw [longReply_split]
    exact delivers_two firstBuffer_length (by decide) (by decide)
  rintro ⟨trace, hexec, hreceived⟩
  obtain ⟨-, buffers, last, hend⟩ := replies_done (by decide) hexec
  obtain ⟨rfl, rfl⟩ := hend.two (hreceived.trans longReply_split) firstBuffer_length (by decide)
    (by decide)
  have hwhole : spMemcacheStatsAddStats (rawPrintStats (List.replicate 2732 longStat)) =
      List.replicate 2732 longStat := addStats_rawPrintStats (longStat_clean 2732)
  have hentries := hend.entries
  rw [hwhole, parseBuffers_snoc, addStats_buffers.1, addStats_buffers.2] at hentries
  rcases hentries with hfirst | hboth
  · have hlength := congrArg List.length hfirst
    rw [List.length_replicate, List.length_replicate] at hlength
    exact absurd hlength (by decide)
  · have hlength := congrArg List.length hboth
    rw [List.length_replicate, List.length_append, List.length_replicate] at hlength
    exact absurd hlength (by decide)

end StatsProxy

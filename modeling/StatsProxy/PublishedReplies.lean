import StatsProxy.ReplyLines
import StatsProxy.RepliesOutcome

/-! What `getStat` publishes of a reply that did not come whole. An error of the write
leaves the old list; an error of a read leaves what the full buffers before it have
yielded; and the end of the stream ends a reply wherever it is cut. -/
namespace StatsProxy
open CString Interaction Program Poller

/-- The write of `getStat` reports an error. -/
def WriteFails (w : World) (uri : Bytes) (inputs : List Answer) : Prop :=
  ∃ err wrote left, (spMemcacheWrite (statsCmd uri)).exec w inputs = .done err wrote left ∧ err ≠ 0

/-- The write is reported to be done, and the reading reports an error. -/
def ReadFails (w : World) (uri : Bytes) (inputs : List Answer) : Prop :=
  ∃ wrote left r reads after,
    (spMemcacheWrite (statsCmd uri)).exec w inputs = .done 0 wrote left ∧
    spMemcacheReadReplies.exec (run w wrote) left = .done r reads after ∧ r.1 ≠ 0

/-- The stream ended or the reading broke off, and there was no line `END`. -/
def Truncated (readMs : Int) (log : List Event) : Prop :=
  (HitEof log ∨ ¬Unbroken (session readMs log) log) ∧ ¬EndLine (received log)

section

variable {w : World} {i : Nat} {uri : Bytes} {inputs rest : List Answer} {trace : List Event}

theorem getStat_calls (h : (getStat i uri).exec w inputs = .done () trace rest) :
    ∃ err wrote left back, (spMemcacheWrite (statsCmd uri)).exec w inputs = .done err wrote left ∧
      (statReply i err).exec (run w wrote) left = .done () back rest ∧ trace = wrote ++ back := by
  rw [getStat_eq] at h
  obtain ⟨err, wrote, left, back, hwrite, hreply, rfl⟩ := bind_done h
  exact ⟨err, wrote, left, back, hwrite, hreply, rfl⟩

theorem statReply_sent (h : (statReply i 0).exec w inputs = .done () trace rest) :
    ∃ r reads left, spMemcacheReadReplies.exec w inputs = .done r reads left ∧
      trace = reads ++ update i ((run w reads).bep.stats i).length r.2 := by
  unfold statReply at h
  rw [if_pos rfl] at h
  obtain ⟨r, reads, left, back, hreads, hpublish, rfl⟩ := bind_done h
  exact ⟨r, reads, left, hreads, by rw [publish_done hpublish]⟩

theorem statReply_unsent {err : Nat} (herr : err ≠ 0)
    (h : (statReply i err).exec w inputs = .done () trace rest) : trace = [] := by
  unfold statReply at h
  rw [if_neg herr] at h
  cases h
  rfl

/-- The list that is published after a write is the one the reading has returned. -/
theorem stats_replied (w : World) {i : Nat} (hi : i < w.bep.uris.length) (wrote reads : List Event)
    (n : Nat) (entries : List StatsEntry) :
    (run w (wrote ++ (reads ++ update i n entries))).bep.stats i = entries := by
  rw [← List.append_assoc, run_append]
  apply stats_update_self
  rw [run_length]
  exact hi

/-- What is received in a call is what its reading receives. -/
theorem received_replied {wrote reads : List Event} (hwrote : ∀ e ∈ wrote, e.ofWrite = true)
    (i n : Nat) (entries : List StatsEntry) :
    received (wrote ++ (reads ++ update i n entries)) = received reads := by
  rw [received_append, received_append,
    received_nil fun e he => not_isRead_of_ofWrite (hwrote e he),
    received_nil fun e he => (silent_update e he).noRead, List.append_nil]
  rfl

/-- And what is refused in it is refused in its write. -/
theorem refused_replied (wrote : List Event) {reads : List Event}
    (hreads : ∀ e ∈ reads, e.ofRead = true) (i n : Nat) (entries : List StatsEntry) :
    Refused (wrote ++ (reads ++ update i n entries)) ↔ Refused wrote := by
  rw [refused_append]
  apply or_iff_left
  apply refused_unwritten
  intro e he
  rcases List.mem_append.mp he with he | he
  · exact not_isWrite_of_ofRead (hreads e he)
  · exact (silent_update e he).noWrite

theorem readFails_iff {wrote reads : List Event} {left after : List Answer}
    {r : Nat × List StatsEntry}
    (hwrite : (spMemcacheWrite (statsCmd uri)).exec w inputs = .done 0 wrote left)
    (hreads : spMemcacheReadReplies.exec (run w wrote) left = .done r reads after) :
    ReadFails w uri inputs ↔ r.1 ≠ 0 := by
  constructor
  · rintro ⟨wrote', left', r', reads', after', hwrite', hreads', herr⟩
    cases hwrite.symm.trans hwrite'
    cases hreads.symm.trans hreads'
    exact herr
  · intro hne
    exact ⟨wrote, left, r, reads, after, hwrite, hreads, hne⟩

theorem writeFails_iff {wrote : List Event} {left : List Answer} {err : Nat}
    (hwrite : (spMemcacheWrite (statsCmd uri)).exec w inputs = .done err wrote left) :
    WriteFails w uri inputs ↔ err ≠ 0 := by
  constructor
  · rintro ⟨err', wrote', left', hwrite', herr⟩
    cases hwrite.symm.trans hwrite'
    exact herr
  · intro hne
    exact ⟨err, wrote, left, hwrite, hne⟩

/-- Nothing is published of full buffers only if there are none. -/
theorem FullBuffers.nil_iff {buffers : List Bytes} (h : FullBuffers buffers) :
    parseBuffers buffers = [] ↔ buffers = [] := by
  constructor
  · intro hnone
    by_contra hne
    exact h.stats hne hnone
  · rintro rfl
    rfl

theorem FullBuffers.short_iff {buffers : List Bytes} {last : Bytes} (h : FullBuffers buffers)
    (hlast : last.length < maxStatSz) :
    (buffers.flatten ++ last).length < maxStatSz ↔ buffers = [] := by
  rw [List.length_append, h.flatten_length]
  constructor
  · intro hshort
    cases buffers with
    | nil => rfl
    | cons buffer buffers =>
      rw [List.length_cons, Nat.succ_mul] at hshort
      omega
  · rintro rfl
    simpa using hlast

/-- A call that reports an error publishes the full buffers: none of them, exactly if
less than one has been received. -/
theorem RepliesEnd.failed_iff {sk : SocketState} {fd : Int} {buffers : List Bytes} {last : Bytes}
    {r : Nat × List StatsEntry} {log : List Event} (h : RepliesEnd sk fd buffers last r w log)
    (herr : r.1 ≠ 0) : r.2 = [] ↔ (received log).length < maxStatSz := by
  rw [h.bytes]
  cases h.outcome with
  | noStats _ _ _ _ hresult => exact absurd (congrArg Prod.fst hresult) herr
  | ended _ _ hresult => exact absurd (congrArg Prod.fst hresult) herr
  | eof _ _ hresult => exact absurd (congrArg Prod.fst hresult) herr
  | cancelled _ hresult => exact absurd (congrArg Prod.fst hresult) herr
  | broken hroom _ _ hstats => rw [hstats, h.full.nil_iff, h.full.short_iff hroom]

/-- What is published of a reply that was cut: nothing, exactly if the reading broke off
in the first buffer, or the stream ended there and the buffer has no entry. -/
theorem RepliesEnd.truncated_iff {sk : SocketState} {fd : Int} {buffers : List Bytes}
    {last : Bytes} {r : Nat × List StatsEntry} {log : List Event}
    (h : RepliesEnd sk fd buffers last r w log) (hcut : HitEof log ∨ ¬Unbroken sk log) :
    r.2 = [] ↔ (¬Unbroken sk log ∧ (received log).length < maxStatSz) ∨
      (HitEof log ∧ (received log).length < maxStatSz ∧
        spMemcacheStatsAddStats (received log) = []) := by
  cases h.outcome with
  | noStats _ _ _ _ _ hhit hun => exact absurd hcut (not_or_intro hhit (not_not_intro hun))
  | ended _ _ _ hhit hun => exact absurd hcut (not_or_intro hhit (not_not_intro hun))
  | cancelled _ _ hhit hun => exact absurd hcut (not_or_intro hhit (not_not_intro hun))
  | broken hroom _ _ hstats hhit hun =>
    rw [and_iff_right hun, or_iff_left fun hend => hhit hend.1, h.bytes, hstats,
      h.full.nil_iff, h.full.short_iff hroom]
  | eof hroom _ hresult hhit hun =>
    rw [or_iff_right fun hbroke => hbroke.1 hun, and_iff_right hhit, hresult, parseBuffers_snoc,
      List.append_eq_nil_iff, h.full.nil_iff, h.bytes, h.full.short_iff hroom]
    apply and_congr_right
    rintro rfl
    rfl

end

/-- A failed `getStat` leaves an empty list exactly if no write failed over an old list,
and no read failed after a full buffer. -/
theorem getStat_dropsStale_iff (w : World) (i : Nat) (uri : Bytes) (inputs rest : List Answer)
    (trace : List Event) (hi : i < w.bep.uris.length) (hfd : -1 ≤ w.bep.fd)
    (h : (getStat i uri).exec w inputs = .done () trace rest) :
    (WriteFails w uri inputs ∨ ReadFails w uri inputs → (run w trace).bep.stats i = []) ↔
      (Refused trace → w.bep.stats i = []) ∧
        (ReadFails w uri inputs → (received trace).length < maxStatSz) := by
  obtain ⟨err, wrote, left, back, hwrite, hreply, rfl⟩ := getStat_calls h
  have hwrote := within_done (within_spMemcacheWrite (statsCmd uri)) hwrite
  have hwritten := write_done hfd hwrite
  by_cases herr : err = 0
  · subst herr
    obtain ⟨r, reads, after, hread, rfl⟩ := statReply_sent hreply
    have hreads := within_done within_spMemcacheReadReplies hread
    have hends := (replies_done (hwritten.fd_ge hfd) hread).2
    obtain ⟨buffers, last, hend⟩ := hends
    have hsent : ¬Refused wrote := hwritten.err.mp rfl
    rw [stats_replied w hi, received_replied hwrote, refused_replied wrote hreads,
      readFails_iff hwrite hread, writeFails_iff hwrite, or_iff_right (not_not_intro rfl),
      and_iff_right fun hrefused => absurd hrefused hsent]
    exact forall_congr' fun hne => hend.failed_iff hne
  · cases statReply_unsent herr hreply
    have hrefused : Refused (wrote ++ []) := by
      rw [List.append_nil]
      by_contra hnone
      exact herr (hwritten.err.mpr hnone)
    have hnoRead : ¬ReadFails w uri inputs := by
      rintro ⟨wrote', left', r', reads', after', hwrite', -⟩
      cases hwrite.symm.trans hwrite'
      exact herr rfl
    have hsame : (run w (wrote ++ [])).bep.stats i = w.bep.stats i := by
      rw [List.append_nil]
      exact run_stats w i hwrote
    rw [hsame, and_iff_left fun hfails => absurd hfails hnoRead, writeFails_iff hwrite]
    exact ⟨fun hempty _ => hempty (Or.inl herr), fun hempty _ => hempty hrefused⟩

/-- A poller whose uri already has an entry. -/
def polledWorld : World := run connectedWorld [.insertTail 0 ⟨ascii "pid", .alpha (ascii "1")⟩]

def sampleStat (inputs : List Answer) : Result Event Answer Unit :=
  (getStat 0 (ascii "items")).exec polledWorld inputs

/-- The answers to `getStat` up to the end of its write, which takes all. -/
def itemsSent : List Answer := [{ time := 0 }, { write := .ok 13 }, { time := 0 }]

/-- The events of that write. -/
def itemsWrote : List Event :=
  [.command (ascii "stats items\r\n"), .gettimeofday 0,
    .write (ascii "stats items\r\n") (.ok 13), .gettimeofday 0]

/-- The connection breaks after a first line. -/
def resetAnswers : List Answer :=
  [{ time := 0 }, { read := .ok (ascii "STAT pid 2\r\n") }, { time := 0 },
    { read := .error EBADF }]

theorem getStat_dropsStale_iff_reset :
    (run polledWorld (sampleStat (itemsSent ++ resetAnswers)).trace).bep.stats 0 = [] := by
  have hdone : sampleStat (itemsSent ++ resetAnswers) =
      .done () (sampleStat (itemsSent ++ resetAnswers)).trace [] := by
    decide +kernel
  have hsent : (sampleStat (itemsSent ++ resetAnswers)).trace.all (!·.writeFailed) := by
    decide +kernel
  have hfails : ReadFails polledWorld (ascii "items") (itemsSent ++ resetAnswers) := by
    refine ⟨itemsWrote, resetAnswers, (EBADF.code, []),
      [.gettimeofday 0, .read maxStatSz (.ok (ascii "STAT pid 2\r\n")), .gettimeofday 0,
        .read 32756 (.error EBADF), .close 3, .setFd (-1), .setLastError EBADF.code,
        .setLastError EBADF.code], [], ?_, ?_, by decide⟩
    all_goals decide +kernel
  apply (getStat_dropsStale_iff polledWorld 0 (ascii "items") _ [] _ (by decide) (by decide)
    hdone).mpr _ (Or.inr hfails)
  constructor
  · rintro ⟨offered, e, hmem⟩
    exact absurd (List.all_eq_true.mp hsent _ hmem) (by simp [Event.writeFailed])
  · intro _
    decide +kernel

/-- The write fails and the old entry stays. -/
theorem getStat_keepsStale :
    WriteFails polledWorld (ascii "items") [{ time := 0 }, { write := .error EBADF }] ∧
      ∃ trace, sampleStat [{ time := 0 }, { write := .error EBADF }] = .done () trace [] ∧
        (run polledWorld trace).bep.stats 0 = [⟨ascii "pid", .alpha (ascii "1")⟩] := by
  constructor
  · refine ⟨EBADF.code, [.command (ascii "stats items\r\n"), .gettimeofday 0,
      .write (ascii "stats items\r\n") (.error EBADF), .close 3, .setFd (-1),
      .setLastError EBADF.code], [], ?_, by decide⟩
    decide +kernel
  · refine ⟨(sampleStat [{ time := 0 }, { write := .error EBADF }]).trace, ?_, ?_⟩
    all_goals decide +kernel

/-- Of a reply that was cut `getStat` publishes nothing exactly if the reading broke off
in the first buffer, or the stream ended there and the buffer has no entry. -/
theorem getStat_truncated_iff (w : World) (i : Nat) (uri : Bytes) (inputs left rest : List Answer)
    (wrote back : List Event) (hi : i < w.bep.uris.length) (hfd : -1 ≤ w.bep.fd)
    (h : (getStat i uri).exec w inputs = .done () (wrote ++ back) rest)
    (hwrite : (spMemcacheWrite (statsCmd uri)).exec w inputs = .done 0 wrote left)
    (hcut : Truncated w.bep.settings.readMs back) :
    (run w (wrote ++ back)).bep.stats i = [] ↔
      (¬Unbroken (session w.bep.settings.readMs back) back ∧
        (received back).length < maxStatSz) ∨
      (HitEof back ∧ (received back).length < maxStatSz ∧
        spMemcacheStatsAddStats (received back) = []) := by
  obtain ⟨err', wrote', left', back', hwrite', hreply, hsplit⟩ := getStat_calls h
  cases hwrite.symm.trans hwrite'
  cases List.append_cancel_left hsplit
  obtain ⟨r, reads, after, hreads, rfl⟩ := statReply_sent hreply
  obtain ⟨-, buffers, last, hend⟩ := replies_done ((write_done hfd hwrite).fd_ge hfd) hreads
  have haside : ∀ e ∈ update i ((run (run w wrote) reads).bep.stats i).length r.2,
      e.aside = true := by
    intro e he
    obtain rfl | rfl | rfl | ⟨entry, rfl⟩ | rfl := mem_update he
    all_goals rfl
  have hsettings : (run w wrote).bep.settings = w.bep.settings := run_settings w wrote
  rw [hsettings] at hend
  have hsame : SameRead (session w.bep.settings.readMs reads) reads (reads ++
      update i ((run (run w wrote) reads).bep.stats i).length r.2) := sameRead_aside reads haside
  have hsession : session w.bep.settings.readMs (reads ++
      update i ((run (run w wrote) reads).bep.stats i).length r.2) =
      session w.bep.settings.readMs reads := by
    unfold session
    rw [hsame.readings]
  rw [stats_replied w hi]
  unfold Truncated at hcut
  rw [hsession] at hcut ⊢
  exact (hend.aside haside rfl).truncated_iff hcut.1

/-- The stream ends behind a name. -/
def nameAnswers : List Answer :=
  [{ time := 0 }, { read := .ok (ascii "STAT pid") }, { time := 0 }, { read := .ok [] },
    { time := 0 }]

theorem getStat_truncated_iff_name :
    ∃ back, sampleStat (itemsSent ++ nameAnswers) = .done () (itemsWrote ++ back) [] ∧
      HitEof back ∧ (run polledWorld (itemsWrote ++ back)).bep.stats 0 = [] := by
  have hdone : sampleStat (itemsSent ++ nameAnswers) =
      .done () (itemsWrote ++ (sampleStat (itemsSent ++ nameAnswers)).trace.drop 4) [] := by
    decide +kernel
  have hhit : HitEof ((sampleStat (itemsSent ++ nameAnswers)).trace.drop 4) :=
    ⟨32760, by decide +kernel⟩
  refine ⟨_, hdone, hhit, ?_⟩
  apply (getStat_truncated_iff polledWorld 0 (ascii "items") _ nameAnswers [] itemsWrote _
    (by decide) (by decide) hdone (by decide +kernel) ⟨Or.inl hhit, by decide +kernel⟩).mpr
  exact Or.inr ⟨hhit, by decide +kernel, by decide +kernel⟩

/-- The stream ends inside a value, and half of the value is published. -/
def cutAnswers : List Answer :=
  [{ time := 0 }, { read := .ok (ascii "STAT pid 1234") }, { time := 0 }, { read := .ok [] },
    { time := 0 }]

theorem getStat_publishesCut :
    (spMemcacheWrite (statsCmd (ascii "items"))).exec polledWorld (itemsSent ++ cutAnswers) =
      .done 0 itemsWrote cutAnswers ∧
    ∃ back, sampleStat (itemsSent ++ cutAnswers) = .done () (itemsWrote ++ back) [] ∧
      Truncated polledWorld.bep.settings.readMs back ∧
      (run polledWorld (itemsWrote ++ back)).bep.stats 0 =
        [⟨ascii "pid", .alpha (ascii "1234")⟩] := by
  refine ⟨by decide +kernel, (sampleStat (itemsSent ++ cutAnswers)).trace.drop 4,
    by decide +kernel, ⟨Or.inl ⟨32755, ?_⟩, ?_⟩, ?_⟩
  all_goals decide +kernel

end StatsProxy

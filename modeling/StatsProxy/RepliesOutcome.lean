import StatsProxy.CallEvents

/-! How a call of `spMemcacheReadReplies` can end, told from its events. What it has
received is cut into full buffers and a last one; the entries are those of the full
buffers and, unless the call was cancelled or broke off, those of the last. -/
namespace StatsProxy
open CString Interaction Program Poller

/-- `repliesStep` from the return of `spMemcacheRead` on. -/
def repliesNext (s : RepliesLoop) (r : ReadLoop) :
    Poller (RepliesLoop ⊕ Nat × List StatsEntry) :=
  if r.err = ECANCELED.code then return .inr (0, s.stats)
  else if r.err ≠ 0 then return .inr (r.err, s.stats)
  else
    let added := spMemcacheStatsAddStats r.data
    let validStatsCnt := s.validStatsCnt + added.length
    return .inl ⟨s.stats ++ added, validStatsCnt, r.done || validStatsCnt = 0, r.sk⟩

/-- The socket state that a call starts with, from its first clock reading. -/
def session (timeoutMs : Int) (log : List Event) : SocketState :=
  ⟨(readings log).headD 0, 0, timeoutMs, timeoutMs⟩

/-- The text of no marker stands in the buffer. -/
def Plain (buffer : Bytes) : Prop := hasEnd buffer = false ∧ hasError buffer = false

/-- The entries of buffers that are parsed one by one. -/
def parseBuffers (buffers : List Bytes) : List StatsEntry :=
  buffers.flatMap spMemcacheStatsAddStats

/-- The buffers before the last are full, without a marker, and have yielded a stat. -/
structure FullBuffers (buffers : List Bytes) : Prop where
  length : ∀ buffer ∈ buffers, buffer.length = maxStatSz
  plain : ∀ buffer ∈ buffers, Plain buffer
  stats : buffers ≠ [] → parseBuffers buffers ≠ []

/-- Why a call returns, with `last` as its last buffer. -/
inductive RepliesOutcome (sk : SocketState) (fd : Int) (buffers : List Bytes) (last : Bytes)
    (r : Nat × List StatsEntry) (w : World) (log : List Event) : Prop
  | noStats (first : buffers = []) (full : last.length = maxStatSz) (plain : Plain last)
      (none : spMemcacheStatsAddStats last = []) (result : r = (0, [])) (eof : ¬HitEof log)
      (unbroken : Unbroken sk log) (open' : w.bep.fd = fd)
  | ended (marker : hasEnd last = true) (plain : hasError last = false)
      (result : r = (0, parseBuffers (buffers ++ [last]))) (eof : ¬HitEof log)
      (unbroken : Unbroken sk log) (open' : w.bep.fd = fd)
  | eof (room : last.length < maxStatSz) (plain : Plain last)
      (result : r = (0, parseBuffers (buffers ++ [last]))) (eof : HitEof log)
      (unbroken : Unbroken sk log) (open' : w.bep.fd = fd)
  | cancelled (marker : hasError last = true) (result : r = (0, parseBuffers buffers))
      (eof : ¬HitEof log) (unbroken : Unbroken sk log) (closed : w.bep.fd = -1)
  | broken (room : last.length < maxStatSz) (plain : Plain last)
      (err : r.1 = 0 → SelfCancelled log) (stats : r.2 = parseBuffers buffers)
      (eof : ¬HitEof log) (broken : ¬Unbroken sk log) (closed : w.bep.fd = -1)

/-- What a call of `spMemcacheReadReplies` leaves. -/
structure RepliesEnd (sk : SocketState) (fd : Int) (buffers : List Bytes) (last : Bytes)
    (r : Nat × List StatsEntry) (w : World) (log : List Event) : Prop where
  bytes : received log = buffers.flatten ++ last
  length : last.length ≤ maxStatSz
  full : FullBuffers buffers
  outcome : RepliesOutcome sk fd buffers last r w log

section

variable {sk sk' : SocketState} {fd : Int} {log more : List Event}

theorem parseBuffers_snoc (buffers : List Bytes) (last : Bytes) :
    parseBuffers (buffers ++ [last]) = parseBuffers buffers ++ spMemcacheStatsAddStats last := by
  simp [parseBuffers]

theorem FullBuffers.flatten_length {buffers : List Bytes} (h : FullBuffers buffers) :
    buffers.flatten.length = buffers.length * maxStatSz := by
  have hlength := h.length
  clear h
  induction buffers with
  | nil => simp
  | cons buffer buffers ih =>
    rw [List.forall_mem_cons] at hlength
    rw [List.flatten_cons, List.length_append, ih hlength.2, hlength.1, List.length_cons,
      Nat.succ_mul, Nat.add_comm]

/-- The entries are those of the full buffers, or of all. -/
theorem RepliesEnd.entries {buffers : List Bytes} {last : Bytes} {r : Nat × List StatsEntry}
    {w : World} (h : RepliesEnd sk fd buffers last r w log) :
    r.2 = parseBuffers buffers ∨ r.2 = parseBuffers (buffers ++ [last]) := by
  cases h.outcome with
  | noStats hfirst _ _ _ hresult =>
    rw [hfirst, hresult]
    exact Or.inl rfl
  | ended _ _ hresult => exact Or.inr (congrArg Prod.snd hresult)
  | eof _ _ hresult => exact Or.inr (congrArg Prod.snd hresult)
  | cancelled _ hresult => exact Or.inl (congrArg Prod.snd hresult)
  | broken _ _ _ hstats => exact Or.inl hstats

/-- Bytes that fill one buffer and part of another are cut there. -/
theorem RepliesEnd.two {buffers : List Bytes} {last first second : Bytes}
    {r : Nat × List StatsEntry} {w : World} (h : RepliesEnd sk fd buffers last r w log)
    (hreceived : received log = first ++ second) (hfirst : first.length = maxStatSz)
    (hpos : 0 < second.length) (hsecond : second.length < maxStatSz) :
    buffers = [first] ∧ last = second := by
  have hbytes := hreceived.symm.trans h.bytes
  have hone : buffers.length = 1 := by
    have hlength := congrArg List.length hbytes
    have hlast := h.length
    have hmax : maxStatSz = 32768 := rfl
    rw [List.length_append, List.length_append, h.full.flatten_length, hfirst, hmax] at hlength
    rw [hmax] at hsecond hlast
    omega
  obtain ⟨buffer, rfl⟩ := List.length_eq_one_iff.mp hone
  have hfull : buffer.length = maxStatSz := h.full.length buffer (List.mem_singleton_self _)
  rw [List.flatten_singleton] at hbytes
  obtain ⟨rfl, rfl⟩ := List.append_inj hbytes (hfirst.trans hfull.symm)
  exact ⟨rfl, rfl⟩

/-- A socket state that carries on where the log has led another. -/
structure CarriesOn (sk : SocketState) (log : List Event) (sk' : SocketState) : Prop where
  startTime : sk'.startTime = sk.startTime
  timeout : sk'.timeout = sk.timeout
  timeRemaining : sk'.timeRemaining = timeLeft sk log

theorem CarriesOn.timeLeft (h : CarriesOn sk log sk') (more : List Event) :
    timeLeft sk (log ++ more) = timeLeft sk' more := by
  unfold StatsProxy.timeLeft
  rw [readings_append]
  rcases List.eq_nil_or_concat' (readings more) with hnone | ⟨front, now, hsome⟩
  · rw [hnone, List.append_nil]
    exact h.timeRemaining.symm
  · rw [hsome, ← List.append_assoc, List.getLast?_concat, List.getLast?_concat]
    dsimp only
    rw [h.startTime, h.timeout]

theorem CarriesOn.unbroken (h : CarriesOn sk log sk') :
    Unbroken sk (log ++ more) ↔ Unbroken sk log ∧ Unbroken sk' more := by
  have hbreaks : ∀ before e, Breaks sk (log ++ before) e ↔ Breaks sk' before e := by
    intro before e
    cases e with
    | read len r =>
      cases r with
      | ok data => exact Iff.rfl
      | error e => simp only [Breaks, h.timeLeft]
    | poll r => cases r <;> exact Iff.rfl
    | _ => exact Iff.rfl
  unfold Unbroken
  rw [atEach_append]
  simp only [hbreaks]

theorem hitEof_append : HitEof (log ++ more) ↔ HitEof log ∨ HitEof more := by
  constructor
  · rintro ⟨len, hmem⟩
    rcases List.mem_append.mp hmem with hmem | hmem
    · exact Or.inl ⟨len, hmem⟩
    · exact Or.inr ⟨len, hmem⟩
  · rintro (⟨len, hmem⟩ | ⟨len, hmem⟩)
    · exact ⟨len, List.mem_append_left _ hmem⟩
    · exact ⟨len, List.mem_append_right _ hmem⟩

/-- The loop of `spMemcacheReadReplies` goes on after these buffers. -/
structure Buffered (sk : SocketState) (fd : Int) (s : RepliesLoop) (buffers : List Bytes)
    (x : World × List Event) : Prop where
  received : received x.2 = buffers.flatten
  full : FullBuffers buffers
  stats : s.stats = parseBuffers buffers
  count : s.validStatsCnt = s.stats.length
  carries : CarriesOn sk x.2 s.sk
  eof : ¬HitEof x.2
  unbroken : Unbroken sk x.2
  open' : x.1.bep.fd = fd

/-- How the loop stands at its condition. -/
def RepliesHeld (sk : SocketState) (fd : Int) (s : RepliesLoop) (x : World × List Event) : Prop :=
  (s.done = false ∧ ∃ buffers, Buffered sk fd s buffers x) ∨
    (s.done = true ∧ ∃ buffers last, RepliesEnd sk fd buffers last (0, s.stats) x.1 x.2)

def RepliesAfter (sk : SocketState) (fd : Int) :
    RepliesLoop ⊕ Nat × List StatsEntry → World × List Event → Prop
  | .inl next, y => RepliesHeld sk fd next y
  | .inr r, y => ∃ buffers last, RepliesEnd sk fd buffers last r y.1 y.2

theorem FullBuffers.snoc {buffers : List Bytes} {last : Bytes} (h : FullBuffers buffers)
    (hlength : last.length = maxStatSz) (hplain : Plain last)
    (hstats : parseBuffers (buffers ++ [last]) ≠ []) : FullBuffers (buffers ++ [last]) where
  length := List.forall_mem_append.mpr ⟨h.length, List.forall_mem_singleton.mpr hlength⟩
  plain := List.forall_mem_append.mpr ⟨h.plain, List.forall_mem_singleton.mpr hplain⟩
  stats := fun _ => hstats

theorem repliesStep_eq {s : RepliesLoop} (h : s.done = false) :
    repliesStep s = spMemcacheRead maxStatSz s.sk false >>= repliesNext s := by
  unfold repliesStep
  rw [h]
  rfl

/-- The loop has read another buffer. -/
structure BufferRead (sk : SocketState) (fd : Int) (s : RepliesLoop) (buffers : List Bytes)
    (r : ReadLoop) (x : World × List Event) : Prop where
  received : received x.2 = buffers.flatten ++ r.data
  length : r.data.length ≤ maxStatSz
  full : FullBuffers buffers
  stats : s.stats = parseBuffers buffers
  count : s.validStatsCnt = s.stats.length
  carries : CarriesOn sk x.2 r.sk
  outcome : ReadOutcome maxStatSz sk fd r x.1 x.2

/-- How a read ends that began after a log. -/
theorem Buffered.outcome {s : RepliesLoop} {buffers : List Bytes} {x : World × List Event}
    (h : Buffered sk fd s buffers x) {len : Nat} {r : ReadLoop} {w : World}
    (hread : ReadOutcome len s.sk fd r w more) : ReadOutcome len sk fd r w (x.2 ++ more) := by
  have hunbroken : Unbroken sk (x.2 ++ more) ↔ Unbroken s.sk more := by
    rw [h.carries.unbroken, and_iff_right h.unbroken]
  have heof : HitEof (x.2 ++ more) ↔ HitEof more := by
    rw [hitEof_append, or_iff_right h.eof]
  cases hread with
  | full herr hdone hfull hplain hhit hun hopen =>
    exact .full herr hdone hfull hplain (heof.not.mpr hhit) (hunbroken.mpr hun) hopen
  | ended herr hdone hmarker hplain hhit hun hopen =>
    exact .ended herr hdone hmarker hplain (heof.not.mpr hhit) (hunbroken.mpr hun) hopen
  | eof herr hdone hroom hplain hhit hun hopen =>
    exact .eof herr hdone hroom hplain (heof.mpr hhit) (hunbroken.mpr hun) hopen
  | cancelled herr hdone hmarker hhit hun hclosed =>
    exact .cancelled herr hdone hmarker (heof.not.mpr hhit) (hunbroken.mpr hun) hclosed
  | broken herr hdone hroom hplain hhit hun hself hclosed =>
    refine .broken herr hdone hroom hplain (heof.not.mpr hhit) (hunbroken.not.mpr hun)
      (fun hcode => ?_) hclosed
    rcases hself hcode with ⟨n, hmem⟩ | hmem
    · exact Or.inl ⟨n, List.mem_append_right _ hmem⟩
    · exact Or.inr (List.mem_append_right _ hmem)

theorem Buffered.read {s : RepliesLoop} {buffers : List Bytes} {x : World × List Event}
    (h : Buffered sk fd s buffers x) {r : ReadLoop} {w : World}
    (hread : ReadEnd maxStatSz s.sk fd r w more) :
    BufferRead sk fd s buffers r (w, x.2 ++ more) where
  received := by
    rw [received_append, h.received, hread.data]
  length := hread.length
  full := h.full
  stats := h.stats
  count := h.count
  carries :=
    { startTime := hread.startTime.trans h.carries.startTime
      timeout := hread.timeout.trans h.carries.timeout
      timeRemaining := hread.timeRemaining.trans (h.carries.timeLeft more).symm }
  outcome := h.outcome hread.outcome

section

variable {s : RepliesLoop} {buffers : List Bytes} {r : ReadLoop} {x : World × List Event}

theorem BufferRead.ends (h : BufferRead sk fd s buffers r x) {result : Nat × List StatsEntry}
    (outcome : RepliesOutcome sk fd buffers r.data result x.1 x.2) :
    ∃ buffers last, RepliesEnd sk fd buffers last result x.1 x.2 :=
  ⟨buffers, r.data, h.received, h.length, h.full, outcome⟩

/-- The list after the buffer has been parsed. -/
theorem BufferRead.added (h : BufferRead sk fd s buffers r x) :
    s.stats ++ spMemcacheStatsAddStats r.data = parseBuffers (buffers ++ [r.data]) := by
  rw [parseBuffers_snoc, h.stats]

/-- A count of zero after a buffer is that of the first one. -/
theorem BufferRead.none (h : BufferRead sk fd s buffers r x)
    (hnone : s.validStatsCnt + (spMemcacheStatsAddStats r.data).length = 0) :
    buffers = [] ∧ s.stats = [] ∧ spMemcacheStatsAddStats r.data = [] := by
  obtain ⟨hcount, hadded⟩ := Nat.add_eq_zero_iff.mp hnone
  have hempty : s.stats = [] := List.eq_nil_of_length_eq_zero (h.count.symm.trans hcount)
  refine ⟨?_, hempty, List.eq_nil_of_length_eq_zero hadded⟩
  by_contra hne
  exact h.full.stats hne (h.stats ▸ hempty)

/-- A full buffer that has not ended the loop. -/
theorem BufferRead.next (h : BufferRead sk fd s buffers r x)
    (hsome : s.validStatsCnt + (spMemcacheStatsAddStats r.data).length ≠ 0)
    (hfull : r.data.length = maxStatSz) (hplain : Plain r.data) (hhit : ¬HitEof x.2)
    (hun : Unbroken sk x.2) (hopen : x.1.bep.fd = fd) (done : Bool) :
    Buffered sk fd ⟨s.stats ++ spMemcacheStatsAddStats r.data,
      s.validStatsCnt + (spMemcacheStatsAddStats r.data).length, done, r.sk⟩
      (buffers ++ [r.data]) x where
  received := by
    rw [h.received]
    simp
  full := by
    apply h.full.snoc hfull hplain
    rw [← h.added]
    intro hnil
    have hlength := congrArg List.length hnil
    rw [List.length_append, ← h.count] at hlength
    exact hsome hlength
  stats := h.added
  count := by
    rw [List.length_append, h.count]
  carries := h.carries
  eof := hhit
  unbroken := hun
  open' := hopen

theorem calls_repliesNext (h : BufferRead sk fd s buffers r x) :
    Calls (repliesNext s r) (RepliesAfter sk fd) x := by
  have hcancel : (0 : Nat) ≠ ECANCELED.code := by decide
  unfold repliesNext
  cases h.outcome with
  | full herr hrdone hfull hplain hhit hun hopen =>
    rw [if_neg (herr ▸ hcancel), if_neg (not_not_intro herr)]
    apply wlp_pure
    by_cases hnone : s.validStatsCnt + (spMemcacheStatsAddStats r.data).length = 0
    · obtain ⟨hfirst, hempty, hadded⟩ := h.none hnone
      refine Or.inr ⟨by simp [hnone], h.ends ?_⟩
      refine .noStats hfirst hfull hplain hadded ?_ hhit hun hopen
      rw [hempty, hadded]
      rfl
    · refine Or.inl ⟨?_, buffers ++ [r.data], h.next hnone hfull hplain hhit hun hopen _⟩
      rw [hrdone, Bool.false_or]
      exact decide_eq_false hnone
  | ended herr hrdone hmarker hplain hhit hun hopen =>
    rw [if_neg (herr ▸ hcancel), if_neg (not_not_intro herr)]
    apply wlp_pure
    refine Or.inr ⟨by simp [hrdone], h.ends ?_⟩
    exact .ended hmarker hplain (by rw [← h.added]) hhit hun hopen
  | eof herr hrdone hroom hplain hhit hun hopen =>
    rw [if_neg (herr ▸ hcancel), if_neg (not_not_intro herr)]
    apply wlp_pure
    refine Or.inr ⟨by simp [hrdone], h.ends ?_⟩
    exact .eof hroom hplain (by rw [← h.added]) hhit hun hopen
  | cancelled herr hrdone hmarker hhit hun hclosed =>
    rw [if_pos herr]
    apply wlp_pure
    exact h.ends (.cancelled hmarker (by rw [h.stats]) hhit hun hclosed)
  | broken herr hrdone hroom hplain hhit hun hself hclosed =>
    by_cases hcode : r.err = ECANCELED.code
    · rw [if_pos hcode]
      apply wlp_pure
      exact h.ends (.broken hroom hplain (fun _ => hself hcode) h.stats hhit hun hclosed)
    · rw [if_neg hcode, if_pos herr]
      apply wlp_pure
      exact h.ends (.broken hroom hplain (fun hzero => absurd hzero herr) h.stats hhit hun hclosed)

end

theorem calls_repliesStep {s : RepliesLoop} {x : World × List Event} (hfd : -1 ≤ fd)
    (h : RepliesHeld sk fd s x) : Calls (repliesStep s) (RepliesAfter sk fd) x := by
  rcases h with ⟨hdone, buffers, hbuffered⟩ | ⟨hdone, hend⟩
  · rw [repliesStep_eq hdone]
    apply wlp_bind
    apply wlp_post (wlp_shift x.2 (calls_spMemcacheRead hfd x.1 hbuffered.open'))
    rintro r ⟨w, log⟩ ⟨more, hlog, hread⟩
    dsimp only at hlog hread
    subst hlog
    exact calls_repliesNext (hbuffered.read hread)
  · unfold repliesStep
    rw [hdone, if_pos rfl]
    apply wlp_pure
    exact hend

/-- Events that tell nothing of the reading change nothing of it. -/
theorem RepliesEnd.aside {buffers : List Bytes} {last : Bytes} {r : Nat × List StatsEntry}
    {w w' : World} (h : RepliesEnd sk fd buffers last r w log) (hmore : ∀ e ∈ more, e.aside = true)
    (hfd : w'.bep.fd = w.bep.fd) : RepliesEnd sk fd buffers last r w' (log ++ more) := by
  have hsame : SameRead sk log (log ++ more) := sameRead_aside log hmore
  refine ⟨hsame.received.trans h.bytes, h.length, h.full, ?_⟩
  cases h.outcome with
  | noStats h₁ h₂ h₃ h₄ h₅ h₆ h₇ h₈ =>
    exact .noStats h₁ h₂ h₃ h₄ h₅ (hsame.eof.not.mpr h₆) (hsame.unbroken.mpr h₇) (hfd.trans h₈)
  | ended h₁ h₂ h₃ h₄ h₅ h₆ =>
    exact .ended h₁ h₂ h₃ (hsame.eof.not.mpr h₄) (hsame.unbroken.mpr h₅) (hfd.trans h₆)
  | eof h₁ h₂ h₃ h₄ h₅ h₆ =>
    exact .eof h₁ h₂ h₃ (hsame.eof.mpr h₄) (hsame.unbroken.mpr h₅) (hfd.trans h₆)
  | cancelled h₁ h₂ h₃ h₄ h₅ =>
    exact .cancelled h₁ h₂ (hsame.eof.not.mpr h₃) (hsame.unbroken.mpr h₄) (hfd.trans h₅)
  | broken h₁ h₂ h₃ h₄ h₅ h₆ h₇ =>
    refine .broken h₁ h₂ (fun hzero => ?_) h₄ (hsame.eof.not.mpr h₅) (hsame.unbroken.not.mpr h₆)
      (hfd.trans h₇)
    rcases h₃ hzero with ⟨len, hmem⟩ | hmem
    · exact Or.inl ⟨len, List.mem_append_left _ hmem⟩
    · exact Or.inr (List.mem_append_left _ hmem)

theorem session_eq {timeoutMs start : Int} (h : (readings log).head? = some start) :
    session timeoutMs log = ⟨start, 0, timeoutMs, timeoutMs⟩ := by
  unfold session
  rw [List.headD_eq_head?_getD, h]
  rfl

theorem calls_spMemcacheReadReplies {w : World} (hfd : -1 ≤ w.bep.fd) :
    Calls spMemcacheReadReplies (fun r y => y.1.bep.lastError = r.1 ∧ ∃ buffers last,
      RepliesEnd (session w.bep.settings.readMs y.2) w.bep.fd buffers last r y.1 y.2)
      (w, []) := by
  apply wlp_bind
  apply wlp_backend
  apply wlp_bind
  apply wlp_bind
  apply wlp_call trivial
  intro start
  apply wlp_pure
  apply wlp_bind
  have hloop : Calls (loop repliesStep ⟨[], 0, false, ⟨start, 0, w.bep.settings.readMs,
      w.bep.settings.readMs⟩⟩) (fun r y => ∃ buffers last,
        RepliesEnd ⟨start, 0, w.bep.settings.readMs, w.bep.settings.readMs⟩ w.bep.fd buffers last r
          y.1 y.2) (Machine.after (w, []) (.gettimeofday start)) := by
    apply wlp_loop (fun s y => RepliesHeld ⟨start, 0, w.bep.settings.readMs,
      w.bep.settings.readMs⟩ w.bep.fd s y) (fun _ _ _ => trivial)
    · intro s y hy
      apply wlp_post (calls_repliesStep hfd hy)
      intro r z hz
      cases r <;> exact hz
    · refine Or.inl ⟨rfl, [], ?_⟩
      exact
        { received := rfl
          full := ⟨nofun, nofun, fun h => absurd rfl h⟩
          stats := rfl
          count := rfl
          carries := ⟨rfl, rfl, by simp [timeLeft, readings, Machine.after, Event.reading]⟩
          eof := by simp [HitEof, Machine.after]
          unbroken := unbroken_snoc.mpr ⟨atEach_nil, id⟩
          open' := rfl }
  apply wlp_post (wlp_log hloop)
  rintro r y ⟨⟨buffers, last, hend⟩, hleads⟩
  apply wlp_bind
  apply wlp_emit
  intro _
  apply wlp_pure
  refine ⟨rfl, buffers, last, ?_⟩
  obtain ⟨more, hmore⟩ := hleads
  have hstart : (readings (y.2 ++ [.setLastError r.1])).head? = some start := by
    rw [← hmore]
    rfl
  show RepliesEnd (session _ (y.2 ++ [.setLastError r.1])) _ _ _ _ _ (y.2 ++ [.setLastError r.1])
  rw [session_eq hstart]
  exact hend.aside (by simp [Event.aside]) rfl

/-- What is known of a call that has returned. -/
theorem replies_done {w : World} {inputs rest : List Answer} {r : Nat × List StatsEntry}
    {trace : List Event} (hfd : -1 ≤ w.bep.fd)
    (h : spMemcacheReadReplies.exec w inputs = .done r trace rest) :
    (run w trace).bep.lastError = r.1 ∧ ∃ buffers last,
      RepliesEnd (session w.bep.settings.readMs trace) w.bep.fd buffers last r (run w trace)
        trace := by
  have hcalls := calls_spMemcacheReadReplies hfd inputs
  rw [h] at hcalls
  have hend := hcalls (allowed_true _ _)
  rwa [Result.Reaches, run_prod, run_log, List.nil_append] at hend

end

end StatsProxy

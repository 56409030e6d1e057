import StatsProxy.WriteResult

/-! How a call of `spMemcacheRead` can end, told from its events: the buffer holds
what has been received, and the call is over because the buffer is full, because
of what it holds, because of the end of the stream, or because it broke off. -/
namespace StatsProxy
open CString Interaction Program Poller

def Event.delivered : Event → Bytes
  | .read _ (.ok data) => data
  | _ => []

/-- All bytes that the reads have delivered. -/
def received (log : List Event) : Bytes := log.flatMap Event.delivered

/-- Whether the buffer, as a string, has the text that ends a reply. -/
def hasEnd (data : Bytes) : Bool := strstr (cString data) endMarker
def hasError (data : Bytes) : Bool := strstr (cString data) statCmdError

/-- A read has found the end of the stream. -/
def HitEof (log : List Event) : Prop := ∃ len, Event.read len (.ok []) ∈ log

/-- The time left at the last clock reading of the log. -/
def timeLeft (sk : SocketState) (log : List Event) : Int :=
  match (readings log).getLast? with
  | none => sk.timeRemaining
  | some now => sk.timeout - (now - sk.startTime).natAbs

/-- The event ends the call: the connection is broken, the time has run out, or the
poll has failed. -/
def Breaks (sk : SocketState) (before : List Event) : Event → Prop
  | .read _ (.error e) => (e ≠ EINTR ∧ e ≠ EAGAIN) ∨ timeLeft sk before ≤ 0
  | .poll (.failed _) => True
  | _ => False

def Unbroken (sk : SocketState) : List Event → Prop := AtEach fun before e => ¬Breaks sk before e

/-- A system call has itself failed with `ECANCELED`. -/
def SelfCancelled (log : List Event) : Prop :=
  (∃ len, Event.read len (.error ECANCELED) ∈ log) ∨ .poll (.failed ECANCELED) ∈ log

/-- Why a call returns. -/
inductive ReadOutcome (len : Nat) (sk : SocketState) (fd : Int) (r : ReadLoop) (w : World)
    (log : List Event) : Prop
  | full (err : r.err = 0) (done : r.done = false) (full : r.data.length = len)
      (plain : hasEnd r.data = false ∧ hasError r.data = false) (eof : ¬HitEof log)
      (unbroken : Unbroken sk log) (open' : w.bep.fd = fd)
  | ended (err : r.err = 0) (done : r.done = true) (marker : hasEnd r.data = true)
      (plain : hasError r.data = false) (eof : ¬HitEof log) (unbroken : Unbroken sk log)
      (open' : w.bep.fd = fd)
  | eof (err : r.err = 0) (done : r.done = true) (room : r.data.length < len)
      (plain : hasEnd r.data = false ∧ hasError r.data = false) (eof : HitEof log)
      (unbroken : Unbroken sk log) (open' : w.bep.fd = fd)
  | cancelled (err : r.err = ECANCELED.code) (done : r.done = hasEnd r.data)
      (marker : hasError r.data = true) (eof : ¬HitEof log) (unbroken : Unbroken sk log)
      (closed : w.bep.fd = -1)
  | broken (err : r.err ≠ 0) (done : r.done = false) (room : r.data.length < len)
      (plain : hasEnd r.data = false ∧ hasError r.data = false) (eof : ¬HitEof log)
      (broken : ¬Unbroken sk log) (self : r.err = ECANCELED.code → SelfCancelled log)
      (closed : w.bep.fd = -1)

/-- What a call of `spMemcacheRead` leaves. -/
structure ReadEnd (len : Nat) (sk : SocketState) (fd : Int) (r : ReadLoop) (w : World)
    (log : List Event) : Prop where
  data : r.data = received log
  length : r.data.length ≤ len
  startTime : r.sk.startTime = sk.startTime
  timeout : r.sk.timeout = sk.timeout
  timeRemaining : r.sk.timeRemaining = timeLeft sk log
  opened : r.data ≠ [] → 0 ≤ fd
  outcome : ReadOutcome len sk fd r w log

section

variable {len : Nat} {sk : SocketState} {fd : Int}

theorem received_append (log more : List Event) :
    received (log ++ more) = received log ++ received more :=
  List.flatMap_append

theorem timeLeft_snoc (sk : SocketState) (log : List Event) (e : Event)
    (he : e.reading = none) : timeLeft sk (log ++ [e]) = timeLeft sk log := by
  unfold timeLeft
  rw [readings_append]
  simp [readings, he]

theorem timeLeft_reading (sk : SocketState) (log : List Event) (now : Int) :
    timeLeft sk (log ++ [.gettimeofday now]) = sk.timeout - (now - sk.startTime).natAbs := by
  unfold timeLeft
  rw [readings_append]
  simp [readings, Event.reading]

theorem unbroken_snoc {log : List Event} {e : Event} :
    Unbroken sk (log ++ [e]) ↔ Unbroken sk log ∧ ¬Breaks sk log e :=
  atEach_snoc

theorem hitEof_snoc {log : List Event} {e : Event} (he : ∀ len, e ≠ .read len (.ok [])) :
    HitEof (log ++ [e]) ↔ HitEof log := by
  constructor
  · rintro ⟨len, hmem⟩
    rcases List.mem_append.mp hmem with hmem | hmem
    · exact ⟨len, hmem⟩
    · exact absurd (List.mem_singleton.mp hmem).symm (he len)
  · rintro ⟨len, hmem⟩
    exact ⟨len, List.mem_append_left _ hmem⟩

/-- A call that goes on has seen no `ECANCELED`. -/
theorem Unbroken.not_selfCancelled {log : List Event} (h : Unbroken sk log) :
    ¬SelfCancelled log := by
  rintro (⟨len, hmem⟩ | hmem)
  · obtain ⟨before, after, hsplit⟩ := List.append_of_mem hmem
    exact h before _ after hsplit (Or.inl ⟨by decide, by decide⟩)
  · obtain ⟨before, after, hsplit⟩ := List.append_of_mem hmem
    exact h before _ after hsplit trivial

/-- An event that tells nothing of the reading. -/
def Event.aside : Event → Bool
  | .read .. | .poll _ | .gettimeofday _ => false
  | _ => true

theorem aside_of_atLabel {e : Event} (h : e.atLabel = true) : e.aside = true := by
  cases e <;> first | rfl | contradiction

/-- What such events leave as it is. -/
structure SameRead (sk : SocketState) (log log' : List Event) : Prop where
  received : received log' = received log
  readings : readings log' = readings log
  eof : HitEof log' ↔ HitEof log
  unbroken : Unbroken sk log' ↔ Unbroken sk log
  leads : log <+: log'

theorem sameRead_aside (log : List Event) {more : List Event}
    (h : ∀ e ∈ more, e.aside = true) : SameRead sk log (log ++ more) where
  received := by
    have hnone : StatsProxy.received more = [] := by
      rw [StatsProxy.received, List.flatMap_eq_nil_iff]
      intro e he
      have haside := h e he
      cases e <;> first | rfl | contradiction
    rw [received_append, hnone, List.append_nil]
  readings := by
    have hnone : StatsProxy.readings more = [] := by
      rw [StatsProxy.readings, List.filterMap_eq_nil_iff]
      intro e he
      have haside := h e he
      cases e <;> first | rfl | contradiction
    rw [readings_append, hnone, List.append_nil]
  eof := by
    constructor
    · rintro ⟨len, hmem⟩
      rcases List.mem_append.mp hmem with hmem | hmem
      · exact ⟨len, hmem⟩
      · exact absurd (h _ hmem) (by simp [Event.aside])
    · rintro ⟨len, hmem⟩
      exact ⟨len, List.mem_append_left _ hmem⟩
  unbroken := by
    unfold Unbroken
    rw [atEach_append]
    apply and_iff_left
    apply atEach_of_mem
    intro e he before hbreaks
    have haside := h e he
    cases e <;> first | exact hbreaks | contradiction
  leads := List.prefix_append _ _

theorem SameRead.timeLeft {log log' : List Event} (h : SameRead sk log log') :
    timeLeft sk log' = timeLeft sk log := by
  unfold StatsProxy.timeLeft
  rw [h.readings]

/-- How the loop stands at its condition. -/
structure Filling (len : Nat) (sk : SocketState) (fd : Int) (s : ReadLoop)
    (x : World × List Event) : Prop where
  data : s.data = received x.2
  length : s.data.length ≤ len
  startTime : s.sk.startTime = sk.startTime
  timeout : s.sk.timeout = sk.timeout
  timeRemaining : s.sk.timeRemaining = timeLeft sk x.2
  open' : x.1.bep.fd = fd
  opened : s.data ≠ [] → 0 ≤ fd
  unbroken : Unbroken sk x.2
  plain : hasError s.data = false
  going : s.done = false → hasEnd s.data = false ∧ ¬HitEof x.2 ∧ (s.err ≠ 0 → s.data.length < len)
  stopped : s.done = true →
    s.err = 0 ∧ ((hasEnd s.data = true ∧ ¬HitEof x.2) ∨
      (hasEnd s.data = false ∧ HitEof x.2 ∧ s.data.length < len))

/-- How it stands after a read: an empty one, or one to be tried again, has changed
nothing in the buffer. -/
structure Filled (len : Nat) (sk : SocketState) (fd : Int) (s : ReadLoop) (eof : Bool)
    (x : World × List Event) : Prop where
  data : s.data = received x.2
  length : s.data.length ≤ len
  startTime : s.sk.startTime = sk.startTime
  timeout : s.sk.timeout = sk.timeout
  open' : x.1.bep.fd = fd
  opened : s.data ≠ [] → 0 ≤ fd
  unbroken : Unbroken sk x.2
  done : s.done = false
  hit : HitEof x.2 ↔ eof = true
  same : eof = true ∨ s.err ≠ 0 →
    hasEnd s.data = false ∧ hasError s.data = false ∧ s.data.length < len
  again : s.err ≠ 0 → eof = false

def ReadAfter (len : Nat) (sk : SocketState) (fd : Int) :
    ReadLoop ⊕ ReadLoop → World × List Event → Prop
  | .inl next, y => Filling len sk fd next y
  | .inr r, y => ReadEnd len sk fd r y.1 y.2

variable {x : World × List Event}

theorem calls_readBail {s : ReadLoop} {err : Nat} (hfd : -1 ≤ x.1.bep.fd)
    (h : ∀ y : World × List Event, SameRead sk x.2 y.2 → y.1.bep.fd = -1 →
      ReadEnd len sk fd { s with err } y.1 y.2) :
    Calls (readBail s err) (ReadAfter len sk fd) x := by
  apply wlp_bind
  apply wlp_post (wlp_bail trivial err)
  rintro r y ⟨rfl, hclosed, closing, hlog, hlabel, -⟩
  apply wlp_pure
  exact h y (hlog ▸ sameRead_aside x.2 fun e he => aside_of_atLabel (hlabel e he)) (hclosed hfd)

theorem calls_readNext {s : ReadLoop} {eof : Bool} (hfd : -1 ≤ fd)
    (h : Filled len sk fd s eof x) : Calls (readNext s eof) (ReadAfter len sk fd) x := by
  apply wlp_bind
  apply wlp_bind
  apply wlp_call trivial
  intro now
  apply wlp_pure
  have hreceived : received (x.2 ++ [.gettimeofday now]) = received x.2 := by
    rw [received_append]
    exact List.append_nil _
  have heof : HitEof (x.2 ++ [.gettimeofday now]) ↔ HitEof x.2 := hitEof_snoc nofun
  have hnoHit : eof = false → ¬HitEof (x.2 ++ [.gettimeofday now]) := by
    intro hnotEof
    rw [heof, h.hit, hnotEof]
    exact Bool.false_ne_true
  have hunbroken : Unbroken sk (x.2 ++ [.gettimeofday now]) :=
    unbroken_snoc.mpr ⟨h.unbroken, id⟩
  have htime : s.sk.timeout - (now - s.sk.startTime).natAbs =
      timeLeft sk (x.2 ++ [.gettimeofday now]) := by
    rw [timeLeft_reading, h.startTime, h.timeout]
  split
  · rename_i hmarker
    have hnotEof : eof = false := by
      by_contra heq
      have hplain := (h.same (Or.inl (by simpa using heq))).2.1
      exact absurd (hplain.symm.trans hmarker) (by decide)
    apply calls_readBail
    · show -1 ≤ x.1.bep.fd
      rw [h.open']
      exact hfd
    · intro y hsame hclosed
      exact
        { data := h.data.trans (hsame.received.trans hreceived).symm
          length := h.length
          startTime := h.startTime
          timeout := h.timeout
          timeRemaining := htime.trans hsame.timeLeft.symm
          opened := h.opened
          outcome := .cancelled rfl (by simp [h.done, hnotEof, hasEnd]) hmarker
            (fun hhit => hnoHit hnotEof (hsame.eof.mp hhit)) (hsame.unbroken.mpr hunbroken)
            hclosed }
  · rename_i hplain
    rw [Bool.not_eq_true] at hplain
    apply wlp_pure
    have hdone : ∀ b, (s.done || eof || hasEnd s.data) = b → (eof || hasEnd s.data) = b := by
      rw [h.done]
      exact fun _ => id
    exact
      { data := h.data.trans hreceived.symm
        length := h.length
        startTime := h.startTime
        timeout := h.timeout
        timeRemaining := htime
        open' := h.open'
        opened := h.opened
        unbroken := hunbroken
        plain := hplain
        going := by
          intro hgo
          obtain ⟨hnotEof, hend⟩ := Bool.or_eq_false_iff.mp (hdone false hgo)
          exact ⟨hend, hnoHit hnotEof, fun herr => (h.same (Or.inr herr)).2.2⟩
        stopped := by
          intro hstop
          have hcause := hdone true hstop
          cases heofVal : eof with
          | true =>
            have hsame := h.same (Or.inl heofVal)
            refine ⟨?_, Or.inr ⟨hsame.1, heof.mpr (h.hit.mpr heofVal), hsame.2.2⟩⟩
            by_contra herr
            exact absurd (heofVal.symm.trans (h.again herr)) (by decide)
          | false =>
            rw [heofVal, Bool.false_or] at hcause
            refine ⟨?_, Or.inl ⟨hcause, hnoHit heofVal⟩⟩
            by_contra herr
            have hcontra := (h.same (Or.inr herr)).1
            rw [hcause] at hcontra
            contradiction }

theorem wlp_read {E : World × List Event → Event → Prop} {I : World × List Event → Prop}
    {x : World × List Event} {len : Nat} {Q : SysResult Bytes → World × List Event → Prop}
    (hI : I x) (h : ∀ r, (match r with
        | .ok data => 0 ≤ x.1.bep.fd ∧ data.length ≤ len
        | .error _ => True) → Q r (Machine.after x (.read len r))) :
    wlp E I (read len) Q x := by
  apply wlp_bind
  apply wlp_backend
  apply wlp_bind
  apply wlp_ask hI
  intro a
  apply wlp_bind
  apply wlp_emit
  intro _
  apply wlp_pure
  apply h
  cases hr : readResult x.1.bep.fd len a.read with
  | ok data => exact readResult_ok hr
  | error e => trivial

/-- A read that delivers. -/
theorem Filling.deliver {s : ReadLoop} (h : Filling len sk fd s x) (hdone : s.done = false)
    (hroom : s.data.length < len) {room : Nat} (hsum : s.data.length + room = len) {data : Bytes}
    (hopen : 0 ≤ x.1.bep.fd) (hlen : data.length ≤ room) :
    Filled len sk fd { s with data := s.data ++ data, err := 0 } (data = [])
      (Machine.after x (.read room (.ok data))) where
  data := by
    show s.data ++ data = received (x.2 ++ [_])
    rw [received_append, ← h.data]
    simp [received, Event.delivered]
  length := by
    rw [List.length_append]
    omega
  startTime := h.startTime
  timeout := h.timeout
  open' := h.open'
  opened := fun _ => h.open' ▸ hopen
  unbroken := unbroken_snoc.mpr ⟨h.unbroken, id⟩
  done := hdone
  hit := by
    rw [decide_eq_true_iff]
    constructor
    · rintro ⟨n, hmem⟩
      rcases List.mem_append.mp hmem with hmem | hmem
      · exact absurd ⟨n, hmem⟩ (h.going hdone).2.1
      · cases List.mem_singleton.mp hmem
        rfl
    · rintro rfl
      exact ⟨room, List.mem_append_right _ (List.mem_singleton_self _)⟩
  same := by
    rintro (hempty | herr)
    · rw [of_decide_eq_true hempty, List.append_nil]
      exact ⟨(h.going hdone).1, h.plain, hroom⟩
    · exact absurd rfl herr
  again := fun herr => absurd rfl herr

/-- The log has come to no more bytes and to no clock reading. -/
structure Quiet (sk : SocketState) (log log' : List Event) : Prop where
  received : received log' = received log
  timeLeft : timeLeft sk log' = timeLeft sk log
  eof : HitEof log' ↔ HitEof log

theorem quiet_snoc (sk : SocketState) (log : List Event) {e : Event} (hdelivered : e.delivered = [])
    (hreading : e.reading = none) (heof : ∀ len, e ≠ .read len (.ok [])) :
    Quiet sk log (log ++ [e]) where
  received := by
    rw [received_append, StatsProxy.received, StatsProxy.received, List.flatMap_singleton,
      hdelivered, List.append_nil]
  timeLeft := timeLeft_snoc sk log e hreading
  eof := hitEof_snoc heof

theorem Quiet.trans {log log' log'' : List Event} (h : Quiet sk log log')
    (h' : Quiet sk log' log'') : Quiet sk log log'' :=
  ⟨h'.received.trans h.received, h'.timeLeft.trans h.timeLeft, h'.eof.trans h.eof⟩

/-- A read that has failed, and the poll after it. -/
theorem quiet_polled (sk : SocketState) (log : List Event) (room : Nat) (e : Errno)
    (r : PollResult) : Quiet sk log (log ++ [.read room (.error e)] ++ [.poll r]) := by
  have hread : Quiet sk log (log ++ [.read room (.error e)]) := quiet_snoc sk log rfl rfl nofun
  apply hread.trans
  exact quiet_snoc sk _ rfl rfl nofun

/-- A read that is tried again. -/
theorem Filling.retry {s : ReadLoop} (h : Filling len sk fd s x) (hdone : s.done = false)
    (hroom : s.data.length < len) {room : Nat} {e : Errno} (he : e = EINTR ∨ e = EAGAIN)
    (htime : 0 < s.sk.timeRemaining) {r : PollResult} (hr : ∀ e', r ≠ .failed e') :
    Filled len sk fd { s with err := e.code } false
      (Machine.after (Machine.after x (.read room (.error e))) (.poll r)) where
  data := h.data.trans (quiet_polled sk x.2 room e r).received.symm
  length := h.length
  startTime := h.startTime
  timeout := h.timeout
  open' := h.open'
  opened := h.opened
  unbroken := by
    apply unbroken_snoc.mpr
    refine ⟨unbroken_snoc.mpr ⟨h.unbroken, ?_⟩, ?_⟩
    · rintro (⟨hintr, hagain⟩ | hlate)
      · exact he.elim hintr hagain
      · rw [← h.timeRemaining] at hlate
        omega
    · cases r with
      | failed e' => exact absurd rfl (hr e')
      | timeout => exact id
      | ready => exact id
  done := hdone
  hit := by
    apply iff_of_false _ Bool.false_ne_true
    exact (quiet_polled sk x.2 room e r).eof.not.mpr (h.going hdone).2.1
  same := fun _ => ⟨(h.going hdone).1, h.plain, hroom⟩
  again := fun _ => rfl

/-- A call that breaks off at its last event. -/
theorem Filling.broken {s : ReadLoop} (h : Filling len sk fd s x) (hdone : s.done = false)
    (hroom : s.data.length < len) {e : Errno} {log : List Event} (hquiet : Quiet sk x.2 log)
    (hbroken : ¬Unbroken sk log)
    (hself : e = ECANCELED → SelfCancelled log) {y : World × List Event}
    (hsame : SameRead sk log y.2) (hclosed : y.1.bep.fd = -1) :
    ReadEnd len sk fd { s with err := e.code } y.1 y.2 where
  data := h.data.trans (hsame.received.trans hquiet.received).symm
  length := h.length
  startTime := h.startTime
  timeout := h.timeout
  timeRemaining := h.timeRemaining.trans (hsame.timeLeft.trans hquiet.timeLeft).symm
  opened := h.opened
  outcome := by
    refine .broken e.ne hdone hroom ⟨(h.going hdone).1, h.plain⟩ ?_ ?_ ?_ hclosed
    · rw [hsame.eof, hquiet.eof]
      exact (h.going hdone).2.1
    · rw [hsame.unbroken]
      exact hbroken
    · intro hcode
      have he : e = ECANCELED := by
        cases e with
        | mk code ne =>
          have hvalue : code = 125 := hcode
          subst hvalue
          rfl
      obtain ⟨more, hmore⟩ := hsame.leads
      rw [← hmore]
      rcases hself he with ⟨n, hmem⟩ | hmem
      · exact Or.inl ⟨n, List.mem_append_left _ hmem⟩
      · exact Or.inr (List.mem_append_left _ hmem)

/-- A read that is not tried again. -/
theorem calls_readFailed {s : ReadLoop} {room : Nat} {e : Errno} (hfd : -1 ≤ x.1.bep.fd)
    (h : Filling len sk fd s x) (hdone : s.done = false) (hroom : s.data.length < len)
    (hbreaks : (e ≠ EINTR ∧ e ≠ EAGAIN) ∨ s.sk.timeRemaining ≤ 0) :
    Calls (readBail s e.code) (ReadAfter len sk fd) (Machine.after x (.read room (.error e))) := by
  have hquiet : Quiet sk x.2 (x.2 ++ [.read room (.error e)]) := quiet_snoc sk x.2 rfl rfl nofun
  rw [h.timeRemaining] at hbreaks
  apply calls_readBail
  · exact hfd
  · intro y hsame hclosed
    apply h.broken hdone hroom hquiet (fun hun => (unbroken_snoc.mp hun).2 hbreaks) _ hsame hclosed
    rintro rfl
    exact Or.inl ⟨room, List.mem_append_right _ (List.mem_singleton_self _)⟩

/-- A poll that fails after a read. -/
theorem calls_pollFailed {s : ReadLoop} {room : Nat} {e e' : Errno} (hfd : -1 ≤ x.1.bep.fd)
    (h : Filling len sk fd s x) (hdone : s.done = false) (hroom : s.data.length < len) :
    Calls (readBail s e'.code) (ReadAfter len sk fd)
      (Machine.after (Machine.after x (.read room (.error e))) (.poll (.failed e'))) := by
  apply calls_readBail
  · exact hfd
  · intro y hsame hclosed
    apply h.broken hdone hroom (quiet_polled sk x.2 room e (.failed e'))
      (fun hun => (unbroken_snoc.mp hun).2 trivial) _ hsame hclosed
    rintro rfl
    exact Or.inr (List.mem_append_right _ (List.mem_singleton_self _))

/-- The loop ends at its condition. -/
theorem Filling.finish {s : ReadLoop} (h : Filling len sk fd s x)
    (hstop : ¬(s.data.length < len ∧ s.done = false)) :
    ReadEnd len sk fd { s with sk := { s.sk with bytesRcvd := s.data.length } } x.1 x.2 := by
  refine { h with outcome := ?_ }
  cases hdone : s.done with
  | false =>
    obtain ⟨hnoEnd, hnoHit, herr⟩ := h.going hdone
    have hfull : s.data.length = len := by
      have hlength := h.length
      rw [not_and_or] at hstop
      rcases hstop with hroom | hcontra
      · omega
      · exact absurd hdone hcontra
    have hzero : s.err = 0 := by
      by_contra hne
      exact absurd (herr hne) (by omega)
    exact .full hzero rfl hfull ⟨hnoEnd, h.plain⟩ hnoHit h.unbroken h.open'
  | true =>
    obtain ⟨hzero, ⟨hmarker, hnoHit⟩ | ⟨hnoEnd, hhit, hroom⟩⟩ := h.stopped hdone
    · exact .ended hzero rfl hmarker h.plain hnoHit h.unbroken h.open'
    · exact .eof hzero rfl hroom ⟨hnoEnd, h.plain⟩ hhit h.unbroken h.open'

theorem calls_readStep {s : ReadLoop} (hfd : -1 ≤ fd) (h : Filling len sk fd s x) :
    Calls (readStep len s) (ReadAfter len sk fd) x := by
  unfold readStep
  split
  · rename_i hgo
    obtain ⟨hroom, hdone⟩ := hgo
    have hopen : -1 ≤ x.1.bep.fd := h.open'.symm ▸ hfd
    apply wlp_bind
    apply wlp_read trivial
    intro r hr
    cases r with
    | ok data =>
      exact calls_readNext hfd
        (h.deliver hdone hroom (Nat.add_sub_of_le hroom.le) hr.1 hr.2)
    | error e =>
      dsimp only
      split
      · rename_i hagain
        split
        · rename_i hleft
          apply wlp_bind
          apply wlp_call trivial
          intro p
          cases p with
          | failed e' => exact calls_pollFailed hopen h hdone hroom
          | timeout => exact calls_readNext hfd (h.retry hdone hroom hagain hleft nofun)
          | ready => exact calls_readNext hfd (h.retry hdone hroom hagain hleft nofun)
        · rename_i hlate
          exact calls_readFailed hopen h hdone hroom (Or.inr (Int.not_lt.mp hlate))
      · rename_i hhard
        exact calls_readFailed hopen h hdone hroom (Or.inl (not_or.mp hhard))
  · rename_i hstop
    apply wlp_pure
    exact h.finish hstop

theorem calls_spMemcacheRead (hfd : -1 ≤ fd) (w : World) (hw : w.bep.fd = fd) :
    Calls (spMemcacheRead len sk false) (fun r y => ReadEnd len sk fd r y.1 y.2) (w, []) := by
  apply wlp_loop (fun s y => Filling len sk fd s y) (fun _ _ _ => trivial)
  · intro s y hy
    apply wlp_post (calls_readStep hfd hy)
    intro r z hz
    cases r <;> exact hz
  · exact
      { data := rfl
        length := Nat.zero_le _
        startTime := rfl
        timeout := rfl
        timeRemaining := rfl
        open' := hw
        opened := fun h => absurd rfl h
        unbroken := atEach_nil
        plain := show hasError [] = false by decide
        going := by
          refine fun _ => ⟨show hasEnd [] = false by decide, ?_, fun h => absurd rfl h⟩
          rintro ⟨n, hmem⟩
          contradiction
        stopped := nofun }

/-- What is known of a call that has returned. -/
theorem read_done {w : World} {inputs rest : List Answer} {r : ReadLoop} {trace : List Event}
    (hfd : -1 ≤ w.bep.fd)
    (h : (spMemcacheRead len sk false).exec w inputs = .done r trace rest) :
    ReadEnd len sk w.bep.fd r (run w trace) trace := by
  have hcalls : Calls (spMemcacheRead len sk false)
      (fun r y => ReadEnd len sk w.bep.fd r y.1 y.2) (w, []) := calls_spMemcacheRead hfd w rfl
  have hend := hcalls inputs (allowed_true _ _)
  rw [h] at hend
  rwa [Result.Reaches, run_prod, run_log, List.nil_append] at hend

end

end StatsProxy

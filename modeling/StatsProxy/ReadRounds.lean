import StatsProxy.PollerReturns
import StatsProxy.ReadOutcome

/-! The rounds of `spMemcacheRead`. One answer serves all the calls of a round: its
read, the poll if the read has failed, and the clock. -/
namespace StatsProxy
open CString Interaction Program Poller

theorem PollResult.not_failed (e : Errno) : ¬∀ e', PollResult.failed e ≠ .failed e' :=
  fun h => h e rfl

theorem PollResult.timeout_ne (e : Errno) : PollResult.timeout ≠ .failed e := nofun

theorem PollResult.ready_ne (e : Errno) : PollResult.ready ≠ .failed e := nofun

instance (r : PollResult) : Decidable (∀ e, r ≠ .failed e) :=
  match r with
  | .failed e => .isFalse (PollResult.not_failed e)
  | .timeout => .isTrue PollResult.timeout_ne
  | .ready => .isTrue PollResult.ready_ne

namespace Answer

/-- The answers that a round uses. -/
def round (a : Answer) : List Answer :=
  match a.read with
  | .ok _ => [a, a]
  | .error _ => [a, a, a]

/-- What a read of at most `room` bytes delivers. -/
def fragment (a : Answer) (room : Nat) : Bytes :=
  match a.read with
  | .ok data => data.take room
  | .error _ => []

def events (a : Answer) (room : Nat) : List Event :=
  match a.read with
  | .ok data => [.read room (.ok (data.take room)), .gettimeofday a.gettimeofday]
  | .error e => [.read room (.error e), .poll a.poll, .gettimeofday a.gettimeofday]

/-- The read delivers something, or it may be tried again in the time that is left. -/
def Live (timeRemaining : Int) (a : Answer) : Prop :=
  match a.read with
  | .ok data => data ≠ []
  | .error e => (e = EINTR ∨ e = EAGAIN) ∧ 0 < timeRemaining ∧ ∀ e', a.poll ≠ .failed e'

instance (timeRemaining : Int) (a : Answer) : Decidable (a.Live timeRemaining) :=
  match h : a.read with
  | .ok data => decidable_of_iff (data ≠ []) (by rw [Live, h])
  | .error e =>
    decidable_of_iff ((e = EINTR ∨ e = EAGAIN) ∧ 0 < timeRemaining ∧ ∀ e', a.poll ≠ .failed e')
      (by rw [Live, h])

end Answer

/-- The loop after a round. -/
def ReadLoop.next (len : Nat) (s : ReadLoop) (a : Answer) : ReadLoop where
  data := s.data ++ a.fragment (len - s.data.length)
  err := match a.read with
    | .ok _ => 0
    | .error e => e.code
  done := hasEnd (s.data ++ a.fragment (len - s.data.length))
  sk := s.sk.update a.gettimeofday

section

variable {w : World} {len : Nat} {s : ReadLoop} {a : Answer}

theorem fragment_length (a : Answer) (room : Nat) : (a.fragment room).length ≤ room := by
  unfold Answer.fragment
  split
  · exact List.length_take_le _ _
  · exact Nat.zero_le _

/-- A round changes nothing that other calls see. -/
theorem run_round (w : World) (a : Answer) (room : Nat) : run w (a.events room) = w := by
  unfold Answer.events
  split <;> rfl

theorem received_round (a : Answer) (room : Nat) :
    received (a.events room) = a.fragment room := by
  unfold Answer.events Answer.fragment
  split <;> simp [received, Event.delivered]

theorem ends_readNext {η : Type} [Machine η Event] {x : World × η} {eof : Bool}
    {inputs : List Answer} {Q : ReadLoop ⊕ ReadLoop → List Answer → World × η → Prop}
    (hplain : hasError s.data = false)
    (h : Q (.inl { s with sk := s.sk.update a.gettimeofday,
                          done := s.done || eof || hasEnd s.data }) inputs
      (Machine.after x (.gettimeofday a.gettimeofday))) :
    Ends (readNext s eof) Q x (a :: inputs) := by
  apply ends_bind
  apply ends_updateTimeRemaining
  dsimp only
  rw [if_neg (Bool.not_eq_true _ ▸ hplain)]
  exact ends_pure h

theorem readResult_open {fd : Int} (hfd : 0 ≤ fd) (room : Nat) (r : SysResult Bytes) :
    readResult fd room r = match r with
      | .ok data => .ok (data.take room)
      | .error e => .error e := by
  unfold readResult
  exact if_neg (Int.not_lt.mpr hfd)

theorem readResult_closed {fd : Int} (hfd : ¬0 ≤ fd) (room : Nat) (r : SysResult Bytes) :
    readResult fd room r = .error EBADF := by
  unfold readResult
  exact if_pos (Int.not_le.mp hfd)

/-- A round after which the loop looks at its condition again. -/
theorem readStep_round (hfd : 0 ≤ w.bep.fd) (hroom : s.data.length < len) (hdone : s.done = false)
    (hlive : a.Live s.sk.timeRemaining) (hplain : hasError (s.next len a).data = false)
    (rest : List Answer) : (readStep len s).exec w (a.round ++ rest) =
      .done (.inl (s.next len a)) (a.events (len - s.data.length)) rest := by
  apply Ends.exec
  unfold readStep
  rw [if_pos ⟨hroom, hdone⟩]
  unfold Answer.Live at hlive
  unfold ReadLoop.next Answer.fragment at hplain
  unfold Answer.round ReadLoop.next Answer.fragment Answer.events
  apply ends_bind
  cases hread : a.read with
  | ok data =>
    rw [hread] at hlive hplain
    have hne : data.take (len - s.data.length) ≠ [] := by
      rw [ne_eq, List.take_eq_nil_iff]
      rintro (hnone | hnone)
      · omega
      · exact hlive hnone
    apply ends_read
    dsimp only
    rw [readResult_open hfd, hread]
    apply ends_readNext
    · exact hplain
    · exact ⟨by simp [hdone, hne], rfl, rfl⟩
  | error e =>
    rw [hread] at hlive hplain
    obtain ⟨hagain, htime, hpoll⟩ := hlive
    have hsame : s.data ++ [] = s.data := List.append_nil _
    dsimp only at hplain ⊢
    rw [hsame] at hplain ⊢
    apply ends_read
    dsimp only
    rw [readResult_open hfd, hread]
    dsimp only
    rw [if_pos hagain, if_pos htime]
    apply ends_bind
    apply ends_call
    cases hpolled : a.poll with
    | failed e' => exact absurd hpolled (hpoll e')
    | timeout =>
      apply ends_readNext
      · exact hplain
      · exact ⟨by simp [hdone], rfl, rfl⟩
    | ready =>
      apply ends_readNext
      · exact hplain
      · exact ⟨by simp [hdone], rfl, rfl⟩

section

variable {η : Type} [Machine η Event] {x : World × η}

/-- The loop ends at its condition, or with this iteration and an error. -/
def ReadOver : ReadLoop ⊕ ReadLoop → List Answer → World × η → Prop
  | .inl next, _, _ => next.done = true
  | .inr r, _, _ => r.err ≠ 0

theorem readBail_over (ho : Owned x.1) (e : Errno) (inputs : List Answer) :
    Ends (readBail s e.code) ReadOver x inputs := by
  apply ends_bind
  apply ends_bail ho
  exact fun y => ends_pure e.ne

theorem readNext_over (ho : Owned x.1) {eof : Bool} {inputs : List Answer}
    (h : eof = true ∨ ¬(hasEnd s.data = false ∧ hasError s.data = false)) :
    Ends (readNext s eof) ReadOver x (a :: inputs) := by
  by_cases hplain : hasError s.data = false
  · apply ends_readNext hplain
    show (s.done || eof || hasEnd s.data) = true
    rcases h with rfl | h
    · simp
    · rw [Bool.eq_true_of_not_eq_false fun hend => h ⟨hend, hplain⟩]
      simp
  · apply ends_bind
    apply ends_updateTimeRemaining
    have hmarker : strstr (cString s.data) statCmdError = true :=
      Bool.eq_true_of_not_eq_false hplain
    dsimp only
    rw [if_pos hmarker]
    apply readBail_over
    exact ho

/-- Nothing is read from a closed connection. -/
theorem readStep_closed (ho : Owned x.1) (hroom : s.data.length < len) (hdone : s.done = false)
    (hfd : ¬0 ≤ x.1.bep.fd) (inputs : List Answer) :
    Ends (readStep len s) ReadOver x (a :: inputs) := by
  unfold readStep
  rw [if_pos ⟨hroom, hdone⟩]
  apply ends_bind
  apply ends_read
  rw [readResult_closed hfd]
  dsimp only
  rw [if_neg (by decide)]
  apply readBail_over
  exact ho

/-- The read delivers nothing, or the buffer has a marker. -/
theorem readStep_data (ho : Owned x.1) (hroom : s.data.length < len) (hdone : s.done = false)
    (hfd : 0 ≤ x.1.bep.fd) {data : Bytes} (hread : a.read = .ok data)
    (h : data = [] ∨ ¬(hasEnd (s.data ++ data.take (len - s.data.length)) = false ∧
      hasError (s.data ++ data.take (len - s.data.length)) = false)) (inputs : List Answer) :
    Ends (readStep len s) ReadOver x (a :: a :: inputs) := by
  unfold readStep
  rw [if_pos ⟨hroom, hdone⟩]
  apply ends_bind
  apply ends_read
  rw [readResult_open hfd, hread]
  apply readNext_over
  · exact ho
  · rcases h with rfl | h
    · exact Or.inl (by simp)
    · exact Or.inr h

/-- The read is not to be tried again, or the buffer already has a marker. -/
theorem readStep_error (ho : Owned x.1) (hroom : s.data.length < len) (hdone : s.done = false)
    (hfd : 0 ≤ x.1.bep.fd) {e : Errno} (hread : a.read = .error e)
    (h : ¬(((e = EINTR ∨ e = EAGAIN) ∧ 0 < s.sk.timeRemaining ∧ ∀ e', a.poll ≠ .failed e') ∧
      hasEnd s.data = false ∧ hasError s.data = false)) (inputs : List Answer) :
    Ends (readStep len s) ReadOver x (a :: a :: a :: inputs) := by
  unfold readStep
  rw [if_pos ⟨hroom, hdone⟩]
  apply ends_bind
  apply ends_read
  rw [readResult_open hfd, hread]
  dsimp only
  split
  · rename_i hagain
    split
    · rename_i htime
      apply ends_bind
      apply ends_call
      cases hpoll : a.poll with
      | failed e' =>
        apply readBail_over
        exact ho
      | timeout =>
        apply readNext_over
        · exact ho
        · exact Or.inr fun hplain => h ⟨⟨hagain, htime, by simp [hpoll]⟩, hplain⟩
      | ready =>
        apply readNext_over
        · exact ho
        · exact Or.inr fun hplain => h ⟨⟨hagain, htime, by simp [hpoll]⟩, hplain⟩
    · apply readBail_over
      exact ho
  · apply readBail_over
    exact ho

/-- Any other round is the last. -/
theorem readStep_over (ho : Owned x.1) (hroom : s.data.length < len) (hdone : s.done = false)
    (h : ¬(0 ≤ x.1.bep.fd ∧ a.Live s.sk.timeRemaining ∧ hasEnd (s.next len a).data = false ∧
      hasError (s.next len a).data = false)) (rest : List Answer) :
    Ends (readStep len s) ReadOver x (a.round ++ rest) := by
  unfold Answer.Live ReadLoop.next Answer.fragment at h
  unfold Answer.round
  by_cases hfd : 0 ≤ x.1.bep.fd
  · rw [and_iff_right hfd] at h
    cases hread : a.read with
    | ok data =>
      rw [hread] at h
      apply readStep_data ho hroom hdone hfd hread
      rwa [not_and_or, not_not] at h
    | error e =>
      rw [hread] at h
      dsimp only at h
      rw [List.append_nil] at h
      exact readStep_error ho hroom hdone hfd hread h rest
  · cases a.read with
    | ok data => exact readStep_closed ho hroom hdone hfd _
    | error e => exact readStep_closed ho hroom hdone hfd _

end

end

end StatsProxy

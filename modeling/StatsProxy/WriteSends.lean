import StatsProxy.PollerReturns
import StatsProxy.WriteResult

/-! What `spMemcacheWrite` puts on the connection. The bytes that its writes have
taken are a prefix of the command at every moment, and the whole command when the
loop has counted down to 0. When the clock stays beyond the timeout it ends. -/
namespace StatsProxy
open CString Interaction Program Poller

/-- The bytes that a write has taken. -/
def Event.sent : Event → Bytes
  | .write offered (.ok n) => offered.take n
  | _ => []

/-- All bytes that the writes have taken, in order. -/
def sent (log : List Event) : Bytes := log.flatMap Event.sent

/-- The call has gone to its `bail` label. -/
def Bailed (log : List Event) : Prop := ∃ err, Event.setLastError err ∈ log

theorem sent_append (log more : List Event) : sent (log ++ more) = sent log ++ sent more :=
  List.flatMap_append

theorem sent_leading {front log : List Event} (h : front <+: log) : sent front <+: sent log := by
  obtain ⟨back, rfl⟩ := h
  rw [sent_append]
  exact List.prefix_append _ _

section

variable {cmd : Bytes}

/-- How the loop stands: what is left of the command starts at the pointer. The
pointer is moved over the bytes of a write one iteration later than the count. -/
structure Sending (cmd : Bytes) (s : WriteLoop) (log : List Event) : Prop where
  bytes : sent log ++ s.cmd.drop s.numChars = cmd
  left : s.i = (s.cmd.drop s.numChars).length
  going : ¬Bailed log

/-- How the call ends: at the loop's condition, or at `bail` with bytes left. -/
def SendingEnded (cmd : Bytes) (log : List Event) : Prop :=
  (sent log = cmd ∧ ¬Bailed log) ∨ (sent log <+: cmd ∧ sent log ≠ cmd ∧ Bailed log)

def SendingAfter (cmd : Bytes) : WriteLoop ⊕ Nat → World × List Event → Prop
  | .inl next, y => Sending cmd next y.2
  | .inr _, y => SendingEnded cmd y.2

/-- Wherever the call waits a prefix has been sent. -/
abbrev Sends (cmd : Bytes) (m : Poller α) (Q : α → World × List Event → Prop)
    (x : World × List Event) : Prop :=
  wlp (fun _ _ => True) (fun y => sent y.2 <+: cmd) m Q x

theorem Sending.sent_leads {s : WriteLoop} {log : List Event} (h : Sending cmd s log) :
    sent log <+: cmd :=
  ⟨_, h.bytes⟩

theorem SendingEnded.sent_leads {log : List Event} (h : SendingEnded cmd log) :
    sent log <+: cmd := by
  rcases h with ⟨hall, -⟩ | ⟨hpart, -⟩
  · rw [hall]
  · exact hpart

/-- An event that sends nothing and is not at the label leaves the loop as it is. -/
theorem Sending.other {s : WriteLoop} {log : List Event} (h : Sending cmd s log) {e : Event}
    (hsent : e.sent = []) (he : ∀ err, e ≠ .setLastError err) : Sending cmd s (log ++ [e]) where
  bytes := by
    rw [sent_append]
    simp only [sent, List.flatMap_cons, hsent, List.flatMap_nil, List.append_nil]
    exact h.bytes
  left := h.left
  going := by
    rintro ⟨err, hmem⟩
    rcases List.mem_append.mp hmem with hmem | hmem
    · exact h.going ⟨err, hmem⟩
    · exact he err (List.mem_singleton.mp hmem).symm

theorem Sending.bail {s : WriteLoop} {x : World × List Event} (h : Sending cmd s x.2)
    (hi : s.i ≠ 0) (err : Nat) :
    Sends cmd (Sum.inr <$> StatsProxy.bail err : Poller (WriteLoop ⊕ Nat)) (SendingAfter cmd)
      x := by
  apply wlp_bind
  apply wlp_post (wlp_bail h.sent_leads err)
  rintro r y ⟨-, -, closing, hlog, hlabel, hbailed⟩
  apply wlp_pure
  have hnone : sent closing = [] := by
    rw [sent, List.flatMap_eq_nil_iff]
    intro e he
    have hel := hlabel e he
    cases e <;> first | rfl | contradiction
  have hsent : sent y.2 = sent x.2 := by
    rw [hlog, sent_append, hnone, List.append_nil]
  apply Or.inr
  rw [hsent]
  refine ⟨h.sent_leads, ?_, err, hlog ▸ List.mem_append_right _ hbailed⟩
  intro hall
  have hbytes := h.bytes
  have hleft := h.left
  rw [hall] at hbytes
  rw [List.append_right_eq_self.mp hbytes] at hleft
  exact hi hleft

theorem sends_writeNext {s : WriteLoop} {x : World × List Event}
    (h : Sending cmd { s with i := s.i - s.numChars } x.2) :
    Sends cmd (writeNext s) (SendingAfter cmd) x := by
  apply wlp_bind
  apply wlp_bind
  apply wlp_call h.sent_leads
  intro now
  apply wlp_pure
  have hnext := h.other (e := .gettimeofday now) rfl nofun
  split
  · rename_i htimeout
    exact hnext.bail (Nat.ne_of_gt htimeout.1) s.err
  · exact wlp_pure { hnext with }

theorem sends_writeStep {s : WriteLoop} {x : World × List Event} (h : Sending cmd s x.2) :
    Sends cmd (writeStep s) (SendingAfter cmd) x := by
  unfold writeStep
  split
  · rename_i hi
    apply wlp_pure
    have hnone : s.cmd.drop s.numChars = [] := List.eq_nil_of_length_eq_zero (h.left ▸ hi)
    have hbytes := h.bytes
    rw [hnone, List.append_nil] at hbytes
    exact Or.inl ⟨hbytes, h.going⟩
  · rename_i hi
    apply wlp_bind
    apply wlp_write h.sent_leads
    intro r hr
    cases r with
    | ok n =>
      apply sends_writeNext
      constructor
      · show sent (x.2 ++ [_]) ++ (s.cmd.drop s.numChars).drop n = cmd
        rw [sent_append]
        simp only [sent, List.flatMap_cons, Event.sent, List.flatMap_nil, List.append_nil]
        rw [List.append_assoc, List.take_append_drop]
        exact h.bytes
      · show s.i - n = ((s.cmd.drop s.numChars).drop n).length
        rw [List.length_drop, h.left]
      · rintro ⟨err, hmem⟩
        rcases List.mem_append.mp hmem with hmem | hmem
        · exact h.going ⟨err, hmem⟩
        · exact absurd (List.mem_singleton.mp hmem) nofun
    | error e =>
      -- the pointer has been moved, and nothing is counted
      have hagain : Sending cmd
          { s with cmd := s.cmd.drop s.numChars, numChars := 0, err := e.code }
          (x.2 ++ [.write (s.cmd.drop s.numChars) (.error e)]) :=
        { h.other (e := .write (s.cmd.drop s.numChars) (.error e)) rfl nofun with }
      dsimp only
      split
      · apply wlp_bind
        apply wlp_call hagain.sent_leads
        intro r
        have hpoll := hagain.other (e := .poll r) rfl nofun
        cases r with
        | failed e' =>
          apply Sending.bail hpoll
          exact hi
        | timeout => exact sends_writeNext hpoll
        | ready => exact sends_writeNext hpoll
      · apply Sending.bail hagain
        exact hi

theorem sends_spMemcacheWrite (w : World) (cmd : Bytes) :
    Sends cmd (spMemcacheWrite cmd) (fun _ y => SendingEnded cmd y.2) (w, []) := by
  apply wlp_bind
  apply wlp_emit
  intro _
  apply wlp_bind
  apply wlp_backend
  apply wlp_bind
  apply wlp_bind
  apply wlp_call (List.nil_prefix)
  intro start
  apply wlp_pure
  apply wlp_loop (fun s y => Sending cmd s y.2) (fun _ _ h => h.sent_leads)
  · intro s y hy
    apply wlp_post (sends_writeStep hy)
    intro r z hz
    cases r <;> exact hz
  · exact
      { bytes := rfl
        left := rfl
        going := by simp [Bailed, Machine.after] }

/-- The clock reads further from the start than the timeout allows. -/
def Answer.Late (start timeoutMs : Int) (a : Answer) : Prop :=
  timeoutMs < (a.gettimeofday - start).natAbs

/-- An iteration goes on with the same deadline; if the clock was late nothing is left. -/
structure Iterated (sk : SocketState) (next : WriteLoop) (late : Prop) (w : World) : Prop where
  owned : Owned w
  startTime : next.sk.startTime = sk.startTime
  timeout : next.sk.timeout = sk.timeout
  ended : late → next.i = 0

/-- What an iteration leaves of its answers and makes of the loop. -/
def WroteTo (sk : SocketState) (late : Prop) (rests : List (List Answer)) :
    WriteLoop ⊕ Nat → List Answer → World × List Event → Prop
  | .inl next, rest, y => rest ∈ rests ∧ Iterated sk next late y.1
  | .inr _, _, _ => True

theorem WroteTo.weaken {sk : SocketState} {late late' : Prop} {rest : List Answer}
    {rests : List (List Answer)} (hlate : late' → late) (hrest : rest ∈ rests)
    {r : WriteLoop ⊕ Nat} {left : List Answer} {y : World × List Event}
    (h : WroteTo sk late [rest] r left y) : WroteTo sk late' rests r left y := by
  cases r with
  | inr err => trivial
  | inl next =>
    obtain ⟨hleft, hnext⟩ := h
    rw [List.mem_singleton] at hleft
    exact ⟨hleft ▸ hrest, { hnext with ended := fun h => hnext.ended (hlate h) }⟩

theorem writeNext_ends {s : WriteLoop} (x : World × List Event) (ho : Owned x.1) (a : Answer)
    (inputs : List Answer) :
    Ends (writeNext s) (WroteTo s.sk (a.Late s.sk.startTime s.sk.timeout) [inputs]) x
      (a :: inputs) := by
  apply ends_bind
  apply ends_updateTimeRemaining
  have howned : Owned (Machine.after x (.gettimeofday a.gettimeofday)).1 := (ho.after _ rfl).1
  split
  · apply ends_map
    apply ends_bail howned
    exact fun _ => trivial
  · rename_i htimeout
    apply ends_pure
    refine ⟨List.mem_singleton_self _, howned, rfl, rfl, fun hlate => ?_⟩
    rw [not_and_or] at htimeout
    unfold Answer.Late at hlate
    dsimp only [SocketState.update] at htimeout ⊢
    omega

/-- An iteration takes an answer for the write, one for the clock and, if the socket
was not ready, one for the poll between them. -/
theorem writeStep_ends {s : WriteLoop} (x : World × List Event) (ho : Owned x.1) (a b c : Answer)
    (inputs : List Answer) :
    Ends (writeStep s) (WroteTo s.sk (b.Late s.sk.startTime s.sk.timeout ∧
      c.Late s.sk.startTime s.sk.timeout) [c :: inputs, inputs]) x (a :: b :: c :: inputs) := by
  unfold writeStep
  split
  · exact ends_pure trivial
  · apply ends_bind
    apply ends_write
    have hwritten : ∀ r, Owned (Machine.after x (.write (s.cmd.drop s.numChars) r)).1 :=
      fun r => (ho.after _ rfl).1
    cases writeResult x.1.bep.fd (s.cmd.drop s.numChars) a.write with
    | ok n =>
      apply ends_post (writeNext_ends _ (hwritten (.ok n)) b (c :: inputs))
      intro r rest y hnext
      exact hnext.weaken And.left List.mem_cons_self
    | error e =>
      dsimp only
      split
      · apply ends_bind
        apply ends_call
        have hpolled : ∀ p, Owned (Machine.after (Machine.after x
            (.write (s.cmd.drop s.numChars) (.error e))) (.poll p)).1 :=
          fun p => ((hwritten (.error e)).after _ rfl).1
        cases b.poll with
        | failed e' =>
          apply ends_map
          apply ends_bail (hpolled (.failed e'))
          exact fun _ => trivial
        | timeout =>
          apply ends_post (writeNext_ends _ (hpolled .timeout) c inputs)
          intro r rest y hnext
          exact hnext.weaken And.right (by simp)
        | ready =>
          apply ends_post (writeNext_ends _ (hpolled .ready) c inputs)
          intro r rest y hnext
          exact hnext.weaken And.right (by simp)
      · apply ends_map
        apply ends_bail (hwritten (.error e))
        exact fun _ => trivial

abbrev Ending (s : WriteLoop) (x : World × List Event) (inputs : List Answer) : Prop :=
  Ends (loop writeStep s) (fun _ _ _ => True) x inputs

/-- The loop ends if it does so from wherever one iteration leads. -/
theorem ending_step {s : WriteLoop} {x : World × List Event} (ho : Owned x.1) {a b c : Answer}
    {inputs : List Answer}
    (h : ∀ next rest y, rest ∈ [c :: inputs, inputs] →
      Iterated s.sk next (b.Late s.sk.startTime s.sk.timeout ∧
        c.Late s.sk.startTime s.sk.timeout) y.1 → Ending next y rest) :
    Ending s x (a :: b :: c :: inputs) := by
  apply ends_loop writeStep_productive
  apply ends_post (writeStep_ends x ho a b c inputs)
  intro r rest y hnext
  cases r with
  | inr err => trivial
  | inl next => exact h next rest y hnext.1 hnext.2

/-- After one iteration under a late clock the loop is left. -/
theorem ending_late {s : WriteLoop} {x : World × List Event} (ho : Owned x.1) {a b c : Answer}
    (hb : b.Late s.sk.startTime s.sk.timeout) (hc : c.Late s.sk.startTime s.sk.timeout)
    (inputs : List Answer) : Ending s x (a :: b :: c :: inputs) := by
  apply ending_step ho
  intro next rest y _ hnext
  apply ends_loop writeStep_productive
  unfold writeStep
  rw [if_pos (hnext.ended ⟨hb, hc⟩)]
  exact ends_pure trivial

/-- However many answers come before, five late ones end the loop: an iteration
takes at most three. -/
theorem ending_eventually {s : WriteLoop} {x : World × List Event} {start timeoutMs : Int}
    (early : List Answer) {l₁ l₂ l₃ l₄ l₅ : Answer}
    (hlate : ∀ a ∈ [l₁, l₂, l₃, l₄, l₅], a.Late start timeoutMs) (ho : Owned x.1)
    (hstart : s.sk.startTime = start) (htimeout : s.sk.timeout = timeoutMs) :
    Ending s x (early ++ [l₁, l₂, l₃, l₄, l₅]) := by
  subst hstart htimeout
  match early with
  | [] => exact ending_late ho (hlate _ (by simp)) (hlate _ (by simp)) _
  | [a] =>
    apply ending_step ho
    intro next rest y hrest h
    rw [← h.startTime, ← h.timeout] at hlate
    rcases List.mem_pair.mp hrest with rfl | rfl
    · exact ending_late h.owned (hlate _ (by simp)) (hlate _ (by simp)) _
    · exact ending_late h.owned (hlate _ (by simp)) (hlate _ (by simp)) _
  | [a, b] =>
    apply ending_step ho
    intro next rest y hrest h
    rw [← h.startTime, ← h.timeout] at hlate
    rcases List.mem_pair.mp hrest with rfl | rfl
    · exact ending_late h.owned (hlate _ (by simp)) (hlate _ (by simp)) _
    · exact ending_late h.owned (hlate _ (by simp)) (hlate _ (by simp)) _
  | a :: b :: c :: early =>
    apply ending_step ho
    intro next rest y hrest h
    rw [← h.startTime, ← h.timeout] at hlate
    rcases List.mem_pair.mp hrest with rfl | rfl
    · exact ending_eventually (c :: early) hlate h.owned rfl rfl
    · exact ending_eventually early hlate h.owned rfl rfl
termination_by early.length

end

theorem spMemcacheWrite_ends {w : World} (ho : Owned w) {cmd : Bytes} {answers : Nat → Answer}
    {k : Nat} (hlate : ∀ j, k ≤ j →
      (answers j).Late (answers 0).gettimeofday w.bep.settings.writeMs) :
    Ends (spMemcacheWrite cmd) (fun _ _ _ => True) (w, ([] : List Event))
      ((List.range (k + 6)).map answers) := by
  have hsplit : (List.range (k + 6)).map answers = answers 0 ::
      ((List.range k).map (fun j => answers (j + 1)) ++ [answers (k + 1), answers (k + 2),
        answers (k + 3), answers (k + 4), answers (k + 5)]) := by
    rw [List.range_succ_eq_map]
    simp [List.range_succ, Function.comp_def]
  rw [hsplit]
  apply ends_bind
  apply ends_emit
  apply ends_bind
  apply ends_backend
  apply ends_bind
  apply ends_sessionInfo
  have howned : Owned (run (w, ([] : List Event))
      [.command cmd, .gettimeofday (answers 0).gettimeofday]).1 :=
    ((ho.after (.command cmd) rfl).1.after (.gettimeofday (answers 0).gettimeofday) rfl).1
  apply ending_eventually _ _ howned rfl rfl
  intro a ha
  simp only [List.mem_cons, List.not_mem_nil, or_false] at ha
  rcases ha with rfl | rfl | rfl | rfl | rfl
  all_goals exact hlate _ (by omega)

/-- At every moment of every run a prefix of the command has been sent, it is the
whole command exactly when the call has not gone to its label, and a clock that stays
beyond the timeout ends the call. -/
theorem spMemcacheWrite_sendsInOrder (w : World) (cmd : Bytes) :
    (∀ inputs front, front <+: ((spMemcacheWrite cmd).exec w inputs).trace →
      sent front <+: cmd) ∧
    (∀ inputs err trace rest, (spMemcacheWrite cmd).exec w inputs = .done err trace rest →
      (¬Bailed trace ↔ sent trace = cmd)) ∧
    (∀ answers : Nat → Answer, Owned w →
      (∃ k, ∀ j, k ≤ j → (answers j).Late (answers 0).gettimeofday w.bep.settings.writeMs) →
      ∃ n err trace rest,
        (spMemcacheWrite cmd).exec w ((List.range n).map answers) = .done err trace rest) := by
  refine ⟨?_, ?_, ?_⟩
  · intro inputs front hfront
    have hall := run_of_wlp (sends_spMemcacheWrite w cmd) (fun _ _ h => h.sent_leads)
      (allowed_true (w, []) ((spMemcacheWrite cmd).exec w inputs).trace)
    rw [run_prod, run_log, List.nil_append] at hall
    exact (sent_leading hfront).trans hall
  · intro inputs err trace rest hdone
    have hend := sends_spMemcacheWrite w cmd inputs
    rw [hdone] at hend
    have hended := hend (allowed_true _ _)
    rw [Result.Reaches, run_prod, run_log, List.nil_append] at hended
    rcases hended with ⟨hall, hgoing⟩ | ⟨-, hpart, hbailed⟩
    · exact iff_of_true hgoing hall
    · exact iff_of_false (not_not_intro hbailed) hpart
  · rintro answers ho ⟨k, hlate⟩
    have hends : Ends (spMemcacheWrite cmd) (fun _ _ _ => True) (w, ([] : List Event))
        ((List.range (k + 6)).map answers) := spMemcacheWrite_ends ho hlate
    obtain ⟨err, trace, rest, hdone, -⟩ := hends
    exact ⟨k + 6, err, trace, rest, hdone⟩

/-- A socket that is never ready, and a clock that runs on. -/
def lateAnswers (j : Nat) : Answer := { gettimeofday := 20000 * j }

theorem spMemcacheWrite_sendsInOrder_part :
    sent (sampleSend partAnswers).trace = ascii "stats\r\n" ∧
      ∃ n err trace rest, (spMemcacheWrite (ascii "stats\r\n")).exec connectedWorld
        ((List.range n).map lateAnswers) = .done err trace rest := by
  obtain ⟨-, hwhole, hends⟩ :=
    spMemcacheWrite_sendsInOrder connectedWorld (ascii "stats\r\n")
  have hdone : sampleSend partAnswers = .done 0 (sampleSend partAnswers).trace [] := by
    decide +kernel
  have hgoing : (sampleSend partAnswers).trace.all fun e => match e with
      | .setLastError _ => false
      | _ => true := by
    decide +kernel
  constructor
  · apply (hwhole partAnswers 0 _ [] hdone).mp
    rintro ⟨err, hmem⟩
    have := List.all_eq_true.mp hgoing _ hmem
    contradiction
  · apply hends lateAnswers (Or.inr (by decide))
    refine ⟨1, fun j hj => ?_⟩
    have hms : connectedWorld.bep.settings.writeMs = 10000 := rfl
    unfold Answer.Late lateAnswers
    rw [hms]
    dsimp only
    omega

end StatsProxy

import StatsProxy.WireRules

/-! Connecting and sending on the wire. In a run that stays in step with the server
a call of `spMemcacheWrite` that begins with nothing to be read sends its command,
or fails and leaves nothing to be read. -/
namespace StatsProxy
open CString Interaction Program Poller

section

variable {reply : Nat → Bytes} {uris : List Bytes} {P : Wire → Prop}

/-- Nothing is under way on the connection. -/
def Wire.Clear (w : Wire) : Prop := w.reset = w

theorem Wire.clear_reset (w : Wire) : w.reset.Clear := rfl

theorem Wire.Clear.idle {w : Wire} (h : w.Clear) : w.Idle :=
  ⟨(congrArg Wire.pending h).symm, Or.inr (congrArg Wire.received h).symm⟩

theorem Wire.Clear.reading {w : Wire} (h : w.Clear) : w.Reading :=
  ⟨fun _ => (congrArg Wire.pending h).symm, Or.inr (Or.inl (congrArg Wire.received h).symm)⟩

theorem runs_bail_clear (err : Nat) : Runs reply uris P (bail err) fun _ => Wire.Clear := by
  apply runs_post (runs_bail err fun w _ _ => w.clear_reset)
  intro _ _ _ hw
  exact hw.2

theorem runs_checkConnected : Runs reply uris Wire.Clear checkConnected fun _ => Wire.Clear := by
  unfold checkConnected
  apply runs_bind (runs_call fun _ => rfl)
  intro r
  cases r with
  | error e => exact runs_bail_clear _
  | ok res =>
    dsimp only
    split
    · exact runs_bail_clear _
    · exact runs_pure fun _ _ hw => hw

/-- The part of `spMemcacheConnect` that runs with an open descriptor. -/
theorem runs_connectOpen : Runs reply uris Wire.Clear (do
      match ← fcntl with
      | .error _ => bail 0
      | .ok () => match ← connect with
        | .ok () => checkConnected
        | .error e =>
          if e ≠ EINPROGRESS then bail e.code
          else match ← poll with
            | .ready => checkConnected
            | _ => bail e.code) fun _ => Wire.Clear := by
  apply runs_bind (runs_call fun _ => rfl)
  intro r
  cases r with
  | error e => exact runs_bail_clear 0
  | ok _ =>
    apply runs_bind (runs_call fun _ => rfl)
    intro r
    cases r with
    | ok _ => exact runs_checkConnected
    | error e =>
      dsimp only
      split
      · exact runs_bail_clear _
      · apply runs_bind (runs_call fun _ => rfl)
        intro r
        cases r with
        | ready => exact runs_checkConnected
        | failed e' => exact runs_bail_clear _
        | timeout => exact runs_bail_clear _

theorem runs_spMemcacheConnect : Runs reply uris P spMemcacheConnect fun _ => Wire.Clear := by
  intro x hx
  apply wlp_bind
  apply wlp_assert hx.paired
  intro hfd
  have hclear : (wire reply x.2).Clear := by
    apply hx.closed
    have : x.1.bep.fd = -1 := by simpa using hfd
    omega
  apply wlp_bind
  have hsocket : wlp (Env reply) (AllPaired reply uris) socket
      (fun _ y => At reply uris Wire.Clear y) x := by
    apply wlp_bind
    apply wlp_ask hx.paired
    intro a
    apply wlp_bind
    apply wlp_emit
    intro _
    cases a.socket with
    | ok fd =>
      apply wlp_pure
      apply hx.event (.socket (.ok fd)) (paired_of_ne fun _ _ => nofun)
      · exact fun _ => rfl
      · exact tagged_reset hx.tagged
      · exact Wire.clear_reset _
    | error e =>
      apply wlp_pure
      apply hx.event (.socket (.error e)) (paired_of_ne fun _ _ => nofun)
      · exact hx.closed
      · exact hx.tagged
      · exact hclear
  apply wlp_post hsocket
  intro fd y hy
  apply wlp_bind
  apply wlp_emit
  intro _
  have hset : At reply uris Wire.Clear (Machine.after y (.setFd fd)) := by
    apply hy.event (.setFd fd) (paired_of_ne fun _ _ => nofun)
    · exact fun _ => hy.holds
    · exact hy.tagged
    · exact hy.holds
  split
  · exact runs_bail_clear 0 _ hset
  · exact runs_connectOpen _ hset

theorem runs_setState (state : BackendState) : Runs reply uris P (setState state) fun _ => P := by
  unfold setState
  apply runs_bind (runs_emit rfl)
  intro _
  apply runs_bind (runs_emit rfl)
  intro _
  exact runs_emit rfl

theorem runs_connectRetry (tries err : Nat) :
    Runs reply uris Wire.Idle (connectRetry tries err) fun _ => Wire.Idle := by
  induction tries generalizing err with
  | zero => exact runs_pure fun _ _ hw => hw
  | succ tries ih =>
    rw [connectRetry]
    apply runs_bind runs_backend
    intro bep
    apply runs_fact
    intro _
    split
    · exact ih err
    · apply runs_bind runs_spMemcacheConnect
      intro err
      split
      · exact runs_pure fun _ _ hw => hw.idle
      · apply runs_bind (runs_emit rfl)
        intro _
        exact runs_mono (ih err) (fun _ _ hw => hw.idle) fun _ _ _ hw => hw

theorem runs_checkAndConnect :
    Runs reply uris Wire.Idle checkAndConnect fun _ => Wire.Idle := by
  apply runs_bind (runs_setState .connecting)
  intro _
  exact runs_connectRetry 6 0

theorem runs_updateTimeRemaining (sk : SocketState) :
    Runs reply uris P (spMemcacheStatsUpdateTimeRemaining sk) fun _ => P := by
  apply runs_bind (runs_call fun _ => rfl)
  intro _
  exact runs_pure fun _ _ hw => hw

theorem runs_sessionInfo (timeoutMs : Int) :
    Runs reply uris P (sessionInfo timeoutMs) fun _ => P := by
  apply runs_bind (runs_call fun _ => rfl)
  intro _
  exact runs_pure fun _ _ hw => hw

/-- The call of `cmd` has read nothing yet. -/
structure Wire.Unread (cmd : Bytes) (w : Wire) : Prop where
  command : w.command = cmd
  buffer : w.buffer = []
  valid : w.valid = 0
  taken : w.taken = []

/-- `rest` of the command has not been written. -/
structure Wire.Sending (cmd rest : Bytes) (w : Wire) : Prop extends w.Unread cmd where
  started : w.started = w.commands.length
  pending : w.pending = []
  sent : w.gone = true ∨ w.received ++ rest = cmd

/-- The command has been written, or the connection is closed. -/
structure Wire.Sent (cmd : Bytes) (w : Wire) : Prop extends w.Unread cmd where
  reading : w.Reading

theorem Wire.Unread.reset {cmd : Bytes} {w : Wire} (h : w.Unread cmd) : w.reset.Sent cmd :=
  { command := h.command
    buffer := h.buffer
    valid := h.valid
    taken := h.taken
    reading := w.clear_reset.reading }

theorem Wire.Sending.part {cmd rest : Bytes} {w : Wire} (h : w.Sending cmd rest)
    (hcmd : Framed cmd) {n : Nat} (hn : n < rest.length) :
    ((rest.take n).foldl (Wire.feed reply) w).Sending cmd (rest.drop n) ∧
      ((rest.take n).foldl (Wire.feed reply) w).blocked = w.blocked := by
  cases hgone : w.gone with
  | true =>
    rw [Wire.feed_gone hgone]
    exact ⟨{ h with sent := Or.inl hgone }, rfl⟩
  | false =>
    have hsent : w.received ++ rest = cmd := h.sent.resolve_left (by simp [hgone])
    have hpart : ∀ front, front <+: rest.take n →
        commandComplete (w.received ++ front) = false := by
      rintro front ⟨back, hfront⟩
      apply hcmd (w.received ++ front) (back ++ rest.drop n)
      · rw [← hsent, List.append_assoc, ← List.append_assoc front, hfront, List.take_append_drop]
      · intro hnil
        have hdrop := (List.append_eq_nil_iff.mp hnil).2
        rw [List.drop_eq_nil_iff] at hdrop
        omega
    have hrest : w.received ++ rest.take n ++ rest.drop n = cmd := by
      rw [List.append_assoc, List.take_append_drop]
      exact hsent
    rw [Wire.feed_part hgone hpart]
    exact ⟨{ h with sent := Or.inr hrest }, rfl⟩

theorem Wire.Sending.complete {cmd rest : Bytes} {w : Wire} (h : w.Sending cmd rest)
    (hcmd : Framed cmd) (hne : rest ≠ []) :
    (rest.foldl (Wire.feed reply) w).Sent cmd ∧ (rest.foldl (Wire.feed reply) w).Tagged := by
  cases hgone : w.gone with
  | true =>
    rw [Wire.feed_gone hgone]
    constructor
    · exact { h with reading := ⟨fun _ => h.pending, Or.inl hgone⟩ }
    · intro p hp
      rw [h.taken, h.pending] at hp
      contradiction
  | false =>
    have hsent : w.received ++ rest = cmd := h.sent.resolve_left (by simp [hgone])
    rw [Wire.feed_rest hcmd hsent hne hgone]
    split
    · constructor
      · exact { h with reading := ⟨fun hg => absurd hg (by simp [hgone]), Or.inr (Or.inl rfl)⟩ }
      · intro p hp
        simp only [h.taken, h.pending, List.nil_append, List.mem_map] at hp
        obtain ⟨ch, -, rfl⟩ := hp
        simp [h.started, h.command]
    · constructor
      · exact { h with reading := ⟨fun _ => h.pending, Or.inr (Or.inr ⟨h.taken, h.pending⟩)⟩ }
      · intro p hp
        simp only [h.taken, h.pending, List.append_nil] at hp
        contradiction

/-- Where the loop of `spMemcacheWrite` stands. -/
def WriteInv (cmd : Bytes) (s : WriteLoop) (w : Wire) : Prop :=
  (s.i = 0 ∧ s.err = 0 ∧ w.Sent cmd) ∨
    (0 < s.i ∧ (s.cmd.drop s.numChars).length = s.i ∧ (s.err ≠ 0 → w.blocked = true) ∧
      w.Sending cmd (s.cmd.drop s.numChars))

/-- What a call of `spMemcacheWrite` leaves: an error leaves nothing to be read. -/
def Written (cmd : Bytes) (err : Nat) (w : Wire) : Prop :=
  w.Sent cmd ∧ (err ≠ 0 → w.Idle)

theorem runs_writeBail {cmd : Bytes} (err : Nat) (h : ∀ w : Wire, P w → w.Unread cmd) :
    Runs reply uris P (Sum.inr <$> bail err : Poller (WriteLoop ⊕ Nat))
      (LoopStep (WriteInv cmd) (Written cmd)) := by
  apply runs_map
  apply runs_post (@runs_bail _ _ P (fun w => w.Sent cmd ∧ w.Idle) err fun w _ hw =>
    ⟨(h w hw).reset, w.clear_reset.idle⟩)
  rintro r w _ ⟨-, hsent, hidle⟩
  exact ⟨hsent, fun _ => hidle⟩

theorem runs_writeNext {cmd : Bytes} (s : WriteLoop) :
    Runs reply uris (fun w => WriteInv cmd ⟨s.i - s.numChars, s.cmd, s.numChars, s.err, s.sk⟩ w)
      (writeNext s) (LoopStep (WriteInv cmd) (Written cmd)) := by
  apply runs_bind (runs_updateTimeRemaining s.sk)
  intro sk
  split
  · rename_i htimeout
    apply runs_writeBail
    intro w hw
    rcases hw with ⟨-, -, hsent⟩ | ⟨-, -, -, hsending⟩
    · exact hsent.toUnread
    · exact hsending.toUnread
  · exact runs_pure fun _ _ hw => hw

theorem Wire.Sending.tagged {cmd rest : Bytes} {w : Wire} (h : w.Sending cmd rest) : w.Tagged := by
  intro p hp
  rw [h.taken, h.pending] at hp
  contradiction

/-- After a write of the rest of the command. -/
def AfterWrite (cmd : Bytes) (s : WriteLoop) (r : SysResult Nat) (w : Wire) : Prop :=
  match r with
  | .ok n => WriteInv cmd ⟨s.i - n, s.cmd.drop s.numChars, n, s.err, s.sk⟩ w
  | .error e => (s.cmd.drop s.numChars).length = s.i ∧ (e = EAGAIN → w.blocked = true) ∧
      w.Sending cmd (s.cmd.drop s.numChars)

/-- One write; it is the write of the whole rest only if none was blocked. -/
theorem runs_writeRest {cmd : Bytes} (hcmd : Framed cmd) {s : WriteLoop} (hi : s.i ≠ 0) :
    Runs reply uris (WriteInv cmd s) (write (s.cmd.drop s.numChars)) (AfterWrite cmd s) := by
  have hsending : ∀ w : Wire, WriteInv cmd s w → (s.cmd.drop s.numChars).length = s.i ∧
      (s.err ≠ 0 → w.blocked = true) ∧ w.Sending cmd (s.cmd.drop s.numChars) := by
    rintro w (⟨hzero, -⟩ | ⟨-, hrest⟩)
    · exact absurd hzero hi
    · exact hrest
  apply runs_write
  · intro w n _ hw hn hstep
    obtain ⟨hlen, hblocked, hsending⟩ := hsending w hw
    have hafter : w.after reply (.write (s.cmd.drop s.numChars) (.ok n)) =
        ((s.cmd.drop s.numChars).take n).foldl (Wire.feed reply) w := rfl
    rw [hafter]
    by_cases hpart : n < (s.cmd.drop s.numChars).length
    · obtain ⟨hrest, hsame⟩ := @Wire.Sending.part reply _ _ _ hsending hcmd n hpart
      have hleft : ((s.cmd.drop s.numChars).drop n).length = s.i - n := by
        rw [List.length_drop, hlen]
      have hpos : 0 < s.i - n := by
        omega
      rw [← hsame] at hblocked
      exact ⟨hrest.tagged, Or.inr ⟨hpos, hleft, hblocked, hrest⟩⟩
    · have hall : n = (s.cmd.drop s.numChars).length := by
        omega
      have hne : s.cmd.drop s.numChars ≠ [] := by
        intro hnil
        rw [hnil] at hlen
        exact hi hlen.symm
      have herr : s.err = 0 := by
        by_contra herr
        have hfree : w.blocked = false := by
          simpa [Wire.inStep, hall] using hstep
        rw [hblocked herr] at hfree
        contradiction
      obtain ⟨hsent, htagged⟩ := @Wire.Sending.complete reply _ _ _ hsending hcmd hne
      have hzero : s.i - (s.cmd.drop s.numChars).length = 0 := by
        omega
      rw [hall, List.take_length]
      exact ⟨htagged, Or.inl ⟨hzero, herr, hsent⟩⟩
  · intro w e _ hw
    obtain ⟨hlen, -, hsending⟩ := hsending w hw
    apply And.intro hlen
    constructor
    · rintro rfl
      rfl
    · unfold Wire.after
      dsimp only
      split
      · exact { hsending with }
      · exact hsending

theorem runs_writeStep {cmd : Bytes} (hcmd : Framed cmd) (s : WriteLoop) :
    Runs reply uris (WriteInv cmd s) (writeStep s) (LoopStep (WriteInv cmd) (Written cmd)) := by
  unfold writeStep
  split
  · rename_i hi
    apply runs_pure
    intro w _ hw
    rcases hw with ⟨-, herr, hsent⟩ | ⟨hpos, -⟩
    · exact ⟨hsent, fun hne => absurd herr hne⟩
    · omega
  · rename_i hi
    apply runs_bind (runs_writeRest hcmd hi)
    intro r
    cases r with
    | ok n => exact runs_writeNext ⟨s.i, s.cmd.drop s.numChars, n, s.err, s.sk⟩
    | error e =>
      have hbail : ∀ err, Runs reply uris (AfterWrite cmd s (.error e))
          (Sum.inr <$> bail err : Poller (WriteLoop ⊕ Nat))
          (LoopStep (WriteInv cmd) (Written cmd)) := by
        intro err
        exact runs_writeBail err fun _ hw => hw.2.2.toUnread
      dsimp only
      split
      · rename_i hagain
        apply runs_bind (runs_call fun _ => rfl)
        intro r
        have hretry : Runs reply uris (AfterWrite cmd s (.error e))
            (writeNext { s with cmd := s.cmd.drop s.numChars, numChars := 0, err := e.code })
            (LoopStep (WriteInv cmd) (Written cmd)) := by
          apply runs_mono (runs_writeNext _) _ fun _ _ _ hw => hw
          rintro w - ⟨hlen, hblocked, hsending⟩
          have hpos : 0 < s.i := by
            omega
          exact Or.inr ⟨hpos, hlen, fun _ => hblocked hagain.1, hsending⟩
        cases r with
        | failed e' => exact hbail e'.code
        | timeout => exact hretry
        | ready => exact hretry
      · exact hbail e.code

/-- A call that begins with nothing to be read leaves nothing, or has sent its
command. -/
theorem runs_spMemcacheWrite (cmd : Bytes) :
    Runs reply uris Wire.Idle (spMemcacheWrite cmd) (Written cmd) := by
  intro x hx
  apply wlp_bind
  apply wlp_emit
  intro henv
  have hcmd : Framed cmd := by
    have hstep := henv.2
    simp only [Wire.inStep, Bool.or_eq_true, decide_eq_true_eq] at hstep
    rcases hstep with rfl | hline
    · exact framed_livenessCmd
    · exact framed_line hline
  have hcall : At reply uris (fun w => WriteInv cmd ⟨cmd.length, cmd, 0, 0, ⟨0, 0, 0, 0⟩⟩ w)
      (Machine.after x (.command cmd)) := by
    have hidle := hx.holds
    apply hx.event (.command cmd) (paired_of_ne fun _ _ => Event.noConfusion)
    · intro hfd
      exact congrArg (Wire.call · cmd) (hx.closed hfd)
    · intro p hp
      simp only [Wire.after, Wire.call, hidle.1, List.append_nil] at hp
      contradiction
    · have hunread : ((wire reply x.2).call cmd).Unread cmd := ⟨rfl, rfl, rfl, rfl⟩
      by_cases hlen : cmd.length = 0
      · have hreading : ((wire reply x.2).call cmd).Reading :=
          ⟨fun _ => hidle.1, hidle.2.imp_right Or.inl⟩
        exact Or.inl ⟨hlen, rfl, { hunread with reading := hreading }⟩
      · have hsent : (wire reply x.2).gone = true ∨ (wire reply x.2).received ++ cmd = cmd := by
          apply hidle.2.imp_right
          intro hreceived
          rw [hreceived, List.nil_append]
        apply Or.inr
        apply And.intro (Nat.pos_of_ne_zero hlen)
        apply And.intro rfl
        apply And.intro (fun hne => absurd rfl hne)
        exact { hunread with started := rfl, pending := hidle.1, sent := hsent }
  have hloop : Runs reply uris (fun w => WriteInv cmd ⟨cmd.length, cmd, 0, 0, ⟨0, 0, 0, 0⟩⟩ w)
      (backend >>= fun bep => sessionInfo bep.settings.writeMs >>= fun sk =>
        loop writeStep ⟨cmd.length, cmd, 0, 0, sk⟩) (Written cmd) := by
    apply runs_bind runs_backend
    intro bep
    apply runs_fact
    intro _
    apply runs_bind (runs_sessionInfo _)
    intro sk
    exact runs_mono (runs_loop (WriteInv cmd) (runs_writeStep hcmd) ⟨cmd.length, cmd, 0, 0, sk⟩)
      (fun _ _ hw => hw) fun _ _ _ hw => hw
  exact hloop _ hcall

end
end StatsProxy

import StatsProxy.CommandSent

/-! Reading a reply from the wire. In a run that stays in step with the server a
call of `spMemcacheReadReplies` leaves nothing to be read, and what it returns is
parsed from what it has read. -/
namespace StatsProxy
open CString Interaction Program Poller

section

variable {reply : Nat → Bytes} {uris : List Bytes} {P : Wire → Prop}

/-- Each entry is parsed from bytes that the call has read. -/
def FromTaken (stats : List StatsEntry) (w : Wire) : Prop :=
  ∀ entry ∈ stats, ∃ piece, piece <:+: w.taken ∧
    entry ∈ spMemcacheStatsAddStats (piece.map Prod.snd)

theorem FromTaken.mono {stats : List StatsEntry} {w w' : Wire} (h : FromTaken stats w)
    (hw : w.taken <+: w'.taken) : FromTaken stats w' := by
  intro entry hentry
  obtain ⟨piece, hpiece, hadd⟩ := h entry hentry
  exact ⟨piece, hpiece.trans hw.isInfix, hadd⟩

/-- What holds while a reply to `cmd` is read and the buffer holds `data`. -/
structure ReadBase (cmd : Bytes) (stats : List StatsEntry) (data : Bytes) (w : Wire) : Prop where
  command : w.command = cmd
  stats : FromTaken stats w
  data : data <:+ w.taken.map Prod.snd

/-- `spMemcacheRead` goes on. -/
structure Going (len valid : Nat) (s : ReadLoop) (w : Wire) : Prop where
  done : s.done = false
  room : s.data.length < len
  unended : strstr (cString s.data) endMarker = false
  buffer : w.buffer = s.data
  valid : w.valid = valid
  reading : w.Reading

/-- The buffer is full, and the reply may go on. -/
structure Full (cmd : Bytes) (len valid : Nat) (s : ReadLoop) (w : Wire) : Prop where
  done : s.done = false
  full : s.data.length = len
  buffer : w.buffer = []
  valid : w.valid = valid + (spMemcacheStatsAddStats s.data).length
  reading : w.Reading
  last : cmd = livenessCmd ∨ w.valid = 0 → w.Idle

/-- `spMemcacheRead` returns without an error. -/
def Over (cmd : Bytes) (len valid : Nat) (s : ReadLoop) (w : Wire) : Prop :=
  s.err = 0 ∧ ((s.done = true ∧ w.Idle) ∨ Full cmd len valid s w)

/-- Where the loop of `spMemcacheRead` stands. -/
def ReadInv (cmd : Bytes) (len valid : Nat) (stats : List StatsEntry) (s : ReadLoop) (w : Wire) :
    Prop :=
  ReadBase cmd stats s.data w ∧ (Going len valid s w ∨ Over cmd len valid s w)

/-- What a call of `spMemcacheRead` leaves: an error leaves nothing to be read. -/
def ReadDone (cmd : Bytes) (len valid : Nat) (stats : List StatsEntry) (r : ReadLoop) (w : Wire) :
    Prop :=
  ReadBase cmd stats r.data w ∧ (Over cmd len valid r w ∨ (r.err ≠ 0 ∧ w.Idle))

/-- What one step of `spMemcacheRead` makes of the wire. -/
def ReadStep (cmd : Bytes) (len valid : Nat) (stats : List StatsEntry) :
    ReadLoop ⊕ ReadLoop → Wire → Prop :=
  LoopStep (ReadInv cmd len valid stats) (ReadDone cmd len valid stats)

section

variable {cmd : Bytes} {len valid : Nat} {stats : List StatsEntry}

theorem ReadBase.reset {data : Bytes} {w : Wire} (h : ReadBase cmd stats data w) :
    ReadBase cmd stats data w.reset :=
  ⟨h.command, h.stats, h.data⟩

theorem runs_readBail (s : ReadLoop) {err : Nat} (herr : err ≠ 0)
    (h : ∀ w : Wire, P w → ReadBase cmd stats s.data w) :
    Runs reply uris P (readBail s err) (ReadStep cmd len valid stats) := by
  apply runs_bind (@runs_bail _ _ P (fun w => ReadBase cmd stats s.data w ∧ w.Idle) err
    fun w _ hw => ⟨(h w hw).reset, w.clear_reset.idle⟩)
  intro r
  apply runs_pure
  rintro w _ ⟨rfl, hbase, hidle⟩
  exact ⟨hbase, Or.inr ⟨herr, hidle⟩⟩

theorem runs_readNext (s : ReadLoop) (eof : Bool) :
    Runs reply uris (fun w => ReadBase cmd stats s.data w ∧
        (strstr (cString s.data) statCmdError = false →
          let next := { s with done := s.done || eof || strstr (cString s.data) endMarker }
          Going len valid next w ∨ Over cmd len valid next w))
      (readNext s eof) (ReadStep cmd len valid stats) := by
  apply runs_bind (runs_updateTimeRemaining s.sk)
  intro sk
  dsimp only
  split
  · exact runs_readBail _ ECANCELED.ne fun w hw => hw.1
  · rename_i herror
    apply runs_pure
    rintro w - ⟨hbase, hnext⟩
    apply And.intro hbase
    rcases hnext (by simpa using herror) with hgoing | ⟨hok, hdone | hfull⟩
    · exact Or.inl { hgoing with }
    · exact Or.inr ⟨hok, Or.inl hdone⟩
    · exact Or.inr ⟨hok, Or.inr { hfull with }⟩

theorem ReadBase.close {data : Bytes} {w : Wire} (h : ReadBase cmd stats data w) :
    ReadBase cmd stats data w.close :=
  ⟨h.command, h.stats, h.data⟩

theorem take_map_of_prefix {data : Bytes} {pending : List (Nat × UInt8)}
    (h : data <+: pending.map Prod.snd) : (pending.take data.length).map Prod.snd = data := by
  rw [List.map_take]
  exact (List.prefix_iff_eq_take.mp h).symm

theorem ReadBase.deliver {old data : Bytes} {w : Wire} (h : ReadBase cmd stats old w)
    (hdata : data <+: w.pending.map Prod.snd) (room : Nat) :
    ReadBase cmd stats (old ++ data) (w.deliver room data) where
  command := h.command
  stats := h.stats.mono (List.prefix_append _ _)
  data := by
    obtain ⟨front, hfront⟩ := h.data
    use front
    rw [Wire.deliver, List.map_append, take_map_of_prefix hdata, ← hfront, List.append_assoc]

/-- The loop state after a successful read. -/
def ReadLoop.extend (s : ReadLoop) (data : Bytes) : ReadLoop :=
  { s with
    data := s.data ++ data
    err := 0
    done := s.done || decide (data = []) || strstr (cString (s.data ++ data)) endMarker }

theorem Going.deliver {s : ReadLoop} {data : Bytes} {w : Wire} (h : Going len valid s w)
    (hcommand : w.command = cmd) (hne : data ≠ []) (hlen : data.length ≤ len - s.data.length)
    (hgone : w.gone = false) (hdata : data <+: w.pending.map Prod.snd)
    (hstops : w.stops (len - s.data.length) data = true → data.length = w.pending.length)
    (herror : strstr (cString (s.data ++ data)) statCmdError = false) :
    Going len valid (s.extend data) (w.deliver (len - s.data.length) data) ∨
      Over cmd len valid (s.extend data) (w.deliver (len - s.data.length) data) := by
  have hpending : w.pending ≠ [] := by
    intro hnil
    rw [hnil] at hdata
    exact hne (List.prefix_nil.mp hdata)
  have hreceived : w.received = [] := by
    rcases h.reading.2 with hg | hr | ⟨-, hp⟩
    · simp [hgone] at hg
    · exact hr
    · contradiction
  have hreading : (w.deliver (len - s.data.length) data).Reading :=
    ⟨fun hg => absurd hg (by simp [Wire.deliver, hgone]), Or.inr (Or.inl hreceived)⟩
  have hidle : w.stops (len - s.data.length) data = true →
      (w.deliver (len - s.data.length) data).Idle := by
    intro hs
    constructor
    · simp [Wire.deliver, hstops hs]
    · exact Or.inr hreceived
  have hroom := h.room
  by_cases hend : strstr (cString (s.data ++ data)) endMarker = true
  · have hdone : (s.extend data).done = true := by
      simp [ReadLoop.extend, hend]
    have hlast : w.stops (len - s.data.length) data = true := by
      simp [Wire.stops, h.buffer, herror, hend]
    exact Or.inr ⟨rfl, Or.inl ⟨hdone, hidle hlast⟩⟩
  · rw [Bool.not_eq_true] at hend
    have hdone : (s.extend data).done = false := by
      simp [ReadLoop.extend, h.done, hne, hend]
    by_cases hfull : data.length = len - s.data.length
    · have hlength : (s.extend data).data.length = len := by
        simp only [ReadLoop.extend, List.length_append]
        omega
      have hbuffer : (w.deliver (len - s.data.length) data).buffer = [] := by
        simp [Wire.deliver, hfull]
      have hvalid : (w.deliver (len - s.data.length) data).valid =
          valid + (spMemcacheStatsAddStats (s.data ++ data)).length := by
        simp [Wire.deliver, hfull, h.valid, h.buffer]
      have hlast : cmd = livenessCmd ∨ (w.deliver (len - s.data.length) data).valid = 0 →
          (w.deliver (len - s.data.length) data).Idle := by
        intro hlast
        rw [hvalid] at hlast
        apply hidle
        simpa [Wire.stops, h.buffer, h.valid, hcommand, herror, hend, hfull] using hlast
      exact Or.inr ⟨rfl, Or.inr ⟨hdone, hlength, hbuffer, hvalid, hreading, hlast⟩⟩
    · have hlength : (s.extend data).data.length < len := by
        simp only [ReadLoop.extend, List.length_append]
        omega
      have hbuffer : (w.deliver (len - s.data.length) data).buffer = (s.extend data).data := by
        simp [Wire.deliver, hfull, h.buffer, ReadLoop.extend]
      have hvalid : (w.deliver (len - s.data.length) data).valid = valid := by
        simp [Wire.deliver, hfull, h.valid]
      exact Or.inl ⟨hdone, hlength, hend, hbuffer, hvalid, hreading⟩

/-- After a read. -/
def AfterRead (cmd : Bytes) (len valid : Nat) (stats : List StatsEntry) (s : ReadLoop)
    (r : SysResult Bytes) (w : Wire) : Prop :=
  match r with
  | .ok data => ReadBase cmd stats (s.data ++ data) w ∧
      (strstr (cString (s.data ++ data)) statCmdError = false →
        Going len valid (s.extend data) w ∨ Over cmd len valid (s.extend data) w)
  | .error _ => ReadBase cmd stats s.data w ∧ Going len valid s w

theorem runs_readMore (s : ReadLoop) :
    Runs reply uris (fun w => ReadBase cmd stats s.data w ∧ Going len valid s w)
      (read (len - s.data.length)) (AfterRead cmd len valid stats s) := by
  apply runs_read
  · rintro w - ⟨hbase, hgoing⟩
    have hdone : (s.extend []).done = true := by
      simp [ReadLoop.extend]
    constructor
    · rw [List.append_nil]
      exact hbase.close
    · exact fun _ => Or.inr ⟨rfl, Or.inl ⟨hdone, rfl, Or.inl rfl⟩⟩
  · rintro w data - ⟨hbase, hgoing⟩ hne hlen hgone hdata hstops
    exact ⟨hbase.deliver hdata _, hgoing.deliver hbase.command hne hlen hgone hdata hstops⟩
  · exact fun w e _ hw => hw

theorem runs_readStep (s : ReadLoop) :
    Runs reply uris (ReadInv cmd len valid stats s) (readStep len s)
      (ReadStep cmd len valid stats) := by
  unfold readStep
  split
  · rename_i hmore
    have hread : Runs reply uris (ReadInv cmd len valid stats s) (read (len - s.data.length))
        (AfterRead cmd len valid stats s) := by
      apply runs_mono (runs_readMore s) _ fun _ _ _ hw => hw
      rintro w - ⟨hbase, hgoing | ⟨-, hdone | hfull⟩⟩
      · exact ⟨hbase, hgoing⟩
      · simp [hmore.2] at hdone
      · have := hfull.full
        omega
    apply runs_bind hread
    intro r
    cases r with
    | ok data => exact runs_readNext { s with data := s.data ++ data, err := 0 } _
    | error e =>
      have hbail : ∀ (e' : Errno),
          Runs reply uris (AfterRead cmd len valid stats s (.error e)) (readBail s e'.code)
            (ReadStep cmd len valid stats) := by
        intro e'
        exact runs_readBail s e'.ne fun _ hw => hw.1
      have hretry : Runs reply uris (AfterRead cmd len valid stats s (.error e))
          (readNext { s with err := e.code } false) (ReadStep cmd len valid stats) := by
        apply runs_mono (runs_readNext _ _) _ fun _ _ _ hw => hw
        rintro w - ⟨hbase, hgoing⟩
        apply And.intro hbase
        intro _
        have hdone : (s.done || false || strstr (cString s.data) endMarker) = false := by
          simp [hgoing.done, hgoing.unended]
        exact Or.inl { hgoing with done := hdone }
      dsimp only
      split
      · split
        · apply runs_bind (runs_call fun _ => rfl)
          intro r
          cases r with
          | failed e' => exact hbail e'
          | timeout => exact hretry
          | ready => exact hretry
        · exact hbail e
      · exact hbail e
  · rename_i hmore
    apply runs_pure
    rintro w - ⟨hbase, hgoing | ⟨hok, hdone | hfull⟩⟩
    · exact absurd ⟨hgoing.room, hgoing.done⟩ hmore
    · exact ⟨hbase, Or.inl ⟨hok, Or.inl hdone⟩⟩
    · exact ⟨hbase, Or.inl ⟨hok, Or.inr { hfull with }⟩⟩

/-- What holds when `spMemcacheRead` is called. -/
structure Unstarted (cmd : Bytes) (valid : Nat) (stats : List StatsEntry) (w : Wire) : Prop where
  command : w.command = cmd
  stats : FromTaken stats w
  buffer : w.buffer = []
  valid : w.valid = valid
  reading : w.Reading

theorem runs_spMemcacheRead (hlen : 0 < len) (sk : SocketState) :
    Runs reply uris (Unstarted cmd valid stats) (spMemcacheRead len sk false)
      (ReadDone cmd len valid stats) := by
  apply runs_mono (runs_loop (ReadInv cmd len valid stats) runs_readStep ⟨[], 0, false, sk⟩) _
    fun _ _ _ hw => hw
  intro w _ hw
  apply And.intro ⟨hw.command, hw.stats, List.nil_suffix⟩
  exact Or.inl ⟨rfl, hlen, rfl, hw.buffer, hw.valid, hw.reading⟩

end

theorem FromTaken.parse {stats : List StatsEntry} {data : Bytes} {w : Wire}
    (h : FromTaken stats w) (hdata : data <:+ w.taken.map Prod.snd) :
    FromTaken (stats ++ spMemcacheStatsAddStats data) w := by
  intro entry hentry
  rcases List.mem_append.mp hentry with hold | hnew
  · exact h entry hold
  · obtain ⟨piece, hpiece, rfl⟩ := List.suffix_map_iff.mp hdata
    exact ⟨piece, hpiece.isInfix, hnew⟩

/-- Where the loop of `spMemcacheReadReplies` stands. -/
def RepliesInv (cmd : Bytes) (s : RepliesLoop) (w : Wire) : Prop :=
  w.command = cmd ∧ FromTaken s.stats w ∧
    ((s.done = true ∧ w.Idle) ∨
      (s.done = false ∧ w.Reading ∧ w.buffer = [] ∧ w.valid = s.validStatsCnt))

/-- What a call of `spMemcacheReadReplies` leaves: nothing to be read. -/
def Replied (cmd : Bytes) (r : Nat × List StatsEntry) (w : Wire) : Prop :=
  w.command = cmd ∧ FromTaken r.2 w ∧ w.Idle

theorem runs_repliesStep {cmd : Bytes} (s : RepliesLoop) :
    Runs reply uris (RepliesInv cmd s) (repliesStep s)
      (LoopStep (RepliesInv cmd) (Replied cmd)) := by
  unfold repliesStep
  split
  · rename_i hdone
    apply runs_pure
    rintro w - ⟨hcommand, hstats, ⟨-, hidle⟩ | ⟨hmore, -⟩⟩
    · exact ⟨hcommand, hstats, hidle⟩
    · simp [hdone] at hmore
  · rename_i hdone
    rw [Bool.not_eq_true] at hdone
    have hread : Runs reply uris (RepliesInv cmd s) (spMemcacheRead maxStatSz s.sk s.done)
        (ReadDone cmd maxStatSz s.validStatsCnt s.stats) := by
      rw [hdone]
      apply runs_mono (runs_spMemcacheRead (by decide) s.sk) _ fun _ _ _ hw => hw
      rintro w - ⟨hcommand, hstats, ⟨hd, -⟩ | ⟨-, hreading, hbuffer, hvalid⟩⟩
      · simp [hdone] at hd
      · exact ⟨hcommand, hstats, hbuffer, hvalid, hreading⟩
    apply runs_bind hread
    intro r
    have hfailed : ∀ err, r.err ≠ 0 →
        Runs reply uris (ReadDone cmd maxStatSz s.validStatsCnt s.stats r)
          (pure (.inr (err, s.stats))) (LoopStep (RepliesInv cmd) (Replied cmd)) := by
      intro err hr
      apply runs_pure
      rintro w - ⟨hbase, ⟨hzero, -⟩ | ⟨-, hidle⟩⟩
      · exact absurd hzero hr
      · exact ⟨hbase.command, hbase.stats, hidle⟩
    dsimp only
    split
    · rename_i hcanceled
      apply hfailed
      rw [hcanceled]
      exact ECANCELED.ne
    · split
      · rename_i hr
        exact hfailed r.err hr
      · rename_i hr
        apply runs_pure
        rintro w - ⟨hbase, hover | ⟨hne, -⟩⟩
        · apply And.intro hbase.command
          apply And.intro (hbase.stats.parse hbase.data)
          rcases hover.2 with ⟨hd, hidle⟩ | hfull
          · exact Or.inl ⟨by simp [hd], hidle⟩
          · rw [hfull.done, Bool.false_or, ← hfull.valid]
            by_cases hnone : w.valid = 0
            · exact Or.inl ⟨decide_eq_true hnone, hfull.last (Or.inr hnone)⟩
            · exact Or.inr ⟨decide_eq_false hnone, hfull.reading, hfull.buffer, rfl⟩
        · exact absurd hne hr

theorem runs_spMemcacheReadReplies (cmd : Bytes) :
    Runs reply uris (fun w => w.Sent cmd) spMemcacheReadReplies (Replied cmd) := by
  apply runs_bind runs_backend
  intro bep
  apply runs_fact
  intro _
  apply runs_bind (runs_sessionInfo _)
  intro sk
  have hloop : Runs reply uris (fun w => w.Sent cmd) (loop repliesStep ⟨[], 0, false, sk⟩)
      (Replied cmd) := by
    apply runs_mono (runs_loop (RepliesInv cmd) runs_repliesStep ⟨[], 0, false, sk⟩) _
      fun _ _ _ hw => hw
    intro w _ hw
    exact ⟨hw.command, nofun, Or.inr ⟨rfl, hw.reading, hw.buffer, hw.valid⟩⟩
  apply runs_bind hloop
  intro r
  apply runs_bind (runs_emit rfl)
  intro _
  exact runs_pure fun _ _ hw => hw

end
end StatsProxy

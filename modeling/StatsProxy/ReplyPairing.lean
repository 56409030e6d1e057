import StatsProxy.ReplyRead

/-! Which reply a published entry comes from. In a run that stays in step with the
server, every entry that `getStat` publishes is parsed from bytes of the reply to
the command that the same call wrote. -/
namespace StatsProxy
open CString Interaction Program Poller

section

variable {reply : Nat → Bytes} {uris : List Bytes}

/-- The entries may be published under uri `i`. -/
def Publishable (uris : List Bytes) (i : Nat) (entries : List StatsEntry) (w : Wire) : Prop :=
  w.Idle ∧ ∀ uri, uris[i]? = some uri → uri ≠ ascii "health" → ∀ entry ∈ entries,
    ParsedFromReply w uri entry

theorem runs_addNewStats (i : Nat) (entries : List StatsEntry) :
    Runs reply uris (Publishable uris i entries) (addNewStats i entries)
      fun _ => Publishable uris i entries := by
  apply runs_emits
  intro e he y hy
  obtain ⟨entry, hentry, rfl⟩ := List.mem_map.mp he
  apply hy.event (.insertTail i entry)
  · intro j entry' uri heq huri hhealth
    cases heq
    exact hy.holds.2 uri huri hhealth entry hentry
  · exact hy.closed
  · exact hy.tagged
  · exact hy.holds

theorem runs_publish (i : Nat) (entries : List StatsEntry) :
    Runs reply uris (Publishable uris i entries) (publish i entries) fun _ => Wire.Idle := by
  have hremove : Runs reply uris (Publishable uris i entries) (removeOldStats i)
      fun _ => Publishable uris i entries := by
    apply runs_bind runs_backend
    intro bep
    apply runs_fact
    intro _
    have hheads : ∀ e ∈ (bep.stats i).map fun _ => Event.removeHead i, e = .removeHead i := by
      intro e he
      obtain ⟨_, -, rfl⟩ := List.mem_map.mp he
      rfl
    apply runs_bind (runs_emits fun e he y hy => hy.silent (by rw [hheads e he]; rfl))
    intro _
    exact runs_emit rfl
  apply runs_bind (runs_emit rfl)
  intro _
  apply runs_bind hremove
  intro _
  apply runs_bind (runs_addNewStats i entries)
  intro _
  exact runs_post (runs_emit rfl) fun _ _ _ hw => hw.1

/-- What has been read answers the command of the call. -/
theorem Replied.publishable {i : Nat} {uri : Bytes} (huri : uris[i]? = some uri)
    {r : Nat × List StatsEntry} {w : Wire} (htagged : w.Tagged)
    (h : Replied (statsCmd uri) r w) : Publishable uris i r.2 w := by
  obtain ⟨hcommand, hstats, hidle⟩ := h
  apply And.intro hidle
  intro uri' huri' _ entry hentry
  rw [huri, Option.some.injEq] at huri'
  subst huri'
  obtain ⟨piece, hpiece, hadd⟩ := hstats entry hentry
  have hanswer : ∀ p ∈ piece, p.1 = w.started ∧ w.commands[w.started]? = some (statsCmd uri) := by
    intro p hp
    rw [← hcommand]
    exact htagged p (List.mem_append_left _ (hpiece.subset hp))
  exact ⟨piece, hpiece, hadd, hanswer⟩

theorem runs_getStat {i : Nat} {uri : Bytes} (huri : uris[i]? = some uri) :
    Runs reply uris Wire.Idle (getStat i uri) fun _ => Wire.Idle := by
  apply runs_bind (runs_spMemcacheWrite (statsCmd uri))
  intro err
  split
  · apply runs_bind (runs_mono (runs_spMemcacheReadReplies (statsCmd uri))
      (fun _ _ hw => hw.1) fun _ _ _ hw => hw)
    intro r
    exact runs_mono (runs_publish i r.2) (fun w htagged hw => hw.publishable huri htagged)
      fun _ _ _ hw => hw
  · rename_i herr
    exact runs_pure fun _ _ hw => hw.2 herr

/-- Entries under the uri `health` are not parsed from a reply. -/
theorem runs_publishHealth {i : Nat} (huri : uris[i]? = some (ascii "health")) (pollDelta : Nat)
    (polltimeBuf : Bytes) (livenessVal : Nat) (livenessDelta : Int) :
    Runs reply uris Wire.Idle (publishHealth i pollDelta polltimeBuf livenessVal livenessDelta)
      fun _ => Wire.Idle := by
  apply runs_mono (runs_publish i _) _ fun _ _ _ hw => hw
  intro w _ hidle
  apply And.intro hidle
  intro uri huri' hhealth
  rw [huri, Option.some.injEq] at huri'
  exact absurd huri'.symm hhealth

/-- The reply to the health check is not longer than what is read of it. -/
theorem runs_readLiveness (sk : SocketState) :
    Runs reply uris (fun w => w.Sent livenessCmd) (spMemcacheRead livenessOk.length sk false)
      fun _ => Wire.Idle := by
  have hlen : 0 < livenessOk.length := by
    decide
  apply runs_mono (@runs_spMemcacheRead reply uris livenessCmd _ 0 [] hlen sk)
  · exact fun w _ hw => ⟨hw.command, nofun, hw.buffer, hw.valid, hw.reading⟩
  · rintro r w - ⟨-, ⟨-, ⟨-, hidle⟩ | hfull⟩ | ⟨-, hidle⟩⟩
    · exact hidle
    · exact hfull.last (Or.inl rfl)
    · exact hidle

theorem runs_getHealth {i : Nat} (huri : uris[i]? = some (ascii "health")) :
    Runs reply uris Wire.Idle (getHealth i) fun _ => Wire.Idle := by
  apply runs_bind runs_backend
  intro bep
  apply runs_fact
  intro _
  apply runs_bind (runs_sessionInfo _)
  intro sk
  apply runs_bind (runs_call fun _ => rfl)
  intro now
  apply runs_bind runs_ctime
  intro polltimeBuf
  apply runs_bind (runs_call fun _ => rfl)
  intro start
  apply runs_bind (runs_spMemcacheWrite livenessCmd)
  intro err
  split
  · rename_i herr
    exact runs_mono (runs_publishHealth huri _ _ _ _) (fun _ _ hw => hw.2 herr) fun _ _ _ hw => hw
  · apply runs_bind (runs_mono (runs_readLiveness sk) (fun _ _ hw => hw.1) fun _ _ _ hw => hw)
    intro r
    apply runs_bind (runs_call fun _ => rfl)
    intro stop
    dsimp only
    split
    · exact runs_publishHealth huri _ _ _ _
    · split
      · exact runs_publishHealth huri _ _ _ _
      · exact runs_publishHealth huri _ _ _ _

theorem runs_pollUri {i : Nat} {uri : Bytes} (huri : uris[i]? = some uri) :
    Runs reply uris Wire.Idle (pollUri i uri) fun _ => Wire.Idle := by
  unfold pollUri
  split
  · rename_i hhealth
    rw [hhealth] at huri
    exact runs_getHealth huri
  · exact runs_getStat huri

theorem runs_pollUris (us : List (Bytes × Nat)) (hus : ∀ u ∈ us, uris[u.2]? = some u.1) :
    Runs reply uris Wire.Idle (pollUris us) fun _ => Wire.Idle := by
  induction us with
  | nil => exact runs_pure fun _ _ hw => hw
  | cons u rest ih =>
    apply runs_bind runs_checkAndConnect
    intro err
    split
    · exact runs_pure fun _ _ hw => hw
    · apply runs_bind (runs_setState .polling)
      intro _
      apply runs_bind (runs_pollUri (hus u List.mem_cons_self))
      intro _
      apply runs_bind (runs_call fun _ => rfl)
      intro now
      apply runs_bind (runs_emit rfl)
      intro _
      exact ih fun u' hu' => hus u' (List.mem_cons_of_mem u hu')

theorem runs_pollCycle :
    Runs reply uris Wire.Idle (pollCycle ()) (LoopStep (fun _ => Wire.Idle) fun _ _ => False) := by
  apply runs_bind (runs_call fun _ => rfl)
  intro start
  apply runs_bind runs_backend
  intro bep
  apply runs_fact
  intro huris
  apply runs_bind (runs_pollUris _ _)
  · intro completed
    split
    · apply runs_bind (runs_disconnect fun w _ _ => w.clear_reset.idle)
      intro _
      apply runs_bind (runs_call fun _ => rfl)
      intro stop
      apply runs_bind (runs_emit rfl)
      intro _
      exact runs_pure fun _ _ hw => hw
    · exact runs_pure fun _ _ hw => hw
  · rintro ⟨uri, i⟩ hu
    rw [List.mem_zipIdx_iff_getElem?, huris] at hu
    exact hu

theorem runs_runBackend : Runs reply uris Wire.Idle runBackend fun _ _ => False := by
  apply runs_bind (runs_setState .halted)
  intro _
  exact runs_loop (fun _ => Wire.Idle) (fun _ => runs_pollCycle) ()

end

theorem initial_at (reply : Nat → Bytes) (settings : LocalSettings) (uris : List Bytes) :
    At reply uris Wire.Idle (World.initial settings uris, []) where
  paired := atEach_nil
  configured := by
    simp [World.initial, Function.comp_def]
  closed := fun _ => rfl
  tagged := nofun
  holds := ⟨rfl, Or.inr rfl⟩

/-- Pairing in a run that stays in step with the server. -/
theorem published_paired (settings : LocalSettings) (uris : List Bytes) (reply : Nat → Bytes)
    (inputs : List Answer)
    (hanswers : AtEach (fun before e => (wire reply before).answers e = true)
      (runBackend.exec (World.initial settings uris) inputs).trace)
    (hstep : AtEach (fun before e => (wire reply before).inStep e = true)
      (runBackend.exec (World.initial settings uris) inputs).trace) :
    AtEach (fun before e => Paired uris (wire reply before) e)
      (runBackend.exec (World.initial settings uris) inputs).trace := by
  have hallowed : Allowed (Env reply) (World.initial settings uris, [])
      (runBackend.exec (World.initial settings uris) inputs).trace := by
    apply (allowed_log (P := fun before e => (wire reply before).answers e = true ∧
      (wire reply before).inStep e = true)).mpr
    intro before e after hlog
    exact ⟨hanswers before e after hlog, hstep before e after hlog⟩
  have hpaired := run_of_wlp (runs_runBackend _ (initial_at reply settings uris))
    (fun a _ _ => a.elim) hallowed
  rwa [AllPaired, run_prod, run_log] at hpaired

def itemsReply : Bytes := ascii "STAT items:1:number 7\r\nEND\r\n"
def sizesReply : Bytes := ascii "STAT 96 2\r\nEND\r\n"

/-- The replies to the commands of `sampleUris`, one after the other. -/
def sampleReply (n : Nat) : Bytes := if n % 2 = 0 then itemsReply else sizesReply

/-- An environment that answers one call with `a`, after `n` other calls. -/
def answerAfter (n : Nat) (a : Answer) : List Answer := List.replicate n { time := 0 } ++ [a]

/-- A cycle up to its `usleep`, with every call successful. -/
def sampleAnswers : List Answer :=
  answerAfter 6 { write := .ok 13 } ++ answerAfter 2 { read := .ok itemsReply } ++
    answerAfter 3 { write := .ok 13 } ++ answerAfter 2 { read := .ok sizesReply } ++
    List.replicate 4 { time := 0 }

theorem published_paired_sample :
    AtEach (fun before e => Paired sampleUris (wire sampleReply before) e)
        (runBackend.exec sampleWorld sampleAnswers).trace ∧
      .insertTail 1 ⟨ascii "96", .alpha (ascii "2")⟩ ∈
        (runBackend.exec sampleWorld sampleAnswers).trace := by
  constructor
  · apply published_paired sampleSettings sampleUris sampleReply sampleAnswers
    · decide +kernel
    · decide +kernel
  · decide +kernel

/-- The first write of the cycle gets `EWOULDBLOCK`, all else is successful. -/
def crossedAnswers : List Answer :=
  answerAfter 9 { write := .ok 13 } ++ answerAfter 3 { write := .ok 13 } ++
    answerAfter 2 { read := .ok itemsReply } ++ List.replicate 4 { time := 0 }

def crossedLog : List Event := (runBackend.exec sampleWorld crossedAnswers).trace

/-- The reply to `stats items` is published under `sizes`. -/
theorem published_crossed :
    ¬∀ (settings : LocalSettings) (uris : List Bytes) (reply : Nat → Bytes) (inputs : List Answer),
      AtEach (fun before e => (wire reply before).answers e = true)
        (runBackend.exec (World.initial settings uris) inputs).trace →
      AtEach (fun before e => Paired uris (wire reply before) e)
        (runBackend.exec (World.initial settings uris) inputs).trace := by
  intro hall
  have hanswers : AtEach (fun before e => (wire sampleReply before).answers e = true)
      crossedLog := by
    decide +kernel
  have hpaired : AtEach (fun before e => Paired sampleUris (wire sampleReply before) e)
      crossedLog :=
    hall sampleSettings sampleUris sampleReply crossedAnswers hanswers
  have hsplit : crossedLog = crossedLog.take 40 ++
      .insertTail 1 ⟨ascii "items:1:number", .alpha (ascii "7")⟩ :: crossedLog.drop 41 := by
    decide +kernel
  have hcrossed : Paired sampleUris (wire sampleReply (crossedLog.take 40))
      (.insertTail 1 ⟨ascii "items:1:number", .alpha (ascii "7")⟩) :=
    hpaired _ _ _ hsplit
  have huri : sampleUris[1]? = some (ascii "sizes") := by
    decide +kernel
  obtain ⟨piece, hpiece, hentry, hanswer⟩ := hcrossed 1 _ (ascii "sizes") rfl huri (by decide)
  have htaken : ((wire sampleReply (crossedLog.take 40)).taken.all fun p =>
      p.1 ≠ (wire sampleReply (crossedLog.take 40)).started) = true := by
    decide +kernel
  cases piece with
  | nil =>
    have hnone : spMemcacheStatsAddStats [] = [] := by
      decide +kernel
    rw [List.map_nil, hnone] at hentry
    exact List.not_mem_nil hentry
  | cons p piece =>
    have hother := List.all_eq_true.mp htaken p (hpiece.subset List.mem_cons_self)
    simp [(hanswer p List.mem_cons_self).1] at hother

end StatsProxy

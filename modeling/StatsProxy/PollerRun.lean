import StatsProxy.Connection

/-! Whole runs of a poller. Each part of a poll cycle keeps `Sound False`: in
it the trace, the descriptor and the state fit together at every call, whether
or not a `socket` or `fcntl` call has failed. -/
namespace StatsProxy
open CString Interaction Program Poller

theorem map_modify (f : UriEntry → UriEntry) (g : UriEntry → α) (uris : List UriEntry) (i : Nat)
    (h : ∀ u, g (f u) = g u) : (uris.modify i f).map g = uris.map g := by
  apply List.ext_getElem?
  intro j
  rw [List.getElem?_map, List.getElem?_map, List.getElem?_modify]
  split
  · cases uris[j]? with
    | none => rfl
    | some u => exact congrArg some (h u)
  · exact congrArg _ (id_map _)

theorem store_uris (e : Event) (bep : Backend) :
    (e.store bep).uris.map UriEntry.uri = bep.uris.map UriEntry.uri := by
  cases e with
  | setLastpoll i now => exact map_modify _ _ _ i fun _ => rfl
  | removeHead i => exact map_modify _ _ _ i fun _ => rfl
  | initStats i => exact map_modify _ _ _ i fun _ => rfl
  | insertTail i entry => exact map_modify _ _ _ i fun _ => rfl
  | _ => rfl

/-- The uris of a backend are configured once. -/
theorem run_uris (w : World) (log : List Event) :
    (run w log).bep.uris.map UriEntry.uri = w.bep.uris.map UriEntry.uri := by
  induction log generalizing w with
  | nil => rfl
  | cons e log ih => exact (ih _).trans (store_uris e w.bep)

section

variable {w : World} {x : World × List Event}

/-- What an update is made of. -/
theorem mem_update {i n : Nat} {entries : List StatsEntry} {e : Event}
    (h : e ∈ update i n entries) :
    e = .wrlock ∨ e = .removeHead i ∨ e = .initStats i ∨ (∃ entry, e = .insertTail i entry) ∨
      e = .unlock := by
  simp only [update, List.mem_append, List.mem_cons, List.mem_replicate, List.mem_map,
    List.not_mem_nil, or_false] at h
  grind

theorem keepsFd_update (i n : Nat) (entries : List StatsEntry) :
    ∀ e ∈ update i n entries, e.keepsFd = true := by
  intro e he
  obtain rfl | rfl | rfl | ⟨entry, rfl⟩ | rfl := mem_update he <;> rfl

theorem noOpenFailure_update (log : List Event) (i n : Nat) (entries : List StatsEntry) :
    NoOpenFailure (log ++ update i n entries) ↔ NoOpenFailure log := by
  rw [noOpenFailure_append]
  apply and_iff_left
  intro e he
  obtain rfl | rfl | rfl | ⟨entry, rfl⟩ | rfl := mem_update he <;> rfl

theorem LogSound.update {log : List Event} (h : LogSound w log) (ho : Owned (run w log))
    (i n : Nat) (entries : List StatsEntry) : LogSound w (log ++ update i n entries) where
  blocks := h.blocks.update i n entries
  states := by
    apply atEach_append.mpr ⟨h.states, atEach_of_mem _⟩
    rintro e he before s rfl
    simpa using mem_update he
  cycles := by
    intro hw
    apply atEach_append.mpr ⟨h.cycles hw, atEach_of_mem _⟩
    rintro e he before us rfl
    simpa using mem_update he
  descriptors := h.descriptors.append ho _ (keepsFd_update i n entries)

theorem Sound.update {c : Prop} (h : Sound c w x) (i n : Nat) (entries : List StatsEntry) :
    Sound c w (run x (update i n entries)) := by
  have hrun : run x.1 (StatsProxy.update i n entries) =
      run w (x.2 ++ StatsProxy.update i n entries) := by
    rw [run_append, ← h.consistent]
  have hsilent : Event.setState .polling ∉ StatsProxy.update i n entries := by
    intro he
    simpa using mem_update he
  have hpolling : PollingConnected w (x.2 ++ StatsProxy.update i n entries) ↔
      NoOpenFailure (x.2 ++ StatsProxy.update i n entries) := by
    rw [noOpenFailure_update, pollingConnected_append w _ _ hsilent]
    exact h.polling
  rw [run_prod, run_log]
  exact ⟨⟨⟨hrun, h.log.update (h.consistent ▸ h.owned) i n entries⟩, hpolling,
    fun hc => (noOpenFailure_update x.2 i n entries).mpr (h.clean hc)⟩,
    h.owned.run _ (keepsFd_update i n entries)⟩

/-- One call of `publish` is one update. -/
theorem wp_publish {I : World × List Event → Prop} {Q : Unit → World × List Event → Prop}
    {i : Nat} {entries : List StatsEntry}
    (h : Q () (run x (update i (x.1.bep.stats i).length entries))) :
    wp I (publish i entries) Q x := by
  unfold publish removeOldStats addNewStats
  apply wp_bind
  apply wp_emit
  apply wp_bind
  apply wp_bind
  apply wp_backend
  apply wp_bind
  apply wp_emits
  apply wp_emit
  apply wp_bind
  apply wp_emits
  apply wp_emit
  have hlen : ((Machine.after x .wrlock).1.bep.stats i).map (fun _ => Event.removeHead i) =
      List.replicate (x.1.bep.stats i).length (.removeHead i) := List.map_const' ..
  rw [hlen]
  simpa [StatsProxy.update] using h

theorem keeps_publish {c : Prop} (i : Nat) (entries : List StatsEntry) :
    Keeps (Sound c w) (publish i entries) :=
  fun _ h => wp_publish (h.update i _ entries)

theorem keeps_getStat {c : Prop} (i : Nat) (uri : Bytes) :
    Keeps (Sound c w) (getStat i uri) := by
  apply keeps_bind (keeps_spMemcacheWrite _)
  intro err
  split
  · exact keeps_bind keeps_spMemcacheReadReplies fun r => keeps_publish i r.2
  · exact keeps_pure _

theorem keeps_getHealth {c : Prop} (i : Nat) : Keeps (Sound c w) (getHealth i) := by
  apply keeps_bind keeps_backend
  intro bep
  apply keeps_bind (keeps_sessionInfo _)
  intro sk
  apply keeps_bind keeps_time
  intro now
  apply keeps_bind keeps_ctime
  intro polltimeBuf
  dsimp only
  apply keeps_bind keeps_gettimeofday
  intro start
  apply keeps_bind (keeps_spMemcacheWrite _)
  intro err
  split
  · exact keeps_publish i _
  · apply keeps_bind (keeps_spMemcacheRead _ _ _)
    intro r
    apply keeps_bind keeps_gettimeofday
    intro stop
    split
    · exact keeps_publish i _
    · split
      · exact keeps_publish i _
      · exact keeps_publish i _

theorem keeps_pollUri {c : Prop} (i : Nat) (uri : Bytes) :
    Keeps (Sound c w) (pollUri i uri) := by
  unfold pollUri
  split
  · exact keeps_getHealth i
  · exact keeps_getStat i uri

/-- A cycle from `pollUri` on. -/
theorem keeps_pollRest {c : Prop} (i : Nat) (uri : Bytes) (rest : List (Bytes × Nat))
    (hrest : Keeps (Sound c w) (pollUris rest)) :
    Keeps (Sound c w) (pollUri i uri >>= fun _ => time >>= fun now =>
      emit (.setLastpoll i now) >>= fun _ => pollUris rest) := by
  apply keeps_bind (keeps_pollUri i uri)
  intro _
  apply keeps_bind keeps_time
  intro now
  apply keeps_bind (keeps_quiet _ rfl rfl)
  intro _
  exact hrest

theorem keeps_pollUris (us : List (Bytes × Nat)) : Keeps (Sound False w) (pollUris us) := by
  induction us with
  | nil => exact keeps_pure _
  | cons u rest ih =>
    intro x h
    apply wp_bind
    apply wp_post (checkAndConnect_spec h)
    intro err y hy
    split
    · rename_i he
      exact wp_pure (hy.1.fd_of_ne he).1
    · rename_i he
      apply wp_bind
      apply wp_setState .polling
      apply keeps_pollRest _ _ _ ih
      exact hy.1.polling (not_not.mp he)

/-- After the first uri of a cycle the state has been `CONNECTING`. -/
theorem pollUris_connecting (us : List (Bytes × Nat)) (hus : us ≠ []) (h : Sound False w x) :
    wp (Sound False w) (pollUris us)
      (fun _ y => Sound False w y ∧ .setState .connecting ∈ y.2) x := by
  cases us with
  | nil => contradiction
  | cons u rest =>
    apply wp_bind
    apply wp_post (checkAndConnect_spec h)
    intro err y hy
    obtain ⟨hy, hc⟩ := hy
    split
    · rename_i he
      exact wp_pure ⟨(hy.fd_of_ne he).1, hc⟩
    · rename_i he
      apply wp_bind
      apply wp_setState .polling
      have hrest := keeps_pollRest u.2 u.1 rest (keeps_pollUris rest) _
        (hy.polling (not_not.mp he))
      apply wp_post (wp_log hrest)
      intro completed z hz
      apply And.intro hz.1
      apply hz.2.subset
      rw [run_prod, run_log]
      exact List.mem_append_left _ hc

theorem Sound.usleep {c : Prop} (h : Sound c w x) (us : Nat)
    (hc : w.bep.uris ≠ [] → .setState .connecting ∈ x.2) :
    Sound c w (Machine.after x (.usleep us)) :=
  have ho := (h.owned.after (.usleep us) rfl).1
  ⟨h.toTraced.outside _ rfl rfl (fun _ _ => hc) fun _ => ho, ho⟩

theorem pollCycle_spec (h : Sound False w x) :
    wp (Sound False w) (pollCycle ()) (fun _ y => Sound False w y) x := by
  apply wp_bind
  apply wp_post (keeps_gettimeofday x h)
  intro start y hy
  apply wp_bind
  apply wp_backend
  have huris : y.1.bep.uris.map UriEntry.uri = w.bep.uris.map UriEntry.uri := by
    rw [hy.consistent, run_uris]
  rw [huris]
  have hpoll : wp (Sound False w) (pollUris (w.bep.uris.map UriEntry.uri).zipIdx)
      (fun _ z => Sound False w z ∧ (w.bep.uris ≠ [] → .setState .connecting ∈ z.2)) y := by
    by_cases hw : w.bep.uris = []
    · apply wp_post (keeps_pollUris _ y hy)
      intro _ z hz
      exact ⟨hz, fun hne => absurd hw hne⟩
    · apply wp_post (pollUris_connecting _ (by simpa using hw) hy)
      intro _ z hz
      exact ⟨hz.1, fun _ => hz.2⟩
  apply wp_bind
  apply wp_post hpoll
  intro completed z hz
  obtain ⟨hz, hc⟩ := hz
  split
  · apply wp_bind
    apply wp_post (wp_log (spMemcacheDisconnect_spec hz))
    intro _ z' hz'
    apply wp_bind
    apply wp_post (wp_log (keeps_gettimeofday z' hz'.1.1))
    intro stop v hv
    apply wp_bind
    apply wp_emit
    apply wp_pure
    apply hv.1.usleep
    intro hw
    exact hv.2.subset (hz'.2.subset (hc hw))
  · exact wp_pure hz

/-- Before it starts, a poller has no connection. -/
structure Starts (w : World) : Prop where
  fd : w.bep.fd = -1
  opened : w.opened = []

theorem Starts.sound (h : Starts w) : Sound False w (w, []) where
  consistent := rfl
  log := ⟨.nil, atEach_nil, fun _ => atEach_nil, atEach_nil⟩
  polling := iff_of_true atEach_nil nofun
  clean := False.elim
  owned := Or.inl ⟨h.fd, h.opened⟩

theorem runBackend_spec (h : Starts w) :
    wp (Sound False w) runBackend (fun _ _ => False) (w, []) := by
  apply wp_bind
  apply wp_setState .halted
  apply wp_loop (fun _ y => Sound False w y)
  · exact fun _ _ hy => hy
  · intro _ y hy
    apply wp_post (pollCycle_spec hy)
    intro r y' hy'
    cases r with
    | inl next => exact hy'
    | inr a => exact a.elim
  · exact h.sound.stateSection nofun (Or.inr nofun)

/-- `Sound` holds wherever a poller waits. -/
theorem runBackend_sound (h : Starts w) (inputs : List Answer) :
    Sound False w (run (w, []) (runBackend.exec w inputs).trace) :=
  run_of_wp (runBackend_spec h) (fun _ _ => False.elim) inputs

theorem runBackend_log (h : Starts w) (inputs : List Answer) :
    LogSound w (runBackend.exec w inputs).trace := by
  have hs := (runBackend_sound h inputs).log
  rwa [run_prod, run_log] at hs

theorem initial_starts (settings : LocalSettings) (uris : List Bytes) :
    Starts (World.initial settings uris) :=
  ⟨rfl, rfl⟩

/-- The descriptors of a poller. No assertion of the program fails: each
`close` closes an open descriptor, and each connect starts without one. -/
theorem runBackend_ownsDescriptor (settings : LocalSettings) (uris : List Bytes)
    (inputs : List Answer) :
    (∀ log, runBackend.exec (World.initial settings uris) inputs ≠ .failed log) ∧
      Owned (World.initial settings uris) ∧
      OwnedThroughout (World.initial settings uris)
        (runBackend.exec (World.initial settings uris) inputs).trace := by
  have hstart := initial_starts settings uris
  have hnever : ∀ log, runBackend.exec (World.initial settings uris) inputs ≠ .failed log := by
    intro log hf
    have hm := runBackend_spec hstart inputs
    rw [hf] at hm
    exact hm
  exact ⟨hnever, hstart.sound.owned, (runBackend_log hstart inputs).descriptors⟩

theorem run_setState (w : World) (log : List Event) (s : BackendState)
    (h : (run w log).bep.state = s) (hw : w.bep.state ≠ s) :
    ∃ before after, log = before ++ .setState s :: after := by
  induction log generalizing w with
  | nil => exact absurd h hw
  | cons e log ih =>
    by_cases he : e = .setState s
    · exact ⟨[], log, by rw [he, List.nil_append]⟩
    · have hs : (e.store w.bep).state ≠ s := by
        cases e with
        | setState s' =>
          intro hs
          exact he (congrArg _ hs)
        | _ => exact hw
      obtain ⟨before, after, rfl⟩ := ih (Machine.after w e) h hs
      exact ⟨e :: before, after, rfl⟩

/-- `attempt` is about what follows a `CONNECTING` section: with the backend
disconnected all along, the state does not become `POLLING`. -/
structure PollingMeansConnected (w : World) (log : List Event) : Prop where
  assigned : PollingConnected w log
  attempt : ∀ before window after,
    log = before ++ stateSection .connecting ++ window ++ after →
    (∀ k, (run w (before ++ stateSection .connecting ++ window.take k)).bep.fd < 0) →
    (run w (before ++ stateSection .connecting ++ window)).bep.state ≠ .polling

theorem PollingConnected.means {log : List Event} (h : PollingConnected w log) :
    PollingMeansConnected w log where
  assigned := h
  attempt before window after hlog hfd hstate := by
    rw [run_append] at hstate
    have hc : (run w (before ++ stateSection .connecting)).bep.state ≠ .polling := by
      rw [run_append]
      exact nofun
    obtain ⟨front, back, rfl⟩ := run_setState _ window .polling hstate hc
    have hopen := h (before ++ stateSection .connecting ++ front) _ (back ++ after)
      (by simp [hlog]) rfl
    have hclosed := hfd front.length
    rw [List.take_left] at hclosed
    omega

/-- The code returned by `checkAndConnect` tells whether the backend is
connected, and `POLLING` that it is, exactly as long as no `socket` and no
`fcntl` call fails. -/
theorem connected_iff_noOpenFailure (settings : LocalSettings) (uris : List Bytes)
    (inputs : List Answer) :
    (∀ v, Owned v → ∀ answers err log rest,
      checkAndConnect.exec v answers = .done err log rest →
      ((err = 0 ↔ 0 ≤ (run v log).bep.fd) ↔ NoOpenFailure log)) ∧
    (PollingMeansConnected (World.initial settings uris)
        (runBackend.exec (World.initial settings uris) inputs).trace ↔
      NoOpenFailure (runBackend.exec (World.initial settings uris) inputs).trace) := by
  constructor
  · intro v hv answers err log rest hexec
    have hs : Sound True v (v, []) :=
      ⟨⟨⟨rfl, .nil, atEach_nil, fun _ => atEach_nil, atEach_nil⟩,
        iff_of_true atEach_nil nofun, fun _ => nofun⟩, hv⟩
    have hm := checkAndConnect_spec hs answers
    rw [hexec] at hm
    obtain ⟨hr | hu, -⟩ := hm
    · have hclean := hr.clean trivial
      rw [run_prod, run_log] at hclean
      have hconn := hr.connected
      rw [run_prod] at hconn
      exact iff_of_true hconn hclean
    · have hfail := hu.failure
      rw [run_prod, run_log] at hfail
      apply iff_of_false _ hfail
      intro hiff
      have hopen := hiff.mp hu.success
      have hclosed := hu.closed
      rw [run_prod] at hclosed
      dsimp only at hclosed
      omega
  · have hs := (runBackend_sound (initial_starts settings uris) inputs).polling
    rw [run_prod, run_log] at hs
    exact ⟨fun h => hs.mp h.assigned, fun h => (hs.mpr h).means⟩

end

/-- `EMFILE` from `socket`. -/
def noSocket : Answer := { socket := .error ⟨24, by decide⟩ }

theorem connected_noSocket :
    ((0 = 0 ↔ 0 ≤ (run sampleWorld (stateSection .connecting ++
        [.socket noSocket.socket, .setFd (-1), .setLastError 0])).bep.fd) ↔
      NoOpenFailure (stateSection .connecting ++
        [.socket noSocket.socket, .setFd (-1), .setLastError 0])) :=
  (connected_iff_noOpenFailure sampleSettings [] []).1 sampleWorld (Or.inl ⟨rfl, rfl⟩)
    [noSocket] 0 _ [] rfl

/-- Without a socket the attempt returns 0 and the state becomes `POLLING`. -/
theorem connected_fails :
    (¬∀ answers err log rest, checkAndConnect.exec sampleWorld answers = .done err log rest →
      (err = 0 ↔ 0 ≤ (run sampleWorld log).bep.fd)) ∧
    ¬PollingMeansConnected sampleWorld (runBackend.exec sampleWorld [{}, noSocket]).trace := by
  constructor
  · intro h
    have hiff := h [noSocket] 0 _ [] rfl
    exact absurd hiff (by decide)
  · intro h
    have hopen := h.assigned [.wrlock, .setState .halted, .unlock, .gettimeofday 0, .wrlock,
      .setState .connecting, .unlock, .socket noSocket.socket, .setFd (-1), .setLastError 0,
      .wrlock] _ [.unlock, .command (ascii "stats items\r\n")] rfl rfl
    exact absurd hopen (by decide)

end StatsProxy

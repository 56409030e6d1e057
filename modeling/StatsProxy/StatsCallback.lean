import StatsProxy.Library.ReadersWriter
import StatsProxy.PollerRun

/-! The frontend threads of a backend against its poller. `statsCallback` is a
reader of the readers-writer library, and the poller's traces are its writer.
A request for a uri that is not configured is answered before the lock. -/
namespace StatsProxy
open CString Interaction ReadersWriter

def statsLock : Lock Event where
  acquires e := e = .wrlock
  releases e := e = .unlock

/-- The entry that `statsCallback` finds: the first one with this uri. -/
def World.entry (w : World) (uri : Bytes) : Nat := w.bep.uris.findIdx (·.uri == uri)

theorem run_entry (w : World) (log : List Event) (uri : Bytes) :
    (run w log).entry uri = w.entry uri := by
  have hmap : ∀ v : World, v.entry uri = (v.bep.uris.map UriEntry.uri).findIdx (· == uri) := by
    intro v
    rw [List.findIdx_map]
    rfl
  rw [hmap, hmap, run_uris]

/-- Inside a section the lock is held. -/
theorem held_inside {log front back middle : List Event} (hm : Event.unlock ∉ middle)
    (hsplit : .wrlock :: middle ++ [.unlock] = front ++ back) (hf : front ≠ []) (hb : back ≠ []) :
    statsLock.held (log ++ front) = true := by
  obtain ⟨last, e, rfl⟩ := (List.eq_nil_or_concat' back).resolve_left hb
  rw [← List.append_assoc] at hsplit
  have hmiddle := (List.append_inj' hsplit rfl).1
  cases front with
  | nil => contradiction
  | cons first front =>
    rw [List.cons_append, List.cons.injEq] at hmiddle
    obtain ⟨rfl, rfl⟩ := hmiddle
    rw [List.mem_append, not_or] at hm
    have hfront := hm.1
    clear hm hsplit hf hb
    induction front using List.reverseRecOn with
    | nil =>
      rw [Lock.held_snoc]
      rfl
    | append_singleton front e' ih =>
      rw [List.mem_append, List.mem_singleton, not_or] at hfront
      rw [← List.cons_append, ← List.append_assoc, Lock.held_snoc, ih hfront.1]
      have hne : e' ≠ .unlock := fun he => hfront.2 he.symm
      simp [Lock.next, statsLock, hne]

theorem unlock_state (s : BackendState) : Event.unlock ∉ [Event.setState s] := by simp

theorem update_section (i n : Nat) (entries : List StatsEntry) :
    ∃ middle, update i n entries = .wrlock :: middle ++ [.unlock] ∧ Event.unlock ∉ middle :=
  ⟨List.replicate n (.removeHead i) ++ .initStats i :: entries.map (.insertTail i),
    by simp [update], by simp⟩

/-- Where the lock is free a trace can be cut: what comes before is a sequence
of blocks, and the next event is not one of a section. -/
theorem Blocks.cut {log : List Event} (h : Blocks log) :
    AtEach (fun before e => statsLock.held before = false →
      Blocks before ∧ (e.outside = true ∨ e = .wrlock)) log := by
  have hsection : ∀ {log middle : List Event}, Blocks log → Event.unlock ∉ middle →
      AtEach (fun before e => statsLock.held (log ++ before) = false →
        Blocks (log ++ before) ∧ (e.outside = true ∨ e = .wrlock))
        (.wrlock :: middle ++ [.unlock]) := by
    intro log middle hlog hm front e back hsplit hfree
    by_cases hf : front = []
    · subst hf
      rw [List.nil_append, List.cons_append, List.cons.injEq] at hsplit
      rw [List.append_nil]
      exact ⟨hlog, Or.inr hsplit.1.symm⟩
    · rw [held_inside hm hsplit hf (List.cons_ne_nil e back)] at hfree
      contradiction
  induction h with
  | nil => exact atEach_nil
  | outside h e he ih => exact atEach_snoc.mpr ⟨ih, fun _ => ⟨h, Or.inl he⟩⟩
  | state h s ih => exact atEach_append.mpr ⟨ih, hsection h (unlock_state s)⟩
  | update h i n entries ih =>
    obtain ⟨middle, heq, hm⟩ := update_section i n entries
    rw [heq]
    exact atEach_append.mpr ⟨ih, hsection h hm⟩

theorem Blocks.front {log front : List Event} (h : Blocks log) (hp : front <+: log)
    (hfree : statsLock.held front = false) : Blocks front := by
  obtain ⟨back, rfl⟩ := hp
  cases back with
  | nil => rwa [List.append_nil] at h
  | cons e back => exact (h.cut front e back rfl hfree).1

theorem store_invisible (e : Event) (he : e.outside = true ∨ e = .wrlock) (bep : Backend) :
    (e.store bep).state = bep.state ∧ ∀ i, (e.store bep).stats i = bep.stats i := by
  cases e with
  | setLastpoll i now =>
    apply And.intro rfl
    intro j
    simp only [Event.store, Backend.stats, List.getElem?_modify]
    split <;> cases bep.uris[j]? <;> rfl
  | setState s => simp [Event.outside] at he
  | removeHead i => simp [Event.outside] at he
  | initStats i => simp [Event.outside] at he
  | insertTail i entry => simp [Event.outside] at he
  | _ => exact ⟨rfl, fun _ => rfl⟩

/-- What a poller can have done so far. -/
def pollerTraces (w : World) (log : List Event) : Prop :=
  ∃ inputs, log <+: (runBackend.exec w inputs).trace

/-- The poller and the frontend threads of one backend. A request is for a
configured uri. -/
def statsSystem (settings : LocalSettings) (uris : List Bytes) :
    System World Event { uri // uri ∈ uris } StatsEntry where
  start := World.initial settings uris
  traces := pollerTraces (World.initial settings uris)
  lock := statsLock
  serves w := w.bep.state = .polling
  cells w q := w.bep.stats (w.entry q.1)
  traces_nil := ⟨[], List.nil_prefix⟩
  traces_init log e h := by
    obtain ⟨inputs, hp⟩ := h
    exact ⟨inputs, (List.prefix_append log [e]).trans hp⟩
  disciplined log e h hfree := by
    obtain ⟨inputs, back, hp⟩ := h
    have hblocks := (runBackend_log (initial_starts settings uris) inputs).blocks
    rw [List.append_assoc, List.singleton_append] at hp
    obtain ⟨-, he⟩ := hblocks.cut log e back hp.symm hfree
    have hstore := store_invisible e he (run (World.initial settings uris) log).bep
    rw [run_append]
    apply And.intro (congrArg (fun s => decide (s = BackendState.polling)) hstore.1)
    intro q
    rw [← run_append, run_entry, run_entry, run_append]
    exact hstore.2 _

theorem stats_modify (bep : Backend) (i j : Nat) (f : UriEntry → UriEntry) :
    Backend.stats { bep with uris := bep.uris.modify i f } j =
      if i = j then (bep.uris[j]?.map fun u => (f u).stats).getD [] else bep.stats j := by
  simp only [Backend.stats, List.getElem?_modify]
  split
  · cases bep.uris[j]? <;> rfl
  · cases bep.uris[j]? <;> rfl

theorem run_length (w : World) (log : List Event) :
    (run w log).bep.uris.length = w.bep.uris.length := by
  have huris := congrArg List.length (run_uris w log)
  rwa [List.length_map, List.length_map] at huris

theorem stats_insert (w : World) (i : Nat) (entries : List StatsEntry)
    (hi : i < w.bep.uris.length) :
    (run w (entries.map (.insertTail i))).bep.stats i = w.bep.stats i ++ entries := by
  induction entries generalizing w with
  | nil => exact (List.append_nil _).symm
  | cons entry entries ih =>
    have hlen : i < (Machine.after w (.insertTail i entry)).bep.uris.length := by
      rw [← run_length w [.insertTail i entry]] at hi
      exact hi
    have hstats : (Machine.after w (.insertTail i entry)).bep.stats i =
        w.bep.stats i ++ [entry] := by
      apply (stats_modify w.bep i i _).trans
      rw [if_pos rfl, Backend.stats, List.getElem?_eq_getElem hi]
      rfl
    rw [List.map_cons, run_cons, ih _ hlen, hstats, List.append_assoc, List.singleton_append]

/-- An update replaces its list, -/
theorem stats_update_self (w : World) (i n : Nat) (entries : List StatsEntry)
    (hi : i < w.bep.uris.length) : (run w (update i n entries)).bep.stats i = entries := by
  have hsplit : update i n entries = (.wrlock :: List.replicate n (.removeHead i)) ++
      ([.initStats i] ++ entries.map (.insertTail i)) ++ [.unlock] := by simp [update]
  rw [hsplit, run_append, run_append, run_append]
  set v := run w (.wrlock :: List.replicate n (.removeHead i)) with hv
  have hlen : i < (run v [.initStats i]).bep.uris.length := by
    rw [run_length, hv, run_length]
    exact hi
  have hinit : (run v [.initStats i]).bep.stats i = [] := by
    apply (stats_modify v.bep i i _).trans
    rw [if_pos rfl]
    cases v.bep.uris[i]? <;> rfl
  change (run (run v [.initStats i]) (entries.map (.insertTail i))).bep.stats i = entries
  rw [stats_insert _ _ _ hlen, hinit, List.nil_append]

/-- and no other. -/
theorem stats_update_ne (w : World) {i j : Nat} (n : Nat) (entries : List StatsEntry)
    (hij : i ≠ j) : (run w (update i n entries)).bep.stats j = w.bep.stats j := by
  suffices hall : ∀ (log : List Event) (w : World), (∀ e ∈ log, e ∈ update i n entries) →
      (run w log).bep.stats j = w.bep.stats j from hall _ w fun _ => id
  intro log
  induction log with
  | nil => exact fun w _ => rfl
  | cons e log ih =>
    intro w h
    rw [List.forall_mem_cons] at h
    apply (ih _ h.2).trans
    obtain rfl | rfl | rfl | ⟨entry, rfl⟩ | rfl := mem_update h.1
    · rfl
    · exact (stats_modify w.bep i j _).trans (if_neg hij)
    · exact (stats_modify w.bep i j _).trans (if_neg hij)
    · exact (stats_modify w.bep i j _).trans (if_neg hij)
    · rfl

/-- The entries are those of the last update of uri `i`, or the initial empty
list if there was none. -/
def Committed (log : List Event) (i : Nat) (entries : List StatsEntry) : Prop :=
  (entries = [] ∧ .initStats i ∉ log) ∨
    ∃ before n after, log = before ++ update i n entries ++ after ∧ .initStats i ∉ after

theorem Committed.append {log more : List Event} {i : Nat} {entries : List StatsEntry}
    (h : Committed log i entries) (hm : .initStats i ∉ more) :
    Committed (log ++ more) i entries := by
  rcases h with ⟨hnil, hlog⟩ | ⟨before, n, after, rfl, ha⟩
  · exact Or.inl ⟨hnil, by simp [hlog, hm]⟩
  · exact Or.inr ⟨before, n, after ++ more, by simp, by simp [ha, hm]⟩

/-- At a free moment each list is a committed one. -/
theorem Blocks.committed {w : World} {log : List Event} (h : Blocks log) (i : Nat)
    (hi : i < w.bep.uris.length) (hw : w.bep.stats i = []) :
    Committed log i ((run w log).bep.stats i) := by
  induction h with
  | nil => exact Or.inl ⟨hw, nofun⟩
  | @outside log h e he ih =>
    have hstats : (run w (log ++ [e])).bep.stats i = (run w log).bep.stats i := by
      rw [run_append]
      exact (store_invisible e (Or.inl he) _).2 i
    rw [hstats]
    apply ih.append
    rw [List.mem_singleton]
    rintro rfl
    cases he
  | @state log h s ih =>
    have hstats : (run w (log ++ stateSection s)).bep.stats i = (run w log).bep.stats i := by
      rw [run_append]
      rfl
    rw [hstats]
    exact ih.append (by simp [stateSection])
  | @update log h j n entries ih =>
    rw [run_append]
    by_cases hij : j = i
    · subst hij
      rw [stats_update_self _ _ _ _ ((run_length w log).symm ▸ hi)]
      exact Or.inr ⟨log, n, [], (List.append_nil _).symm, nofun⟩
    · rw [stats_update_ne _ _ _ hij]
      apply ih.append
      intro hm
      apply hij
      simpa [eq_comm] using mem_update hm

theorem initial_entry (settings : LocalSettings) (uris : List Bytes) (q : { uri // uri ∈ uris }) :
    (World.initial settings uris).entry q.1 < (World.initial settings uris).bep.uris.length := by
  apply List.findIdx_lt_length_of_exists
  simpa [World.initial] using q.2

theorem initial_stats (settings : LocalSettings) (uris : List Bytes) (i : Nat) :
    (World.initial settings uris).bep.stats i = [] := by
  rw [Backend.stats, World.initial, List.getElem?_map]
  cases uris[i]? <;> rfl

theorem snapshot_committed {settings : LocalSettings} {uris : List Bytes}
    {a : Answered Event { uri // uri ∈ uris } StatsEntry}
    (hsnap : (statsSystem settings uris).Snapshot a) {entries : List StatsEntry}
    (hs : a.printed = some entries) :
    Committed a.tested ((World.initial settings uris).entry a.query.1) entries := by
  obtain ⟨inputs, hp⟩ := hsnap.trace
  have hblocks := (runBackend_log (initial_starts settings uris) inputs).blocks
  obtain ⟨-, rfl⟩ := hsnap.served entries hs
  change Committed _ _ ((run (World.initial settings uris) a.tested).bep.stats
    ((run (World.initial settings uris) a.tested).entry a.query.1))
  rw [run_entry]
  exact (hblocks.front hp hsnap.free).committed _ (initial_entry settings uris a.query)
    (initial_stats settings uris _)

/-- What a request prints is one committed list of its uri, whatever the
interleaving and however many requests there are. -/
theorem printed_committed [DecidableEq ρ] (settings : LocalSettings) (uris : List Bytes)
    (c : Config ρ Event { uri // uri ∈ uris } StatsEntry)
    (h : (statsSystem settings uris).Reachable c)
    (a : Answered Event { uri // uri ∈ uris } StatsEntry) (ha : a ∈ c.answers)
    (entries : List StatsEntry) (hs : a.printed = some entries) :
    Committed a.tested ((World.initial settings uris).entry a.query.1) entries :=
  snapshot_committed (h.safe.answers a ha) hs

/-- A server that answers every command with one stat. -/
def serving : Answer := { write := .ok 64, read := .ok (ascii "STAT pid 7\r\nEND\r\n") }

/-- The first `n` events of a poller whose calls all succeed. -/
def servedTrace (n : Nat) : List Event :=
  (runBackend.exec sampleWorld (List.replicate 60 serving)).trace.take n

def itemsQuery : { uri // uri ∈ sampleUris } := ⟨ascii "items", List.mem_cons_self ..⟩

theorem servedTrace_free (n : Nat) (h : statsLock.held (servedTrace n) = false) :
    (statsSystem sampleSettings sampleUris).Free (servedTrace n) :=
  ⟨⟨_, List.take_prefix ..⟩, h⟩

theorem printed_items : Committed (servedTrace 27) 0 [⟨ascii "pid", .alpha (ascii "7")⟩] := by
  have hfree := servedTrace_free 27 (by decide +kernel)
  obtain ⟨c, hreach, ha⟩ := System.reachable_answered () itemsQuery hfree
  have hmem : _ ∈ c.answers := ha ▸ List.mem_singleton_self _
  exact printed_committed sampleSettings sampleUris c hreach _ hmem _ (by decide +kernel)

/-- The first complete poll cycle is over. -/
def AfterFirstCycle (log : List Event) : Prop := ∃ us, .usleep us ∈ log

/-- The poller is in `checkAndConnect`: no section has followed the one that set
`CONNECTING`. -/
def Connecting (log : List Event) : Prop :=
  ∃ before after, log = before ++ stateSection .connecting ++ after ∧
    ∀ s, .setState s ∉ after

/-- A socket call that did not succeed. -/
def Event.socketFailure : Event → Bool
  | .socket (.error _) | .fcntl (.error _) | .connect (.error _) | .getsockopt (.error _) => true
  | .write _ (.error _) | .read _ (.error _) => true
  | .poll r => r != .ready
  | .getsockopt (.ok res) => res != 0
  | _ => false

/-- A refused request finds the backend disconnected, and while the backend is
connected and no socket call has failed a request prints the cached list. -/
structure Available (w : World) (a : Answered Event Q StatsEntry) (i : Nat) : Prop where
  refused : a.printed = none → (run w a.tested).bep.fd < 0
  served : 0 ≤ (run w a.tested).bep.fd → (∀ e ∈ a.tested, e.socketFailure = false) →
    ∃ entries, a.printed = some entries ∧ Committed a.tested i entries

theorem Connecting.append {log more : List Event} (h : Connecting log)
    (hm : ∀ s, .setState s ∉ more) : Connecting (log ++ more) := by
  obtain ⟨before, after, rfl, ha⟩ := h
  exact ⟨before, after ++ more, by simp, fun s => by simp [ha s, hm s]⟩

theorem Connecting.state {w : World} {log : List Event} (h : Connecting log) :
    (run w log).bep.state = .connecting := by
  obtain ⟨before, after, rfl, ha⟩ := h
  rw [run_append]
  by_contra hne
  have hc : (run w (before ++ stateSection .connecting)).bep.state = .connecting := by
    rw [run_append]
    rfl
  obtain ⟨front, back, heq⟩ := run_setState _ after _ rfl fun he => hne (he.symm.trans hc)
  exact ha _ (heq ▸ List.mem_append_right _ (List.mem_cons_self ..))

theorem Blocks.connecting {w : World} {log : List Event} (h : Blocks log)
    (hs : (run w log).bep.state = .connecting) (hw : w.bep.state ≠ .connecting) :
    Connecting log := by
  induction h with
  | nil => exact absurd hs hw
  | @outside log h e he ih =>
    rw [run_append] at hs
    apply (ih ((store_invisible e (Or.inl he) _).1 ▸ hs)).append
    intro s
    rw [List.mem_singleton]
    rintro rfl
    cases he
  | @state log h s ih =>
    rw [run_append] at hs
    change s = .connecting at hs
    rw [hs]
    exact ⟨log, [], (List.append_nil _).symm, fun _ => nofun⟩
  | @update log h i n entries ih =>
    have hnone : ∀ s, Event.setState s ∉ StatsProxy.update i n entries := by
      intro s he
      simpa using mem_update he
    have hbefore : (run w log).bep.state = .connecting := by
      by_contra hne
      rw [run_append] at hs
      obtain ⟨front, back, heq⟩ := run_setState _ _ _ hs hne
      exact hnone _ (heq ▸ List.mem_append_right _ (List.mem_cons_self ..))
    exact (ih hbefore).append hnone

/-- After the first cycle the state is `CONNECTING` or `POLLING`. -/
theorem LogSound.state {w : World} {log front : List Event} (h : LogSound w log)
    (hw : w.bep.uris ≠ []) (hp : front <+: log) (hc : AfterFirstCycle front) :
    (run w front).bep.state = .connecting ∨ (run w front).bep.state = .polling := by
  obtain ⟨us, hm⟩ := hc
  obtain ⟨before, after, hfront⟩ := List.append_of_mem hm
  have hconnecting := (h.cycles hw).front hp before _ after hfront us rfl
  have hmem : Event.setState .connecting ∈ front := by
    rw [hfront]
    exact List.mem_append_left _ hconnecting
  obtain ⟨first, last, rfl⟩ := List.append_of_mem hmem
  apply or_iff_not_imp_left.mpr
  intro hne
  generalize hs : (run w (first ++ .setState .connecting :: last)).bep.state = s at hne ⊢
  rw [run_append, run_cons] at hs
  obtain ⟨window, back, rfl⟩ := run_setState _ last s hs fun he => hne he.symm
  have hassigned := h.states.front hp (first ++ .setState .connecting :: window) _ back
    (by simp) s rfl (by simp)
  exact hassigned.resolve_left hne

/-- A connected backend stays available to a request exactly when the request
does not test the state while `checkAndConnect` runs with a descriptor. -/
theorem available_iff [DecidableEq ρ] (settings : LocalSettings) (uris : List Bytes)
    (c : Config ρ Event { uri // uri ∈ uris } StatsEntry)
    (h : (statsSystem settings uris).Reachable c) :
    (∀ a ∈ c.answers, AfterFirstCycle a.tested → Available (World.initial settings uris) a
      ((World.initial settings uris).entry a.query.1)) ↔
    ∀ a ∈ c.answers, AfterFirstCycle a.tested → Connecting a.tested →
      (run (World.initial settings uris) a.tested).bep.fd < 0 := by
  apply forall_congr'
  intro a
  apply forall_congr'
  intro ha
  apply forall_congr'
  intro hcycle
  have hsnap := h.safe.answers a ha
  have hserves : (statsSystem settings uris).serves
      ((statsSystem settings uris).now a.tested) = true ↔
      (run (World.initial settings uris) a.tested).bep.state = .polling := decide_eq_true_iff
  obtain ⟨inputs, hp⟩ := hsnap.trace
  have hlog := runBackend_log (initial_starts settings uris) inputs
  constructor
  · intro hav hconn
    apply hav.refused
    cases hs : a.printed with
    | none => rfl
    | some entries =>
      have hpolling := hserves.mp (hsnap.served entries hs).1
      rw [hconn.state] at hpolling
      contradiction
  · intro hall
    have hrefused : a.printed = none →
        (run (World.initial settings uris) a.tested).bep.fd < 0 := by
      intro hs
      have huris : (World.initial settings uris).bep.uris ≠ [] := by
        have hq := List.ne_nil_of_mem a.query.2
        simpa [World.initial] using hq
      have hstate := (hlog.state huris hp hcycle).resolve_right fun hpolling => by
        have hrefuse := hsnap.refused hs
        rw [hserves.mpr hpolling] at hrefuse
        contradiction
      exact hall ((hlog.blocks.front hp hsnap.free).connecting hstate nofun)
    apply Available.mk hrefused
    intro hfd _
    cases hs : a.printed with
    | none =>
      have hclosed := hrefused hs
      omega
    | some entries => exact ⟨entries, rfl, snapshot_committed hsnap hs⟩

/-- A request in the second cycle, when the first uri is polled again, is served. -/
theorem available_sample : ∃ c : Config Unit Event { uri // uri ∈ sampleUris } StatsEntry,
    (∃ a ∈ c.answers, AfterFirstCycle a.tested ∧ 0 ≤ (run sampleWorld a.tested).bep.fd) ∧
    ∀ a ∈ c.answers, AfterFirstCycle a.tested → Available sampleWorld a
      (sampleWorld.entry a.query.1) := by
  have hfree := servedTrace_free 78 (by decide +kernel)
  obtain ⟨c, hreach, ha⟩ := System.reachable_answered () itemsQuery hfree
  have hsleep : (servedTrace 78)[52]? = some (.usleep 5000000) := rfl
  have hcycle : AfterFirstCycle (servedTrace 78) := ⟨_, List.mem_of_getElem? hsleep⟩
  have hpolling : (run sampleWorld (servedTrace 78)).bep.state = .polling := by decide +kernel
  refine ⟨c, ?_, (available_iff sampleSettings sampleUris c hreach).mpr ?_⟩
  · rw [ha]
    exact ⟨_, List.mem_singleton_self _, hcycle, by decide +kernel⟩
  · rw [ha, List.forall_mem_singleton]
    intro _ hconnecting
    have hstate := hconnecting.state (w := sampleWorld)
    rw [hpolling] at hstate
    contradiction

/-- All calls succeed, and the second uri of a cycle sets `CONNECTING` again. -/
theorem available_fails : ¬∀ c : Config Unit Event { uri // uri ∈ sampleUris } StatsEntry,
    (statsSystem sampleSettings sampleUris).Reachable c →
    ∀ a ∈ c.answers, AfterFirstCycle a.tested → Available sampleWorld a
      (sampleWorld.entry a.query.1) := by
  intro h
  have hfree := servedTrace_free 83 (by decide +kernel)
  obtain ⟨c, hreach, ha⟩ := System.reachable_answered () itemsQuery hfree
  have hsleep : (servedTrace 83)[52]? = some (.usleep 5000000) := rfl
  have hcycle : AfterFirstCycle (servedTrace 83) := ⟨_, List.mem_of_getElem? hsleep⟩
  have hmem : _ ∈ c.answers := ha ▸ List.mem_singleton_self _
  obtain ⟨entries, hs, -⟩ := (h c hreach _ hmem hcycle).served (by decide +kernel)
    (by decide +kernel)
  have hrefused : (statsSystem sampleSettings sampleUris).serves
      ((statsSystem sampleSettings sampleUris).now (servedTrace 83)) = false := by decide +kernel
  rw [hrefused] at hs
  contradiction

end StatsProxy

import StatsProxy.Library.AtomicReads
import StatsProxy.StatsCallback

/-! The cached stats as one atomic object. A front end that held its lists and its state
without a lock, changed them in one step for each section of the poller, and answered each
request from one reading of them, would have shown the same. -/
namespace StatsProxy
open CString Interaction ReadersWriter

/-- What the poller does in a section. -/
inductive CacheOp where
  | setState (state : BackendState)
  | publish (i : Nat) (entries : List StatsEntry)
deriving DecidableEq

structure Cache where
  state : BackendState
  lists : List (List StatsEntry)

def Cache.apply (c : Cache) : CacheOp → Cache
  | .setState state => { c with state }
  | .publish i entries => { c with lists := c.lists.set i entries }

/-- The lists of one backend, and the requests for its configured uris. -/
def statsCache (uris : List Bytes) : Atomic Cache CacheOp { uri // uri ∈ uris } StatsEntry where
  start := ⟨.halted, uris.map fun _ => []⟩
  apply := Cache.apply
  read c q :=
    if c.state = .polling then some (c.lists.getD (uris.findIdx (· == q.1)) []) else none

def Event.assigned : Event → Option BackendState
  | .setState state => some state
  | _ => none

def Event.initialised : Event → Option Nat
  | .initStats i => some i
  | _ => none

def Event.inserted : Event → Option StatsEntry
  | .insertTail _ entry => some entry
  | _ => none

/-- What the events of a section come to. -/
def sectionOp (events : List Event) : CacheOp :=
  match events.findSome? Event.assigned with
  | some state => .setState state
  | none =>
    .publish ((events.findSome? Event.initialised).getD 0) (events.filterMap Event.inserted)

theorem sectionOp_update (i n : Nat) (entries : List StatsEntry) :
    sectionOp (update i n entries) = .publish i entries := by
  have hassigned : (update i n entries).findSome? Event.assigned = none := by
    rw [List.findSome?_eq_none_iff]
    intro e he
    obtain rfl | rfl | rfl | ⟨entry, rfl⟩ | rfl := mem_update he <;> rfl
  have hheads : (List.replicate n (Event.removeHead i)).findSome? Event.initialised = none := by
    simp [List.findSome?_eq_none_iff, Event.initialised]
  have hfreed : (List.replicate n (Event.removeHead i)).filterMap Event.inserted = [] := by
    simp [List.filterMap_eq_nil_iff, Event.inserted]
  have hinserted : (entries.map (Event.insertTail i)).filterMap Event.inserted = entries := by
    rw [List.filterMap_map]
    exact List.filterMap_some
  have hlist : (update i n entries).filterMap Event.inserted = entries := by
    rw [update, List.cons_append, List.cons_append, List.filterMap_cons_none rfl,
      List.filterMap_append, List.filterMap_append, hfreed, List.filterMap_cons_none rfl,
      hinserted]
    exact List.append_nil entries
  have htarget : (update i n entries).findSome? Event.initialised = some i := by
    rw [update, List.cons_append, List.cons_append, List.findSome?_cons_of_isNone rfl,
      List.append_assoc, List.findSome?_append, hheads]
    rfl
  rw [sectionOp, hassigned, htarget, hlist]
  rfl

/-- The lists and the state of the backend. -/
def World.cache (w : World) : Cache := ⟨w.bep.state, w.bep.uris.map UriEntry.stats⟩

theorem cache_initial (settings : LocalSettings) (uris : List Bytes) :
    (World.initial settings uris).cache = (statsCache uris).start := by
  rw [World.cache, World.initial, List.map_map]
  rfl

theorem cache_publish (w : World) (i : Nat) (entries : List StatsEntry) :
    (w.publish i entries).cache = w.cache.apply (.publish i entries) := by
  rw [World.cache, World.publish, World.cache, Cache.apply]
  congr 1
  apply List.ext_getElem?
  intro j
  rw [List.getElem?_map, List.getElem?_modify, List.getElem?_set, List.length_map,
    List.getElem?_map]
  by_cases hj : i = j
  · subst hj
    simp only [if_true]
    by_cases hi : i < w.bep.uris.length
    · rw [if_pos hi, List.getElem?_eq_getElem hi]
      rfl
    · rw [if_neg hi, List.getElem?_eq_none (Nat.le_of_not_lt hi)]
      rfl
  · simp only [if_neg hj]
    cases w.bep.uris[j]? <;> rfl

theorem cache_invisible (e : Event) (he : e.outside = true) (w : World) :
    (Machine.after w e).cache = w.cache := by
  obtain ⟨hstate, hstats⟩ := store_invisible e (Or.inl he) w.bep
  have hlen := run_length w [e]
  change (e.store w.bep).uris.length = w.bep.uris.length at hlen
  show (⟨(e.store w.bep).state, (e.store w.bep).uris.map UriEntry.stats⟩ : Cache) = _
  rw [World.cache, hstate]
  congr 1
  apply List.ext_getElem (by rw [List.length_map, List.length_map, hlen])
  intro i hi hi'
  rw [List.length_map] at hi hi'
  have hlist := hstats i
  rw [Backend.stats, Backend.stats, List.getElem?_eq_getElem hi, List.getElem?_eq_getElem hi']
    at hlist
  rwa [List.getElem_map, List.getElem_map]

theorem state_section (s : BackendState) :
    stateSection s = .wrlock :: [.setState s] ++ [.unlock] :=
  rfl

/-- After a block the lock is free. -/
theorem Blocks.free {log : List Event} (h : Blocks log) : statsLock.held log = false := by
  induction h with
  | nil => rfl
  | outside h e he ih =>
    rw [Lock.held_snoc, ih]
    cases e <;> first | rfl | cases he
  | state h s ih =>
    rw [state_section, ← List.append_assoc, Lock.held_snoc]
    rfl
  | update h i n entries ih =>
    obtain ⟨middle, heq, -⟩ := update_section i n entries
    rw [heq, ← List.append_assoc, Lock.held_snoc]
    rfl

/-- The event that frees the lock ends a section, which is one operation on the cache. -/
theorem Blocks.wrote {w : World} {log : List Event} {e : Event} (h : Blocks (log ++ [e]))
    (hheld : statsLock.held log = true) :
    (run w (log ++ [e])).cache = (run w (statsLock.parts log).1).cache.apply
      (sectionOp ((statsLock.parts log).2 ++ [e])) := by
  have hsection : ∀ {before middle : List Event}, Blocks before → Event.unlock ∉ middle →
      log = before ++ .wrlock :: middle → statsLock.parts log = (before, .wrlock :: middle) := by
    rintro before middle hbefore hm rfl
    apply Lock.parts_section statsLock hbefore.free rfl
    intro e he
    exact decide_eq_false fun heq => hm (heq ▸ he)
  generalize hlog : log ++ [e] = all at h
  cases h with
  | nil => exact absurd hlog (by simp)
  | outside hbefore e' he =>
    obtain ⟨rfl, -⟩ := List.append_inj' hlog rfl
    rw [hbefore.free] at hheld
    contradiction
  | @state before hbefore s =>
    have hsplit : before ++ stateSection s = before ++ .wrlock :: [.setState s] ++ [.unlock] := by
      rw [state_section, List.append_assoc]
    obtain ⟨hfront, he⟩ := List.append_inj' (hlog.trans hsplit) rfl
    rw [hsection hbefore (unlock_state s) hfront, he, run_append]
    rfl
  | @update before hbefore i n entries =>
    obtain ⟨middle, heq, hm⟩ := update_section i n entries
    have hsplit : before ++ StatsProxy.update i n entries =
        before ++ .wrlock :: middle ++ [.unlock] := by
      rw [heq, List.append_assoc]
    obtain ⟨hfront, he⟩ := List.append_inj' (hlog.trans hsplit) rfl
    rw [hsection hbefore hm hfront, he, ← heq, sectionOp_update, run_append, run_update,
      cache_publish]

theorem cache_finds {settings : LocalSettings} {uris : List Bytes} (log : List Event)
    (q : { uri // uri ∈ uris }) :
    (statsCache uris).read (run (World.initial settings uris) log).cache q =
      (statsSystem settings uris).finds (run (World.initial settings uris) log) q := by
  have hentry : (run (World.initial settings uris) log).entry q.1 =
      uris.findIdx (· == q.1) := by
    rw [run_entry, World.entry, World.initial, List.findIdx_map]
    rfl
  have hlist : (run (World.initial settings uris) log).cache.lists.getD
      (uris.findIdx (· == q.1)) [] =
      (run (World.initial settings uris) log).bep.stats
        ((run (World.initial settings uris) log).entry q.1) := by
    rw [hentry, World.cache, List.getD_eq_getElem?_getD, List.getElem?_map, Backend.stats]
  simp only [statsCache, System.finds, statsSystem, decide_eq_true_eq, hlist]
  rfl

/-- Each section of the poller is one operation on the cache. -/
def statsSystem_implements (settings : LocalSettings) (uris : List Bytes) :
    (statsSystem settings uris).Implements (statsCache uris) sectionOp where
  value := World.cache
  start := cache_initial settings uris
  finds log q _ _ := cache_finds log q
  outside log e htrace hfree hafter := by
    obtain ⟨inputs, hp⟩ := htrace
    have hblocks := (runBackend_log (initial_starts settings uris) inputs).blocks
    obtain ⟨-, he⟩ := (hblocks.front hp hafter).cut log e [] rfl hfree
    have houtside : e.outside = true := by
      apply he.resolve_right
      rintro rfl
      rw [Lock.held_snoc] at hafter
      cases hafter
    show (run (World.initial settings uris) (log ++ [e])).cache = _
    rw [run_append]
    exact cache_invisible e houtside _
  wrote log e htrace hheld hafter := by
    obtain ⟨inputs, hp⟩ := htrace
    have hblocks := (runBackend_log (initial_starts settings uris) inputs).blocks
    exact (hblocks.front hp hafter).wrote hheld

/-- Whatever the poller and its request threads have shown, the atomic cache can show: each
answer is the cache's at one moment between the request and the answer, and these moments
and the poller's sections are in one order. -/
theorem statsCallback_linearizable [DecidableEq ρ] (settings : LocalSettings)
    (uris : List Bytes) (c : Config ρ Event { uri // uri ∈ uris } StatsEntry)
    (shown : List (Label ρ { uri // uri ∈ uris } StatsEntry CacheOp))
    (h : ((statsSystem settings uris).lts sectionOp).Shows shown c) :
    ∃ s, (statsCache uris).lts.Shows shown s := by
  obtain ⟨s, hs, -⟩ := (statsSystem_implements settings uris).shows h
  exact ⟨s, hs⟩

theorem statsCallback_linearizable_items :
    ∃ (shown : List (Label Unit { uri // uri ∈ sampleUris } StatsEntry CacheOp))
      (s : Atomic.State Unit { uri // uri ∈ sampleUris } StatsEntry Cache),
      (itemsQuery, some [⟨ascii "pid", .alpha (ascii "7")⟩]) ∈ shown.filterMap Label.answer ∧
        (statsCache sampleUris).lts.Shows shown s := by
  have hfree := servedTrace_free 27 (by decide +kernel)
  obtain ⟨c, hreach, ha⟩ := System.reachable_answered () itemsQuery hfree
  obtain ⟨shown, hshown, hanswers⟩ := hreach.shown sectionOp
  obtain ⟨s, hs⟩ := statsCallback_linearizable sampleSettings sampleUris c shown hshown
  refine ⟨shown, s, ?_, hs⟩
  rw [hanswers]
  have hresult : (if (statsSystem sampleSettings sampleUris).serves
      ((statsSystem sampleSettings sampleUris).now (servedTrace 27)) then
        some ((statsSystem sampleSettings sampleUris).cells
          ((statsSystem sampleSettings sampleUris).now (servedTrace 27)) itemsQuery)
      else none) = some [⟨ascii "pid", .alpha (ascii "7")⟩] := by
    decide +kernel
  rw [ha, hresult]
  exact List.mem_singleton_self _

end StatsProxy

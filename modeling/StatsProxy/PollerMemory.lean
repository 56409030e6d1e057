import Mathlib.Data.List.ModifyLast
import StatsProxy.HealthDurations
import StatsProxy.RepliesOutcome
import StatsProxy.StatsMemory

/-! The memory of whole runs of a poller. What it publishes comes from replies or from
health checks; when these are carried out in memory no access fails, and in the end each
list is that of the model and no other block is allocated. -/
namespace StatsProxy
open CString Interaction Program Poller Separation TailQueue StatsMemory

/-- The lists that have been published, each with its uri. -/
structure Publications where
  lists : List (Nat × List StatsEntry)

instance : Machine Publications Event where
  after p e := match e with
    | .initStats i => ⟨p.lists ++ [(i, [])]⟩
    | .insertTail _ entry => ⟨p.lists.modifyLast fun l => (l.1, l.2 ++ [entry])⟩
    | _ => p

def publications (log : List Event) : List (Nat × List StatsEntry) :=
  (run (⟨[]⟩ : Publications) log).lists

/-- Events that concern no list. -/
def Event.keepsLists : Event → Bool
  | .removeHead _ | .initStats _ | .insertTail _ _ => false
  | _ => true

/-- What has been published comes from these polls, and the lists stand as they left them. -/
structure Stored (uris : List Bytes) (polls : List Poll) (x : World × List Event) : Prop where
  configured : x.1.bep.uris.map UriEntry.uri = uris
  known : ∀ poll ∈ polls, poll.Of uris
  published : publications x.2 = polls.map fun poll => (poll.uri, poll.entries)
  stats : ∀ i < uris.length, x.1.bep.stats i = polls.foldl Poll.publish (fun _ => []) i

def Backed (uris : List Bytes) (x : World × List Event) : Prop := ∃ polls, Stored uris polls x

section

variable {uris : List Bytes} {polls : List Poll} {x : World × List Event}

theorem publications_append (log more : List Event) :
    publications (log ++ more) = (run (⟨publications log⟩ : Publications) more).lists := by
  unfold publications
  rw [run_append]

theorem run_insertTails (i : Nat) (lists : List (Nat × List StatsEntry))
    (old entries : List StatsEntry) :
    run (⟨lists ++ [(i, old)]⟩ : Publications) (entries.map (.insertTail i)) =
      ⟨lists ++ [(i, old ++ entries)]⟩ := by
  induction entries generalizing old with
  | nil => rw [List.append_nil]; rfl
  | cons entry entries ih =>
    have hinsert : Machine.after (⟨lists ++ [(i, old)]⟩ : Publications) (.insertTail i entry) =
        ⟨lists ++ [(i, old ++ [entry])]⟩ :=
      congrArg Publications.mk (List.modifyLast_concat ..)
    rw [List.map_cons, run_cons, hinsert, ih, List.append_assoc]
    rfl

/-- An update publishes its list. -/
theorem publications_update (log : List Event) (i n : Nat) (entries : List StatsEntry) :
    publications (log ++ update i n entries) = publications log ++ [(i, entries)] := by
  have hheads : ∀ (n : Nat) (p : Publications),
      run p (List.replicate n (.removeHead i)) = p := by
    intro n
    induction n with
    | zero => exact fun _ => rfl
    | succ n ih => exact fun p => ih p
  have hsplit : update i n entries = [.wrlock] ++ (List.replicate n (.removeHead i) ++
      ([.initStats i] ++ (entries.map (.insertTail i) ++ [.unlock]))) := by simp [update]
  rw [publications_append, hsplit, run_append, run_append, hheads, run_append]
  have hinit : run (run (⟨publications log⟩ : Publications) [.wrlock]) [.initStats i] =
      ⟨publications log ++ [(i, [])]⟩ := rfl
  rw [hinit, run_append, run_insertTails]
  rfl

theorem Stored.keeps (h : Stored uris polls x) {e : Event} (he : e.keepsLists = true) :
    Stored uris polls (Machine.after x e) where
  configured := (store_uris e x.1.bep).trans h.configured
  known := h.known
  published := by
    have hsame : Machine.after (⟨publications x.2⟩ : Publications) e = ⟨publications x.2⟩ := by
      cases e <;> first | rfl | contradiction
    rw [← h.published]
    exact (publications_append x.2 [e]).trans (congrArg Publications.lists hsame)
  stats := by
    intro i hi
    rw [← h.stats i hi]
    cases e with
    | setLastpoll j now => exact (store_invisible (.setLastpoll j now) (Or.inl rfl) x.1.bep).2 i
    | _ => first | rfl | contradiction

theorem Stored.publish (h : Stored uris polls x) {poll : Poll} (hpoll : poll.Of uris) (n : Nat) :
    Stored uris (polls ++ [poll]) (run x (update poll.uri n poll.entries)) where
  configured := by
    rw [run_prod, run_uris]
    exact h.configured
  known := List.forall_mem_append.mpr ⟨h.known, List.forall_mem_singleton.mpr hpoll⟩
  published := by
    rw [run_prod, run_log, publications_update, h.published, List.map_append]
    rfl
  stats := by
    intro i hi
    have hlen : poll.uri < x.1.bep.uris.length := by
      rw [← List.length_map (f := UriEntry.uri), h.configured]
      exact hpoll.lt
    rw [run_prod, List.foldl_append]
    show _ = Poll.publish _ poll i
    by_cases hij : i = poll.uri
    · rw [hij, stats_update_self _ _ _ _ hlen, Poll.publish, Function.update_self]
    · rw [stats_update_ne _ _ _ fun heq => hij heq.symm, Poll.publish, Function.update_of_ne hij]
      exact h.stats i hi

/-- What a part of the poller does to a run whose lists come from polls. -/
abbrev Backs (uris : List Bytes) (m : Poller α) (Q : α → World × List Event → Prop)
    (x : World × List Event) : Prop :=
  wlp (fun _ _ => True) (Backed uris) m Q x

theorem backs_within {p : Event → Prop} {m : Poller α} (hm : Within p m)
    (hp : ∀ e, p e → e.keepsLists = true) (h : Backed uris x) :
    Backs uris m (fun _ y => Backed uris y) x := by
  apply wlp_within hm _ (fun _ hy => hy) h
  rintro y e ⟨polls, hy⟩ he
  exact ⟨polls, hy.keeps (hp e he)⟩

theorem keepsLists_of_ofConnect {e : Event} (h : e.ofConnect = true) : e.keepsLists = true := by
  cases e <;> first | rfl | contradiction

theorem keepsLists_of_ofWrite {e : Event} (h : e.ofWrite = true) : e.keepsLists = true := by
  cases e <;> first | rfl | contradiction

theorem keepsLists_of_ofRead {e : Event} (h : e.ofRead = true) : e.keepsLists = true := by
  cases e <;> first | rfl | contradiction

theorem Backed.keeps (h : Backed uris x) {e : Event} (he : e.keepsLists = true) :
    Backed uris (Machine.after x e) := by
  obtain ⟨polls, hx⟩ := h
  exact ⟨polls, hx.keeps he⟩

theorem publish_backs (poll : Poll) (hpoll : poll.Of uris) (h : Backed uris x) :
    Backs uris (publish poll.uri poll.entries) (fun _ y => Backed uris y) x := by
  obtain ⟨polls, hx⟩ := h
  exact wlp_of_wp (wp_publish ⟨polls ++ [poll], hx.publish hpoll _⟩)

/-- The list that is read is that of the buffers that have been parsed. -/
theorem readReplies_backs (h : Backed uris x) : Backs uris spMemcacheReadReplies
    (fun r y => Backed uris y ∧ ∃ buffers, r.2 = parseBuffers buffers) x := by
  apply wlp_bind
  apply wlp_backend
  apply wlp_bind
  apply wlp_post (backs_within (within_sessionInfo (p := (·.ofRead = true)) (fun _ => rfl) _)
    (fun _ => keepsLists_of_ofRead) h)
  intro sk y hy
  apply wlp_bind
  apply wlp_post
  · apply wlp_loop (fun s z => Backed uris z ∧ ∃ buffers, s.stats = parseBuffers buffers)
      (fun _ _ hz => hz.1) (Q := fun r z => Backed uris z ∧ ∃ buffers, r.2 = parseBuffers buffers)
    · rintro s z ⟨hz, hstats⟩
      unfold repliesStep
      split
      · exact wlp_pure ⟨hz, hstats⟩
      · apply wlp_bind
        apply wlp_post (backs_within (within_spMemcacheRead _ _ _)
          (fun _ => keepsLists_of_ofRead) hz)
        intro r z' hz'
        split
        · exact wlp_pure ⟨hz', hstats⟩
        · split
          · exact wlp_pure ⟨hz', hstats⟩
          · obtain ⟨buffers, hbuffers⟩ := hstats
            exact wlp_pure ⟨hz', buffers ++ [r.data], by rw [parseBuffers_snoc, ← hbuffers]⟩
    · exact ⟨hy, [], rfl⟩
  · rintro r z ⟨hz, hstats⟩
    apply wlp_bind
    apply wlp_emit
    intro _
    exact wlp_pure ⟨hz.keeps rfl, hstats⟩

theorem getStat_backs {i : Nat} {uri : Bytes} (huri : uris[i]? = some uri)
    (hne : uri ≠ ascii "health") (h : Backed uris x) :
    Backs uris (getStat i uri) (fun _ y => Backed uris y) x := by
  rw [getStat_eq]
  apply wlp_bind
  apply wlp_post (backs_within (within_spMemcacheWrite _) (fun _ => keepsLists_of_ofWrite) h)
  intro err y hy
  unfold statReply
  split
  · apply wlp_bind
    apply wlp_post (readReplies_backs hy)
    rintro r z ⟨hz, buffers, hbuffers⟩
    rw [hbuffers]
    exact publish_backs (.stat i buffers) ⟨uri, huri, hne⟩ hz
  · exact wlp_pure hy

theorem publishHealth_backs {i : Nat} (huri : uris[i]? = some (ascii "health")) (pollDelta : Nat)
    (polltimeBuf : Bytes) (livenessVal : Nat) (livenessDelta : Int) (h : Backed uris x) :
    Backs uris (publishHealth i pollDelta polltimeBuf livenessVal livenessDelta)
      (fun _ y => Backed uris y) x :=
  publish_backs (.health i pollDelta polltimeBuf livenessVal (toUInt64 livenessDelta)) huri h

theorem healthReply_backs {i : Nat} (huri : uris[i]? = some (ascii "health")) (pollDelta : Nat)
    (polltimeBuf : Bytes) (sk : SocketState) (start : Int) (err : Nat) (h : Backed uris x) :
    Backs uris (healthReply i pollDelta polltimeBuf sk start err) (fun _ y => Backed uris y) x := by
  unfold healthReply
  split
  · exact publishHealth_backs huri _ _ _ _ h
  · apply wlp_bind
    apply wlp_post (backs_within (within_spMemcacheRead _ _ _) (fun _ => keepsLists_of_ofRead) h)
    intro r y hy
    apply wlp_bind
    apply wlp_call hy
    intro stop
    have hstop : Backed uris (Machine.after y (.gettimeofday stop)) := hy.keeps rfl
    split
    · exact publishHealth_backs huri _ _ _ _ hstop
    · split
      · exact publishHealth_backs huri _ _ _ _ hstop
      · exact publishHealth_backs huri _ _ _ _ hstop

theorem getHealth_backs {i : Nat} (huri : uris[i]? = some (ascii "health")) (h : Backed uris x) :
    Backs uris (getHealth i) (fun _ y => Backed uris y) x := by
  rw [getHealth_eq]
  apply wlp_bind
  apply wlp_backend
  apply wlp_bind
  apply wlp_post (backs_within (within_sessionInfo (p := (·.ofRead = true)) (fun _ => rfl) _)
    (fun _ => keepsLists_of_ofRead) h)
  intro sk y hy
  apply wlp_bind
  apply wlp_call hy
  intro now
  have hnow : Backed uris (Machine.after y (.time now)) := hy.keeps rfl
  apply wlp_bind
  apply wlp_bind
  apply wlp_ask hnow
  intro a
  apply wlp_pure
  apply wlp_bind
  apply wlp_call hnow
  intro start
  have hstart := hnow.keeps (e := .gettimeofday start) rfl
  apply wlp_bind
  apply wlp_post (backs_within (within_spMemcacheWrite _) (fun _ => keepsLists_of_ofWrite) hstart)
  intro err z hz
  exact healthReply_backs huri _ _ sk start err hz

theorem pollUris_backs {us : List (Bytes × Nat)} (hus : ∀ u ∈ us, uris[u.2]? = some u.1)
    (h : Backed uris x) : Backs uris (pollUris us) (fun _ y => Backed uris y) x := by
  induction us generalizing x with
  | nil => exact wlp_pure h
  | cons u rest ih =>
    rw [List.forall_mem_cons] at hus
    rw [pollUris]
    apply wlp_bind
    apply wlp_post (backs_within within_checkAndConnect (fun _ => keepsLists_of_ofConnect) h)
    intro err y hy
    split
    · exact wlp_pure hy
    · apply wlp_bind
      apply wlp_post (backs_within (within_setState _) (fun _ => keepsLists_of_ofConnect) hy)
      intro _ z hz
      apply wlp_bind
      have hpoll : Backs uris (pollUri u.2 u.1) (fun _ v => Backed uris v) z := by
        unfold pollUri
        split
        · rename_i hhealth
          exact getHealth_backs (hhealth ▸ hus.1) hz
        · rename_i hne
          exact getStat_backs hus.1 hne hz
      apply wlp_post hpoll
      intro _ v hv
      apply wlp_bind
      apply wlp_call hv
      intro now
      apply wlp_bind
      apply wlp_emit
      intro _
      exact ih hus.2 ((hv.keeps rfl).keeps rfl)

theorem pollCycle_backs (h : Backed uris x) :
    Backs uris (pollCycle ()) (fun _ y => Backed uris y) x := by
  apply wlp_bind
  apply wlp_call h
  intro start
  have hstart : Backed uris (Machine.after x (.gettimeofday start)) := h.keeps rfl
  obtain ⟨polls, hpolls⟩ := id hstart
  apply wlp_bind
  apply wlp_backend
  apply wlp_bind
  apply wlp_post
  · apply pollUris_backs _ hstart
    rw [hpolls.configured]
    intro u hu
    obtain ⟨-, hlt, huri⟩ := List.mem_zipIdx hu
    rw [List.getElem?_eq_getElem (by omega), huri]
    rfl
  · intro completed y hy
    split
    · apply wlp_bind
      apply wlp_post (backs_within (within_disconnect ofConnect_of_atLabel)
        (fun _ => keepsLists_of_ofConnect) hy)
      intro _ z hz
      apply wlp_bind
      apply wlp_call hz
      intro stop
      apply wlp_bind
      apply wlp_emit
      intro _
      exact wlp_pure ((hz.keeps rfl).keeps rfl)
    · exact wlp_pure hy

end

theorem runBackend_backed (settings : LocalSettings) (uris : List Bytes) (inputs : List Answer) :
    Backed uris (run (World.initial settings uris, [])
      (runBackend.exec (World.initial settings uris) inputs).trace) := by
  have hstart : Backed uris (World.initial settings uris, []) := by
    refine ⟨[], ?_, nofun, rfl, fun i _ => initial_stats settings uris i⟩
    simp [World.initial, Function.comp_def]
  have hrun : Backs uris runBackend (fun _ y => Backed uris y)
      (World.initial settings uris, []) := by
    apply wlp_bind
    apply wlp_post (backs_within (within_setState _) (fun _ => keepsLists_of_ofConnect) hstart)
    intro _ y hy
    apply wlp_loop (fun _ z => Backed uris z) (fun _ _ hz => hz) _ _ hy
    intro _ z hz
    apply wlp_post (pollCycle_backs hz)
    intro r z' hz'
    cases r with
    | inl next => exact hz'
    | inr a => exact a.elim
  exact run_of_wlp hrun (fun _ _ hy => hy) (allowed_true _ _)

/-- Polls that publish what has been published in a run, whatever replies they are made of. -/
structure PublishedBy (uris : List Bytes) (log : List Event) (polls : List Poll) : Prop where
  known : ∀ poll ∈ polls, poll.Of uris
  published : publications log = polls.map fun poll => (poll.uri, poll.entries)

/-- The lists depend on what is published only. -/
theorem PublishedBy.publish {uris : List Bytes} {log : List Event} {polls polls' : List Poll}
    (h : PublishedBy uris log polls) (h' : PublishedBy uris log polls')
    (lists : Nat → List StatsEntry) :
    polls.foldl Poll.publish lists = polls'.foldl Poll.publish lists := by
  have hpairs : ∀ polls : List Poll, polls.foldl Poll.publish lists =
      (polls.map fun poll => (poll.uri, poll.entries)).foldl
        (fun lists p => Function.update lists p.1 p.2) lists := by
    intro polls
    rw [List.foldl_map]
    rfl
  rw [hpairs, hpairs, ← h.published, ← h'.published]

theorem runBackend_published (settings : LocalSettings) (uris : List Bytes)
    (inputs : List Answer) :
    ∃ polls,
      PublishedBy uris (runBackend.exec (World.initial settings uris) inputs).trace polls := by
  obtain ⟨polls, hstored⟩ := runBackend_backed settings uris inputs
  rw [run_prod, run_log, List.nil_append] at hstored
  exact ⟨polls, hstored.known, hstored.published⟩

/-- The lists that such polls leave are those of the run. -/
theorem runBackend_stats {settings : LocalSettings} {uris : List Bytes} {inputs : List Answer}
    {polls : List Poll}
    (h : PublishedBy uris (runBackend.exec (World.initial settings uris) inputs).trace polls) :
    ∀ i < uris.length, (run (World.initial settings uris)
      (runBackend.exec (World.initial settings uris) inputs).trace).bep.stats i =
        polls.foldl Poll.publish (fun _ => []) i := by
  obtain ⟨polls', hstored⟩ := runBackend_backed settings uris inputs
  rw [run_prod, run_log, List.nil_append] at hstored
  rw [h.publish ⟨hstored.known, hstored.published⟩]
  exact hstored.stats

theorem uriLists_congr {n : Nat} {lists lists' : Nat → List StatsEntry}
    (h : ∀ i < n, lists i = lists' i) : uriLists n lists = uriLists n lists' := by
  apply Finset.prod_congr rfl
  intro i hi
  rw [h i (Finset.mem_range.mp hi)]

/-- Whatever a poller has done, and whatever the replies were that it got its lists from: when
the polls are carried out in memory, no freed or foreign block is accessed, the lists are in the
end those of the model, and no block is allocated that is not an entry of one of them or a text
of an entry. -/
theorem runBackend_memory (settings : LocalSettings) (uris : List Bytes) (inputs : List Answer)
    (more : Nat) :
    let log := (runBackend.exec (World.initial settings uris) inputs).trace
    (∃ polls, PublishedBy uris log polls) ∧
    ∀ polls, PublishedBy uris log polls →
      ∃ m, (do initUris uris.length; pollsCode (enoughSteps polls + more) polls)
          (startMemory uris.length) = some ((), m) ∧
        (newStatsCell * uriLists uris.length
          (run (World.initial settings uris) log).bep.stats).Holds m.store := by
  refine ⟨runBackend_published settings uris inputs, ?_⟩
  intro polls hpolls
  have hcode := triple_started uris.length polls (fun poll hmem => (hpolls.known poll hmem).lt) more
  obtain ⟨_, m, hrun, hend⟩ := hcode.run (m := startMemory uris.length)
    (startStore_holds uris.length)
  rw [← uriLists_congr (runBackend_stats hpolls)] at hend
  exact ⟨m, hrun, hend⟩

end StatsProxy

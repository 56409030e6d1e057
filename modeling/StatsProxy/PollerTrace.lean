import StatsProxy.RunBackend

/-! What a poller thread can do, stated once for all its runs. Its trace is a
sequence of blocks: single events outside the lock, assignments of the state
under the lock, and replacements of one stats list under the lock. The
invariant `Sound` ties the trace to the descriptor and to the state. -/
namespace StatsProxy
open CString Interaction Program Poller

/-- Events that concern neither the lock nor what it protects. -/
def Event.outside : Event → Bool
  | .wrlock | .unlock | .setState _ | .removeHead _ | .initStats _ | .insertTail _ _ => false
  | _ => true

/-- The two failures at which `spMemcacheConnect` still returns 0. -/
def Event.openFailure : Event → Bool
  | .socket (.error _) | .fcntl (.error _) => true
  | _ => false

/-- One locked replacement of the list of uri `i`, which had `n` entries. -/
def update (i n : Nat) (entries : List StatsEntry) : List Event :=
  .wrlock :: List.replicate n (.removeHead i) ++ .initStats i ::
    entries.map (.insertTail i) ++ [.unlock]

def stateSection (state : BackendState) : List Event :=
  [.wrlock, .setState state, .unlock]

/-- The list of uri `i` becomes this one. -/
def World.publish (w : World) (i : Nat) (stats : List StatsEntry) : World :=
  ⟨{ w.bep with uris := w.bep.uris.modify i ({ · with stats }) }, w.opened⟩

theorem run_insertTail (w : World) (i : Nat) (stats entries : List StatsEntry) :
    run (w.publish i stats) (entries.map (.insertTail i)) = w.publish i (stats ++ entries) := by
  induction entries generalizing stats with
  | nil => rw [List.append_nil]; rfl
  | cons entry entries ih =>
    have hinsert : Machine.after (w.publish i stats) (.insertTail i entry) =
        w.publish i (stats ++ [entry]) := by
      show (⟨{ w.bep with uris := (w.bep.uris.modify i _).modify i _ }, w.opened⟩ : World) = _
      rw [List.modify_modify_eq]
      rfl
    rw [List.map_cons, run_cons, hinsert, ih, List.append_assoc]
    rfl

/-- Whatever is freed, the list is empty after its initialisation. -/
theorem run_removeHeads (w : World) (i n : Nat) :
    Machine.after (run w (List.replicate n (.removeHead i))) (.initStats i) = w.publish i [] := by
  induction n generalizing w with
  | zero => rfl
  | succ n ih =>
    rw [List.replicate_succ, run_cons, ih]
    show (⟨{ w.bep with uris := (w.bep.uris.modify i _).modify i _ }, w.opened⟩ : World) = _
    rw [List.modify_modify_eq]
    rfl

theorem run_update (w : World) (i n : Nat) (entries : List StatsEntry) :
    run w (update i n entries) = w.publish i entries := by
  have hsplit : update i n entries = [.wrlock] ++ List.replicate n (.removeHead i) ++
      [.initStats i] ++ entries.map (.insertTail i) ++ [.unlock] := by simp [update]
  rw [hsplit, run_append, run_append, run_append, run_append]
  show run (Machine.after (run w (List.replicate n (.removeHead i))) (.initStats i))
    (entries.map (.insertTail i)) = _
  rw [run_removeHeads, run_insertTail, List.nil_append]

inductive Blocks : List Event → Prop where
  | nil : Blocks []
  | outside (h : Blocks log) (e : Event) (he : e.outside = true) : Blocks (log ++ [e])
  | state (h : Blocks log) (s : BackendState) : Blocks (log ++ stateSection s)
  | update (h : Blocks log) (i n : Nat) (entries : List StatsEntry) :
      Blocks (log ++ update i n entries)

/-- Every assignment of `POLLING` finds the connection open. -/
def PollingConnected (w : World) : List Event → Prop :=
  AtEach fun before e => e = .setState .polling → 0 ≤ (run w before).bep.fd

def NoOpenFailure (log : List Event) : Prop := ∀ e ∈ log, e.openFailure = false

theorem pollingConnected_append (w : World) (log more : List Event)
    (h : Event.setState .polling ∉ more) :
    PollingConnected w (log ++ more) ↔ PollingConnected w log := by
  rw [PollingConnected, atEach_append]
  apply and_iff_left
  apply atEach_of_mem
  rintro e he before rfl
  contradiction

theorem noOpenFailure_append (log more : List Event) :
    NoOpenFailure (log ++ more) ↔ NoOpenFailure log ∧ NoOpenFailure more := by
  simp only [NoOpenFailure, List.mem_append, or_imp, forall_and]

/-- The thread owns the descriptor it has stored, and no other. -/
def Owned (w : World) : Prop :=
  (w.bep.fd = -1 ∧ w.opened = []) ∨ (0 ≤ w.bep.fd ∧ w.opened = [w.bep.fd])

/-- `bep->fd = socket(..)` and `close(bep->fd); bep->fd = -1;` are two events
each; the descriptors are settled after the second. -/
def Event.settled : Event → Bool
  | .socket (.ok _) | .close _ => false
  | _ => true

def OwnedThroughout (w : World) : List Event → Prop :=
  AtEach fun before e => e.settled = true → Owned (run w (before ++ [e]))

/-- What holds of the events of a poller that started in `w`. -/
structure LogSound (w : World) (log : List Event) : Prop where
  blocks : Blocks log
  states : AtEach (fun before e => ∀ s, e = .setState s → .setState .connecting ∈ before →
    s = .connecting ∨ s = .polling) log
  cycles : w.bep.uris ≠ [] →
    AtEach (fun before e => ∀ us, e = .usleep us → .setState .connecting ∈ before) log
  descriptors : OwnedThroughout w log

structure Logged (w : World) (x : World × List Event) : Prop where
  consistent : x.1 = run w x.2
  log : LogSound w x.2

/-- Under `c` no socket or fcntl call has failed. -/
structure Traced (c : Prop) (w : World) (x : World × List Event) : Prop extends Logged w x where
  polling : PollingConnected w x.2 ↔ NoOpenFailure x.2
  clean : c → NoOpenFailure x.2

structure Sound (c : Prop) (w : World) (x : World × List Event) : Prop extends Traced c w x where
  owned : Owned x.1

/-- Events after which nothing but ownership has to be proved again. -/
def Event.quiet (e : Event) : Bool :=
  e.outside && !e.openFailure && match e with
    | .usleep _ => false
    | _ => true

theorem store_fd (e : Event) (he : ∀ fd, e ≠ .setFd fd) (bep : Backend) :
    (e.store bep).fd = bep.fd := by
  cases e <;> first | rfl | exact absurd rfl (he _)

theorem LogSound.outside {w : World} {log : List Event} (h : LogSound w log) (e : Event)
    (he : e.outside = true)
    (hu : ∀ us, e = .usleep us → w.bep.uris ≠ [] → .setState .connecting ∈ log)
    (ho : e.settled = true → Owned (run w (log ++ [e]))) : LogSound w (log ++ [e]) where
  blocks := h.blocks.outside e he
  states := by
    apply atEach_snoc.mpr ⟨h.states, _⟩
    rintro s rfl
    cases he
  cycles := by
    intro hw
    apply atEach_snoc.mpr ⟨h.cycles hw, _⟩
    intro us heq
    exact hu us heq hw
  descriptors := atEach_snoc.mpr ⟨h.descriptors, ho⟩

theorem Logged.outside {w : World} {x : World × List Event} (h : Logged w x) (e : Event)
    (he : e.outside = true)
    (hu : ∀ us, e = .usleep us → w.bep.uris ≠ [] → .setState .connecting ∈ x.2)
    (ho : e.settled = true → Owned (Machine.after x.1 e)) : Logged w (Machine.after x e) := by
  have hrun : Machine.after x.1 e = run w (x.2 ++ [e]) := by
    rw [run_append, ← h.consistent]
    rfl
  exact ⟨hrun, h.log.outside e he hu (hrun ▸ ho)⟩

theorem Traced.outside {c : Prop} {w : World} {x : World × List Event} (h : Traced c w x)
    (e : Event) (he : e.outside = true) (hf : e.openFailure = false)
    (hu : ∀ us, e = .usleep us → w.bep.uris ≠ [] → .setState .connecting ∈ x.2)
    (ho : e.settled = true → Owned (Machine.after x.1 e)) : Traced c w (Machine.after x e) := by
  have hp : Event.setState .polling ∉ [e] := by
    intro hm
    rw [List.mem_singleton] at hm
    subst hm
    cases he
  have hnf : NoOpenFailure (x.2 ++ [e]) ↔ NoOpenFailure x.2 := by
    rw [noOpenFailure_append]
    apply and_iff_left
    intro e' hm
    rwa [List.mem_singleton.mp hm]
  have hpolling : PollingConnected w (x.2 ++ [e]) ↔ NoOpenFailure (x.2 ++ [e]) := by
    rw [pollingConnected_append w x.2 [e] hp, hnf, h.polling]
  exact ⟨h.toLogged.outside e he hu ho, hpolling, fun hc => hnf.mpr (h.clean hc)⟩

theorem Traced.quiet {c : Prop} {w : World} {x : World × List Event} (h : Traced c w x)
    (e : Event) (he : e.quiet = true) (ho : e.settled = true → Owned (Machine.after x.1 e)) :
    Traced c w (Machine.after x e) := by
  simp only [Event.quiet, Bool.and_eq_true, Bool.not_eq_true'] at he
  obtain ⟨⟨hout, hf⟩, hu⟩ := he
  exact h.outside e hout hf (by rintro us rfl; cases hu) ho

/-- Events that touch neither the stored nor the open descriptors. -/
def Event.keepsFd : Event → Bool
  | .socket (.ok _) | .close _ | .setFd _ => false
  | _ => true

theorem Owned.after {w : World} (h : Owned w) (e : Event) (he : e.keepsFd = true) :
    Owned (Machine.after w e) ∧ (Machine.after w e).bep.fd = w.bep.fd := by
  have hfd : (Machine.after w e).bep.fd = w.bep.fd :=
    store_fd e (by rintro fd rfl; cases he) w.bep
  have ho : (Machine.after w e).opened = w.opened := by
    show e.descriptors w.opened = w.opened
    cases e with
    | socket r => cases r <;> first | rfl | cases he
    | _ => first | rfl | cases he
  apply And.intro _ hfd
  rw [Owned, hfd, ho]
  exact h

theorem Owned.run {w : World} (h : Owned w) (more : List Event)
    (hk : ∀ e ∈ more, e.keepsFd = true) : Owned (run w more) := by
  induction more generalizing w with
  | nil => exact h
  | cons e more ih =>
    rw [List.forall_mem_cons] at hk
    exact ih (h.after e hk.1).1 hk.2

theorem OwnedThroughout.append {w : World} {log : List Event} (h : OwnedThroughout w log)
    (ho : Owned (run w log)) (more : List Event) (hk : ∀ e ∈ more, e.keepsFd = true) :
    OwnedThroughout w (log ++ more) := by
  apply atEach_append.mpr ⟨h, _⟩
  intro before e after he _
  rw [List.append_assoc, run_append]
  apply ho.run
  intro e' hm
  apply hk
  rw [he, List.mem_append, List.mem_cons]
  rw [List.mem_append, List.mem_singleton] at hm
  exact hm.imp_right Or.inl

theorem Sound.quiet {c : Prop} {w : World} {x : World × List Event} (h : Sound c w x)
    (e : Event) (he : e.quiet = true) (hk : e.keepsFd = true) : Sound c w (Machine.after x e) :=
  have ho := (h.owned.after e hk).1
  ⟨h.toTraced.quiet e he fun _ => ho, ho⟩

section

variable {c : Prop} {w : World}

theorem keeps_call {outcome : Answer → α} {event : α → Event}
    (hq : ∀ r, (event r).quiet = true) (hk : ∀ r, (event r).keepsFd = true) :
    Keeps (Sound c w) (call outcome event) :=
  fun _ h => wp_call h fun r => h.quiet _ (hq r) (hk r)

theorem keeps_poll : Keeps (Sound c w) poll := keeps_call (fun _ => rfl) (fun _ => rfl)
theorem keeps_gettimeofday : Keeps (Sound c w) gettimeofday :=
  keeps_call (fun _ => rfl) (fun _ => rfl)
theorem keeps_time : Keeps (Sound c w) time := keeps_call (fun _ => rfl) (fun _ => rfl)
theorem keeps_backend : Keeps (Sound c w) backend := fun _ h => wp_backend h
theorem keeps_ctime : Keeps (Sound c w) ctime := fun _ h => wp_ctime h fun _ => h

theorem keeps_write (offered : Bytes) : Keeps (Sound c w) (Poller.write offered) :=
  fun _ h => wp_write h fun _ => h.quiet _ rfl rfl

theorem keeps_read (len : Nat) : Keeps (Sound c w) (Poller.read len) :=
  fun _ h => wp_read h fun _ => h.quiet _ rfl rfl

theorem keeps_quiet (e : Event) (hq : e.quiet = true) (hk : e.keepsFd = true) :
    Keeps (Sound c w) (emit e : Poller Unit) :=
  keeps_emit fun _ h => h.quiet e hq hk

/-- Closing the descriptor and forgetting it belong together. -/
theorem disconnect_spec {I : World × List Event → Prop} {x : World × List Event}
    {Q : Unit → World × List Event → Prop} (ho : Owned x.1)
    (hnone : x.1.bep.fd = -1 → Q () x)
    (hclose : 0 ≤ x.1.bep.fd →
      Q () (Machine.after (Machine.after x (.close x.1.bep.fd)) (.setFd (-1)))) :
    wp I spMemcacheDisconnect Q x := by
  apply wp_bind
  apply wp_backend
  rcases ho with ⟨hfd, -⟩ | ⟨hfd, hopen⟩
  · rw [if_neg (by omega)]
    exact wp_pure (hnone hfd)
  · rw [if_pos hfd]
    apply wp_bind
    apply wp_close (by rw [hopen]; exact List.mem_singleton_self _)
    exact wp_emit (hclose hfd)

theorem owned_closed {x : World} (h : Owned x) (hfd : 0 ≤ x.bep.fd) :
    Owned (Machine.after (Machine.after x (.close x.bep.fd)) (.setFd (-1))) := by
  rcases h with ⟨hn, -⟩ | ⟨-, hopen⟩
  · omega
  · apply Or.inl
    apply And.intro rfl
    show x.opened.erase x.bep.fd = []
    rw [hopen, List.erase_cons_head]

theorem spMemcacheDisconnect_spec {x : World × List Event} (h : Sound c w x) :
    wp (Sound c w) spMemcacheDisconnect (fun _ y => Sound c w y ∧ y.1.bep.fd = -1) x :=
  disconnect_spec h.owned (fun hfd => ⟨h, hfd⟩) fun hfd =>
    have ho := owned_closed h.owned hfd
    ⟨⟨(h.toTraced.quiet (.close x.1.bep.fd) rfl nofun).quiet (.setFd (-1)) rfl fun _ => ho, ho⟩,
      rfl⟩

theorem bail_spec {x : World × List Event} (h : Sound c w x) (err : Nat) :
    wp (Sound c w) (bail err) (fun r y => Sound c w y ∧ y.1.bep.fd = -1 ∧ r = err) x := by
  apply wp_bind
  apply wp_post (spMemcacheDisconnect_spec h)
  intro _ y hy
  apply wp_bind
  apply wp_emit
  exact wp_pure ⟨hy.1.quiet _ rfl rfl, hy.2, rfl⟩

theorem keeps_bail (err : Nat) : Keeps (Sound c w) (bail err) :=
  fun _ h => wp_post (bail_spec h err) fun _ _ hy => hy.1

theorem keeps_sessionInfo (timeoutMs : Int) : Keeps (Sound c w) (sessionInfo timeoutMs) :=
  keeps_bind keeps_gettimeofday fun _ => keeps_pure _

theorem keeps_updateTimeRemaining (sk : SocketState) :
    Keeps (Sound c w) (spMemcacheStatsUpdateTimeRemaining sk) :=
  keeps_bind keeps_gettimeofday fun _ => keeps_pure _

theorem keeps_writeNext (s : WriteLoop) : Keeps (Sound c w) (writeNext s) := by
  apply keeps_bind (keeps_updateTimeRemaining s.sk)
  intro sk
  split
  · exact keeps_map _ (keeps_bail s.err)
  · exact keeps_pure _

theorem keeps_writeStep (s : WriteLoop) : Keeps (Sound c w) (writeStep s) := by
  unfold writeStep
  split
  · exact keeps_pure _
  · apply keeps_bind (keeps_write _)
    intro r
    cases r with
    | ok numChars => exact keeps_writeNext _
    | error e =>
      dsimp only
      split
      · apply keeps_bind keeps_poll
        intro r
        cases r with
        | failed e' => exact keeps_map _ (keeps_bail e'.code)
        | timeout => exact keeps_writeNext _
        | ready => exact keeps_writeNext _
      · exact keeps_map _ (keeps_bail e.code)

theorem keeps_spMemcacheWrite (cmd : Bytes) : Keeps (Sound c w) (spMemcacheWrite cmd) := by
  apply keeps_bind (keeps_quiet _ rfl rfl)
  intro _
  apply keeps_bind keeps_backend
  intro bep
  apply keeps_bind (keeps_sessionInfo _)
  intro sk
  exact keeps_loop keeps_writeStep _

theorem keeps_readBail (s : ReadLoop) (err : Nat) : Keeps (Sound c w) (readBail s err) :=
  keeps_bind (keeps_bail err) fun _ => keeps_pure _

theorem keeps_readNext (s : ReadLoop) (eof : Bool) : Keeps (Sound c w) (readNext s eof) := by
  apply keeps_bind (keeps_updateTimeRemaining s.sk)
  intro sk
  dsimp only
  split
  · exact keeps_readBail _ _
  · exact keeps_pure _

theorem keeps_readStep (len : Nat) (s : ReadLoop) : Keeps (Sound c w) (readStep len s) := by
  unfold readStep
  split
  · apply keeps_bind (keeps_read _)
    intro r
    cases r with
    | ok data => exact keeps_readNext _ _
    | error e =>
      dsimp only
      split
      · split
        · apply keeps_bind keeps_poll
          intro r
          cases r with
          | failed e' => exact keeps_readBail s e'.code
          | timeout => exact keeps_readNext _ _
          | ready => exact keeps_readNext _ _
        · exact keeps_readBail s e.code
      · exact keeps_readBail s e.code
  · exact keeps_pure _

theorem keeps_spMemcacheRead (len : Nat) (sk : SocketState) (done : Bool) :
    Keeps (Sound c w) (spMemcacheRead len sk done) :=
  keeps_loop (keeps_readStep len) _

theorem keeps_repliesStep (s : RepliesLoop) : Keeps (Sound c w) (repliesStep s) := by
  unfold repliesStep
  split
  · exact keeps_pure _
  · apply keeps_bind (keeps_spMemcacheRead _ _ _)
    intro r
    split
    · exact keeps_pure _
    · split
      · exact keeps_pure _
      · exact keeps_pure _

theorem keeps_spMemcacheReadReplies : Keeps (Sound c w) spMemcacheReadReplies := by
  apply keeps_bind keeps_backend
  intro bep
  apply keeps_bind (keeps_sessionInfo _)
  intro sk
  apply keeps_bind (keeps_loop keeps_repliesStep _)
  intro r
  apply keeps_bind (keeps_quiet _ rfl rfl)
  intro _
  exact keeps_pure _

end

end StatsProxy

import StatsProxy.ReadOutcome
import StatsProxy.StatsCallback

/-! Which events the calls of a poller leave: a write reads nothing, a read writes
nothing, and a publication is one update. -/
namespace StatsProxy
open CString Interaction Program Poller

def Event.IsWrite (e : Event) : Prop := ∃ offered r, e = .write offered r

/-- The event concerns neither the bytes of the connection nor its descriptor. -/
structure Event.Silent (e : Event) : Prop where
  noRead : ¬e.IsRead
  noWrite : ¬e.IsWrite
  sameFd : ∀ fd, e ≠ .setFd fd

/-- The events of the write loop. -/
def Event.ofWrite : Event → Bool
  | .write .. | .poll _ | .gettimeofday _ | .command _ => true
  | .close _ | .setFd _ | .setLastError _ => true
  | _ => false

/-- The events of the read loops. -/
def Event.ofRead : Event → Bool
  | .read .. | .poll _ | .gettimeofday _ | .close _ | .setFd _ | .setLastError _ => true
  | _ => false

/-- The events of connecting. -/
def Event.ofConnect : Event → Bool
  | .socket _ | .fcntl _ | .connect _ | .poll _ | .getsockopt _ | .sleep _ => true
  | .wrlock | .unlock | .setState _ | .close _ | .setFd _ | .setLastError _ => true
  | _ => false

/-- The events of a publication of these entries. -/
def Event.ofPublish (i : Nat) (entries : List StatsEntry) : Event → Prop
  | .wrlock | .unlock => True
  | .removeHead j | .initStats j => j = i
  | .insertTail j entry => j = i ∧ entry ∈ entries
  | _ => False

section

variable {p : Event → Prop}

theorem within_call {outcome : Answer → α} {event : α → Event} (h : ∀ r, p (event r)) :
    Within p (call outcome event) := by
  unfold call
  apply within_bind
  · exact within_ask
  · intro a
    exact within_bind (within_emit (h _)) fun _ => within_pure _

theorem within_backend : Within p backend := by
  unfold backend
  exact within_bind within_get fun _ => within_pure _

theorem within_sessionInfo (h : ∀ now, p (.gettimeofday now)) (timeoutMs : Int) :
    Within p (sessionInfo timeoutMs) := by
  unfold sessionInfo
  exact within_bind (within_call h) fun _ => within_pure _

theorem within_updateTimeRemaining (h : ∀ now, p (.gettimeofday now)) (sk : SocketState) :
    Within p (spMemcacheStatsUpdateTimeRemaining sk) := by
  unfold spMemcacheStatsUpdateTimeRemaining
  exact within_bind (within_call h) fun _ => within_pure _

/-- One call that the backend's socket answers. -/
theorem within_exchange {e : Backend → Answer → Event} {r : Backend → Answer → α}
    (h : ∀ bep a, p (e bep a)) :
    Within p (backend >>= fun bep => ask >>= fun a => emit (e bep a) >>= fun _ =>
      pure (r bep a)) := by
  apply within_bind
  · exact within_backend
  · intro bep
    apply within_bind
    · exact within_ask
    · intro a
      exact within_bind (within_emit (h bep a)) fun _ => within_pure _

theorem within_write (h : ∀ offered r, p (.write offered r)) (offered : Bytes) :
    Within p (write offered) :=
  within_exchange fun _ _ => h _ _

theorem within_read (h : ∀ len r, p (.read len r)) (len : Nat) : Within p (Poller.read len) :=
  within_exchange fun _ _ => h _ _

theorem within_disconnect (h : ∀ e, e.atLabel = true → p e) :
    Within p spMemcacheDisconnect := by
  unfold spMemcacheDisconnect
  apply within_bind
  · exact within_backend
  · intro bep
    split
    · apply within_bind
      · exact within_bind (within_assert _) fun _ => within_emit (h _ rfl)
      · exact fun _ => within_emit (h _ rfl)
    · exact within_pure _

theorem within_bail (h : ∀ e, e.atLabel = true → p e) (err : Nat) : Within p (bail err) := by
  unfold bail
  apply within_bind
  · exact within_disconnect h
  · intro _
    exact within_bind (within_emit (h _ rfl)) fun _ => within_pure _

theorem within_mapBail (h : ∀ e, e.atLabel = true → p e) (f : Nat → α) (err : Nat) :
    Within p (f <$> bail err) :=
  within_bind (within_bail h err) fun _ => within_pure _

theorem ofRead_of_atLabel (e : Event) (h : e.atLabel = true) : e.ofRead = true := by
  cases e <;> first | rfl | contradiction

/-- Between two commands. -/
def Event.notCommand : Event → Bool
  | .command _ => false
  | _ => true

theorem writeLoop_of_atLabel (e : Event) (h : e.atLabel = true) :
    e.ofWrite = true ∧ e.notCommand = true := by
  cases e <;> first | exact ⟨rfl, rfl⟩ | contradiction

theorem within_writeNext (s : WriteLoop) :
    Within (fun e => e.ofWrite = true ∧ e.notCommand = true) (writeNext s) := by
  unfold writeNext
  apply within_bind
  · exact within_updateTimeRemaining (fun _ => ⟨rfl, rfl⟩) s.sk
  · intro sk
    split
    · exact within_mapBail writeLoop_of_atLabel _ _
    · exact within_pure _

theorem within_writeStep (s : WriteLoop) :
    Within (fun e => e.ofWrite = true ∧ e.notCommand = true) (writeStep s) := by
  unfold writeStep
  split
  · exact within_pure _
  · apply within_bind
    · exact within_write (fun _ _ => ⟨rfl, rfl⟩) _
    · intro r
      cases r with
      | ok n => exact within_writeNext _
      | error e =>
        dsimp only
        split
        · apply within_bind
          · exact within_call fun _ => ⟨rfl, rfl⟩
          · intro r
            cases r with
            | failed e' => exact within_mapBail writeLoop_of_atLabel _ _
            | timeout => exact within_writeNext _
            | ready => exact within_writeNext _
        · exact within_mapBail writeLoop_of_atLabel _ _

/-- A call of `spMemcacheWrite` after its first event. -/
def writeCommand (cmd : Bytes) : Poller Nat := do
  let bep ← backend
  let sk ← sessionInfo bep.settings.writeMs
  loop writeStep ⟨cmd.length, cmd, 0, 0, sk⟩

theorem within_writeCommand (cmd : Bytes) :
    Within (fun e => e.ofWrite = true ∧ e.notCommand = true) (writeCommand cmd) := by
  unfold writeCommand
  apply within_bind
  · exact within_backend
  · intro bep
    apply within_bind
    · exact within_sessionInfo (fun _ => ⟨rfl, rfl⟩) _
    · intro sk
      exact within_loop within_writeStep _

theorem within_spMemcacheWrite (cmd : Bytes) :
    Within (·.ofWrite = true) (spMemcacheWrite cmd) := by
  apply within_bind
  · exact within_emit rfl
  · exact fun _ => (within_writeCommand cmd).imp fun _ h => h.1

theorem within_readBail (s : ReadLoop) (err : Nat) :
    Within (·.ofRead = true) (readBail s err) := by
  unfold readBail
  exact within_bind (within_bail ofRead_of_atLabel err) fun _ => within_pure _

theorem within_readNext (s : ReadLoop) (eof : Bool) :
    Within (·.ofRead = true) (readNext s eof) := by
  unfold readNext
  apply within_bind
  · exact within_updateTimeRemaining (fun _ => rfl) s.sk
  · intro sk
    dsimp only
    split
    · exact within_readBail _ _
    · exact within_pure _

theorem within_readStep (len : Nat) (s : ReadLoop) :
    Within (·.ofRead = true) (readStep len s) := by
  unfold readStep
  split
  · apply within_bind
    · exact within_read (fun _ _ => rfl) _
    · intro r
      cases r with
      | ok data => exact within_readNext _ _
      | error e =>
        dsimp only
        split
        · split
          · apply within_bind
            · exact within_call fun _ => rfl
            · intro r
              cases r with
              | failed e' => exact within_readBail _ _
              | timeout => exact within_readNext _ _
              | ready => exact within_readNext _ _
          · exact within_readBail _ _
        · exact within_readBail _ _
  · exact within_pure _

theorem within_spMemcacheRead (len : Nat) (sk : SocketState) (done : Bool) :
    Within (·.ofRead = true) (spMemcacheRead len sk done) :=
  within_loop (within_readStep len) _

theorem within_repliesStep (s : RepliesLoop) : Within (·.ofRead = true) (repliesStep s) := by
  unfold repliesStep
  split
  · exact within_pure _
  · apply within_bind
    · exact within_spMemcacheRead _ _ _
    · intro r
      split
      · exact within_pure _
      · split
        · exact within_pure _
        · exact within_pure _

theorem ofConnect_of_atLabel (e : Event) (h : e.atLabel = true) : e.ofConnect = true := by
  cases e <;> first | rfl | contradiction

theorem within_checkConnected : Within (·.ofConnect = true) checkConnected := by
  unfold checkConnected
  apply within_bind
  · exact within_call fun _ => rfl
  · intro r
    cases r with
    | error e => exact within_bail ofConnect_of_atLabel _
    | ok res =>
      dsimp only
      split
      · exact within_bail ofConnect_of_atLabel _
      · exact within_pure _

theorem within_socket : Within (·.ofConnect = true) socket := by
  unfold socket
  apply within_bind
  · exact within_ask
  · intro a
    apply within_bind
    · exact within_emit rfl
    · intro _
      cases a.socket with
      | ok fd => exact within_pure _
      | error e => exact within_pure _

theorem within_spMemcacheConnect : Within (·.ofConnect = true) spMemcacheConnect := by
  unfold spMemcacheConnect
  apply within_bind
  · exact within_assert _
  · intro _
    apply within_bind
    · exact within_socket
    · intro fd
      apply within_bind
      · exact within_emit rfl
      · intro _
        split
        · exact within_bail ofConnect_of_atLabel _
        · apply within_bind
          · exact within_call fun _ => rfl
          · intro r
            cases r with
            | error e => exact within_bail ofConnect_of_atLabel _
            | ok _ =>
              apply within_bind
              · exact within_call fun _ => rfl
              · intro r
                cases r with
                | ok _ => exact within_checkConnected
                | error e =>
                  dsimp only
                  split
                  · exact within_bail ofConnect_of_atLabel _
                  · apply within_bind
                    · exact within_call fun _ => rfl
                    · intro r
                      cases r with
                      | ready => exact within_checkConnected
                      | failed e' => exact within_bail ofConnect_of_atLabel _
                      | timeout => exact within_bail ofConnect_of_atLabel _

theorem within_setState (state : BackendState) : Within (·.ofConnect = true) (setState state) := by
  unfold setState
  apply within_bind
  · exact within_emit rfl
  · exact fun _ => within_bind (within_emit rfl) fun _ => within_emit rfl

theorem within_connectRetry (tries err : Nat) :
    Within (·.ofConnect = true) (connectRetry tries err) := by
  induction tries generalizing err with
  | zero => exact within_pure _
  | succ tries ih =>
    rw [connectRetry]
    apply within_bind
    · exact within_backend
    · intro bep
      split
      · exact ih err
      · apply within_bind
        · exact within_spMemcacheConnect
        · intro err
          split
          · exact within_pure _
          · exact within_bind (within_emit rfl) fun _ => ih err

theorem within_checkAndConnect : Within (·.ofConnect = true) checkAndConnect := by
  unfold checkAndConnect
  exact within_bind (within_setState .connecting) fun _ => within_connectRetry 6 0

theorem within_publish (i : Nat) (entries : List StatsEntry) :
    Within (Event.ofPublish i entries) (publish i entries) := by
  unfold publish removeOldStats addNewStats
  apply within_bind
  · exact within_emit trivial
  · intro _
    apply within_bind
    · apply within_bind
      · exact within_backend
      · intro bep
        apply within_bind
        · apply within_emits
          intro e he
          obtain ⟨entry, -, rfl⟩ := List.mem_map.mp he
          rfl
        · exact fun _ => within_emit rfl
    · intro _
      apply within_bind
      · apply within_emits
        intro e he
        obtain ⟨entry, hentry, rfl⟩ := List.mem_map.mp he
        exact ⟨rfl, hentry⟩
      · exact fun _ => within_emit trivial

theorem within_spMemcacheReadReplies : Within (·.ofRead = true) spMemcacheReadReplies := by
  unfold spMemcacheReadReplies
  apply within_bind
  · exact within_backend
  · intro bep
    apply within_bind
    · exact within_sessionInfo (fun _ => rfl) _
    · intro sk
      apply within_bind
      · exact within_loop within_repliesStep _
      · intro r
        exact within_bind (within_emit rfl) fun _ => within_pure _

end

/-- The descriptor a call of `spMemcacheWrite` leaves is that of before or -1. -/
theorem WriteEnd.fd_ge {w : World} {cmd : Bytes} {err : Nat} {y : World × List Event}
    (hfd : -1 ≤ w.bep.fd) (h : WriteEnd w cmd err y) : -1 ≤ y.1.bep.fd := by
  rcases h.outcome with ⟨-, hsame, -⟩ | ⟨-, hclosed, -⟩
  · exact hsame ▸ hfd
  · exact hclosed.ge

theorem call_done {outcome : Answer → α} {event : α → Event} {w : World}
    {inputs rest : List Answer} {r : α} {trace : List Event}
    (h : (call outcome event).exec w inputs = .done r trace rest) : trace = [event r] := by
  cases inputs with
  | nil => cases h
  | cons a inputs =>
    cases h
    rfl

theorem publish_done {w : World} {i : Nat} {entries : List StatsEntry}
    {inputs rest : List Answer} {trace : List Event}
    (h : (publish i entries).exec w inputs = .done () trace rest) :
    trace = update i (w.bep.stats i).length entries := by
  have hwp : wp (fun _ => True) (publish i entries)
      (fun _ y => y.2 = update i (w.bep.stats i).length entries) (w, ([] : List Event)) := by
    apply wp_publish
    rw [run_prod, run_log]
    rfl
  have hend := hwp inputs
  rw [h] at hend
  rw [Result.Meets, run_prod, run_log, List.nil_append] at hend
  exact hend

section

variable {log : List Event}

theorem received_nil (h : ∀ e ∈ log, ¬e.IsRead) : received log = [] := by
  rw [received, List.flatMap_eq_nil_iff]
  intro e he
  cases e with
  | read len r => exact absurd ⟨len, r, rfl⟩ (h _ he)
  | _ => rfl

theorem accepted_unwritten (h : ∀ e ∈ log, ¬e.IsWrite) : accepted log = 0 := by
  apply accepted_zero
  intro e he
  cases e with
  | write offered r => exact absurd ⟨offered, r, rfl⟩ (h _ he)
  | _ => rfl

theorem refused_unwritten (h : ∀ e ∈ log, ¬e.IsWrite) : ¬Refused log :=
  not_refused fun e he offered r hwrite => h e he ⟨offered, r, hwrite⟩

/-- Only the events of the write count for what it has sent. -/
theorem recovered_middle {cmd : Bytes} {front back : List Event}
    (hfront : ∀ e ∈ front, ¬e.IsWrite) (hback : ∀ e ∈ back, ¬e.IsWrite) :
    Recovered cmd (front ++ (log ++ back)) ↔ Recovered cmd log := by
  unfold Recovered
  rw [refused_append, refused_append, or_iff_right (refused_unwritten hfront),
    or_iff_left (refused_unwritten hback), accepted_append, accepted_append,
    accepted_unwritten hfront, accepted_unwritten hback, Nat.zero_add, Nat.add_zero]

theorem not_isRead_of_ofWrite {e : Event} (h : e.ofWrite = true) : ¬e.IsRead := by
  rintro ⟨len, r, rfl⟩
  contradiction

theorem not_isWrite_of_ofRead {e : Event} (h : e.ofRead = true) : ¬e.IsWrite := by
  rintro ⟨offered, r, rfl⟩
  contradiction

/-- Only the store of a descriptor changes it. -/
theorem run_fd (w : World) (h : ∀ e ∈ log, ∀ fd, e ≠ .setFd fd) :
    (run w log).bep.fd = w.bep.fd := by
  induction log generalizing w with
  | nil => rfl
  | cons e log ih =>
    rw [List.forall_mem_cons] at h
    rw [run_cons, ih _ h.2]
    exact store_fd e h.1 w.bep

/-- A write changes no list. -/
theorem run_stats (w : World) (i : Nat) (h : ∀ e ∈ log, e.ofWrite = true) :
    (run w log).bep.stats i = w.bep.stats i := by
  induction log generalizing w with
  | nil => rfl
  | cons e log ih =>
    rw [List.forall_mem_cons] at h
    rw [run_cons, ih _ h.2]
    cases e <;> first | rfl | cases h.1

/-- No event changes the settings. -/
theorem run_settings (w : World) (log : List Event) :
    (run w log).bep.settings = w.bep.settings := by
  induction log generalizing w with
  | nil => rfl
  | cons e log ih =>
    rw [run_cons, ih]
    cases e <;> rfl

theorem silent_update {i n : Nat} {entries : List StatsEntry} :
    ∀ e ∈ update i n entries, e.Silent := by
  intro e h
  obtain rfl | rfl | rfl | ⟨entry, rfl⟩ | rfl := mem_update h
  all_goals constructor <;> simp [Event.IsRead, Event.IsWrite]

end

end StatsProxy

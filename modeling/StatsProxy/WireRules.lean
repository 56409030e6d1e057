import StatsProxy.Library.Assuming
import StatsProxy.MemcacheServer
import StatsProxy.PollerRun

/-! Triples over the wire. A triple says what a function of the poller makes of
the wire in the runs that stay in step with the server, while every entry that
`getStat` publishes is parsed from the reply to the command of the same call. -/
namespace StatsProxy
open CString Interaction Program Poller

/-- The entry is parsed from bytes read in this call, and these answer the
command of the uri, sent in this call. -/
def ParsedFromReply (w : Wire) (uri : Bytes) (entry : StatsEntry) : Prop :=
  ∃ piece, piece <:+: w.taken ∧ entry ∈ spMemcacheStatsAddStats (piece.map Prod.snd) ∧
    ∀ p ∈ piece, p.1 = w.started ∧ w.commands[w.started]? = some (statsCmd uri)

/-- What is inserted under a uri of `getStat` is parsed from the reply to it. -/
def Paired (uris : List Bytes) (w : Wire) (e : Event) : Prop :=
  ∀ i entry uri, e = .insertTail i entry → uris[i]? = some uri → uri ≠ ascii "health" →
    ParsedFromReply w uri entry

/-- The events that neither the wire nor the descriptor depends on. -/
def Event.silent : Event → Bool
  | .socket _ | .close _ | .command _ | .write _ _ | .read _ _ | .setFd _ | .insertTail _ _ => false
  | _ => true

/-- The assumption on each event: the server's side, and staying in step. -/
def Env (reply : Nat → Bytes) (x : World × List Event) (e : Event) : Prop :=
  (wire reply x.2).answers e = true ∧ (wire reply x.2).inStep e = true

def AllPaired (reply : Nat → Bytes) (uris : List Bytes) (x : World × List Event) : Prop :=
  AtEach (fun before e => Paired uris (wire reply before) e) x.2

/-- What holds all along, with `P` of the wire. -/
structure At (reply : Nat → Bytes) (uris : List Bytes) (P : Wire → Prop)
    (x : World × List Event) : Prop where
  paired : AllPaired reply uris x
  configured : x.1.bep.uris.map UriEntry.uri = uris
  closed : x.1.bep.fd < 0 → (wire reply x.2).reset = wire reply x.2
  tagged : (wire reply x.2).Tagged
  holds : P (wire reply x.2)

/-- From `P` of the wire, `m` ends with `Q` of the wire. -/
def Runs (reply : Nat → Bytes) (uris : List Bytes) (P : Wire → Prop) (m : Poller α)
    (Q : α → Wire → Prop) : Prop :=
  ∀ x, At reply uris P x →
    wlp (Env reply) (AllPaired reply uris) m (fun a y => At reply uris (Q a) y) x

section

variable {reply : Nat → Bytes} {uris : List Bytes} {x : World × List Event} {α β : Type}
variable {P P' : Wire → Prop} {Q : α → Wire → Prop} {R : β → Wire → Prop}

theorem At.imp (h : At reply uris P x) (hp : ∀ w : Wire, w.Tagged → P w → P' w) :
    At reply uris P' x :=
  { h with holds := hp _ h.tagged h.holds }

theorem wire_after (x : World × List Event) (e : Event) :
    wire reply (Machine.after x e).2 = (wire reply x.2).after reply e :=
  wire_snoc reply x.2 e

/-- One event. -/
theorem At.event (h : At reply uris P x) (e : Event)
    (hpaired : Paired uris (wire reply x.2) e)
    (hclosed : (Machine.after x e).1.bep.fd < 0 →
      ((wire reply x.2).after reply e).reset = (wire reply x.2).after reply e)
    (htagged : ((wire reply x.2).after reply e).Tagged)
    (hp : P' ((wire reply x.2).after reply e)) : At reply uris P' (Machine.after x e) := by
  rw [← wire_after] at hclosed htagged hp
  exact ⟨atEach_snoc.mpr ⟨h.paired, hpaired⟩, (store_uris e x.1.bep).trans h.configured, hclosed,
    htagged, hp⟩

theorem paired_of_ne {w : Wire} {e : Event} (he : ∀ i entry, e ≠ .insertTail i entry) :
    Paired uris w e :=
  fun i entry _ heq => absurd heq (he i entry)

theorem silent_ne_insertTail {e : Event} (he : e.silent = true) (i : Nat) (entry : StatsEntry) :
    e ≠ .insertTail i entry := by
  rintro rfl
  contradiction

theorem after_silent {e : Event} (he : e.silent = true) (w : Wire) : w.after reply e = w := by
  cases e <;> first | rfl | contradiction

theorem fd_silent {e : Event} (he : e.silent = true) (x : World × List Event) :
    (Machine.after x e).1.bep.fd = x.1.bep.fd := by
  apply store_fd
  rintro fd rfl
  contradiction

theorem At.silent (h : At reply uris P x) {e : Event} (he : e.silent = true) :
    At reply uris P (Machine.after x e) := by
  apply h.event e (paired_of_ne (silent_ne_insertTail he))
  · rw [fd_silent he, after_silent he]
    exact h.closed
  · rw [after_silent he]
    exact h.tagged
  · rw [after_silent he]
    exact h.holds

theorem runs_pure {a : α} (h : ∀ w : Wire, w.Tagged → P w → Q a w) :
    Runs reply uris P (pure a) Q :=
  fun _ hx => wlp_pure (hx.imp h)

theorem runs_bind {m : Poller α} {k : α → Poller β} (hm : Runs reply uris P m Q)
    (hk : ∀ a, Runs reply uris (Q a) (k a) R) : Runs reply uris P (m >>= k) R :=
  fun x hx => wlp_bind (wlp_post (hm x hx) fun a y hy => hk a y hy)

theorem runs_mono {m : Poller α} {Q' : α → Wire → Prop} (h : Runs reply uris P m Q)
    (hp : ∀ w : Wire, w.Tagged → P' w → P w) (hq : ∀ a (w : Wire), w.Tagged → Q a w → Q' a w) :
    Runs reply uris P' m Q' :=
  fun x hx => wlp_post (h x (hx.imp hp)) fun a _ hy => hy.imp (hq a)

theorem runs_post {m : Poller α} {Q' : α → Wire → Prop} (h : Runs reply uris P m Q)
    (hq : ∀ a (w : Wire), w.Tagged → Q a w → Q' a w) : Runs reply uris P m Q' :=
  runs_mono h (fun _ _ hp => hp) hq

theorem runs_map {m : Poller α} {f : α → β} (h : Runs reply uris P m fun a => R (f a)) :
    Runs reply uris P (f <$> m) R :=
  runs_bind h fun _ => runs_pure fun _ _ hw => hw

/-- A fact that does not depend on the wire. -/
theorem runs_fact {φ : Prop} {m : Poller α} (h : φ → Runs reply uris P m Q) :
    Runs reply uris (fun w => φ ∧ P w) m Q :=
  fun x hx => h hx.holds.1 x (hx.imp fun _ _ hw => hw.2)

/-- What one step of a loop makes of the wire. -/
def LoopStep (Inv : β → Wire → Prop) (Q : α → Wire → Prop) : β ⊕ α → Wire → Prop
  | .inl next => Inv next
  | .inr a => Q a

theorem runs_loop {body : β → Poller (β ⊕ α)} (Inv : β → Wire → Prop)
    (hbody : ∀ b, Runs reply uris (Inv b) (body b) (LoopStep Inv Q)) (b : β) :
    Runs reply uris (Inv b) (Program.loop body b) Q := by
  intro x hx
  apply wlp_loop (fun b y => At reply uris (Inv b) y)
  · intro b y hy
    exact hy.paired
  · intro b y hy
    apply wlp_post (hbody b y hy)
    intro r z hz
    cases r <;> exact hz
  · exact hx

theorem runs_backend : Runs reply uris P backend
    (fun bep w => bep.uris.map UriEntry.uri = uris ∧ P w) :=
  fun _ hx => wlp_bind (wlp_get (wlp_pure (hx.imp fun _ _ hw => ⟨hx.configured, hw⟩)))

theorem runs_call {outcome : Answer → α} {event : α → Event} (he : ∀ r, (event r).silent = true) :
    Runs reply uris P (call outcome event) fun _ => P := by
  intro x hx
  apply wlp_bind
  apply wlp_ask hx.paired
  intro a
  apply wlp_bind
  apply wlp_emit
  intro _
  exact wlp_pure (hx.silent (he _))

theorem runs_emit {e : Event} (he : e.silent = true) :
    Runs reply uris P (emit e) fun _ => P :=
  fun _ hx => wlp_emit fun _ => hx.silent he

theorem runs_ctime : Runs reply uris P ctime fun _ => P :=
  fun _ hx => wlp_bind (wlp_ask hx.paired fun _ => wlp_pure hx)

theorem At.run {trace : List Event} (h : At reply uris P x)
    (hevent : ∀ e ∈ trace, ∀ y, At reply uris P y → At reply uris P (Machine.after y e)) :
    At reply uris P (run x trace) := by
  induction trace generalizing x with
  | nil => exact h
  | cons e trace ih =>
    apply ih (hevent e List.mem_cons_self x h)
    intro e' he'
    exact hevent e' (List.mem_cons_of_mem e he')

theorem runs_emits {trace : List Event}
    (hevent : ∀ e ∈ trace, ∀ y, At reply uris P y → At reply uris P (Machine.after y e)) :
    Runs reply uris P (emits trace) fun _ => P :=
  fun _ hx => wlp_emits fun _ => hx.run hevent

theorem tagged_reset {w : Wire} (h : w.Tagged) : w.reset.Tagged := by
  intro p hp
  apply h
  simp only [Wire.reset, List.append_nil] at hp
  exact List.mem_append_left _ hp

/-- The connection is closed, or it was. -/
theorem runs_disconnect (h : ∀ w : Wire, w.Tagged → P w → P' w.reset) :
    Runs reply uris P spMemcacheDisconnect fun _ => P' := by
  intro x hx
  have hreset : (wire reply x.2).reset.Tagged := tagged_reset hx.tagged
  apply wlp_bind
  apply wlp_bind
  apply wlp_get
  apply wlp_pure
  split
  · apply wlp_bind
    apply wlp_bind
    apply wlp_assert hx.paired
    intro _
    apply wlp_emit
    intro _
    have hclose : At reply uris P' (Machine.after x (.close x.1.bep.fd)) := by
      apply hx.event (.close x.1.bep.fd) (paired_of_ne fun _ _ => nofun)
      · exact fun _ => rfl
      · exact hreset
      · exact h _ hx.tagged hx.holds
    apply wlp_emit
    intro _
    apply hclose.event (.setFd (-1)) (paired_of_ne fun _ _ => nofun)
    · intro _
      rw [wire_after]
      rfl
    · exact hclose.tagged
    · exact hclose.holds
  · rename_i hfd
    have hsame : (wire reply x.2).reset = wire reply x.2 := hx.closed (by omega)
    have hp : P' (wire reply x.2).reset := h _ hx.tagged hx.holds
    rw [hsame] at hp
    exact wlp_pure { hx with holds := hp }

theorem runs_bail (err : Nat) (h : ∀ w : Wire, w.Tagged → P w → P' w.reset) :
    Runs reply uris P (bail err) fun r w => r = err ∧ P' w := by
  apply runs_bind (runs_disconnect h)
  intro _
  apply runs_bind (runs_emit rfl)
  intro _
  exact runs_pure fun _ _ hw => ⟨rfl, hw⟩

/-- A write, and what it does to the wire. -/
theorem runs_write {offered : Bytes} {Q : SysResult Nat → Wire → Prop}
    (hok : ∀ (w : Wire) (n : Nat), w.Tagged → P w → n ≤ offered.length →
      w.inStep (.write offered (.ok n)) = true →
      (w.after reply (.write offered (.ok n))).Tagged ∧
        Q (.ok n) (w.after reply (.write offered (.ok n))))
    (herror : ∀ (w : Wire) (e : Errno), w.Tagged → P w →
      Q (.error e) (w.after reply (.write offered (.error e)))) :
    Runs reply uris P (write offered) Q := by
  intro x hx
  apply wlp_bind
  apply wlp_bind
  apply wlp_get
  apply wlp_pure
  apply wlp_bind
  apply wlp_ask hx.paired
  intro a
  apply wlp_bind
  apply wlp_emit
  intro henv
  apply wlp_pure
  cases hr : writeResult x.1.bep.fd offered a.write with
  | ok n =>
    rw [hr] at henv
    obtain ⟨hopen, hn⟩ := writeResult_ok hr
    obtain ⟨htagged, hq⟩ := hok _ n hx.tagged hx.holds hn henv.2
    apply hx.event (.write offered (.ok n)) (paired_of_ne fun _ _ => nofun) _ htagged hq
    intro hfd
    exact absurd hopen (Int.not_le.mpr hfd)
  | error e =>
    have hsame : (wire reply x.2).after reply (.write offered (.error e)) = wire reply x.2 ∨
        (wire reply x.2).after reply (.write offered (.error e)) = (wire reply x.2).block := by
      unfold Wire.after
      dsimp only
      split
      · exact Or.inr rfl
      · exact Or.inl rfl
    apply hx.event (.write offered (.error e)) (paired_of_ne fun _ _ => nofun) _ _
      (herror _ e hx.tagged hx.holds)
    · intro hfd
      have hclosed := hx.closed hfd
      rcases hsame with hsame | hsame
      · rw [hsame]
        exact hclosed
      · rw [hsame]
        exact congrArg Wire.block hclosed
    · rcases hsame with hsame | hsame
      · rw [hsame]
        exact hx.tagged
      · rw [hsame]
        exact hx.tagged

/-- A read: the end of the stream, pending bytes, or an error. -/
theorem runs_read {len : Nat} {Q : SysResult Bytes → Wire → Prop}
    (heof : ∀ w : Wire, w.Tagged → P w → Q (.ok []) w.close)
    (hdata : ∀ (w : Wire) (data : Bytes), w.Tagged → P w → data ≠ [] → data.length ≤ len →
      w.gone = false → data <+: w.pending.map Prod.snd →
      (w.stops len data = true → data.length = w.pending.length) →
      Q (.ok data) (w.deliver len data))
    (herror : ∀ (w : Wire) (e : Errno), w.Tagged → P w → Q (.error e) w) :
    Runs reply uris P (read len) Q := by
  intro x hx
  apply wlp_bind
  apply wlp_bind
  apply wlp_get
  apply wlp_pure
  apply wlp_bind
  apply wlp_ask hx.paired
  intro a
  apply wlp_bind
  apply wlp_emit
  intro henv
  apply wlp_pure
  cases hr : readResult x.1.bep.fd len a.read with
  | ok data =>
    rw [hr] at henv
    obtain ⟨hopen, hlen⟩ := readResult_ok hr
    have hclosed : ∀ w : Wire, x.1.bep.fd < 0 → w.reset = w := by
      intro w hfd
      exact absurd hopen (Int.not_le.mpr hfd)
    by_cases hempty : data = []
    · subst hempty
      apply hx.event (.read len (.ok [])) (paired_of_ne fun _ _ => nofun) (hclosed _)
      · intro p hp
        apply hx.tagged
        simp only [Wire.after, if_true, Wire.close, List.append_nil] at hp
        exact List.mem_append_left _ hp
      · exact heof _ hx.tagged hx.holds
    · obtain ⟨hanswers, hstep⟩ := henv
      simp only [Wire.answers, hempty, decide_false, Bool.false_or, Bool.and_eq_true,
        Bool.not_eq_true', List.isPrefixOf_iff_prefix] at hanswers
      simp only [Wire.inStep, hempty, decide_false, Bool.false_or, Bool.and_eq_true,
        Bool.or_eq_true, Bool.not_eq_true', decide_eq_true_eq] at hstep
      have hafter : (wire reply x.2).after reply (.read len (.ok data)) =
          (wire reply x.2).deliver len data := if_neg hempty
      apply hx.event (.read len (.ok data)) (paired_of_ne fun _ _ => nofun) (hclosed _)
      · rw [hafter]
        intro p hp
        apply hx.tagged
        simp only [Wire.deliver, List.append_assoc, List.take_append_drop] at hp
        exact hp
      · rw [hafter]
        apply hdata _ data hx.tagged hx.holds hempty hlen hanswers.1 hanswers.2
        intro hstops
        exact hstep.2.resolve_left (by simp [hstops])
  | error e =>
    apply hx.event (.read len (.error e)) (paired_of_ne fun _ _ => nofun) hx.closed hx.tagged
    exact herror _ e hx.tagged hx.holds

end
end StatsProxy

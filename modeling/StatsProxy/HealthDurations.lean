import StatsProxy.SleepTime

/-! The durations a health check publishes. They are differences of clock readings, and
a clock may be set back between two of them. -/
namespace StatsProxy
open CString Interaction Program Poller

/-- What the published durations are about: the polls of each uri, the last readings of
the two clocks, the reading before the last command, and whether its reply was read. -/
structure Watch where
  lastpoll : Nat → Option Int
  now : Int
  clock : Int
  start : Int
  asked : Bool

instance : Machine Watch Event where
  after g e := match e with
    | .setLastpoll i t => { g with lastpoll := fun j => if j = i then some t else g.lastpoll j }
    | .time now => { g with now }
    | .gettimeofday clock => { g with clock }
    | .command _ => { g with start := g.clock, asked := false }
    | .read .. => { g with asked := true }
    | _ => g

def watch (log : List Event) : Watch := run ⟨fun _ => none, 0, 0, 0, false⟩ log

structure PublishedNumber where
  i : Nat
  name : Bytes
  value : Nat

def Event.number : Event → Option PublishedNumber
  | .insertTail i ⟨name, .uint64 value⟩ => some ⟨i, name, value⟩
  | _ => none

/-- The time since the last poll of a uri, if there was one. -/
def Watch.age (g : Watch) (i : Nat) : Int :=
  match g.lastpoll i with
  | none => 0
  | some t => max 0 (g.now - t)

/-- The time the reply to the last command took, if it was read. -/
def Watch.respTime (g : Watch) : Int :=
  if g.asked then max 0 (g.clock - g.start) else 0

/-- A published duration is the time that has elapsed. -/
def Watch.Exact (g : Watch) (e : Event) : Prop :=
  ∀ d ∈ e.number, (d.name = ascii "statsAge" → (d.value : Int) = g.age d.i) ∧
    (d.name = ascii "respTimeMs" → (d.value : Int) = g.respTime)

/-- A uri's age is published when the clock is not before the last poll, or not past it
if its time is not positive: such a poll counts as none. -/
def Watch.Steady (g : Watch) (e : Event) : Prop :=
  ∀ d ∈ e.number, d.name = ascii "statsAge" →
    ∀ t ∈ g.lastpoll d.i, (0 < t → t ≤ g.now) ∧ (t ≤ 0 → g.now ≤ t)

instance (g : Watch) (e : Event) : Decidable (g.Exact e) :=
  inferInstanceAs (Decidable (∀ d ∈ e.number, _))

instance (g : Watch) (e : Event) : Decidable (g.Steady e) :=
  inferInstanceAs (Decidable (∀ d ∈ e.number, _ → ∀ t ∈ g.lastpoll d.i, _))

/-- What `getHealth` computes. -/
def Watch.pollDelta (g : Watch) (i : Nat) : Nat :=
  if 0 < (g.lastpoll i).getD 0 then toUInt64 (g.now - (g.lastpoll i).getD 0) else 0

def Watch.livenessDelta (g : Watch) : Int :=
  if g.asked then max 0 (toInt64 (g.clock - g.start)) else 0

structure Watch.Computed (g : Watch) (e : Event) : Prop where
  number : ∀ d ∈ e.number, (d.name = ascii "statsAge" → d.value = g.pollDelta d.i) ∧
    (d.name = ascii "respTimeMs" → d.value = toUInt64 g.livenessDelta)
  lastpoll : ∀ i t, e = .setLastpoll i t → t = g.now

def Event.timeReading : Event → Option Int
  | .time now => some now
  | _ => none

def Event.clockReading : Event → Option Int
  | .gettimeofday ms => some ms
  | _ => none

/-- A value of `time_t`. -/
def TimeT (t : Int) : Prop := -2 ^ 63 ≤ t ∧ t < 2 ^ 63

instance (t : Int) : Decidable (TimeT t) := inferInstanceAs (Decidable (_ ∧ _))

/-- The readings of the two clocks. -/
structure Event.InRange (e : Event) : Prop where
  time : ∀ now ∈ e.timeReading, TimeT now
  clock : ∀ ms ∈ e.clockReading, Timestamp ms

def ClocksInRange (log : List Event) : Prop := ∀ e ∈ log, e.InRange

instance (e : Event) : Decidable e.InRange :=
  decidable_of_iff ((∀ now ∈ e.timeReading, TimeT now) ∧ ∀ ms ∈ e.clockReading, Timestamp ms)
    ⟨fun h => ⟨h.1, h.2⟩, fun h => ⟨h.time, h.clock⟩⟩

instance (log : List Event) : Decidable (ClocksInRange log) :=
  inferInstanceAs (Decidable (∀ e ∈ log, e.InRange))

@[simp] theorem watch_snoc (log : List Event) (e : Event) :
    watch (log ++ [e]) = Machine.after (watch log) e := run_append _ _ _

@[simp] theorem watch_after (x : World × List Event) (e : Event) :
    watch (Machine.after x e).2 = Machine.after (watch x.2) e := watch_snoc x.2 e

/-- All values of a `Watch` are readings. -/
structure Watch.InRange (g : Watch) : Prop where
  lastpoll : ∀ i, ∀ t ∈ g.lastpoll i, TimeT t
  now : TimeT g.now
  clock : Timestamp g.clock
  start : Timestamp g.start

theorem toUInt64_eq_iff {x : Int} (hlow : -2 ^ 64 < x) (hhigh : x < 2 ^ 64) :
    (toUInt64 x : Int) = max 0 x ↔ 0 ≤ x := by
  unfold toUInt64
  omega

/-- The age is right exactly if the clock has not been set back since the last poll. -/
theorem Watch.InRange.pollDelta_iff {g : Watch} (h : g.InRange) (i : Nat) :
    (g.pollDelta i : Int) = g.age i ↔
      ∀ t ∈ g.lastpoll i, (0 < t → t ≤ g.now) ∧ (t ≤ 0 → g.now ≤ t) := by
  have hnow := h.now
  have hrange := h.lastpoll i
  unfold Watch.pollDelta Watch.age TimeT at *
  cases hlast : g.lastpoll i with
  | none => simp
  | some t =>
    rw [hlast] at hrange
    have ht := hrange t rfl
    simp only [Option.getD_some, Option.mem_def, Option.some.injEq, forall_eq']
    split
    · rw [toUInt64_eq_iff (by omega) (by omega)]
      omega
    · omega

/-- The time of a reply is always right. -/
theorem Watch.InRange.livenessDelta_eq {g : Watch} (h : g.InRange) :
    (toUInt64 g.livenessDelta : Int) = g.respTime := by
  have hdelta := toInt64_sub h.start h.clock
  have hstart := h.start
  have hclock := h.clock
  unfold Watch.livenessDelta Watch.respTime Timestamp at *
  rw [hdelta]
  unfold toUInt64
  split <;> omega

/-- The log and the backend agree on the last poll of each of `n` uris, and every
published duration is what `getHealth` computes. -/
structure Watched (n : Nat) (x : World × List Event) : Prop where
  length : x.1.bep.uris.length = n
  lastpoll : ∀ i < n, x.1.bep.lastpoll i = ((watch x.2).lastpoll i).getD 0
  log : AtEach (fun before e => (watch before).Computed e) x.2

/-- Before the end of a poll. -/
def Event.notPoll : Event → Bool
  | .setLastpoll .. => false
  | _ => true

/-- Events that neither end a poll nor publish a number. -/
structure Event.Plain (e : Event) : Prop where
  number : e.number = none
  notPoll : e.notPoll = true

section

variable {n : Nat} {x : World × List Event} {e : Event}

theorem plain_of_ofConnect (h : e.ofConnect = true) : e.Plain := by
  cases e <;> first | exact ⟨rfl, rfl⟩ | contradiction

theorem plain_of_ofWrite (h : e.ofWrite = true) : e.Plain := by
  cases e <;> first | exact ⟨rfl, rfl⟩ | contradiction

theorem plain_of_ofRead (h : e.ofRead = true) : e.Plain := by
  cases e <;> first | exact ⟨rfl, rfl⟩ | contradiction

theorem lastpoll_store (hpoll : e.notPoll = true) (bep : Backend) :
    (e.store bep).uris.map UriEntry.lastpoll = bep.uris.map UriEntry.lastpoll := by
  cases e with
  | setLastpoll i t => contradiction
  | removeHead i => exact map_modify _ _ _ i fun _ => rfl
  | initStats i => exact map_modify _ _ _ i fun _ => rfl
  | insertTail i entry => exact map_modify _ _ _ i fun _ => rfl
  | _ => rfl

theorem watch_lastpoll (hpoll : e.notPoll = true) (g : Watch) :
    (Machine.after g e).lastpoll = g.lastpoll := by
  cases e <;> first | rfl | contradiction

theorem Watched.after (h : Watched n x) (hcomputed : (watch x.2).Computed e)
    (hpoll : e.notPoll = true) : Watched n (Machine.after x e) where
  length := (run_length x.1 [e]).trans h.length
  lastpoll := by
    intro i hi
    have hbep : (Machine.after x.1 e).bep.lastpoll i = x.1.bep.lastpoll i := by
      have hstore := congrArg (fun polls => (polls[i]?).getD 0) (lastpoll_store hpoll x.1.bep)
      simp only [List.getElem?_map] at hstore
      exact hstore
    rw [watch_after, watch_lastpoll hpoll, ← h.lastpoll i hi]
    exact hbep
  log := atEach_snoc.mpr ⟨h.log, hcomputed⟩

theorem Watched.plain (h : Watched n x) (hplain : e.Plain) : Watched n (Machine.after x e) := by
  apply h.after _ hplain.notPoll
  constructor
  · rw [hplain.number]
    exact nofun
  · rintro i t rfl
    have := hplain.notPoll
    contradiction

/-- The end of a poll. -/
theorem Watched.polled (h : Watched n x) {i : Nat} (hi : i < n) :
    Watched n (Machine.after x (.setLastpoll i (watch x.2).now)) where
  length := (run_length x.1 [.setLastpoll i _]).trans h.length
  lastpoll := by
    intro j hj
    rw [watch_after]
    have hlen := h.length
    by_cases hij : j = i
    · subst hij
      simp [Machine.after, Event.store, Backend.lastpoll,
        List.getElem?_eq_getElem (hlen.symm ▸ hi)]
    · have hold := h.lastpoll j hj
      simp only [Backend.lastpoll] at hold
      simp [Machine.after, Event.store, Backend.lastpoll, hij, Ne.symm hij, hold]
  log := by
    apply atEach_snoc.mpr ⟨h.log, _⟩
    constructor
    · intro d hd
      cases hd
    · intro j t he
      cases he
      rfl

/-- What a part of the poller does to a watched run. -/
abbrev Watches (n : Nat) (m : Poller α) (Q : α → World × List Event → Prop)
    (x : World × List Event) : Prop :=
  wlp (fun _ _ => True) (Watched n) m Q x

theorem watches_plain {p : Event → Prop} {m : Poller α} (hm : Within p m)
    (hp : ∀ e, p e → e.Plain) (h : Watched n x) : Watches n m (fun _ y => Watched n y) x :=
  wlp_within hm (fun _ e hy he => hy.plain (hp e he)) (fun _ hy => hy) h

/-- What `getHealth` knows about its own clock readings when it publishes. -/
structure Asking (n i pollDelta : Nat) (start : Int) (x : World × List Event) : Prop
    extends Watched n x where
  pollDelta : (watch x.2).pollDelta i = pollDelta
  start : (watch x.2).start = start

theorem publish_watched {i : Nat} {entries : List StatsEntry} (h : Watched n x)
    (hentries : ∀ entry ∈ entries, (watch x.2).Computed (.insertTail i entry)) :
    Watches n (publish i entries) (fun _ y => Watched n y) x := by
  have hsame : ∀ (e : Event) (g : Watch), e.ofPublish i entries → Machine.after g e = g := by
    intro e g he
    cases e <;> first | rfl | contradiction
  apply wlp_post
  · apply wlp_within (within_publish i entries) (J := fun y => Watched n y ∧ watch y.2 = watch x.2)
    · rintro y e ⟨hy, hwatch⟩ he
      constructor
      · apply hy.after
        · cases e with
          | insertTail j entry =>
            obtain ⟨rfl, hentry⟩ := he
            rw [hwatch]
            exact hentries entry hentry
          | _ => first | contradiction | exact ⟨nofun, fun _ _ hpoll => by cases hpoll⟩
        · cases e <;> first | rfl | contradiction
      · rw [watch_after, hsame e _ he]
        exact hwatch
    · exact fun y hy => hy.1
    · exact ⟨h, rfl⟩
  · exact fun _ y hy => hy.1

/-- The number of a text is none. -/
theorem computed_alpha (g : Watch) (i : Nat) (name valueStr : Bytes) :
    g.Computed (.insertTail i ⟨name, .alpha valueStr⟩) where
  number := nofun
  lastpoll := fun _ _ h => by cases h

theorem computed_uint64 {g : Watch} {i : Nat} {name : Bytes} {value : Nat}
    (hage : name = ascii "statsAge" → value = g.pollDelta i)
    (hresp : name = ascii "respTimeMs" → value = toUInt64 g.livenessDelta) :
    g.Computed (.insertTail i ⟨name, .uint64 value⟩) where
  number := by
    intro d hd
    cases hd
    exact ⟨hage, hresp⟩
  lastpoll := fun _ _ h => by cases h

theorem alpha_addStats {statsInput : Bytes} {entry : StatsEntry}
    (h : entry ∈ spMemcacheStatsAddStats statsInput) :
    ∃ valueStr, entry = ⟨entry.name, .alpha valueStr⟩ := by
  obtain ⟨res, -, hres⟩ := List.mem_filterMap.mp h
  obtain ⟨p, -, rfl⟩ := Option.map_eq_some_iff.mp hres
  exact ⟨p.2, rfl⟩

/-- A reply of memcache is published as texts. -/
theorem readReplies_watched (h : Watched n x) : Watches n spMemcacheReadReplies
    (fun r y => Watched n y ∧ ∀ entry ∈ r.2, ∃ valueStr, entry = ⟨entry.name, .alpha valueStr⟩)
    x := by
  apply wlp_bind
  apply wlp_backend
  apply wlp_bind
  apply wlp_post (watches_plain (within_sessionInfo (fun _ => rfl) _) (fun _ => plain_of_ofRead) h)
  intro sk y hy
  apply wlp_bind
  apply wlp_post
  · apply wlp_loop (fun s z => Watched n z ∧
      ∀ entry ∈ s.stats, ∃ valueStr, entry = ⟨entry.name, .alpha valueStr⟩) (fun _ _ hz => hz.1)
      (Q := fun r z => Watched n z ∧
        ∀ entry ∈ r.2, ∃ valueStr, entry = ⟨entry.name, .alpha valueStr⟩)
    · rintro s z ⟨hz, hstats⟩
      unfold repliesStep
      split
      · exact wlp_pure ⟨hz, hstats⟩
      · apply wlp_bind
        apply wlp_post (watches_plain (within_spMemcacheRead _ _ _) (fun _ => plain_of_ofRead) hz)
        intro r z' hz'
        split
        · exact wlp_pure ⟨hz', hstats⟩
        · split
          · exact wlp_pure ⟨hz', hstats⟩
          · apply wlp_pure
            refine ⟨hz', fun entry hentry => ?_⟩
            rcases List.mem_append.mp hentry with hold | hadded
            · exact hstats entry hold
            · exact alpha_addStats hadded
    · exact ⟨hy, nofun⟩
  · rintro r z ⟨hz, hstats⟩
    apply wlp_bind
    apply wlp_emit
    intro _
    exact wlp_pure ⟨hz.plain (plain_of_ofRead rfl), hstats⟩

theorem getStat_watched (i : Nat) (uri : Bytes) (h : Watched n x) :
    Watches n (getStat i uri) (fun _ y => Watched n y) x := by
  rw [getStat_eq]
  apply wlp_bind
  apply wlp_post (watches_plain (within_spMemcacheWrite _) (fun _ => plain_of_ofWrite) h)
  intro err y hy
  unfold statReply
  split
  · apply wlp_bind
    apply wlp_post (readReplies_watched hy)
    rintro r z ⟨hz, hstats⟩
    apply publish_watched hz
    intro entry hentry
    obtain ⟨valueStr, hentry⟩ := hstats entry hentry
    rw [hentry]
    exact computed_alpha _ i _ valueStr
  · exact wlp_pure hy

/-- Asking leaves the readings the durations are computed from. -/
theorem Asking.plain {i pollDelta : Nat} {start : Int} (h : Asking n i pollDelta start x)
    (hplain : e.Plain) (htime : ∀ t, e ≠ .time t) (hcommand : e.notCommand = true) :
    Asking n i pollDelta start (Machine.after x e) where
  toWatched := h.toWatched.plain hplain
  pollDelta := by
    have hnow : (Machine.after (watch x.2) e).now = (watch x.2).now := by
      cases e <;> first | rfl | exact absurd rfl (htime _)
    rw [watch_after, Watch.pollDelta, hnow, watch_lastpoll hplain.notPoll]
    exact h.pollDelta
  start := by
    have hstart : (Machine.after (watch x.2) e).start = (watch x.2).start := by
      cases e <;> first | rfl | contradiction
    rw [watch_after, hstart]
    exact h.start

/-- The four entries are what `getHealth` computes. -/
theorem healthEntries_computed {g : Watch} {i pollDelta : Nat} (hdelta : g.pollDelta i = pollDelta)
    (polltimeBuf : Bytes) (livenessVal : Nat) {entry : StatsEntry}
    (h : entry ∈ healthEntries pollDelta polltimeBuf livenessVal g.livenessDelta) :
    g.Computed (.insertTail i entry) := by
  simp only [healthEntries, List.mem_cons, List.not_mem_nil, or_false] at h
  obtain rfl | rfl | rfl | rfl := h
  · exact computed_uint64 (fun _ => hdelta.symm) fun hname : ascii "statsAge" = _ =>
      absurd hname (by decide)
  · exact computed_alpha g i _ polltimeBuf
  · exact computed_uint64 (fun hname : ascii "liveness" = _ => absurd hname (by decide))
      fun hname : ascii "liveness" = _ => absurd hname (by decide)
  · exact computed_uint64 (fun hname : ascii "respTimeMs" = _ => absurd hname (by decide))
      fun _ => rfl

theorem asked_of_ofRead {log : List Event} (h : ∀ e ∈ log, e.ofRead = true) (g : Watch) :
    (run g log).asked = true ↔ g.asked = true ∨ ∃ e ∈ log, e.IsRead := by
  induction log generalizing g with
  | nil => simp
  | cons e log ih =>
    rw [List.forall_mem_cons] at h
    rw [run_cons, ih h.2, List.exists_mem_cons_iff, ← or_assoc]
    apply or_congr_left
    have he := h.1
    cases e with
    | read len r => exact iff_of_true rfl (Or.inr ⟨len, r, rfl⟩)
    | _ =>
      first
        | contradiction
        | exact (or_iff_left (by rintro ⟨len, r, hread⟩; cases hread)).symm

theorem asking_publish {i pollDelta : Nat} {start : Int} (h : Asking n i pollDelta start x)
    (polltimeBuf : Bytes) (livenessVal : Nat) {livenessDelta : Int}
    (hdelta : livenessDelta = (watch x.2).livenessDelta) :
    Watches n (publish i (healthEntries pollDelta polltimeBuf livenessVal livenessDelta))
      (fun _ y => Watched n y) x := by
  subst hdelta
  exact publish_watched h.toWatched fun entry =>
    healthEntries_computed h.pollDelta polltimeBuf livenessVal

/-- The tail of `getHealth`, when the reply has not been read. -/
theorem healthReply_watched {i pollDelta : Nat} {start : Int} (h : Asking n i pollDelta start x)
    (hasked : (watch x.2).asked = false) (polltimeBuf : Bytes) (sk : SocketState) (err : Nat) :
    Watches n (healthReply i pollDelta polltimeBuf sk start err) (fun _ y => Watched n y) x := by
  unfold healthReply
  split
  · apply asking_publish h
    rw [Watch.livenessDelta, hasked]
    rfl
  · apply wlp_bind
    apply wlp_post
    · apply wlp_done (R := fun _ y => (watch y.2).asked = true)
      · apply wlp_within (within_spMemcacheRead _ _ _) (J := Asking n i pollDelta start)
        · intro y e hy he
          apply hy.plain (plain_of_ofRead he)
          · rintro t rfl
            contradiction
          · exact notCommand_of_ofRead he
        · exact fun y hy => hy.toWatched
        · exact h
      · intro inputs a trace rest hread
        rw [run_prod, run_log]
        have hlog : watch (x.2 ++ trace) = run (watch x.2) trace := run_append _ _ _
        show (watch (x.2 ++ trace)).asked = true
        rw [hlog]
        apply (asked_of_ofRead (within_done (within_spMemcacheRead _ _ _) hread) _).mpr
        exact Or.inr (emits_spMemcacheRead (by decide) sk _ _ _ _ _ hread)
    · rintro r y ⟨hy, hread⟩
      apply wlp_bind
      apply wlp_call hy.toWatched
      intro stop
      have hstop := hy.plain (e := .gettimeofday stop) ⟨rfl, rfl⟩ nofun rfl
      have hwatch : watch (y.2 ++ [.gettimeofday stop]) =
          { watch y.2 with clock := stop } := watch_snoc y.2 _
      have hdelta : max 0 (toInt64 (stop - start)) =
          (watch (y.2 ++ [.gettimeofday stop])).livenessDelta := by
        rw [hwatch, Watch.livenessDelta, if_pos hread, hy.start]
      split
      · exact asking_publish hstop polltimeBuf 0 hdelta
      · split
        · exact asking_publish hstop polltimeBuf 0 hdelta
        · exact asking_publish hstop polltimeBuf 1 hdelta

/-- The events of `getHealth` up to its command. -/
def asks (clock now start : Int) : List Event :=
  [.gettimeofday clock, .time now, .gettimeofday start, .command livenessCmd]

theorem asking_asks {i : Nat} (hi : i < n) (h : Watched n x) (clock now start : Int) :
    Asking n i (if 0 < x.1.bep.lastpoll i then toUInt64 (now - x.1.bep.lastpoll i) else 0) start
      (run x (asks clock now start)) ∧ (watch (run x (asks clock now start)).2).asked = false := by
  have hwatch : watch (run x (asks clock now start)).2 =
      ⟨(watch x.2).lastpoll, now, start, start, false⟩ := by
    rw [run_prod, run_log]
    exact run_append _ _ _
  refine ⟨⟨?_, ?_, congrArg Watch.start hwatch⟩, congrArg Watch.asked hwatch⟩
  · have hclock := h.plain (e := .gettimeofday clock) ⟨rfl, rfl⟩
    have hnow := hclock.plain (e := .time now) ⟨rfl, rfl⟩
    have hstart := hnow.plain (e := .gettimeofday start) ⟨rfl, rfl⟩
    exact hstart.plain (e := .command livenessCmd) ⟨rfl, rfl⟩
  · rw [h.lastpoll i hi]
    exact congrArg (Watch.pollDelta · i) hwatch

/-- The write of the command changes nothing of this. -/
theorem asking_write {i pollDelta : Nat} {start : Int} (h : Asking n i pollDelta start x)
    (hasked : (watch x.2).asked = false) : Watches n (writeCommand livenessCmd)
      (fun _ y => Asking n i pollDelta start y ∧ (watch y.2).asked = false) x := by
  apply wlp_within (within_writeCommand livenessCmd)
  · rintro y e ⟨hy, hasked⟩ ⟨hwrite, hcommand⟩
    constructor
    · apply hy.plain (plain_of_ofWrite hwrite) _ hcommand
      rintro t rfl
      contradiction
    · have hsame : (Machine.after (watch y.2) e).asked = (watch y.2).asked := by
        cases e <;> first | rfl | contradiction
      rw [watch_after, hsame]
      exact hasked
  · exact fun y hy => hy.1.toWatched
  · exact ⟨h, hasked⟩

theorem getHealth_watched {i : Nat} (hi : i < n) (h : Watched n x) :
    Watches n (getHealth i) (fun _ y => Watched n y) x := by
  rw [getHealth_eq]
  apply wlp_bind
  apply wlp_backend
  apply wlp_bind
  apply wlp_bind
  apply wlp_call h
  intro clock
  apply wlp_pure
  have hclock := h.plain (e := .gettimeofday clock) ⟨rfl, rfl⟩
  apply wlp_bind
  apply wlp_call hclock
  intro now
  have hnow := hclock.plain (e := .time now) ⟨rfl, rfl⟩
  apply wlp_bind
  apply wlp_bind
  apply wlp_ask hnow
  intro a
  apply wlp_pure
  apply wlp_bind
  apply wlp_call hnow
  intro start
  rw [write_bind]
  apply wlp_bind
  apply wlp_emit
  intro _
  obtain ⟨hasking, hasked⟩ := asking_asks hi h clock now start
  apply wlp_bind
  apply wlp_post (asking_write hasking hasked)
  rintro err y ⟨hy, hasked'⟩
  exact healthReply_watched hy hasked' _ _ err

theorem pollUris_watched {us : List (Bytes × Nat)} (hus : ∀ u ∈ us, u.2 < n) (h : Watched n x) :
    Watches n (pollUris us) (fun _ y => Watched n y) x := by
  induction us generalizing x with
  | nil => exact wlp_pure h
  | cons u rest ih =>
    rw [List.forall_mem_cons] at hus
    rw [pollUris]
    apply wlp_bind
    apply wlp_post (watches_plain within_checkAndConnect (fun _ => plain_of_ofConnect) h)
    intro err y hy
    split
    · exact wlp_pure hy
    · apply wlp_bind
      apply wlp_post (watches_plain (within_setState _) (fun _ => plain_of_ofConnect) hy)
      intro _ z hz
      apply wlp_bind
      have hpoll : Watches n (pollUri u.2 u.1) (fun _ v => Watched n v) z := by
        unfold pollUri
        split
        · exact getHealth_watched hus.1 hz
        · exact getStat_watched u.2 u.1 hz
      apply wlp_post hpoll
      intro _ v hv
      apply wlp_bind
      apply wlp_call hv
      intro now
      apply wlp_bind
      apply wlp_emit
      intro _
      have htime := hv.plain (e := .time now) ⟨rfl, rfl⟩
      have hpolled := htime.polled hus.1
      have hnow : (watch (Machine.after v (.time now)).2).now = now := by
        rw [watch_after]
        rfl
      rw [hnow] at hpolled
      exact ih hus.2 hpolled

theorem pollCycle_watched (h : Watched n x) :
    Watches n (pollCycle ()) (fun _ y => Watched n y) x := by
  apply wlp_bind
  apply wlp_call h
  intro start
  have hstart := h.plain (e := .gettimeofday start) ⟨rfl, rfl⟩
  apply wlp_bind
  apply wlp_backend
  apply wlp_bind
  apply wlp_post
  · apply pollUris_watched _ hstart
    intro u hu
    obtain ⟨-, hlt, -⟩ := List.mem_zipIdx hu
    simpa [hstart.length] using hlt
  · intro completed y hy
    split
    · apply wlp_bind
      apply wlp_post (watches_plain (within_disconnect ofConnect_of_atLabel)
        (fun _ => plain_of_ofConnect) hy)
      intro _ z hz
      apply wlp_bind
      apply wlp_call hz
      intro stop
      apply wlp_bind
      apply wlp_emit
      intro _
      have hstop := hz.plain (e := .gettimeofday stop) ⟨rfl, rfl⟩
      exact wlp_pure (hstop.plain (e := .usleep _) ⟨rfl, rfl⟩)
    · exact wlp_pure hy

end

/-- In every run all published durations are computed from the readings of the log. -/
theorem runBackend_computed (settings : LocalSettings) (uris : List Bytes)
    (inputs : List Answer) :
    AtEach (fun before e => (watch before).Computed e)
      (runBackend.exec (World.initial settings uris) inputs).trace := by
  have hstart : Watched uris.length (World.initial settings uris, []) := by
    refine ⟨?_, ?_, atEach_nil⟩
    · simp [World.initial]
    · intro i hi
      simp [World.initial, Backend.lastpoll, watch, hi]
  have hrun : Watches uris.length runBackend (fun _ y => Watched uris.length y)
      (World.initial settings uris, []) := by
    apply wlp_bind
    apply wlp_post (watches_plain (within_setState _) (fun _ => plain_of_ofConnect) hstart)
    intro _ y hy
    apply wlp_loop (fun _ z => Watched uris.length z) (fun _ _ hz => hz) _ _ hy
    intro _ z hz
    apply wlp_post (pollCycle_watched hz)
    intro r z' hz'
    cases r with
    | inl next => exact hz'
    | inr a => exact a.elim
  have hend : Watched uris.length (run (World.initial settings uris, [])
      (runBackend.exec (World.initial settings uris) inputs).trace) :=
    run_of_wlp hrun (fun _ _ hy => hy) (allowed_true _ _)
  have hlog := hend.log
  rwa [run_prod, run_log, List.nil_append] at hlog

theorem inRange_after {g : Watch} (h : g.InRange) {e : Event}
    (hrange : e.InRange) (hcomputed : g.Computed e) :
    (Machine.after g e).InRange := by
  cases e with
  | time now => exact ⟨h.lastpoll, hrange.time now rfl, h.clock, h.start⟩
  | gettimeofday ms => exact ⟨h.lastpoll, h.now, hrange.clock ms rfl, h.start⟩
  | command cmd => exact ⟨h.lastpoll, h.now, h.clock, h.clock⟩
  | setLastpoll i t =>
    refine ⟨?_, h.now, h.clock, h.start⟩
    intro j t' ht'
    rw [hcomputed.lastpoll i t rfl] at ht'
    change t' ∈ (if j = i then some g.now else g.lastpoll j) at ht'
    split at ht'
    · cases ht'
      exact h.now
    · exact h.lastpoll j t' ht'
  | _ => exact ⟨h.lastpoll, h.now, h.clock, h.start⟩

theorem watch_inRange {log : List Event} (hclock : ClocksInRange log)
    (hcomputed : AtEach (fun before e => (watch before).Computed e) log) :
    (watch log).InRange := by
  induction log using List.reverseRecOn with
  | nil => exact ⟨nofun, by decide, by decide, by decide⟩
  | append_singleton log e ih =>
    rw [atEach_snoc] at hcomputed
    rw [ClocksInRange, List.forall_mem_append, List.forall_mem_singleton] at hclock
    rw [watch_snoc]
    exact inRange_after (ih hclock.1 hcomputed.1) hclock.2 hcomputed.2

theorem Watch.Computed.exact_iff {g : Watch} {e : Event} (h : g.Computed e) (hg : g.InRange) :
    g.Exact e ↔ g.Steady e := by
  constructor
  · intro hexact d hd hname
    rw [← hg.pollDelta_iff, ← (h.number d hd).1 hname]
    exact (hexact d hd).1 hname
  · intro hsteady d hd
    constructor
    · intro hname
      rw [(h.number d hd).1 hname, hg.pollDelta_iff]
      exact hsteady d hd hname
    · intro hname
      rw [(h.number d hd).2 hname, hg.livenessDelta_eq]

/-- The durations a run publishes are those that have elapsed exactly if no health check
finds the clock before the last poll of its uri, or past one that counts as none. -/
theorem healthDurations_exact_iff (settings : LocalSettings) (uris : List Bytes)
    (inputs : List Answer)
    (hclock : ClocksInRange (runBackend.exec (World.initial settings uris) inputs).trace) :
    AtEach (fun before e => (watch before).Exact e)
        (runBackend.exec (World.initial settings uris) inputs).trace ↔
      AtEach (fun before e => (watch before).Steady e)
        (runBackend.exec (World.initial settings uris) inputs).trace := by
  have hcomputed := runBackend_computed settings uris inputs
  have heach : ∀ before e after,
      (runBackend.exec (World.initial settings uris) inputs).trace = before ++ e :: after →
      ((watch before).Exact e ↔ (watch before).Steady e) := by
    intro before e after hsplit
    apply (hcomputed before e after hsplit).exact_iff
    apply watch_inRange
    · intro e' he'
      apply hclock
      rw [hsplit]
      exact List.mem_append_left _ he'
    · exact hcomputed.front ⟨e :: after, hsplit.symm⟩
  constructor
  · intro h before e after hsplit
    exact (heach before e after hsplit).mp (h before e after hsplit)
  · intro h before e after hsplit
    exact (heach before e after hsplit).mpr (h before e after hsplit)

/-- A cycle of a poller of `health` that reads `now` before its command and `polled`
after it. -/
def healthCycle (now polled : Int) : List Answer :=
  [{}, {}, {}, {}, {}, {}, { time := now }, { ctime := ascii "now" }, {}, {},
    { write := .ok livenessCmd.length }, {}, { read := .ok livenessOk }, {},
    { gettimeofday := 7 }, { time := polled }, {}]

def healthRun (inputs : List Answer) : List Event :=
  (runBackend.exec (World.initial sampleSettings [ascii "health"]) inputs).trace

theorem healthDurations_exact_steady :
    AtEach (fun before e => (watch before).Exact e)
      (healthRun (healthCycle 100 101 ++ healthCycle 111 112)) := by
  apply (healthDurations_exact_iff sampleSettings [ascii "health"]
    (healthCycle 100 101 ++ healthCycle 111 112) (by decide +kernel)).mpr
  decide +kernel

/-- The clock is set back by a minute, and the age wraps. -/
theorem healthDurations_wrap :
    ClocksInRange (healthRun (healthCycle 100 101 ++ healthCycle 41 42)) ∧
      .insertTail 0 ⟨ascii "statsAge", .uint64 (2 ^ 64 - 60)⟩ ∈
        healthRun (healthCycle 100 101 ++ healthCycle 41 42) ∧
      ¬AtEach (fun before e => (watch before).Exact e)
        (healthRun (healthCycle 100 101 ++ healthCycle 41 42)) := by
  decide +kernel

end StatsProxy

import StatsProxy.StatsCommand
import StatsProxy.HealthCheck

/-! How long a poller sleeps between two cycles. The milliseconds it has computed are
passed on as a 32-bit number of microseconds. -/
namespace StatsProxy
open CString Interaction Program Poller

/-- A value of `timestamp`, which counts milliseconds in a signed integer of 64 bits. -/
def Timestamp (ms : Int) : Prop := 0 ≤ ms ∧ ms < 2 ^ 63

instance (ms : Int) : Decidable (Timestamp ms) := inferInstanceAs (Decidable (_ ∧ _))

/-- What is left of the interval after a cycle, and half a second if the cycle took longer. -/
def sleepMs (pollfreqMs start stop : Int) : Int :=
  if 0 ≤ pollfreqMs - max 0 (stop - start) then pollfreqMs - max 0 (stop - start) else 500

def Event.awake : Event → Bool
  | .usleep _ => false
  | _ => true

theorem toInt64_sub {start stop : Int} (hstart : Timestamp start) (hstop : Timestamp stop) :
    toInt64 (stop - start) = stop - start := by
  unfold Timestamp at hstart hstop
  unfold toInt64
  rw [Int.bmod_def]
  omega

theorem toUInt32_eq_iff {x : Int} (hx : 0 ≤ x) : (toUInt32 x : Int) = x ↔ x < 2 ^ 32 := by
  unfold toUInt32
  omega

/-- The seconds of an interval fit into a `useconds_t` up to 4294967 milliseconds. -/
theorem sleepTime_eq_iff (pollfreqMs : Int) {start stop : Int} (hstart : Timestamp start)
    (hstop : Timestamp stop) :
    (sleepTime pollfreqMs start stop : Int) = sleepMs pollfreqMs start stop * 1000 ↔
      pollfreqMs - max 0 (stop - start) ≤ 4294967 := by
  unfold sleepTime sleepMs
  rw [toInt64_sub hstart hstop]
  dsimp only
  split
  · rename_i hshort
    rw [if_neg (by omega), toUInt32_eq_iff (by decide)]
    exact iff_of_true (by decide) (by omega)
  · rename_i hlong
    rw [if_pos (by omega), toUInt32_eq_iff (by omega)]
    omega

section

variable {w : World} {inputs rest : List Answer} {trace : List Event}

theorem awake_of_ofConnect {e : Event} (h : e.ofConnect = true) : e.awake = true := by
  cases e <;> first | rfl | contradiction

theorem awake_of_ofWrite {e : Event} (h : e.ofWrite = true) : e.awake = true := by
  cases e <;> first | rfl | contradiction

theorem awake_of_ofRead {e : Event} (h : e.ofRead = true) : e.awake = true := by
  cases e <;> first | rfl | contradiction

theorem awake_of_ofPublish {i : Nat} {entries : List StatsEntry} {e : Event}
    (h : e.ofPublish i entries) : e.awake = true := by
  cases e <;> first | rfl | contradiction

theorem within_getStat (i : Nat) (uri : Bytes) : Within (·.awake = true) (getStat i uri) := by
  rw [getStat_eq]
  apply within_bind
  · exact (within_spMemcacheWrite _).imp fun _ => awake_of_ofWrite
  · intro err
    unfold statReply
    split
    · apply within_bind
      · exact within_spMemcacheReadReplies.imp fun _ => awake_of_ofRead
      · exact fun r => (within_publish i r.2).imp fun _ => awake_of_ofPublish
    · exact within_pure _

theorem within_getHealth (i : Nat) : Within (·.awake = true) (getHealth i) := by
  have hpublish : ∀ entries, Within (·.awake = true) (publish i entries) :=
    fun entries => (within_publish i entries).imp fun _ => awake_of_ofPublish
  rw [getHealth_split]
  apply within_bind
  · exact within_askHealth (fun _ => rfl) (fun _ => rfl) i
  · intro p
    apply within_bind
    · exact (within_spMemcacheWrite _).imp fun _ => awake_of_ofWrite
    · intro err
      unfold healthReply
      split
      · exact hpublish _
      · apply within_bind
        · exact (within_spMemcacheRead _ _ _).imp fun _ => awake_of_ofRead
        · intro r
          apply within_bind
          · exact within_call fun _ => rfl
          · intro stop
            split
            · exact hpublish _
            · split
              · exact hpublish _
              · exact hpublish _

theorem within_pollUris (us : List (Bytes × Nat)) : Within (·.awake = true) (pollUris us) := by
  induction us with
  | nil => exact within_pure _
  | cons u rest ih =>
    rw [pollUris]
    apply within_bind
    · exact within_checkAndConnect.imp fun _ => awake_of_ofConnect
    · intro err
      split
      · exact within_pure _
      · apply within_bind
        · exact (within_setState _).imp fun _ => awake_of_ofConnect
        · intro _
          apply within_bind
          · unfold pollUri
            split
            · exact within_getHealth u.2
            · exact within_getStat u.2 u.1
          · intro _
            apply within_bind
            · exact within_call fun _ => rfl
            · exact fun now => within_bind (within_emit rfl) fun _ => ih

/-- A cycle that sleeps has read the clock when it started and when it was done. -/
theorem pollCycle_sleeps (h : (pollCycle ()).exec w inputs = .done (.inl ()) trace rest) :
    ∃ start polled, trace = .gettimeofday start :: polled ∧
      ((∀ e ∈ polled, e.awake = true) ∨ ∃ front stop, polled = front ++ [.gettimeofday stop,
        .usleep (sleepTime w.bep.settings.pollfreqMs start stop)]) := by
  unfold pollCycle at h
  obtain ⟨start, clock, given, cycle, hstart, hcycle, rfl⟩ := bind_done h
  cases call_done hstart
  refine ⟨start, cycle, rfl, ?_⟩
  obtain ⟨bep, none, given', polls, hbep, hpolls, rfl⟩ := bind_done hcycle
  cases hbep
  obtain ⟨completed, polled, left, last, hpolled, hlast, rfl⟩ := bind_done hpolls
  have hawake := within_done (within_pollUris _) hpolled
  split at hlast
  · obtain ⟨_, closed, given', asleep, -, hasleep, rfl⟩ := bind_done hlast
    obtain ⟨stop, clock, left', sleep, hstop, hsleep, rfl⟩ := bind_done hasleep
    cases call_done hstop
    cases hsleep
    have hsettings : (run w [.gettimeofday start]).bep.settings = w.bep.settings :=
      run_settings w _
    rw [hsettings]
    exact Or.inr ⟨polled ++ closed, stop, by simp⟩
  · cases hlast
    exact Or.inl (by simpa using hawake)

end

/-- A poller sleeps the rest of its interval exactly if that is at most 4294967
milliseconds. -/
theorem pollCycle_sleepMs_iff (w : World) (inputs rest : List Answer) (polled : List Event)
    (start stop : Int) (us : Nat) (hstart : Timestamp start) (hstop : Timestamp stop)
    (h : (pollCycle ()).exec w inputs = .done (.inl ())
      (.gettimeofday start :: polled ++ [.gettimeofday stop, .usleep us]) rest) :
    (us : Int) = sleepMs w.bep.settings.pollfreqMs start stop * 1000 ↔
      w.bep.settings.pollfreqMs - max 0 (stop - start) ≤ 4294967 := by
  obtain ⟨start', polled', htrace, hcycle⟩ := pollCycle_sleeps h
  rw [List.cons_append, List.cons.injEq, Event.gettimeofday.injEq] at htrace
  obtain ⟨rfl, rfl⟩ := htrace
  rcases hcycle with hawake | ⟨front, stop', hlast⟩
  · have := hawake (.usleep us) (by simp)
    contradiction
  · obtain ⟨-, hends⟩ := List.append_inj' hlast rfl
    rw [List.cons.injEq, Event.gettimeofday.injEq, List.cons.injEq, Event.usleep.injEq] at hends
    obtain ⟨rfl, rfl, -⟩ := hends
    exact sleepTime_eq_iff _ hstart hstop

/-- One uri, polled every `pollfreqMs` milliseconds. -/
def itemsWorld (pollfreqMs : Int) : World :=
  World.initial { sampleSettings with pollfreqMs } [ascii "items"]

/-- A cycle from second 1 that is done at `stop`. -/
def cycleAnswers (stop : Int) : List Answer :=
  [{ gettimeofday := 1000 }, {}, {}, {}, {}, {}, { write := .ok 13 }, {}, {},
    { read := .ok (ascii "STAT pid 1\r\nEND\r\n") }, {}, { time := 1 }, { gettimeofday := stop }]

def cycleTrace (pollfreqMs stop : Int) : List Event :=
  ((pollCycle ()).exec (itemsWorld pollfreqMs) (cycleAnswers stop)).trace

theorem pollCycle_sleepMs_fiveSeconds : (4993000 : Int) = sleepMs 5000 1000 1007 * 1000 := by
  have hdone : (pollCycle ()).exec (itemsWorld 5000) (cycleAnswers 1007) = .done (.inl ())
      (.gettimeofday 1000 :: ((cycleTrace 5000 1007).drop 1).take 27 ++
        [.gettimeofday 1007, .usleep 4993000]) [] := by
    decide +kernel
  exact (pollCycle_sleepMs_iff (itemsWorld 5000) _ _ _ 1000 1007 4993000 (by decide) (by decide)
    hdone).mpr (by decide)

/-- An interval of 4295 seconds becomes 32704 microseconds. -/
theorem pollCycle_wrapsSleep :
    (pollCycle ()).exec (itemsWorld 4295000) (cycleAnswers 1000) = .done (.inl ())
      (.gettimeofday 1000 :: ((cycleTrace 4295000 1000).drop 1).take 27 ++
        [.gettimeofday 1000, .usleep 32704]) [] ∧
      (32704 : Int) ≠ sleepMs 4295000 1000 1000 * 1000 := by
  decide +kernel

end StatsProxy

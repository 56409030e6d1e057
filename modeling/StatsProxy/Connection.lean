import StatsProxy.PollerTrace

/-! Connecting. `checkAndConnect` reports success exactly when the backend is
connected, unless a `socket` or `fcntl` call failed: then it reports success
and leaves the backend disconnected. -/
namespace StatsProxy
open CString Interaction Program Poller

/-- `socket` or `fcntl` has failed, and the code that is returned is 0. -/
structure Unreported (w : World) (err : Nat) (y : World × List Event) : Prop extends
    Logged w y where
  success : err = 0
  closed : y.1.bep.fd = -1
  owned : Owned y.1
  failure : ¬NoOpenFailure y.2

/-- The code tells whether the backend is connected. -/
structure Reported (c : Prop) (w : World) (err : Nat) (y : World × List Event) : Prop extends
    Sound c w y where
  connected : err = 0 ↔ 0 ≤ y.1.bep.fd

def Attempt (c : Prop) (w : World) (err : Nat) (y : World × List Event) : Prop :=
  Reported c w err y ∨ Unreported w err y

section

variable {c : Prop} {w : World} {x : World × List Event}

theorem failure_after (h : ¬NoOpenFailure x.2) (e : Event) :
    ¬NoOpenFailure (Machine.after x e).2 := by
  show ¬NoOpenFailure (x.2 ++ [e])
  rw [noOpenFailure_append]
  exact fun hn => h hn.1

theorem failure_here (e : Event) (he : e.openFailure = true) :
    ¬NoOpenFailure (Machine.after x e).2 := by
  show ¬NoOpenFailure (x.2 ++ [e])
  rw [noOpenFailure_append]
  intro hn
  have hf := hn.2 e (List.mem_singleton_self e)
  rw [he] at hf
  contradiction

theorem bail_unreported {I : World × List Event → Prop} (hl : Logged w x) (ho : Owned x.1)
    (hf : ¬NoOpenFailure x.2) : wp I (bail 0) (Unreported w) x := by
  apply wp_bind
  apply disconnect_spec ho
  · intro hfd
    have ho' := (ho.after (.setLastError 0) rfl).1
    apply wp_bind
    apply wp_emit
    exact wp_pure ⟨hl.outside _ rfl nofun fun _ => ho', rfl, hfd, ho', failure_after hf _⟩
  · intro hfd
    have hc := owned_closed ho hfd
    have ho' := (hc.after (.setLastError 0) rfl).1
    have hlog := (hl.outside (.close x.1.bep.fd) rfl nofun nofun).outside (.setFd (-1)) rfl nofun
      fun _ => hc
    have hfail := failure_after (failure_after (failure_after hf (.close x.1.bep.fd)) (.setFd (-1)))
      (.setLastError 0)
    apply wp_bind
    apply wp_emit
    exact wp_pure ⟨hlog.outside _ rfl nofun fun _ => ho', rfl, rfl, ho', hfail⟩

theorem bail_reported (h : Sound c w x) (e : Errno) :
    wp (Sound c w) (bail e.code) (Attempt c w) x := by
  apply wp_post (bail_spec h e.code)
  intro r y hy
  apply Or.inl
  apply Reported.mk hy.1
  have hne := e.ne
  obtain ⟨-, hfd, rfl⟩ := hy
  constructor
  · exact fun hz => absurd hz hne
  · omega

theorem checkConnected_spec (h : Sound c w x) (hfd : 0 ≤ x.1.bep.fd) :
    wp (Sound c w) checkConnected (Attempt c w) x := by
  apply wp_bind
  apply wp_call h
  intro r
  have hs := h.quiet (.getsockopt r) rfl rfl
  cases r with
  | error e => exact bail_reported hs e
  | ok res =>
    dsimp only
    split
    · rename_i hres
      exact bail_reported hs ⟨res, hres⟩
    · exact wp_pure (Or.inl ⟨hs, iff_of_true rfl hfd⟩)

/-- The part of `spMemcacheConnect` that runs with an open descriptor. -/
theorem connectOpen_spec (h : Sound c w x) (hfd : 0 ≤ x.1.bep.fd) :
    wp (Sound c w) (do
      match ← fcntl with
      | .error _ => bail 0
      | .ok () => match ← connect with
        | .ok () => checkConnected
        | .error e =>
          if e ≠ EINPROGRESS then bail e.code
          else match ← poll with
            | .ready => checkConnected
            | _ => bail e.code) (Attempt c w) x := by
  apply wp_bind
  apply wp_call h
  intro r
  cases r with
  | error e =>
    have ho := (h.owned.after (.fcntl (.error e)) rfl).1
    exact wp_post (bail_unreported (h.toLogged.outside _ rfl nofun fun _ => ho) ho
      (failure_here _ rfl)) fun _ _ => Or.inr
  | ok =>
    have hf := h.quiet (.fcntl (.ok ())) rfl rfl
    apply wp_bind
    apply wp_call hf
    intro r
    have hc := hf.quiet (.connect r) rfl rfl
    cases r with
    | ok => exact checkConnected_spec hc hfd
    | error e =>
      dsimp only
      split
      · exact bail_reported hc e
      · apply wp_bind
        apply wp_call hc
        intro r
        have hp := hc.quiet (.poll r) rfl rfl
        cases r with
        | ready => exact checkConnected_spec hp hfd
        | failed e' => exact bail_reported hp e
        | timeout => exact bail_reported hp e

theorem spMemcacheConnect_spec (h : Sound c w x) (hfd : x.1.bep.fd = -1) :
    wp (Sound c w) spMemcacheConnect (Attempt c w) x := by
  have hopen : x.1.opened = [] := by
    rcases h.owned with ⟨-, hopen⟩ | ⟨hn, -⟩
    · exact hopen
    · omega
  apply wp_bind
  apply wp_assert (by simpa using hfd)
  apply wp_bind
  apply wp_socket h
  · intro fd
    apply wp_bind
    apply wp_emit
    have ho : Owned (Machine.after (Machine.after x.1 (.socket (.ok fd))) (.setFd fd)) := by
      apply Or.inr
      apply And.intro (Int.natCast_nonneg fd)
      show (fd : Int) :: x.1.opened = [(fd : Int)]
      rw [hopen]
    have ht := (h.toTraced.quiet (.socket (.ok fd)) rfl nofun).quiet (.setFd fd) rfl fun _ => ho
    rw [if_neg (by omega)]
    exact connectOpen_spec ⟨ht, ho⟩ (Int.natCast_nonneg fd)
  · intro e
    apply wp_bind
    apply wp_emit
    have ho : Owned (Machine.after (Machine.after x.1 (.socket (.error e))) (.setFd (-1))) :=
      Or.inl ⟨rfl, hopen⟩
    have hl := (h.toLogged.outside (.socket (.error e)) rfl nofun fun _ =>
      (h.owned.after _ rfl).1).outside (.setFd (-1)) rfl nofun fun _ => ho
    rw [if_pos (by omega)]
    exact wp_post (bail_unreported hl ho
      (failure_after (failure_here _ rfl) _)) fun _ _ => Or.inr

theorem Attempt.fd_of_ne {err : Nat} (h : Attempt c w err x) (he : err ≠ 0) :
    Sound c w x ∧ x.1.bep.fd = -1 := by
  rcases h with hr | hu
  · apply And.intro hr.toSound
    rcases hr.owned with ⟨hfd, -⟩ | ⟨hfd, -⟩
    · exact hfd
    · exact absurd (hr.connected.mpr hfd) he
  · exact absurd hu.success he

/-- A code other than 0 means that the last attempt failed. Without attempts
left, 0 means that the backend was connected already. -/
theorem connectRetry_spec (n err : Nat) (h : Sound c w x)
    (hne : err ≠ 0 → x.1.bep.fd = -1) (hz : err = 0 → 0 ≤ x.1.bep.fd ∨ 0 < n) :
    wp (Sound c w) (connectRetry n err) (Attempt c w) x := by
  induction n generalizing x err with
  | zero =>
    apply wp_pure
    apply Or.inl
    apply Reported.mk h
    constructor
    · intro he
      exact (hz he).resolve_right (Nat.lt_irrefl 0)
    · intro hfd
      by_contra he
      have hfd' := hne he
      omega
  | succ n ih =>
    apply wp_bind
    apply wp_backend
    simp only [spMemcacheIsConnected, decide_eq_true_eq]
    split
    · rename_i hfd
      exact ih err h hne fun _ => Or.inl hfd
    · rename_i hfd
      have hclosed : x.1.bep.fd = -1 := by
        rcases h.owned with ⟨hn, -⟩ | ⟨hn, -⟩
        · exact hn
        · exact absurd hn hfd
      apply wp_bind
      apply wp_post (spMemcacheConnect_spec h hclosed)
      intro r y hy
      split
      · exact wp_pure hy
      · rename_i hr
        obtain ⟨hs, hfd⟩ := hy.fd_of_ne hr
        apply wp_bind
        apply wp_emit
        exact ih r (hs.quiet _ rfl rfl) (fun _ => hfd) fun he => absurd he hr

theorem wp_setState {I : World × List Event → Prop} {Q : Unit → World × List Event → Prop}
    (s : BackendState) (h : Q () (run x (stateSection s))) : wp I (setState s) Q x :=
  wp_bind (wp_emit (wp_bind (wp_emit (wp_emit h))))

theorem keepsFd_stateSection (s : BackendState) :
    ∀ e ∈ stateSection s, e.keepsFd = true := by
  simp [stateSection, Event.keepsFd]

theorem LogSound.stateSection {log : List Event} (h : LogSound w log) (ho : Owned (run w log))
    (s : BackendState) (hs : s = .connecting ∨ s = .polling ∨ .setState .connecting ∉ log) :
    LogSound w (log ++ stateSection s) where
  blocks := h.blocks.state s
  states := by
    apply atEach_append.mpr ⟨h.states, _⟩
    change AtEach _ ([] ++ [Event.wrlock] ++ [Event.setState s] ++ [Event.unlock])
    rw [atEach_snoc, atEach_snoc, atEach_snoc]
    apply And.intro _ nofun
    apply And.intro ⟨atEach_nil, nofun⟩
    intro s' hs' hm
    cases hs'
    rcases hs with hs | hs | hs
    · exact Or.inl hs
    · exact Or.inr hs
    · exact absurd (by simpa using hm) hs
  cycles := by
    intro hw
    apply atEach_append.mpr ⟨h.cycles hw, atEach_of_mem _⟩
    rintro e he before us rfl
    simp [StatsProxy.stateSection] at he
  descriptors := h.descriptors.append ho _ (keepsFd_stateSection s)

theorem Logged.stateSection (h : Logged w x) (ho : Owned x.1) (s : BackendState)
    (hs : s = .connecting ∨ s = .polling ∨ .setState .connecting ∉ x.2) :
    Logged w (run x (stateSection s)) := by
  have hrun : run x.1 (StatsProxy.stateSection s) = run w (x.2 ++ StatsProxy.stateSection s) := by
    rw [run_append, ← h.consistent]
  rw [run_prod, run_log]
  exact ⟨hrun, h.log.stateSection (h.consistent ▸ ho) s hs⟩

theorem noOpenFailure_stateSection (log : List Event) (s : BackendState) :
    NoOpenFailure (log ++ stateSection s) ↔ NoOpenFailure log := by
  rw [noOpenFailure_append]
  exact and_iff_left (by simp [NoOpenFailure, stateSection, Event.openFailure])

theorem pollingConnected_polling (w : World) (log : List Event) :
    PollingConnected w (log ++ stateSection .polling) ↔
      PollingConnected w log ∧ 0 ≤ (run w log).bep.fd := by
  have hsplit : log ++ stateSection .polling =
      log ++ [.wrlock] ++ [.setState .polling] ++ [.unlock] := by simp [stateSection]
  rw [hsplit, pollingConnected_append w _ [.unlock] (by simp), PollingConnected, atEach_snoc]
  change PollingConnected w (log ++ [.wrlock]) ∧ _ ↔ _
  rw [pollingConnected_append w log [.wrlock] (by simp), run_append]
  exact and_congr_right fun _ => ⟨fun h => h rfl, fun h _ => h⟩

theorem Sound.stateSection (h : Sound c w x) {s : BackendState} (hne : s ≠ .polling)
    (hs : s = .connecting ∨ .setState .connecting ∉ x.2) :
    Sound c w (run x (stateSection s)) := by
  have hl := h.toLogged.stateSection h.owned s (hs.imp_right Or.inr)
  have ho := h.owned.run _ (keepsFd_stateSection s)
  have hpolling : PollingConnected w (x.2 ++ StatsProxy.stateSection s) ↔
      NoOpenFailure (x.2 ++ StatsProxy.stateSection s) := by
    rw [noOpenFailure_stateSection,
      pollingConnected_append w x.2 _ (by simp [StatsProxy.stateSection, hne.symm])]
    exact h.polling
  rw [run_prod, run_log] at hl ⊢
  exact ⟨⟨hl, hpolling, fun hc => (noOpenFailure_stateSection _ _).mpr (h.clean hc)⟩, ho⟩

/-- The state becomes `POLLING` after a successful attempt. -/
theorem Attempt.polling {err : Nat} (h : Attempt c w err x) (he : err = 0) :
    Sound False w (run x (stateSection .polling)) := by
  have hl : Logged w x := h.elim (fun hr => hr.toLogged) fun hu => hu.toLogged
  have ho : Owned x.1 := h.elim (fun hr => hr.owned) fun hu => hu.owned
  have hl' := hl.stateSection ho .polling (Or.inr (Or.inl rfl))
  have ho' := ho.run _ (keepsFd_stateSection .polling)
  have hpolling : PollingConnected w (x.2 ++ StatsProxy.stateSection .polling) ↔
      NoOpenFailure (x.2 ++ StatsProxy.stateSection .polling) := by
    rw [noOpenFailure_stateSection, pollingConnected_polling, ← hl.consistent]
    rcases h with hr | hu
    · rw [and_iff_left (hr.connected.mp he)]
      exact hr.polling
    · apply iff_of_false _ hu.failure
      intro hp
      have hclosed := hu.closed
      omega
  rw [run_prod, run_log] at hl' ⊢
  exact ⟨⟨hl', hpolling, False.elim⟩, ho'⟩

/-- `checkAndConnect` makes one attempt after it has set the state. -/
theorem checkAndConnect_spec (h : Sound c w x) :
    wp (Sound c w) checkAndConnect
      (fun err y => Attempt c w err y ∧ .setState .connecting ∈ y.2) x := by
  apply wp_bind
  apply wp_setState .connecting
  have hs := h.stateSection (s := .connecting) nofun (Or.inl rfl)
  have hretry := connectRetry_spec 6 0 hs (fun he => absurd rfl he) fun _ => Or.inr (by decide)
  apply wp_post (wp_log hretry)
  intro err y hy
  apply And.intro hy.1
  apply hy.2.subset
  rw [run_prod, run_log]
  simp [StatsProxy.stateSection]

end

end StatsProxy

import Mathlib.Logic.Function.Basic

/-! Threads that share a state and take turns statement by statement, in any order.
An assertion about the shared state and one thread's own state holds of every thread
throughout a run, if a thread's statements keep its own assertion and do not interfere
with those of the others. -/
namespace StatsProxy.Threads

variable {ι κ σ τ : Type} [DecidableEq ι]

structure State (ι σ τ : Type) where
  shared : σ
  threads : ι → τ

/-- The next statement of a thread, with what the environment tells it. -/
abbrev Statement (κ σ τ : Type) := κ → σ → τ → σ × τ

def step (next : Statement κ σ τ) (s : State ι σ τ) (turn : ι × κ) : State ι σ τ :=
  let (shared, thread) := next turn.2 s.shared (s.threads turn.1)
  ⟨shared, Function.update s.threads turn.1 thread⟩

/-- A schedule says whose turn it is. -/
def run (next : Statement κ σ τ) (s : State ι σ τ) (schedule : List (ι × κ)) : State ι σ τ :=
  schedule.foldl (step next) s

/-- Every turn of the schedule is allowed in the state in which it is taken. -/
def Allowed (next : Statement κ σ τ) (may : State ι σ τ → ι → Prop) :
    State ι σ τ → List (ι × κ) → Prop
  | _, [] => True
  | s, turn :: schedule => may s turn.1 ∧ Allowed next may (step next s turn) schedule

instance decidableAllowed (next : Statement κ σ τ) (may : State ι σ τ → ι → Prop)
    [∀ s t, Decidable (may s t)] : (s : State ι σ τ) → (schedule : List (ι × κ)) →
    Decidable (Allowed next may s schedule)
  | _, [] => .isTrue trivial
  | s, turn :: schedule =>
    have := decidableAllowed next may (step next s turn) schedule
    inferInstanceAs (Decidable (_ ∧ _))

/-- The assertions hold of all threads. -/
def Holds (assertion : σ → τ → Prop) (s : State ι σ τ) : Prop :=
  ∀ t, assertion s.shared (s.threads t)

/-- A turn keeps the assertion of its thread and those of the others. -/
structure Outline (next : Statement κ σ τ) (may : State ι σ τ → ι → Prop)
    (assertion : σ → τ → Prop) : Prop where
  own : ∀ s t k, Holds assertion s → may s t →
    assertion (next k s.shared (s.threads t)).1 (next k s.shared (s.threads t)).2
  others : ∀ s t k u, Holds assertion s → may s t → u ≠ t →
    assertion (next k s.shared (s.threads t)).1 (s.threads u)

variable {next : Statement κ σ τ} {may : State ι σ τ → ι → Prop} {assertion : σ → τ → Prop}
  {s : State ι σ τ}

/-- A turn of the only thread there is. -/
theorem step_unit (s : σ) (t : τ) (k : κ) :
    Threads.step next ⟨s, fun _ : Unit => t⟩ ((), k) =
      ⟨(next k s t).1, fun _ => (next k s t).2⟩ := by
  have hupdate : Function.update (fun _ : Unit => t) () (next k s t).2 =
      fun _ => (next k s t).2 := by
    funext u
    exact Function.update_self u _ _
  rw [Threads.step]
  dsimp only
  rw [hupdate]

theorem Outline.step (h : Outline next may assertion) (hs : Holds assertion s) {turn : ι × κ}
    (hturn : may s turn.1) : Holds assertion (step next s turn) := by
  intro u
  by_cases hu : u = turn.1
  · subst hu
    have hown := h.own s turn.1 turn.2 hs hturn
    simpa only [Threads.step, Function.update_self] using hown
  · have hother := h.others s turn.1 turn.2 u hs hturn hu
    simpa only [Threads.step, Function.update_of_ne hu] using hother

theorem Outline.run (h : Outline next may assertion) (hs : Holds assertion s)
    {schedule : List (ι × κ)} (hallowed : Allowed next may s schedule) :
    Holds assertion (run next s schedule) := by
  induction schedule generalizing s with
  | nil => exact hs
  | cons turn schedule ih => exact ih (h.step hs hallowed.1) hallowed.2

/-- A thread that takes all turns is allowed to, where only the others could keep it from
one and they do nothing. -/
theorem allowed_alone {t : ι} (rest : τ → Prop) (hmay : ∀ s : State ι σ τ,
    (∀ u, u ≠ t → rest (s.threads u)) → may s t) {schedule : List (ι × κ)}
    (halone : ∀ turn ∈ schedule, turn.1 = t) (hrest : ∀ u, u ≠ t → rest (s.threads u)) :
    Allowed next may s schedule := by
  induction schedule generalizing s with
  | nil => trivial
  | cons turn schedule ih =>
    rw [List.forall_mem_cons] at halone
    obtain ⟨rfl, halone⟩ := halone
    refine ⟨hmay s hrest, ih halone ?_⟩
    intro u hu
    simpa only [Threads.step, Function.update_of_ne hu] using hrest u hu

end StatsProxy.Threads

import Mathlib.Data.List.Nodup
import StatsProxy.Library.Interaction

/-! The descriptor table of a process, seen by one of its threads. Opening takes
the lowest free number; closing frees a number, whoever has opened it. The steps
of the thread and those of all other threads come in any order. -/
namespace StatsProxy.Descriptors
open Interaction

variable {ε : Type}

inductive FdOp where
  | opens (fd : Int)
  | closes (fd : Int)
deriving DecidableEq

/-- The open descriptors, by who has opened them. -/
structure FdTable where
  mine : List Int
  others : List Int
deriving DecidableEq

def FdTable.used (t : FdTable) : List Int := t.mine ++ t.others

def FdTable.own (t : FdTable) : FdOp → FdTable
  | .opens fd => { t with mine := fd :: t.mine }
  | .closes fd => ⟨t.mine.erase fd, t.others.erase fd⟩

def FdTable.other (t : FdTable) : FdOp → FdTable
  | .opens fd => { t with others := fd :: t.others }
  | .closes fd => { t with others := t.others.erase fd }

/-- The number that the next `open` gets. -/
def FdTable.LowestFree (t : FdTable) (fd : Int) : Prop :=
  0 ≤ fd ∧ fd ∉ t.used ∧ ∀ k < fd.toNat, (k : Int) ∈ t.used

instance (t : FdTable) (fd : Int) : Decidable (t.LowestFree fd) :=
  inferInstanceAs (Decidable (_ ∧ _ ∧ _))

/-- Nothing is counted twice. -/
structure FdTable.Apart (t : FdTable) : Prop where
  mine : t.mine.Nodup
  others : t.others.Nodup
  disjoint : t.mine.Disjoint t.others

variable (op : ε → Option FdOp)

/-- A step of the thread, or an operation of another one. -/
def FdTable.after (t : FdTable) : ε ⊕ FdOp → FdTable
  | .inl e => match op e with
    | some o => t.own o
    | none => t
  | .inr o => t.other o

def FdTable.run (t : FdTable) (schedule : List (ε ⊕ FdOp)) : FdTable :=
  schedule.foldl (FdTable.after op) t

/-- What is opened gets the lowest free number. -/
def FdTable.Grants (t : FdTable) : Option FdOp → Prop
  | some (.opens fd) => t.LowestFree fd
  | _ => True

instance (t : FdTable) : (o : Option FdOp) → Decidable (t.Grants o)
  | some (.opens fd) => inferInstanceAs (Decidable (t.LowestFree fd))
  | some (.closes _) => .isTrue trivial
  | none => .isTrue trivial

/-- Other threads close only what they have opened. -/
def FdTable.Possible (t : FdTable) : ε ⊕ FdOp → Prop
  | .inl e => t.Grants (op e)
  | .inr (.opens fd) => t.LowestFree fd
  | .inr (.closes fd) => fd ∈ t.others

instance (t : FdTable) : (a : ε ⊕ FdOp) → Decidable (t.Possible op a)
  | .inl e => inferInstanceAs (Decidable (t.Grants (op e)))
  | .inr (.opens fd) => inferInstanceAs (Decidable (t.LowestFree fd))
  | .inr (.closes fd) => inferInstanceAs (Decidable (fd ∈ t.others))

def Feasible (t : FdTable) (schedule : List (ε ⊕ FdOp)) : Prop :=
  AtEach (fun before a => (t.run op before).Possible op a) schedule

instance (t : FdTable) (schedule : List (ε ⊕ FdOp)) : Decidable (Feasible op t schedule) :=
  inferInstanceAs (Decidable (AtEach _ _))

/-- The thread closes only what it has opened and not yet closed, and nothing that
another thread has open. -/
def ClosesOwn (t : FdTable) (schedule : List (ε ⊕ FdOp)) : Prop :=
  AtEach (fun before a => ∀ e fd, a = .inl e → op e = some (.closes fd) →
    fd ∈ (t.run op before).mine ∧ fd ∉ (t.run op before).others) schedule

def ownSteps (schedule : List (ε ⊕ FdOp)) : List ε := schedule.filterMap Sum.getLeft?

/-- What the thread has open after its steps. -/
def mineAfter (mine : List Int) (steps : List ε) : List Int :=
  steps.foldl (fun mine e => match op e with
    | some (.opens fd) => fd :: mine
    | some (.closes fd) => mine.erase fd
    | none => mine) mine

variable {op : ε → Option FdOp} {t : FdTable} {schedule : List (ε ⊕ FdOp)}

theorem run_snoc (t : FdTable) (schedule : List (ε ⊕ FdOp)) (a : ε ⊕ FdOp) :
    t.run op (schedule ++ [a]) = (t.run op schedule).after op a := by
  rw [FdTable.run, List.foldl_append]
  rfl

theorem mine_after (t : FdTable) (a : ε ⊕ FdOp) :
    (t.after op a).mine = mineAfter op t.mine (ownSteps [a]) := by
  cases a with
  | inl e =>
    simp only [FdTable.after, ownSteps, mineAfter, List.filterMap_cons, Sum.getLeft?,
      List.filterMap_nil, List.foldl_cons, List.foldl_nil]
    cases op e with
    | none => rfl
    | some o => cases o <;> rfl
  | inr o => cases o <;> rfl

theorem mineAfter_append (mine : List Int) (front back : List ε) :
    mineAfter op mine (front ++ back) = mineAfter op (mineAfter op mine front) back :=
  List.foldl_append

theorem ownSteps_append (front back : List (ε ⊕ FdOp)) :
    ownSteps (front ++ back) = ownSteps front ++ ownSteps back :=
  List.filterMap_append

/-- Other threads do not change what the thread has open. -/
theorem mine_run (t : FdTable) (schedule : List (ε ⊕ FdOp)) :
    (t.run op schedule).mine = mineAfter op t.mine (ownSteps schedule) := by
  induction schedule using List.reverseRecOn with
  | nil => rfl
  | append_singleton schedule a ih =>
    rw [run_snoc, mine_after, ih, ownSteps_append, mineAfter_append]

/-- A possible step keeps the table apart, also where the thread closes a number
that is not its own. -/
theorem FdTable.Apart.after (h : t.Apart) {a : ε ⊕ FdOp} (ha : t.Possible op a) :
    (t.after op a).Apart := by
  have hfree : ∀ {fd}, t.LowestFree fd → fd ∉ t.mine ∧ fd ∉ t.others := by
    intro fd hfd
    have hused := hfd.2.1
    rw [FdTable.used, List.mem_append, not_or] at hused
    exact hused
  cases a with
  | inl e =>
    change t.Grants (op e) at ha
    simp only [FdTable.after]
    cases he : op e with
    | none => exact h
    | some o => cases o with
      | opens fd =>
        rw [he] at ha
        obtain ⟨hmine, hothers⟩ := hfree ha
        exact ⟨List.nodup_cons.mpr ⟨hmine, h.mine⟩, h.others,
          List.disjoint_cons_left.mpr ⟨hothers, h.disjoint⟩⟩
      | closes fd =>
        refine ⟨h.mine.erase fd, h.others.erase fd, ?_⟩
        intro k hk hk'
        exact h.disjoint (List.mem_of_mem_erase hk) (List.mem_of_mem_erase hk')
  | inr o => cases o with
    | opens fd =>
      obtain ⟨hmine, hothers⟩ := hfree ha
      exact ⟨h.mine, List.nodup_cons.mpr ⟨hothers, h.others⟩,
        List.disjoint_cons_right.mpr ⟨hmine, h.disjoint⟩⟩
    | closes fd =>
      refine ⟨h.mine, h.others.erase fd, ?_⟩
      intro k hk hk'
      exact h.disjoint hk (List.mem_of_mem_erase hk')

theorem Feasible.apart (hf : Feasible op t schedule) (h : t.Apart) : (t.run op schedule).Apart := by
  induction schedule using List.reverseRecOn with
  | nil => exact h
  | append_singleton schedule a ih =>
    obtain ⟨hfront, hlast⟩ := atEach_snoc.mp hf
    rw [run_snoc]
    exact (ih hfront).after hlast

/-- The thread has no descriptor twice, at any time. -/
theorem Feasible.mine_nodup (hf : Feasible op t schedule) (h : t.Apart) {steps : List ε}
    (hsteps : steps <+: ownSteps schedule) : (mineAfter op t.mine steps).Nodup := by
  obtain ⟨more, hmore⟩ := hsteps
  obtain ⟨front, back, rfl, rfl, -⟩ := List.filterMap_eq_append_iff.mp hmore.symm
  have hfront : Feasible op t front := AtEach.front hf (List.prefix_append front back)
  have hmine := (hfront.apart h).mine
  rw [mine_run] at hmine
  exact hmine

theorem mineAfter_none {steps : List ε} (h : ∀ e ∈ steps, op e = none) (mine : List Int) :
    mineAfter op mine steps = mine := by
  induction steps with
  | nil => rfl
  | cons e steps ih =>
    rw [List.forall_mem_cons] at h
    simp only [mineAfter, List.foldl_cons, h.1] at ih ⊢
    exact ih h.2

/-- Whether the thread closes only its own is told by its own steps. -/
theorem closesOwn_iff (hf : Feasible op t schedule) (h : t.Apart) :
    ClosesOwn op t schedule ↔
      AtEach (fun before e => ∀ fd, op e = some (.closes fd) → fd ∈ mineAfter op t.mine before)
        (ownSteps schedule) := by
  induction schedule using List.reverseRecOn with
  | nil => exact iff_of_true atEach_nil atEach_nil
  | append_singleton schedule a ih =>
    obtain ⟨hfront, -⟩ := atEach_snoc.mp hf
    have hdisjoint := (Feasible.apart hfront h).disjoint
    unfold ClosesOwn at ih ⊢
    rw [atEach_snoc, ih hfront, ownSteps_append]
    cases a with
    | inl e =>
      change _ ↔ AtEach _ (ownSteps schedule ++ [e])
      rw [atEach_snoc, mine_run]
      rw [mine_run] at hdisjoint
      refine and_congr_right fun _ => ⟨fun hown fd he => (hown e fd rfl he).1, ?_⟩
      intro hown e' fd he' he
      cases he'
      exact ⟨hown fd he, fun hother => hdisjoint (hown fd he) hother⟩
    | inr o =>
      change _ ↔ AtEach _ (ownSteps schedule ++ [])
      rw [List.append_nil]
      exact and_iff_left nofun

end StatsProxy.Descriptors

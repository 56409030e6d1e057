import StatsProxy.Library.ReadersWriter
import StatsProxy.Library.Simulation

/-! The readers of a readers-writer lock read atomically. What is shown of a run are the
writer's sections, the requests, and the answers; the same is shown by an object on which
each section is one operation and each request is answered in one step, at some moment
between its request and its answer. -/
namespace StatsProxy.ReadersWriter
open Interaction Simulation

variable {σ ε Q κ ρ υ ο : Type}

inductive Label (ρ Q κ ο : Type) where
  | wrote (op : ο)
  | called (r : ρ) (q : Q)
  | answered (r : ρ) (q : Q) (printed : Option (List κ))

/-- What is answered. -/
def Label.answer : Label ρ Q κ ο → Option (Q × Option (List κ))
  | .answered _ q printed => some (q, printed)
  | _ => none

/-- An object without a lock. -/
structure Atomic (υ ο Q κ : Type) where
  start : υ
  apply : υ → ο → υ
  read : υ → Q → Option (List κ)

inductive Call (Q κ : Type) where
  | idle
  | called (q : Q)
  | read (q : Q) (printed : Option (List κ))

structure Atomic.State (ρ Q κ υ : Type) where
  value : υ
  calls : ρ → Call Q κ

section

variable [DecidableEq ρ]

inductive Atomic.Step (obj : Atomic υ ο Q κ) :
    Atomic.State ρ Q κ υ → Option (Label ρ Q κ ο) → Atomic.State ρ Q κ υ → Prop where
  | write (s : Atomic.State ρ Q κ υ) (op : ο) :
      Step obj s (some (.wrote op)) { s with value := obj.apply s.value op }
  | call (s : Atomic.State ρ Q κ υ) (r : ρ) (q : Q) (hr : s.calls r = .idle) :
      Step obj s (some (.called r q)) { s with calls := Function.update s.calls r (.called q) }
  | read (s : Atomic.State ρ Q κ υ) (r : ρ) (q : Q) (hr : s.calls r = .called q) :
      Step obj s none
        { s with calls := Function.update s.calls r (.read q (obj.read s.value q)) }
  | answer (s : Atomic.State ρ Q κ υ) (r : ρ) (q : Q) (printed : Option (List κ))
      (hr : s.calls r = .read q printed) :
      Step obj s (some (.answered r q printed)) { s with calls := Function.update s.calls r .idle }

def Atomic.lts (obj : Atomic υ ο Q κ) : Lts (Atomic.State ρ Q κ υ) (Label ρ Q κ ο) :=
  ⟨⟨obj.start, fun _ => .idle⟩, obj.Step⟩

end

/-- The log up to the last moment at which the lock was free, and the section begun then. -/
def Lock.extend (lock : Lock ε) (parts : List ε × List ε) (e : ε) : List ε × List ε :=
  if lock.next (!parts.2.isEmpty) e then (parts.1, parts.2 ++ [e])
  else (parts.1 ++ parts.2 ++ [e], [])

def Lock.parts (lock : Lock ε) (log : List ε) : List ε × List ε :=
  log.foldl lock.extend ([], [])

section

variable (lock : Lock ε) (log : List ε)

theorem Lock.parts_snoc (e : ε) : lock.parts (log ++ [e]) = lock.extend (lock.parts log) e := by
  rw [Lock.parts, List.foldl_append]
  rfl

theorem Lock.parts_append : (lock.parts log).1 ++ (lock.parts log).2 = log := by
  induction log using List.reverseRecOn with
  | nil => rfl
  | append_singleton log e ih =>
    rw [Lock.parts_snoc, Lock.extend]
    split
    · rw [← List.append_assoc, ih]
    · rw [List.append_nil, ih]

theorem Lock.held_eq : lock.held log = !(lock.parts log).2.isEmpty := by
  induction log using List.reverseRecOn with
  | nil => rfl
  | append_singleton log e ih =>
    rw [Lock.held_snoc, Lock.parts_snoc, Lock.extend, ← ih]
    split
    · rename_i hnext
      simp [hnext]
    · rename_i hnext
      simpa using hnext

theorem Lock.parts_free {log : List ε} (h : lock.held log = false) :
    lock.parts log = (log, []) := by
  have hempty : (lock.parts log).2 = [] := by
    rw [Lock.held_eq] at h
    simpa using h
  have happend := lock.parts_append log
  rw [hempty, List.append_nil] at happend
  exact Prod.ext happend hempty

/-- A section runs from an acquiring event to the next releasing one. -/
theorem Lock.parts_section {log : List ε} (h : lock.held log = false) {acquire : ε}
    (hacquire : lock.acquires acquire = true) {middle : List ε}
    (hmiddle : ∀ e ∈ middle, lock.releases e = false) :
    lock.parts (log ++ acquire :: middle) = (log, acquire :: middle) := by
  induction middle using List.reverseRecOn with
  | nil =>
    rw [Lock.parts_snoc, Lock.parts_free lock h, Lock.extend, Lock.next, if_pos hacquire]
    rfl
  | append_singleton middle e ih =>
    rw [List.forall_mem_append, List.forall_mem_singleton] at hmiddle
    have hnext : lock.next true e = true := by
      unfold Lock.next
      split
      · rfl
      · rw [hmiddle.2]
        rfl
    rw [← List.cons_append, ← List.append_assoc, Lock.parts_snoc, ih hmiddle.1]
    exact if_pos hnext

end

/-- The label of an event of the writer: a section is shown when it ends. -/
def Lock.shows (lock : Lock ε) (op : List ε → ο) (log : List ε) (e : ε) :
    Option (Label ρ Q κ ο) :=
  if lock.held log = true ∧ lock.held (log ++ [e]) = false then
    some (.wrote (op ((lock.parts log).2 ++ [e])))
  else none

namespace System

variable [Machine σ ε] [DecidableEq ρ]

/-- The steps of a system with what is shown of them. -/
inductive Acts (sys : System σ ε Q κ) (op : List ε → ο) :
    Config ρ ε Q κ → Option (Label ρ Q κ ο) → Config ρ ε Q κ → Prop where
  | write (c : Config ρ ε Q κ) (e : ε) (ht : sys.traces (c.log ++ [e]))
      (hl : sys.lock.acquires e = true → ∀ r, (c.phase r).inside = false) :
      Acts sys op c (sys.lock.shows op c.log e) { c with log := c.log ++ [e] }
  | request (c : Config ρ ε Q κ) (r : ρ) (q : Q) (hr : c.phase r = .idle) :
      Acts sys op c (some (.called r q))
        { c with phase := Function.update c.phase r (.waiting q) }
  | enter (c : Config ρ ε Q κ) (r : ρ) (q : Q) (hr : c.phase r = .waiting q)
      (hl : sys.lock.held c.log = false) :
      Acts sys op c none { c with phase := Function.update c.phase r (.entered q) }
  | refuse (c : Config ρ ε Q κ) (r : ρ) (q : Q) (hr : c.phase r = .entered q)
      (hs : sys.serves (sys.now c.log) = false) :
      Acts sys op c (some (.answered r q none)) { c with
        phase := Function.update c.phase r .leaving
        answers := c.answers ++ [⟨q, c.log, none⟩] }
  | serve (c : Config ρ ε Q κ) (r : ρ) (q : Q) (hr : c.phase r = .entered q)
      (hs : sys.serves (sys.now c.log) = true) :
      Acts sys op c none { c with phase := Function.update c.phase r (.printing q c.log []) }
  | print (c : Config ρ ε Q κ) (r : ρ) (q : Q) (tested : List ε) (printed : List κ) (cell : κ)
      (hr : c.phase r = .printing q tested printed)
      (hc : (sys.cells (sys.now c.log) q)[printed.length]? = some cell) :
      Acts sys op c none { c with
        phase := Function.update c.phase r (.printing q tested (printed ++ [cell])) }
  | finish (c : Config ρ ε Q κ) (r : ρ) (q : Q) (tested : List ε) (printed : List κ)
      (hr : c.phase r = .printing q tested printed)
      (hc : (sys.cells (sys.now c.log) q)[printed.length]? = none) :
      Acts sys op c (some (.answered r q (some printed))) { c with
        phase := Function.update c.phase r .leaving
        answers := c.answers ++ [⟨q, tested, some printed⟩] }
  | leave (c : Config ρ ε Q κ) (r : ρ) (hr : c.phase r = .leaving) :
      Acts sys op c none { c with phase := Function.update c.phase r .idle }

def lts (sys : System σ ε Q κ) (op : List ε → ο) : Lts (Config ρ ε Q κ) (Label ρ Q κ ο) :=
  ⟨Config.start, sys.Acts op⟩

theorem Acts.step {sys : System σ ε Q κ} {op : List ε → ο} {c c' : Config ρ ε Q κ}
    {l : Option (Label ρ Q κ ο)} (h : sys.Acts op c l c') : sys.Step c c' := by
  cases h with
  | write e ht hl => exact .write c e ht hl
  | request r q hr => exact .request c r q hr
  | enter r q hr hl => exact .enter c r q hr hl
  | refuse r q hr hs => exact .refuse c r q hr hs
  | serve r q hr hs => exact .serve c r q hr hs
  | print r q tested printed cell hr hc => exact .print c r q tested printed cell hr hc
  | finish r q tested printed hr hc => exact .finish c r q tested printed hr hc
  | leave r hr => exact .leave c r hr

/-- Each step of a system is one of these. -/
theorem Step.acts {sys : System σ ε Q κ} {c c' : Config ρ ε Q κ} (op : List ε → ο)
    (h : sys.Step c c') : ∃ l, sys.Acts op c l c' := by
  cases h with
  | write e ht hl => exact ⟨_, .write c e ht hl⟩
  | request r q hr => exact ⟨_, .request c r q hr⟩
  | enter r q hr hl => exact ⟨_, .enter c r q hr hl⟩
  | refuse r q hr hs => exact ⟨_, .refuse c r q hr hs⟩
  | serve r q hr hs => exact ⟨_, .serve c r q hr hs⟩
  | print r q tested printed cell hr hc => exact ⟨_, .print c r q tested printed cell hr hc⟩
  | finish r q tested printed hr hc => exact ⟨_, .finish c r q tested printed hr hc⟩
  | leave r hr => exact ⟨_, .leave c r hr⟩

def Answered.result (a : Answered ε Q κ) : Q × Option (List κ) := (a.query, a.printed)

/-- A step shows the answer it gives. -/
theorem Acts.answers {sys : System σ ε Q κ} {op : List ε → ο} {c c' : Config ρ ε Q κ}
    {l : Option (Label ρ Q κ ο)} (h : sys.Acts op c l c') :
    c'.answers.map Answered.result =
      c.answers.map Answered.result ++ l.toList.filterMap Label.answer := by
  cases h with
  | write e ht hl =>
    rw [Lock.shows]
    split <;> exact (List.append_nil _).symm
  | refuse r q hr hs => exact List.map_append
  | finish r q tested printed hr hc => exact List.map_append
  | _ => exact (List.append_nil _).symm

/-- Whatever is reached has a history, in which the answers are these. -/
theorem Reachable.shown {sys : System σ ε Q κ} (op : List ε → ο) {c : Config ρ ε Q κ}
    (h : sys.Reachable c) : ∃ shown : List (Label ρ Q κ ο), (sys.lts op).Shows shown c ∧
      shown.filterMap Label.answer = c.answers.map Answered.result := by
  induction h with
  | start => exact ⟨[], .start, rfl⟩
  | step _ hs ih =>
    obtain ⟨shown, hshown, hanswers⟩ := ih
    obtain ⟨l, hacts⟩ := hs.acts op
    refine ⟨shown ++ l.toList, ?_, ?_⟩
    · exact hshown.then_weak (Lts.weak_step hacts)
    · rw [List.filterMap_append, hanswers, hacts.answers]

/-- What a reader finds at a free moment. -/
def finds (sys : System σ ε Q κ) (s : σ) (q : Q) : Option (List κ) :=
  if sys.serves s = true then some (sys.cells s q) else none

/-- Each section of the writer is one operation on the object. -/
structure Implements (sys : System σ ε Q κ) (obj : Atomic υ ο Q κ) (op : List ε → ο) where
  value : σ → υ
  start : value sys.start = obj.start
  finds : ∀ log q, sys.traces log → sys.lock.held log = false →
    obj.read (value (sys.now log)) q = sys.finds (sys.now log) q
  outside : ∀ log e, sys.traces (log ++ [e]) → sys.lock.held log = false →
    sys.lock.held (log ++ [e]) = false → value (sys.now (log ++ [e])) = value (sys.now log)
  wrote : ∀ log e, sys.traces (log ++ [e]) → sys.lock.held log = true →
    sys.lock.held (log ++ [e]) = false → value (sys.now (log ++ [e])) =
      obj.apply (value (sys.now (sys.lock.parts log).1)) (op ((sys.lock.parts log).2 ++ [e]))

/-- The request of a reader as the object sees it: it has been read once the guard is tested. -/
def Sees (sys : System σ ε Q κ) (log : List ε) : Phase ε Q κ → Call Q κ
  | .idle | .leaving => .idle
  | .waiting q | .entered q => .called q
  | .printing q _ _ => .read q (some (sys.cells (sys.now log) q))

/-- The object has the value of the last free moment. -/
structure Follows {sys : System σ ε Q κ} {obj : Atomic υ ο Q κ} {op : List ε → ο}
    (himp : sys.Implements obj op) (c : Config ρ ε Q κ) (s : Atomic.State ρ Q κ υ) : Prop where
  safe : sys.Safe c
  value : s.value = himp.value (sys.now (sys.lock.parts c.log).1)
  calls : ∀ r, s.calls r = sys.Sees c.log (c.phase r)

section

variable {sys : System σ ε Q κ} {obj : Atomic υ ο Q κ} {op : List ε → ο}
variable {himp : sys.Implements obj op} {c : Config ρ ε Q κ} {s : Atomic.State ρ Q κ υ}

omit [DecidableEq ρ] in
theorem Follows.value_free (h : Follows himp c s) (hfree : sys.lock.held c.log = false) :
    s.value = himp.value (sys.now c.log) := by
  rw [h.value, Lock.parts_free _ hfree]

/-- What a reader inside sees stays as it is. -/
theorem sees_write {log : List ε} {phase : Phase ε Q κ} (hsafe : sys.ReaderSafe log phase) (e : ε)
    (ht : sys.traces (log ++ [e])) : sys.Sees (log ++ [e]) phase = sys.Sees log phase := by
  cases phase with
  | printing q tested printed =>
    have hsame : sys.cells (sys.now (log ++ [e])) q = sys.cells (sys.now log) q :=
      (sys.disciplined log e ht hsafe.1).2 q
    rw [Sees, Sees, hsame]
  | _ => rfl

theorem calls_update (h : Follows himp c s) (r : ρ) {phase : Phase ε Q κ} {call : Call Q κ}
    (hcall : call = sys.Sees c.log phase) (r' : ρ) :
    Function.update s.calls r call r' =
      sys.Sees c.log (Function.update c.phase r phase r') := by
  by_cases hr : r' = r
  · subst hr
    rw [Function.update_self, Function.update_self, hcall]
  · rw [Function.update_of_ne hr, Function.update_of_ne hr]
    exact h.calls r'

/-- A step of a reader that the object does not see. -/
theorem calls_same (h : Follows himp c s) (r : ρ) {phase : Phase ε Q κ}
    (hsame : sys.Sees c.log phase = sys.Sees c.log (c.phase r)) (r' : ρ) :
    s.calls r' = sys.Sees c.log (Function.update c.phase r phase r') := by
  by_cases hr : r' = r
  · subst hr
    rw [Function.update_self, hsame, h.calls]
  · rw [Function.update_of_ne hr]
    exact h.calls r'

theorem Follows.write (h : Follows himp c s) (e : ε) (ht : sys.traces (c.log ++ [e]))
    (hl : sys.lock.acquires e = true → ∀ r, (c.phase r).inside = false) :
    ∃ s', obj.lts.Weak s (sys.lock.shows op c.log e) s' ∧
      Follows himp { c with log := c.log ++ [e] } s' := by
  have hsafe := h.safe.step (.write c e ht hl)
  have hcalls : ∀ r, s.calls r = sys.Sees (c.log ++ [e]) (c.phase r) := by
    intro r
    rw [sees_write (h.safe.readers r) e ht]
    exact h.calls r
  cases hafter : sys.lock.held (c.log ++ [e]) with
  | true =>
    -- the section goes on, or begins
    have hparts : (sys.lock.parts (c.log ++ [e])).1 = (sys.lock.parts c.log).1 := by
      rw [Lock.held_snoc, Lock.held_eq] at hafter
      rw [Lock.parts_snoc, Lock.extend, if_pos hafter]
    refine ⟨s, ?_, hsafe, h.value.trans (by rw [hparts]), hcalls⟩
    rw [Lock.shows, if_neg (by simp [hafter])]
    exact Lts.hidden_refl _ s
  | false =>
    have hnow := congrArg Prod.fst (Lock.parts_free sys.lock hafter)
    cases hbefore : sys.lock.held c.log with
    | true =>
      refine ⟨{ s with value := obj.apply s.value (op ((sys.lock.parts c.log).2 ++ [e])) }, ?_,
        hsafe, ?_, hcalls⟩
      · rw [Lock.shows, if_pos ⟨hbefore, hafter⟩]
        exact Lts.weak_step (.write s _)
      · show obj.apply s.value _ = _
        rw [h.value, hnow]
        exact (himp.wrote c.log e ht hbefore hafter).symm
    | false =>
      refine ⟨s, ?_, hsafe, ?_, hcalls⟩
      · rw [Lock.shows, if_neg (by simp [hbefore])]
        exact Lts.hidden_refl _ s
      · rw [h.value_free hbefore, hnow]
        exact (himp.outside c.log e ht hbefore hafter).symm

/-- A reader that tests the guard reads the object. -/
theorem Follows.read (h : Follows himp c s) {r : ρ} {q : Q} (hr : c.phase r = .entered q) :
    obj.lts.step s none
      { s with calls := Function.update s.calls r (.read q (sys.finds (sys.now c.log) q)) } := by
  have hfree : sys.lock.held c.log = false := (h.safe.readers r).free (by rw [hr]; rfl)
  have hcall : s.calls r = .called q := by rw [h.calls, hr]; rfl
  have hfinds : obj.read s.value q = sys.finds (sys.now c.log) q := by
    rw [h.value_free hfree]
    exact himp.finds c.log q h.safe.trace hfree
  rw [← hfinds]
  exact .read s r q hcall

theorem Follows.acts (h : Follows himp c s) {l : Option (Label ρ Q κ ο)}
    {c' : Config ρ ε Q κ} (hstep : sys.Acts op c l c') :
    ∃ s', obj.lts.Weak s l s' ∧ Follows himp c' s' := by
  have hsafe := h.safe.step hstep.step
  cases hstep with
  | write e ht hl => exact h.write e ht hl
  | request r q hr =>
    have hcall : s.calls r = .idle := by rw [h.calls, hr]; rfl
    exact ⟨_, Lts.weak_step (.call s r q hcall), hsafe, h.value, calls_update h r rfl⟩
  | enter r q hr hl =>
    exact ⟨s, Lts.hidden_refl _ s, hsafe, h.value, calls_same h r (by rw [hr]; rfl)⟩
  | refuse r q hr hs =>
    have hread := h.read hr
    have hnone : sys.finds (sys.now c.log) q = none := if_neg (by simp [hs])
    rw [hnone] at hread
    have hlast := Lts.weak_after (Lts.hidden_step hread)
      (.answer _ r q none (Function.update_self ..))
    refine ⟨_, hlast, hsafe, h.value, ?_⟩
    intro r'
    show Function.update (Function.update s.calls r _) r _ r' = _
    rw [Function.update_idem]
    exact calls_update h r (rfl : .idle = sys.Sees c.log .leaving) r'
  | serve r q hr hs =>
    have hread := h.read hr
    have hsome : sys.finds (sys.now c.log) q = some (sys.cells (sys.now c.log) q) := if_pos hs
    rw [hsome] at hread
    exact ⟨_, Lts.weak_step hread, hsafe, h.value, calls_update h r rfl⟩
  | print r q tested printed cell hr hc =>
    exact ⟨s, Lts.hidden_refl _ s, hsafe, h.value, calls_same h r (by rw [hr]; rfl)⟩
  | finish r q tested printed hr hc =>
    have hprinting := h.safe.readers r
    rw [hr] at hprinting
    obtain ⟨-, -, -, -, hpart⟩ := hprinting
    have hall : printed = sys.cells (sys.now c.log) q :=
      hpart.eq_of_length_le (List.getElem?_eq_none_iff.mp hc)
    have hcall : s.calls r = .read q (some printed) := by rw [h.calls, hr, hall]; rfl
    exact ⟨_, Lts.weak_step (.answer s r q _ hcall), hsafe, h.value, calls_update h r rfl⟩
  | leave r hr =>
    exact ⟨s, Lts.hidden_refl _ s, hsafe, h.value, calls_same h r (by rw [hr]; rfl)⟩

/-- The object follows each step of the system. -/
theorem Implements.simulates (himp : sys.Implements obj op) :
    Simulates (sys.lts op : Lts (Config ρ ε Q κ) _) obj.lts (Follows himp) where
  start := ⟨⟨sys.traces_nil, fun _ => trivial, nofun⟩, himp.start.symm, fun _ => rfl⟩
  step _ _ _ _ h hstep := h.acts hstep

/-- What is shown of a run of the system is shown of a run of the object. -/
theorem Implements.shows (himp : sys.Implements obj op) {shown : List (Label ρ Q κ ο)}
    (h : (sys.lts op).Shows shown c) : ∃ s, obj.lts.Shows shown s ∧ Follows himp c s :=
  himp.simulates.shows h

end

end System

end StatsProxy.ReadersWriter

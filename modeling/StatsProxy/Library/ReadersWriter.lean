import StatsProxy.Library.Interaction

/-! One writer and any number of readers of an object that a readers-writer
lock guards. The writer is known by its event traces. A reader enters the lock,
tests a guard, prints what it sees cell by cell, and leaves; steps interleave in
any order. -/
namespace StatsProxy.ReadersWriter
open Interaction

variable {σ ε Q κ ρ : Type}

/-- The events with which the writer takes and gives back the lock. -/
structure Lock (ε : Type) where
  acquires : ε → Bool
  releases : ε → Bool

def Lock.next (lock : Lock ε) (held : Bool) (e : ε) : Bool :=
  if lock.acquires e then true else if lock.releases e then false else held

def Lock.held (lock : Lock ε) (log : List ε) : Bool := log.foldl lock.next false

theorem Lock.held_snoc (lock : Lock ε) (log : List ε) (e : ε) :
    lock.held (log ++ [e]) = lock.next (lock.held log) e := by
  rw [Lock.held, List.foldl_append]
  rfl

/-- The writer changes what readers see only while it holds the lock. -/
structure System (σ ε Q κ : Type) [Machine σ ε] where
  start : σ
  traces : List ε → Prop
  lock : Lock ε
  serves : σ → Bool
  cells : σ → Q → List κ
  traces_nil : traces []
  traces_init : ∀ log e, traces (log ++ [e]) → traces log
  disciplined : ∀ log e, traces (log ++ [e]) → lock.held log = false →
    serves (run start (log ++ [e])) = serves (run start log) ∧
      ∀ q, cells (run start (log ++ [e])) q = cells (run start log) q

inductive Phase (ε Q κ : Type) where
  | idle
  | waiting (q : Q)
  | entered (q : Q)
  | printing (q : Q) (tested : List ε) (printed : List κ)
  | leaving

def Phase.inside : Phase ε Q κ → Bool
  | .idle | .waiting _ => false
  | .entered _ | .printing _ _ _ | .leaving => true

/-- What a reader has answered, and the writer's log when it tested the guard. -/
structure Answered (ε Q κ : Type) where
  query : Q
  tested : List ε
  printed : Option (List κ)

structure Config (ρ ε Q κ : Type) where
  log : List ε
  phase : ρ → Phase ε Q κ
  answers : List (Answered ε Q κ)

def Config.start : Config ρ ε Q κ := ⟨[], fun _ => .idle, []⟩

variable [Machine σ ε] [DecidableEq ρ]

namespace System

variable (sys : System σ ε Q κ)

def now (log : List ε) : σ := run sys.start log

inductive Step : Config ρ ε Q κ → Config ρ ε Q κ → Prop where
  | write (c : Config ρ ε Q κ) (e : ε) (ht : sys.traces (c.log ++ [e]))
      (hl : sys.lock.acquires e = true → ∀ r, (c.phase r).inside = false) :
      Step c { c with log := c.log ++ [e] }
  | request (c : Config ρ ε Q κ) (r : ρ) (q : Q) (hr : c.phase r = .idle) :
      Step c { c with phase := Function.update c.phase r (.waiting q) }
  | enter (c : Config ρ ε Q κ) (r : ρ) (q : Q) (hr : c.phase r = .waiting q)
      (hl : sys.lock.held c.log = false) :
      Step c { c with phase := Function.update c.phase r (.entered q) }
  | refuse (c : Config ρ ε Q κ) (r : ρ) (q : Q) (hr : c.phase r = .entered q)
      (hs : sys.serves (sys.now c.log) = false) :
      Step c { c with
        phase := Function.update c.phase r .leaving
        answers := c.answers ++ [⟨q, c.log, none⟩] }
  | serve (c : Config ρ ε Q κ) (r : ρ) (q : Q) (hr : c.phase r = .entered q)
      (hs : sys.serves (sys.now c.log) = true) :
      Step c { c with phase := Function.update c.phase r (.printing q c.log []) }
  | print (c : Config ρ ε Q κ) (r : ρ) (q : Q) (tested : List ε) (printed : List κ) (cell : κ)
      (hr : c.phase r = .printing q tested printed)
      (hc : (sys.cells (sys.now c.log) q)[printed.length]? = some cell) :
      Step c { c with
        phase := Function.update c.phase r (.printing q tested (printed ++ [cell])) }
  | finish (c : Config ρ ε Q κ) (r : ρ) (q : Q) (tested : List ε) (printed : List κ)
      (hr : c.phase r = .printing q tested printed)
      (hc : (sys.cells (sys.now c.log) q)[printed.length]? = none) :
      Step c { c with
        phase := Function.update c.phase r .leaving
        answers := c.answers ++ [⟨q, tested, some printed⟩] }
  | leave (c : Config ρ ε Q κ) (r : ρ) (hr : c.phase r = .leaving) :
      Step c { c with phase := Function.update c.phase r .idle }

inductive Reachable : Config ρ ε Q κ → Prop where
  | start : Reachable Config.start
  | step {c c' : Config ρ ε Q κ} (h : Reachable c) (hs : sys.Step c c') : Reachable c'

/-- A moment at which the writer does not hold the lock. -/
structure Free (log : List ε) : Prop where
  trace : sys.traces log
  free : sys.lock.held log = false

/-- An answer is what the reader found at one free moment. -/
structure Snapshot (a : Answered ε Q κ) : Prop extends Free sys a.tested where
  refused : a.printed = none → sys.serves (sys.now a.tested) = false
  served : ∀ cells, a.printed = some cells → sys.serves (sys.now a.tested) = true ∧
    cells = sys.cells (sys.now a.tested) a.query

/-- What holds of a reader while the log is `log`. -/
def ReaderSafe (log : List ε) : Phase ε Q κ → Prop
  | .idle | .waiting _ => True
  | .entered _ | .leaving => sys.lock.held log = false
  | .printing q tested printed => sys.lock.held log = false ∧ sys.Free tested ∧
      sys.serves (sys.now tested) = true ∧
      sys.cells (sys.now tested) q = sys.cells (sys.now log) q ∧
      printed <+: sys.cells (sys.now log) q

structure Safe (c : Config ρ ε Q κ) : Prop where
  trace : sys.traces c.log
  readers : ∀ r, sys.ReaderSafe c.log (c.phase r)
  answers : ∀ a ∈ c.answers, sys.Snapshot a

variable {sys}

theorem ReaderSafe.free {log : List ε} {phase : Phase ε Q κ} (h : sys.ReaderSafe log phase)
    (hi : phase.inside = true) : sys.lock.held log = false := by
  cases phase with
  | idle => contradiction
  | waiting q => contradiction
  | entered q => exact h
  | printing q tested printed => exact h.1
  | leaving => exact h

/-- No reader is inside when the writer enters, and what a reader inside sees
does not change until it leaves. -/
theorem ReaderSafe.write {log : List ε} {phase : Phase ε Q κ} (h : sys.ReaderSafe log phase)
    (e : ε) (ht : sys.traces (log ++ [e]))
    (hl : sys.lock.acquires e = true → phase.inside = false) :
    sys.ReaderSafe (log ++ [e]) phase := by
  by_cases hi : phase.inside = true
  · have hfree := h.free hi
    have hacq : sys.lock.acquires e = false := by
      by_contra ha
      rw [Bool.not_eq_false] at ha
      rw [hl ha] at hi
      contradiction
    have hfree' : sys.lock.held (log ++ [e]) = false := by
      rw [Lock.held_snoc, hfree, Lock.next, hacq]
      simp
    cases phase with
    | idle => trivial
    | waiting q => trivial
    | entered q => exact hfree'
    | leaving => exact hfree'
    | printing q tested printed =>
      obtain ⟨-, htested, hs, hc, hp⟩ := h
      have hd := (sys.disciplined log e ht hfree).2 q
      exact ⟨hfree', htested, hs, hc.trans hd.symm, hd.symm ▸ hp⟩
  · cases phase <;> trivial

theorem update_safe {c : Config ρ ε Q κ} (h : sys.Safe c) (r : ρ) {phase : Phase ε Q κ}
    (hp : sys.ReaderSafe c.log phase) (r' : ρ) :
    sys.ReaderSafe c.log (Function.update c.phase r phase r') := by
  by_cases hr : r' = r
  · subst hr
    rwa [Function.update_self]
  · rw [Function.update_of_ne hr]
    exact h.readers r'

omit [DecidableEq ρ] in
theorem Safe.record {c : Config ρ ε Q κ} (h : sys.Safe c) {a : Answered ε Q κ}
    (ha : sys.Snapshot a) : ∀ a' ∈ c.answers ++ [a], sys.Snapshot a' := by
  intro a' hm
  rcases List.mem_append.mp hm with hm | hm
  · exact h.answers a' hm
  · rwa [List.mem_singleton.mp hm]

/-- Printing the next cell prints a longer beginning. -/
theorem printed_next {cells printed : List κ} {cell : κ} (hp : printed <+: cells)
    (hc : cells[printed.length]? = some cell) : printed ++ [cell] <+: cells := by
  obtain ⟨more, hmore⟩ := hp
  rw [← hmore, List.getElem?_append_right (Nat.le_refl _), Nat.sub_self] at hc
  cases more with
  | nil => simp at hc
  | cons first tail =>
    have hfirst : first = cell := by
      simpa using hc
    use tail
    rw [← hmore, hfirst, List.append_assoc, List.singleton_append]

theorem Safe.step {c c' : Config ρ ε Q κ} (h : sys.Safe c) (hs : sys.Step c c') : sys.Safe c' := by
  cases hs with
  | write e ht hl =>
    exact ⟨ht, fun r => (h.readers r).write e ht fun ha => hl ha r, h.answers⟩
  | request r q hr => exact ⟨h.trace, update_safe h r trivial, h.answers⟩
  | enter r q hr hl => exact ⟨h.trace, update_safe h r hl, h.answers⟩
  | refuse r q hr hs =>
    have hfree : sys.lock.held c.log = false := by
      have hsafe := h.readers r
      rw [hr] at hsafe
      exact hsafe
    exact ⟨h.trace, update_safe h r hfree, h.record ⟨⟨h.trace, hfree⟩, fun _ => hs, nofun⟩⟩
  | serve r q hr hs =>
    have hfree : sys.lock.held c.log = false := by
      have hsafe := h.readers r
      rw [hr] at hsafe
      exact hsafe
    exact ⟨h.trace, update_safe h r ⟨hfree, ⟨h.trace, hfree⟩, hs, rfl, List.nil_prefix⟩,
      h.answers⟩
  | print r q tested printed cell hr hc =>
    have hsafe := h.readers r
    rw [hr] at hsafe
    obtain ⟨hfree, htested, hserves, hcells, hp⟩ := hsafe
    exact ⟨h.trace, update_safe h r ⟨hfree, htested, hserves, hcells, printed_next hp hc⟩,
      h.answers⟩
  | finish r q tested printed hr hc =>
    have hsafe := h.readers r
    rw [hr] at hsafe
    obtain ⟨hfree, htested, hserves, hcells, hp⟩ := hsafe
    have hall : printed = sys.cells (sys.now tested) q := by
      rw [hcells]
      exact hp.eq_of_length_le (List.getElem?_eq_none_iff.mp hc)
    have hserved : ∀ cells, some printed = some cells →
        sys.serves (sys.now tested) = true ∧ cells = sys.cells (sys.now tested) q := by
      rintro cells ⟨⟩
      exact ⟨hserves, hall⟩
    exact ⟨h.trace, update_safe h r hfree, h.record ⟨htested, nofun, hserved⟩⟩
  | leave r hr => exact ⟨h.trace, update_safe h r trivial, h.answers⟩

theorem Reachable.safe {c : Config ρ ε Q κ} (h : sys.Reachable c) : sys.Safe c := by
  induction h with
  | start => exact ⟨sys.traces_nil, fun _ => trivial, nofun⟩
  | step _ hs ih => exact ih.step hs

/-- The writer can run alone. -/
theorem reachable_alone (log : List ε) (h : sys.traces log) :
    sys.Reachable (⟨log, fun _ => .idle, []⟩ : Config ρ ε Q κ) := by
  induction log using List.reverseRecOn with
  | nil => exact .start
  | append_singleton log e ih =>
    exact (ih (sys.traces_init log e h)).step (.write _ e h fun _ _ => rfl)

/-- A request that runs alone prints all its cells. -/
theorem reachable_printed {r : ρ} {q : Q} {log : List ε} {printed rest : List κ}
    (hcells : printed ++ rest = sys.cells (sys.now log) q) {phase : ρ → Phase ε Q κ}
    (hr : phase r = .printing q log printed) (hreach : sys.Reachable ⟨log, phase, []⟩) :
    ∃ phase' : ρ → Phase ε Q κ, phase' r = .printing q log (printed ++ rest) ∧
      sys.Reachable ⟨log, phase', []⟩ := by
  induction rest generalizing printed phase with
  | nil => exact ⟨phase, by rwa [List.append_nil], hreach⟩
  | cons cell rest ih =>
    have hcell : (sys.cells (sys.now log) q)[printed.length]? = some cell := by
      rw [← hcells, List.getElem?_append_right (Nat.le_refl _), Nat.sub_self]
      rfl
    have hnext := hreach.step (.print _ r q log printed cell hr hcell)
    obtain ⟨phase', hr', hreach'⟩ := ih (by simpa using hcells) (Function.update_self ..) hnext
    exact ⟨phase', by simpa using hr', hreach'⟩

/-- A request that runs alone is answered. -/
theorem reachable_answered (r : ρ) (q : Q) {log : List ε} (h : sys.Free log) :
    ∃ c : Config ρ ε Q κ, sys.Reachable c ∧
      c.answers = [⟨q, log,
        if sys.serves (sys.now log) then some (sys.cells (sys.now log) q) else none⟩] := by
  have hrequest := (reachable_alone log h.trace).step (.request _ r q rfl)
  have henter := hrequest.step (.enter _ r q (Function.update_self ..) h.free)
  cases hs : sys.serves (sys.now log) with
  | false =>
    have hrefuse := henter.step (.refuse _ r q (Function.update_self ..) hs)
    exact ⟨_, hrefuse, rfl⟩
  | true =>
    have hserve := henter.step (.serve _ r q (Function.update_self ..) hs)
    obtain ⟨phase, hr, hreach⟩ := reachable_printed (List.nil_append _) (Function.update_self ..)
      hserve
    have hfinish := hreach.step (.finish _ r q log _ hr (by simp))
    exact ⟨_, hfinish, rfl⟩

end System
end StatsProxy.ReadersWriter

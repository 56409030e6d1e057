import StatsProxy.Library.Separation
import Mathlib.Data.List.Basic

/-! Tail queues: a head with the addresses of the first element and of the last link, and
elements that hold the next element and the address of the link that leads to them. A queue
owns its elements; each operation is proved on the list it stands for. -/
namespace StatsProxy.TailQueue
open Separation

variable {χ α τ β : Type}

/-- The address of a link: the first field of a head, or the next field of an element. -/
inductive Link (χ : Type) where
  | first (q : χ)
  | next (p : Nat)
deriving DecidableEq

structure Head (χ : Type) where
  first : Option Nat
  last : Option (Link χ)
deriving DecidableEq

structure Node (χ α : Type) where
  next : Option Nat
  prev : Option (Link χ)
  value : α
deriving DecidableEq

/-- What a cell holds; there may be other blocks than elements. -/
inductive Cell (χ α τ : Type) where
  | head (head : Head χ)
  | node (node : Node χ α)
  | other (t : τ)
deriving DecidableEq

abbrev Code (χ α τ β : Type) := Command χ (Cell χ α τ) β
abbrev Claim (χ α τ : Type) := Assertion (Address χ) (Cell χ α τ)

/-- Access through a pointer that points nowhere. -/
def undefined : Code χ α τ β := fun _ => none

def deref : Option β → Code χ α τ β
  | some p => pure p
  | none => undefined

def readHead (q : χ) : Code χ α τ (Head χ) := do
  match ← read (.static q) with
  | .head head => return head
  | _ => undefined

def readNode (p : Nat) : Code χ α τ (Node χ α) := do
  match ← read (.block p) with
  | .node node => return node
  | _ => undefined

section

variable [DecidableEq χ]

def modifyHead (q : χ) (f : Head χ → Head χ) : Code χ α τ Unit := do
  let head ← readHead q
  write (.static q) (.head (f head))

def modifyNode (p : Nat) (f : Node χ α → Node χ α) : Code χ α τ Unit := do
  let node ← readNode p
  write (.block p) (.node (f node))

def storeLink (link : Link χ) (p : Option Nat) : Code χ α τ Unit :=
  match link with
  | .first q => modifyHead q ({ · with first := p })
  | .next n => modifyNode n ({ · with next := p })

/-- `TAILQ_INIT` -/
def init (q : χ) : Code χ α τ Unit := write (.static q) (.head ⟨none, some (.first q)⟩)

/-- `TAILQ_INSERT_TAIL` -/
def insertTail (q : χ) (elm : Nat) : Code χ α τ Unit := do
  modifyNode elm ({ · with next := none })
  let head ← readHead q
  modifyNode elm ({ · with prev := head.last })
  storeLink (← deref head.last) (some elm)
  modifyHead q ({ · with last := some (.next elm) })

/-- The first statement of `TAILQ_REMOVE`. -/
def unlinkPrev (q : χ) (elm : Node χ α) : Code χ α τ Unit :=
  match elm.next with
  | some next => modifyNode next ({ · with prev := elm.prev })
  | none => modifyHead q ({ · with last := elm.prev })

/-- `TAILQ_REMOVE` -/
def remove (q : χ) (elm : Nat) : Code χ α τ Unit := do
  unlinkPrev q (← readNode elm)
  let node ← readNode elm
  storeLink (← deref node.prev) node.next

/-- `TAILQ_FIRST` -/
def first (q : χ) : Code χ α τ (Option Nat) := Head.first <$> readHead q

/-- `TAILQ_NEXT` -/
def next (elm : Nat) : Code χ α τ (Option Nat) := Node.next <$> readNode elm

/-- The loop of `TAILQ_FOREACH` from an element on, within so many steps. -/
def forEachFrom (body : Nat → β → Code χ α τ β) : Nat → Option Nat → β → Code χ α τ β
  | 0, _, _ => undefined
  | _+1, none, b => return b
  | steps+1, some elm, b => do
    let b ← body elm b
    forEachFrom body steps (← next elm) b

/-- `TAILQ_FOREACH` -/
def forEach (steps : Nat) (q : χ) (b : β) (body : Nat → β → Code χ α τ β) : Code χ α τ β := do
  forEachFrom body steps (← first q) b

end

/-- The first element, or what comes after all of them. -/
def firstOf : List (Nat × α) → Option Nat → Option Nat
  | [], after => after
  | (p, _) :: _, _ => some p

/-- The link behind the elements. -/
def endLink : Link χ → List (Nat × α) → Link χ
  | link, [] => link
  | _, (p, _) :: elms => endLink (.next p) elms

def headCell (q : χ) (head : Head χ) : Claim χ α τ := cell (.static q) (.head head)
def nodeCell (p : Nat) (node : Node χ α) : Claim χ α τ := cell (.block p) (.node node)

/-- Elements in a row: a link leads to the first and another one on from the last. -/
def segment : Link χ → List (Nat × α) → Option Nat → Claim χ α τ
  | _, [], _ => 1
  | link, (p, v) :: elms, after =>
    nodeCell p ⟨firstOf elms after, some link, v⟩ * segment (.next p) elms after

/-- A queue and the elements it owns. -/
def queue (q : χ) (elms : List (Nat × α)) : Claim χ α τ :=
  headCell q ⟨firstOf elms none, some (endLink (.first q) elms)⟩ * segment (.first q) elms none

section

variable {elms front back : List (Nat × α)} {p : Nat} {v : α} {after : Option Nat} {link : Link χ}

@[simp] theorem firstOf_nil : firstOf ([] : List (Nat × α)) after = after := rfl
@[simp] theorem firstOf_cons : firstOf ((p, v) :: elms) after = some p := rfl
@[simp] theorem endLink_nil : endLink link ([] : List (Nat × α)) = link := rfl
@[simp] theorem endLink_cons : endLink link ((p, v) :: elms) = endLink (.next p) elms := rfl
@[simp] theorem segment_nil : (segment link [] after : Claim χ α τ) = 1 := rfl
@[simp] theorem segment_cons : (segment link ((p, v) :: elms) after : Claim χ α τ) =
    nodeCell p ⟨firstOf elms after, some link, v⟩ * segment (.next p) elms after := rfl

@[simp] theorem firstOf_append : firstOf (front ++ back) after =
    firstOf front (firstOf back after) := by
  cases front <;> rfl

@[simp] theorem endLink_append : endLink link (front ++ back) =
    endLink (endLink link front) back := by
  induction front generalizing link with
  | nil => rfl
  | cons x front ih => exact ih

/-- Two rows that are linked at the seam. -/
theorem segment_append : (segment link (front ++ back) after : Claim χ α τ) =
    segment link front (firstOf back after) * segment (endLink link front) back after := by
  induction front generalizing link with
  | nil => exact (one_mul _).symm
  | cons x front ih =>
    obtain ⟨p, v⟩ := x
    rw [List.cons_append, segment_cons, segment_cons, ih, firstOf_append, mul_assoc]
    rfl

/-- The parts of a queue at one of its elements. -/
theorem queue_append (q : χ) : (queue q (front ++ (p, v) :: back) : Claim χ α τ) =
    nodeCell p ⟨firstOf back none, some (endLink (.first q) front), v⟩ *
      (headCell q ⟨firstOf front (some p), some (endLink (.next p) back)⟩ *
        segment (.first q) front (some p) * segment (.next p) back none) := by
  rw [queue, segment_append, segment_cons, firstOf_append, firstOf_cons, endLink_append,
    endLink_cons]
  ac_rfl

end

section

variable {P R : Claim χ α τ} {S : β → Claim χ α τ} {q : χ} {head : Head χ} {p : Nat}
  {node : Node χ α}

theorem triple_readHead {k : Head χ → Code χ α τ β}
    (h : Triple (headCell q head * P) (k head) S) :
    Triple (headCell q head * P) (readHead q >>= k) S := by
  unfold readHead
  rw [bind_assoc]
  exact triple_read h

theorem triple_readNode {k : Node χ α → Code χ α τ β}
    (h : Triple (nodeCell p node * P) (k node) S) :
    Triple (nodeCell p node * P) (readNode p >>= k) S := by
  unfold readNode
  rw [bind_assoc]
  exact triple_read h

theorem triple_first {k : Option Nat → Code χ α τ β}
    (h : Triple (headCell q head * P) (k head.first) S) :
    Triple (headCell q head * P) (first q >>= k) S := by
  unfold first
  rw [bind_map_left]
  exact triple_readHead h

theorem triple_firstOf {elms : List (Nat × α)} {k : Option Nat → Code χ α τ β}
    (h : Triple (queue q elms * P) (k (firstOf elms none)) S) :
    Triple (queue q elms * P) (first q >>= k) S := by
  rw [queue, mul_assoc] at h ⊢
  exact triple_first h

theorem triple_next {k : Option Nat → Code χ α τ β}
    (h : Triple (nodeCell p node * P) (k node.next) S) :
    Triple (nodeCell p node * P) (next p >>= k) S := by
  unfold next
  rw [bind_map_left]
  exact triple_readNode h

/-- An element is read where it stands. -/
theorem triple_readElement {elms front back : List (Nat × α)} {v : α}
    {k : Node χ α → Code χ α τ β} (helms : elms = front ++ (p, v) :: back)
    (h : ∀ node : Node χ α, node.value = v → Triple (queue q elms * P) (k node) S) :
    Triple (queue q elms * P) (readNode p >>= k) S := by
  have hnode := h ⟨firstOf back none, some (endLink (.first q) front), v⟩ rfl
  rw [helms, queue_append, mul_assoc] at hnode ⊢
  exact triple_readNode hnode

variable [DecidableEq χ]

theorem triple_modifyHead (f : Head χ → Head χ) :
    Triple (headCell q head : Claim χ α τ) (modifyHead q f) fun _ => headCell q (f head) := by
  unfold modifyHead
  rw [← mul_one (headCell q head)]
  apply triple_readHead
  rw [← bind_pure (write _ _)]
  apply triple_write
  apply triple_pure
  rw [mul_one]
  exact le_refl _

theorem triple_modifyNode (node : Node χ α) (f : Node χ α → Node χ α) :
    Triple (nodeCell p node : Claim χ α τ) (modifyNode p f) fun _ => nodeCell p (f node) := by
  unfold modifyNode
  rw [← mul_one (nodeCell p node)]
  apply triple_readNode
  rw [← bind_pure (write _ _)]
  apply triple_write
  apply triple_pure
  rw [mul_one]
  exact le_refl _

/-- A head of any content becomes that of an empty queue. -/
theorem triple_init : Triple (headCell q head : Claim χ α τ) (init q) fun _ => queue q [] := by
  unfold init
  rw [← mul_one (headCell q head), ← bind_pure (write _ _)]
  apply triple_write
  apply triple_pure
  exact le_refl _

/-- A store to the link behind the elements of a queue. -/
theorem triple_storeLink (elms : List (Nat × α)) (after after' : Option Nat)
    (last : Option (Link χ)) :
    Triple (headCell q ⟨firstOf elms after, last⟩ * segment (.first q) elms after : Claim χ α τ)
      (storeLink (endLink (.first q) elms) after')
      fun _ => headCell q ⟨firstOf elms after', last⟩ * segment (.first q) elms after' := by
  rcases List.eq_nil_or_concat' elms with rfl | ⟨elms, ⟨p, v⟩, rfl⟩
  · exact (triple_modifyHead _).frame _
  · rw [segment_append, segment_append, endLink_append]
    have hnode := (triple_modifyNode (τ := τ) (p := p)
      ⟨after, some (endLink (.first q) elms), v⟩ ({ · with next := after' })).frame
      (headCell q ⟨firstOf (elms ++ [(p, v)]) after, last⟩ * segment (.first q) elms (some p))
    apply (hnode.pre (le_of_eq _)).post
    · intro _
      apply le_of_eq
      simp only [firstOf_append, firstOf_cons, segment_cons, segment_nil, firstOf_nil, mul_one]
      ac_rfl
    · simp only [segment_cons, segment_nil, firstOf_nil, firstOf_cons, firstOf_append, mul_one]
      ac_rfl

/-- The element goes behind the others. -/
theorem triple_insertTail (elms : List (Nat × α)) (node : Node χ α) :
    Triple (queue q elms * nodeCell p node : Claim χ α τ) (insertTail q p)
      fun _ => queue q (elms ++ [(p, node.value)]) := by
  unfold insertTail
  rw [mul_comm (queue q elms)]
  apply triple_call (triple_modifyNode _ _)
  intro _
  rw [mul_comm, queue, mul_assoc]
  apply triple_readHead
  rw [← mul_assoc, mul_comm _ (nodeCell p _)]
  apply triple_call (triple_modifyNode _ _)
  intro _
  rw [mul_comm, deref, pure_bind]
  apply triple_call (triple_storeLink elms none (some p) _)
  intro _
  rw [mul_assoc]
  apply ((triple_modifyHead _).frame _).post
  intro _
  apply le_of_eq
  rw [queue, segment_append]
  simp

/-- What follows an element is led to by another link. -/
theorem triple_unlinkPrev (elm : Node χ α) (elms : List (Nat × α)) (link link' : Link χ)
    (first : Option Nat) (hnext : elm.next = firstOf elms none) (hprev : elm.prev = some link') :
    Triple (headCell q ⟨first, some (endLink link elms)⟩ * segment link elms none : Claim χ α τ)
      (unlinkPrev q elm)
      fun _ => headCell q ⟨first, some (endLink link' elms)⟩ * segment link' elms none := by
  unfold unlinkPrev
  rw [hnext, hprev]
  cases elms with
  | nil => exact (triple_modifyHead _).frame _
  | cons x elms =>
    obtain ⟨n, v⟩ := x
    simp only [firstOf_cons, segment_cons, endLink_cons]
    rw [mul_left_comm, mul_left_comm (headCell _ _)]
    exact (triple_modifyNode _ _).frame _

/-- The element is taken out wherever it stands, and stays allocated. -/
theorem triple_remove (front back : List (Nat × α)) (v : α) :
    Triple (queue q (front ++ (p, v) :: back) : Claim χ α τ) (remove q p) fun _ =>
      queue q (front ++ back) *
        nodeCell p ⟨firstOf back none, some (endLink (.first q) front), v⟩ := by
  unfold remove
  rw [queue_append]
  apply triple_readNode
  have hunlink := triple_unlinkPrev (τ := τ) (q := q)
    ⟨firstOf back none, some (endLink (.first q) front), v⟩ back (.next p)
    (endLink (.first q) front) (firstOf front (some p)) rfl rfl
  refine (triple_call (R := nodeCell p _ * segment (.first q) front (some p)) hunlink
    fun _ => ?_).pre (le_of_eq (by ac_rfl))
  rw [mul_left_comm]
  apply triple_readNode
  rw [deref, pure_bind]
  have hstore := (triple_storeLink (τ := τ) (q := q) front (some p) (firstOf back none)
    (some (endLink (endLink (.first q) front) back))).frame
    (segment (endLink (.first q) front) back none * nodeCell p
      ⟨firstOf back none, some (endLink (.first q) front), v⟩)
  apply (hstore.pre (le_of_eq (by ac_rfl))).post
  intro _
  apply le_of_eq
  rw [queue, segment_append, firstOf_append, endLink_append]
  ac_rfl

omit [DecidableEq χ] in
/-- What the loop does with each element it does with all, if it has enough steps. The
queue is the same throughout. -/
theorem triple_forEach (elms : List (Nat × α)) (body : Nat → β → Code χ α τ β)
    (I : List (Nat × α) → β → Claim χ α τ)
    (hbody : ∀ front p v back b, elms = front ++ (p, v) :: back →
      Triple (queue q elms * I front b) (body p b) fun b => queue q elms * I (front ++ [(p, v)]) b)
    (steps : Nat) (hsteps : elms.length < steps) (b : β) :
    Triple (queue q elms * I [] b) (forEach steps q b body) fun b => queue q elms * I elms b := by
  have hfrom : ∀ (back front : List (Nat × α)) (steps : Nat) (b : β), elms = front ++ back →
      back.length < steps →
      Triple (queue q elms * I front b) (forEachFrom body steps (firstOf back none) b)
        fun b => queue q elms * I elms b := by
    intro back
    induction back with
    | nil =>
      intro front steps b helms hlt
      rw [List.append_nil] at helms
      obtain ⟨steps, rfl⟩ := Nat.exists_eq_add_of_lt hlt
      rw [helms]
      exact triple_pure (le_refl _)
    | cons x back ih =>
      obtain ⟨p, v⟩ := x
      intro front steps b helms hlt
      obtain ⟨steps, rfl⟩ := Nat.exists_eq_add_of_lt (Nat.zero_lt_of_lt hlt)
      rw [Nat.zero_add] at hlt ⊢
      apply triple_bind (hbody front p v back b helms)
      intro b
      have hrest := ih (front ++ [(p, v)]) steps b (by simp [helms])
        (Nat.lt_of_succ_lt_succ hlt)
      have hqueue : (queue q (front ++ (p, v) :: back) : Claim χ α τ) = _ := queue_append q
      rw [← helms] at hqueue
      rw [hqueue, mul_assoc] at hrest ⊢
      exact triple_next hrest
  unfold forEach
  apply triple_firstOf
  exact hfrom elms [] steps b rfl hsteps

end

end StatsProxy.TailQueue

import Mathlib.Data.List.Basic
import Mathlib.Data.List.Induction

/-! Programs that call their environment. A program reads a state and the list
of answers the environment will give; what it does is a list of events, and an
event is all that changes the state. When the answers run out the program is
left waiting in its next call. Every reachable state of an endless program is
the waiting state of some finite list of answers, so a property of all waiting
states is a property of all runs. -/
namespace StatsProxy.Interaction

variable {σ η ε ι α β : Type}

inductive Result (ε ι α : Type) where
  | done : α → List ε → List ι → Result ε ι α
  | waiting : List ε → Result ε ι α
  | failed : List ε → Result ε ι α
deriving DecidableEq

/-- The events of a run, however it stands. -/
def Result.trace : Result ε ι α → List ε
  | .done _ trace _ => trace
  | .waiting trace => trace
  | .failed trace => trace

def Result.prepend (first : List ε) : Result ε ι α → Result ε ι α
  | .done a trace rest => .done a (first ++ trace) rest
  | .waiting trace => .waiting (first ++ trace)
  | .failed trace => .failed (first ++ trace)

@[simp] theorem Result.prepend_nil (r : Result ε ι α) : r.prepend [] = r := by
  cases r <;> rfl

@[simp] theorem Result.prepend_prepend (first second : List ε) (r : Result ε ι α) :
    (r.prepend second).prepend first = r.prepend (first ++ second) := by
  cases r <;> simp [Result.prepend]

theorem Result.trace_prepend (first : List ε) (r : Result ε ι α) :
    (r.prepend first).trace = first ++ r.trace := by
  cases r <;> rfl

/-- What a program returns unread is no more than it was given. -/
@[ext] structure Program (σ ε ι α : Type) where
  exec : σ → List ι → Result ε ι α
  exec_length : ∀ s inputs a trace rest,
    exec s inputs = .done a trace rest → rest.length ≤ inputs.length

namespace Program

/-- The next answer of the environment. -/
def ask : Program σ ε ι ι where
  exec _ inputs := match inputs with
    | [] => .waiting []
    | i :: rest => .done i [] rest
  exec_length _ inputs a trace rest h := by
    cases inputs with
    | nil => contradiction
    | cons i tail =>
      cases h
      exact Nat.le_succ _

def get : Program σ ε ι σ where
  exec s inputs := .done s [] inputs
  exec_length _ _ _ _ _ h := by cases h; exact Nat.le_refl _

def emit (e : ε) : Program σ ε ι Unit where
  exec _ inputs := .done () [e] inputs
  exec_length _ _ _ _ _ h := by cases h; exact Nat.le_refl _

def emits (trace : List ε) : Program σ ε ι Unit where
  exec _ inputs := .done () trace inputs
  exec_length _ _ _ _ _ h := by cases h; exact Nat.le_refl _

/-- An assertion of the program. -/
def assert (p : σ → Bool) : Program σ ε ι Unit where
  exec s inputs := if p s then .done () [] inputs else .failed []
  exec_length s _ _ _ _ h := by
    split at h
    · cases h; exact Nat.le_refl _
    · contradiction

/-- The program does nothing more. -/
def halt : Program σ ε ι α where
  exec _ _ := .waiting []
  exec_length := nofun

/-- The program returns only after an answer. -/
def Asks (m : Program σ ε ι α) : Prop :=
  ∀ s inputs a trace rest, m.exec s inputs = .done a trace rest → rest.length < inputs.length

theorem asks_ask : Asks (ask : Program σ ε ι ι) := by
  intro s inputs a trace rest h
  cases inputs with
  | nil => contradiction
  | cons i tail =>
    cases h
    exact Nat.lt_succ_self _

/-- The program returns only after an event of this kind. -/
def Emits (p : ε → Prop) (m : Program σ ε ι α) : Prop :=
  ∀ s inputs a trace rest, m.exec s inputs = .done a trace rest → ∃ e ∈ trace, p e

theorem emits_emit {p : ε → Prop} {e : ε} (h : p e) :
    Emits p (emit e : Program σ ε ι Unit) := by
  intro s inputs a trace rest hr
  cases hr
  exact ⟨e, List.mem_singleton_self e, h⟩

/-- All events of the program are of this kind. -/
def Within (p : ε → Prop) (m : Program σ ε ι α) : Prop :=
  ∀ s inputs, ∀ e ∈ (m.exec s inputs).trace, p e

theorem Within.imp {p q : ε → Prop} {m : Program σ ε ι α} (h : Within p m)
    (hpq : ∀ e, p e → q e) : Within q m :=
  fun s inputs e he => hpq e (h s inputs e he)

/-- The events of a run that has returned. -/
theorem within_done {p : ε → Prop} {m : Program σ ε ι α} (hm : Within p m) {s : σ}
    {inputs rest : List ι} {a : α} {trace : List ε} (h : m.exec s inputs = .done a trace rest) :
    ∀ e ∈ trace, p e := by
  have htrace := hm s inputs
  rwa [h] at htrace

theorem within_ask {p : ε → Prop} : Within p (ask : Program σ ε ι ι) := by
  intro s inputs
  cases inputs <;> exact nofun

theorem within_get {p : ε → Prop} : Within p (get : Program σ ε ι σ) := nofun

theorem within_assert {p : ε → Prop} (q : σ → Bool) :
    Within p (assert q : Program σ ε ι Unit) := by
  intro s inputs e he
  simp only [assert] at he
  split at he <;> cases he

theorem within_halt {p : ε → Prop} : Within p (halt : Program σ ε ι α) := nofun

theorem within_emit {p : ε → Prop} {e : ε} (h : p e) : Within p (emit e : Program σ ε ι Unit) := by
  intro s inputs e' he
  rw [List.mem_singleton.mp he]
  exact h

theorem within_emits {p : ε → Prop} {trace : List ε} (h : ∀ e ∈ trace, p e) :
    Within p (emits trace : Program σ ε ι Unit) :=
  fun _ _ => h

end Program

/-- What an event does to a state. -/
class Machine (σ : Type) (ε : outParam Type) where
  after : σ → ε → σ

/-- A history variable is a machine over the same events. -/
instance [Machine σ ε] [Machine η ε] : Machine (σ × η) ε where
  after x e := (Machine.after x.1 e, Machine.after x.2 e)

/-- The events themselves, as a history variable. -/
instance : Machine (List ε) ε where
  after log e := log ++ [e]

variable [Machine σ ε] [Machine η ε]

def run (s : σ) (trace : List ε) : σ := trace.foldl Machine.after s

@[simp] theorem run_nil (s : σ) : run s ([] : List ε) = s := rfl

@[simp] theorem run_cons (s : σ) (e : ε) (trace : List ε) :
    run s (e :: trace) = run (Machine.after s e) trace := rfl

@[simp] theorem run_append (s : σ) (left right : List ε) :
    run s (left ++ right) = run (run s left) right :=
  List.foldl_append

@[simp] theorem run_prod (x : σ × η) (trace : List ε) :
    run x trace = (run x.1 trace, run x.2 trace) := by
  induction trace generalizing x with
  | nil => rfl
  | cons e trace ih => exact ih _

@[simp] theorem run_log (log trace : List ε) : run log trace = log ++ trace := by
  induction trace generalizing log with
  | nil => simp
  | cons e trace ih =>
    rw [run_cons, ih]
    simp [Machine.after]

/-- `P` holds of each event of a log, given the events before it. -/
def AtEach (P : List ε → ε → Prop) (log : List ε) : Prop :=
  ∀ before e after, log = before ++ e :: after → P before e

section

variable {P : List ε → ε → Prop} {log more : List ε}
omit [Machine σ ε]

theorem atEach_nil : AtEach P [] := by
  intro before e after h
  simp at h

theorem atEach_snoc {e : ε} : AtEach P (log ++ [e]) ↔ AtEach P log ∧ P log e := by
  constructor
  · intro h
    exact ⟨fun before e' after he => h before e' (after ++ [e]) (by simp [he]), h log e [] rfl⟩
  · rintro ⟨hlog, hlast⟩ before e' after he
    rcases List.eq_nil_or_concat' after with rfl | ⟨front, last, rfl⟩
    · obtain ⟨hl, he⟩ := List.append_inj' he rfl
      rwa [← hl, ← List.singleton_inj.mp he]
    · rw [← List.cons_append, ← List.append_assoc] at he
      exact hlog before e' front (List.append_inj' he rfl).1

theorem atEach_append :
    AtEach P (log ++ more) ↔ AtEach P log ∧ AtEach (fun before e => P (log ++ before) e) more := by
  induction more using List.reverseRecOn with
  | nil => simp [atEach_nil]
  | append_singleton more e ih => rw [← List.append_assoc, atEach_snoc, ih, atEach_snoc, and_assoc]

theorem atEach_cons {e : ε} :
    AtEach P (e :: log) ↔ P [] e ∧ AtEach (fun before => P (e :: before)) log := by
  rw [← List.singleton_append, atEach_append, ← List.nil_append [e], atEach_snoc]
  simp [atEach_nil]

instance decidableAtEach {P : List ε → ε → Prop} [∀ before e, Decidable (P before e)] :
    (log : List ε) → Decidable (AtEach P log)
  | [] => .isTrue atEach_nil
  | e :: log =>
    have := @decidableAtEach (fun before => P (e :: before)) _ log
    decidable_of_iff _ atEach_cons.symm

theorem AtEach.front (h : AtEach P log) (hp : more <+: log) : AtEach P more := by
  obtain ⟨back, rfl⟩ := hp
  exact (atEach_append.mp h).1

theorem atEach_of_mem (h : ∀ e ∈ log, ∀ before, P before e) : AtEach P log := by
  intro before e after he
  exact h e (by simp [he]) before

end

namespace Program

theorem bind_length {m : Program σ ε ι α} {k : α → Program σ ε ι β} {s : σ} {inputs : List ι}
    {b : β} {trace : List ε} {rest : List ι}
    (h : (match m.exec s inputs with
      | .done a trace rest => ((k a).exec (run s trace) rest).prepend trace
      | .waiting trace => .waiting trace
      | .failed trace => .failed trace) = Result.done b trace rest) :
    ∃ a first middle last, m.exec s inputs = .done a first middle ∧
      (k a).exec (run s first) middle = .done b last rest := by
  cases hm : m.exec s inputs with
  | waiting t => simp [hm] at h
  | failed t => simp [hm] at h
  | done a first middle =>
    simp only [hm] at h
    cases hk : (k a).exec (run s first) middle with
    | waiting t => simp [hk, Result.prepend] at h
    | failed t => simp [hk, Result.prepend] at h
    | done b' last rest' =>
      simp only [hk, Result.prepend, Result.done.injEq] at h
      obtain ⟨rfl, -, rfl⟩ := h
      exact ⟨a, first, middle, last, rfl, hk⟩

instance : Monad (Program σ ε ι) where
  pure a := ⟨fun _ inputs => .done a [] inputs, fun _ _ _ _ _ h => by
    cases h; exact Nat.le_refl _⟩
  bind m k := ⟨fun s inputs => match m.exec s inputs with
    | .done a trace rest => ((k a).exec (run s trace) rest).prepend trace
    | .waiting trace => .waiting trace
    | .failed trace => .failed trace, fun _ _ _ _ _ h => by
      obtain ⟨a, first, middle, last, hm, hk⟩ := bind_length h
      exact Nat.le_trans ((k a).exec_length _ _ _ _ _ hk) (m.exec_length _ _ _ _ _ hm)⟩

@[simp] theorem pure_exec (a : α) (s : σ) (inputs : List ι) :
    (pure a : Program σ ε ι α).exec s inputs = .done a [] inputs := rfl

theorem bind_exec (m : Program σ ε ι α) (k : α → Program σ ε ι β) (s : σ) (inputs : List ι) :
    (m >>= k).exec s inputs = match m.exec s inputs with
      | .done a trace rest => ((k a).exec (run s trace) rest).prepend trace
      | .waiting trace => .waiting trace
      | .failed trace => .failed trace := rfl

theorem bind_pure_left (a : α) (k : α → Program σ ε ι β) : pure a >>= k = k a := by
  ext s inputs
  exact Result.prepend_nil _

theorem bind_bind {γ : Type} (m : Program σ ε ι α) (k : α → Program σ ε ι β)
    (l : β → Program σ ε ι γ) : m >>= k >>= l = m >>= fun a => k a >>= l := by
  ext s inputs
  simp only [bind_exec]
  cases m.exec s inputs with
  | waiting trace => rfl
  | failed trace => rfl
  | done a trace rest =>
    dsimp only
    cases hk : (k a).exec (run s trace) rest with
    | waiting trace' => rfl
    | failed trace' => rfl
    | done b trace' rest' =>
      change ((l b).exec (run s (trace ++ trace')) rest').prepend (trace ++ trace') = _
      rw [run_append, ← Result.prepend_prepend]

theorem Asks.bind {m : Program σ ε ι α} (hm : Asks m) (k : α → Program σ ε ι β) :
    Asks (m >>= k) := by
  intro s inputs b trace rest h
  obtain ⟨a, first, middle, last, hm', hk⟩ := bind_length h
  exact Nat.lt_of_le_of_lt ((k a).exec_length _ _ _ _ _ hk) (hm _ _ _ _ _ hm')

theorem asks_bind (m : Program σ ε ι α) {k : α → Program σ ε ι β} (hk : ∀ a, Asks (k a)) :
    Asks (m >>= k) := by
  intro s inputs b trace rest h
  obtain ⟨a, first, middle, last, hm, hk'⟩ := bind_length h
  exact Nat.lt_of_lt_of_le (hk a _ _ _ _ _ hk') (m.exec_length _ _ _ _ _ hm)

theorem bind_done {m : Program σ ε ι α} {k : α → Program σ ε ι β} {s : σ} {inputs : List ι}
    {b : β} {trace : List ε} {rest : List ι} (h : (m >>= k).exec s inputs = .done b trace rest) :
    ∃ a first middle last, m.exec s inputs = .done a first middle ∧
      (k a).exec (run s first) middle = .done b last rest ∧ trace = first ++ last := by
  rw [bind_exec] at h
  obtain ⟨a, first, middle, last, hm, hk⟩ := bind_length h
  simp only [hm, hk, Result.prepend, Result.done.injEq] at h
  exact ⟨a, first, middle, last, hm, hk, h.2.1.symm⟩

theorem Emits.bind {p : ε → Prop} {m : Program σ ε ι α} (hm : Emits p m)
    (k : α → Program σ ε ι β) : Emits p (m >>= k) := by
  intro s inputs b trace rest h
  obtain ⟨a, first, middle, last, hm', -, rfl⟩ := bind_done h
  obtain ⟨e, he, hp⟩ := hm _ _ _ _ _ hm'
  exact ⟨e, List.mem_append_left last he, hp⟩

theorem emits_bind {p : ε → Prop} (m : Program σ ε ι α) {k : α → Program σ ε ι β}
    (hk : ∀ a, Emits p (k a)) : Emits p (m >>= k) := by
  intro s inputs b trace rest h
  obtain ⟨a, first, middle, last, -, hk', rfl⟩ := bind_done h
  obtain ⟨e, he, hp⟩ := hk a _ _ _ _ _ hk'
  exact ⟨e, List.mem_append_right first he, hp⟩

theorem within_pure {p : ε → Prop} (a : α) : Within p (pure a : Program σ ε ι α) := nofun

theorem within_bind {p : ε → Prop} {m : Program σ ε ι α} {k : α → Program σ ε ι β}
    (hm : Within p m) (hk : ∀ a, Within p (k a)) : Within p (m >>= k) := by
  intro s inputs e he
  have hfirst := hm s inputs
  rw [bind_exec] at he
  cases hr : m.exec s inputs with
  | waiting trace =>
    rw [hr] at he hfirst
    exact hfirst e he
  | failed trace =>
    rw [hr] at he hfirst
    exact hfirst e he
  | done a trace rest =>
    rw [hr] at he hfirst
    rw [Result.trace_prepend, List.mem_append] at he
    rcases he with he | he
    · exact hfirst e he
    · exact hk a _ _ e he

def loopFuel (body : β → Program σ ε ι (β ⊕ α)) : Nat → β → Program σ ε ι α
  | 0, _ => ⟨fun _ _ => .waiting [], nofun⟩
  | fuel+1, b => do
    match ← body b with
    | .inl next => loopFuel body fuel next
    | .inr a => pure a

/-- `body` is run until it returns on the right. A loop whose every repeated
iteration uses an answer never runs out of fuel (`loop_unfold`). -/
def loop (body : β → Program σ ε ι (β ⊕ α)) (b : β) : Program σ ε ι α where
  exec s inputs := (loopFuel body (inputs.length + 1) b).exec s inputs
  exec_length _ inputs := (loopFuel body (inputs.length + 1) b).exec_length _ inputs

/-- Every repeated iteration uses an answer. -/
def Productive (body : β → Program σ ε ι (β ⊕ α)) : Prop :=
  ∀ b s inputs next trace rest, (body b).exec s inputs = .done (.inl next) trace rest →
    rest.length < inputs.length

theorem within_loop {p : ε → Prop} {body : β → Program σ ε ι (β ⊕ α)}
    (hbody : ∀ b, Within p (body b)) (b : β) : Within p (loop body b) := by
  have hfuel : ∀ fuel b, Within p (loopFuel body fuel b) := by
    intro fuel
    induction fuel with
    | zero => exact fun _ => nofun
    | succ fuel ih =>
      intro b
      apply within_bind (hbody b)
      intro r
      cases r with
      | inl next => exact ih next
      | inr a => exact within_pure a
  intro s inputs
  exact hfuel (inputs.length + 1) b s inputs

theorem loopFuel_stable {body : β → Program σ ε ι (β ⊕ α)} (hp : Productive body)
    (fuel : Nat) (b : β) (s : σ) (inputs : List ι) (h : inputs.length < fuel) :
    (loopFuel body fuel b).exec s inputs =
      (loopFuel body (inputs.length + 1) b).exec s inputs := by
  induction fuel using Nat.strongRecOn generalizing b s inputs with
  | ind fuel ih =>
    cases fuel with
    | zero => omega
    | succ fuel =>
      simp only [loopFuel, bind_exec]
      cases hb : (body b).exec s inputs with
      | waiting trace => rfl
      | failed trace => rfl
      | done r trace rest =>
        cases r with
        | inr a => rfl
        | inl next =>
          have hlt : rest.length < inputs.length := hp b s inputs next trace rest hb
          dsimp only
          rw [ih fuel (by omega) next _ rest (by omega)]
          by_cases he : inputs.length = fuel
          · rw [he, ih fuel (by omega) next _ rest (by omega)]
          · rw [ih inputs.length (by omega) next _ rest hlt]

/-- The loop is the `while` loop it models: one iteration, then the loop. -/
theorem loop_unfold {body : β → Program σ ε ι (β ⊕ α)} (hp : Productive body) (b : β) :
    loop body b = body b >>= fun r => match r with
      | .inl next => loop body next
      | .inr a => pure a := by
  ext s inputs
  simp only [loop, loopFuel, bind_exec]
  cases hb : (body b).exec s inputs with
  | waiting trace => rfl
  | failed trace => rfl
  | done r trace rest =>
    cases r with
    | inr a => rfl
    | inl next =>
      have hlt : rest.length < inputs.length := hp b s inputs next trace rest hb
      dsimp only
      rw [loopFuel_stable hp inputs.length next _ rest hlt]
      rfl

end Program

/-! Weakest preconditions over the state with its history variable. `I` is
required wherever the program may be left waiting, `Q` wherever it returns; an
assertion of the program must hold. -/

def Result.Meets (x : σ × η) (I : σ × η → Prop) (Q : α → σ × η → Prop) : Result ε ι α → Prop
  | .done a trace _ => Q a (run x trace)
  | .waiting trace => I (run x trace)
  | .failed _ => False

def wp (I : σ × η → Prop) (m : Program σ ε ι α) (Q : α → σ × η → Prop) (x : σ × η) : Prop :=
  ∀ inputs, (m.exec x.1 inputs).Meets x I Q

variable {I : σ × η → Prop} {x : σ × η}

theorem Result.Meets.imp {I' : σ × η → Prop} {Q Q' : α → σ × η → Prop}
    (hi : ∀ y, I y → I' y) (hq : ∀ a y, Q a y → Q' a y) :
    ∀ {r : Result ε ι α}, r.Meets x I Q → r.Meets x I' Q'
  | .done a _ _, h => hq a _ h
  | .waiting _, h => hi _ h
  | .failed _, h => h

theorem Result.Meets.prepend {Q : α → σ × η → Prop} {first : List ε} {r : Result ε ι α}
    (h : r.Meets (run x first) I Q) : (r.prepend first).Meets x I Q := by
  cases r with
  | done a t rest => simpa only [Result.Meets, Result.prepend, run_append] using h
  | waiting t => simpa only [Result.Meets, Result.prepend, run_append] using h
  | failed t => exact h

theorem wp_mono {I' : σ × η → Prop} {m : Program σ ε ι α} {Q Q' : α → σ × η → Prop}
    (h : wp I m Q x) (hi : ∀ y, I y → I' y) (hq : ∀ a y, Q a y → Q' a y) : wp I' m Q' x :=
  fun inputs => (h inputs).imp hi hq

theorem wp_post {m : Program σ ε ι α} {Q Q' : α → σ × η → Prop}
    (h : wp I m Q x) (hq : ∀ a y, Q a y → Q' a y) : wp I m Q' x :=
  wp_mono h (fun _ hi => hi) hq

theorem wp_pure {Q : α → σ × η → Prop} {a : α} (h : Q a x) :
    wp I (pure a : Program σ ε ι α) Q x :=
  fun _ => h

theorem wp_bind {m : Program σ ε ι α} {k : α → Program σ ε ι β} {Q : β → σ × η → Prop}
    (h : wp I m (fun a y => wp I (k a) Q y) x) : wp I (m >>= k) Q x := by
  intro inputs
  have hm := h inputs
  rw [Program.bind_exec]
  cases hr : m.exec x.1 inputs with
  | done a trace rest =>
    rw [hr] at hm
    have hk := hm rest
    rw [run_prod] at hk
    exact Result.Meets.prepend (by rwa [run_prod])
  | waiting trace =>
    rw [hr] at hm
    exact hm
  | failed trace =>
    rw [hr] at hm
    exact hm

theorem wp_map {m : Program σ ε ι α} {f : α → β} {Q : β → σ × η → Prop}
    (h : wp I m (fun a y => Q (f a) y) x) : wp I (f <$> m) Q x :=
  wp_bind (wp_post h fun _ _ hq => wp_pure hq)

theorem wp_ask {Q : ι → σ × η → Prop} (hI : I x) (h : ∀ i, Q i x) :
    wp I (Program.ask : Program σ ε ι ι) Q x := by
  intro inputs
  cases inputs with
  | nil => exact hI
  | cons i rest => exact h i

theorem wp_get {Q : σ → σ × η → Prop} (h : Q x.1 x) :
    wp I (Program.get : Program σ ε ι σ) Q x :=
  fun _ => h

theorem wp_emit {e : ε} {Q : Unit → σ × η → Prop} (h : Q () (Machine.after x e)) :
    wp I (Program.emit e : Program σ ε ι Unit) Q x :=
  fun _ => h

theorem wp_emits {trace : List ε} {Q : Unit → σ × η → Prop} (h : Q () (run x trace)) :
    wp I (Program.emits trace : Program σ ε ι Unit) Q x :=
  fun _ => h

theorem wp_halt {Q : α → σ × η → Prop} (h : I x) : wp I (Program.halt : Program σ ε ι α) Q x :=
  fun _ => h

theorem wp_assert {p : σ → Bool} {Q : Unit → σ × η → Prop} (hp : p x.1 = true) (h : Q () x) :
    wp I (Program.assert p : Program σ ε ι Unit) Q x := by
  intro inputs
  simp only [Program.assert, hp, if_true]
  exact h

/-- The loop rule. The loop invariant implies `I`: a loop may be left waiting
between two iterations. -/
theorem wp_loop {body : β → Program σ ε ι (β ⊕ α)} {Q : α → σ × η → Prop}
    (Inv : β → σ × η → Prop) (hI : ∀ b y, Inv b y → I y)
    (hbody : ∀ b y, Inv b y → wp I (body b)
      (fun r y' => match r with
        | .inl next => Inv next y'
        | .inr a => Q a y') y)
    (b : β) (h : Inv b x) : wp I (Program.loop body b) Q x := by
  intro inputs
  suffices hfuel : ∀ fuel b (y : σ × η) inputs, Inv b y →
      ((Program.loopFuel body fuel b).exec y.1 inputs).Meets y I Q from
    hfuel (inputs.length + 1) b x inputs h
  intro fuel
  induction fuel with
  | zero => exact fun b y _ hs => hI b y hs
  | succ fuel ih =>
    intro b y inputs hs
    have hb := hbody b y hs inputs
    simp only [Program.loopFuel, Program.bind_exec]
    cases hr : (body b).exec y.1 inputs with
    | waiting trace =>
      rw [hr] at hb
      exact hb
    | failed trace =>
      rw [hr] at hb
      exact hb
    | done r trace rest =>
      rw [hr] at hb
      apply Result.Meets.prepend
      cases r with
      | inl next =>
        have hn := ih next (run y trace) rest hb
        rwa [run_prod] at hn ⊢
      | inr a => exact hb

/-- A run only appends to its log. -/
theorem wp_log {I : σ × List ε → Prop} {x : σ × List ε} {m : Program σ ε ι α}
    {Q : α → σ × List ε → Prop} (h : wp I m Q x) :
    wp I m (fun a y => Q a y ∧ x.2 <+: y.2) x := by
  intro inputs
  have hm := h inputs
  cases hr : m.exec x.1 inputs with
  | done a trace rest =>
    rw [hr] at hm
    refine ⟨hm, trace, ?_⟩
    rw [run_prod, run_log]
  | waiting trace =>
    rw [hr] at hm
    exact hm
  | failed trace =>
    rw [hr] at hm
    exact hm

/-- `m` keeps `I`: wherever it waits and wherever it returns. -/
def Keeps (I : σ × η → Prop) (m : Program σ ε ι α) : Prop :=
  ∀ x, I x → wp I m (fun _ y => I y) x

theorem keeps_pure (a : α) : Keeps I (pure a : Program σ ε ι α) :=
  fun _ h => wp_pure h

theorem keeps_bind {m : Program σ ε ι α} {k : α → Program σ ε ι β}
    (hm : Keeps I m) (hk : ∀ a, Keeps I (k a)) : Keeps I (m >>= k) :=
  fun x h => wp_bind (wp_post (hm x h) fun a y hy => hk a y hy)

theorem keeps_map {m : Program σ ε ι α} (f : α → β) (hm : Keeps I m) : Keeps I (f <$> m) :=
  fun x h => wp_map (hm x h)

theorem keeps_ask : Keeps I (Program.ask : Program σ ε ι ι) :=
  fun _ h => wp_ask h fun _ => h

theorem keeps_emit {e : ε} (he : ∀ x, I x → I (Machine.after x e)) :
    Keeps I (Program.emit e : Program σ ε ι Unit) :=
  fun x h => wp_emit (he x h)

theorem keeps_loop {body : β → Program σ ε ι (β ⊕ α)} (hbody : ∀ b, Keeps I (body b)) (b : β) :
    Keeps I (Program.loop body b) := by
  intro x h
  apply wp_loop (fun _ y => I y) (fun _ _ hy => hy) _ b h
  intro b y hy
  apply wp_post (hbody b y hy)
  intro r y' hy'
  cases r <;> exact hy'

/-- What `wp` says of one run that never returns. -/
theorem run_of_wp {m : Program σ ε ι α} {Q : α → σ × η → Prop} (h : wp I m Q x)
    (hQ : ∀ a y, Q a y → I y) (inputs : List ι) : I (run x (m.exec x.1 inputs).trace) := by
  have hm := h inputs
  cases hr : m.exec x.1 inputs with
  | done a trace rest =>
    rw [hr] at hm
    exact hQ a _ hm
  | waiting trace =>
    rw [hr] at hm
    exact hm
  | failed trace =>
    rw [hr] at hm
    exact hm.elim

end StatsProxy.Interaction

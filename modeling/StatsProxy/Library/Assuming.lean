import StatsProxy.Library.Interaction

/-! Programs under an assumption about their environment. `E` tells which events
the environment allows in a state, and only the runs whose events are all allowed
count. An assertion may fail: what is proved is proved of the run up to there. -/
namespace StatsProxy.Interaction

variable {σ η ε ι α β : Type} [Machine σ ε] [Machine η ε]
variable {E : σ × η → ε → Prop} {I : σ × η → Prop} {x : σ × η}

def Allowed (E : σ × η → ε → Prop) : σ × η → List ε → Prop
  | _, [] => True
  | x, e :: trace => E x e ∧ Allowed E (Machine.after x e) trace

theorem allowed_append {first last : List ε} :
    Allowed E x (first ++ last) ↔ Allowed E x first ∧ Allowed E (run x first) last := by
  induction first generalizing x with
  | nil => simp [Allowed]
  | cons e first ih => simp only [List.cons_append, Allowed, run_cons, ih, and_assoc]

theorem allowed_true (x : σ × η) (trace : List ε) : Allowed (fun _ _ => True) x trace := by
  induction trace generalizing x with
  | nil => trivial
  | cons e trace ih => exact ⟨trivial, ih _⟩

/-- An assumption about each event, given the events before it. -/
theorem allowed_log {P : List ε → ε → Prop} {x : σ × List ε} {trace : List ε} :
    Allowed (fun y e => P y.2 e) x trace ↔ AtEach (fun before e => P (x.2 ++ before) e) trace := by
  induction trace using List.reverseRecOn with
  | nil => simp [Allowed, atEach_nil]
  | append_singleton trace e ih =>
    rw [allowed_append, atEach_snoc, ih]
    simp [Allowed, run_prod]

def Result.Reaches (x : σ × η) (I : σ × η → Prop) (Q : α → σ × η → Prop) : Result ε ι α → Prop
  | .done a trace _ => Q a (run x trace)
  | .waiting trace | .failed trace => I (run x trace)

def wlp (E : σ × η → ε → Prop) (I : σ × η → Prop) (m : Program σ ε ι α)
    (Q : α → σ × η → Prop) (x : σ × η) : Prop :=
  ∀ inputs, Allowed E x (m.exec x.1 inputs).trace → (m.exec x.1 inputs).Reaches x I Q

theorem wlp_post {m : Program σ ε ι α} {Q Q' : α → σ × η → Prop} (h : wlp E I m Q x)
    (hq : ∀ a y, Q a y → Q' a y) : wlp E I m Q' x := by
  intro inputs hallowed
  have hm := h inputs hallowed
  cases hr : m.exec x.1 inputs with
  | done a trace rest =>
    rw [hr] at hm
    exact hq a _ hm
  | waiting trace =>
    rw [hr] at hm
    exact hm
  | failed trace =>
    rw [hr] at hm
    exact hm

theorem wlp_pure {Q : α → σ × η → Prop} {a : α} (h : Q a x) :
    wlp E I (pure a : Program σ ε ι α) Q x :=
  fun _ _ => h

theorem Result.Reaches.prepend {Q : α → σ × η → Prop} {first : List ε} {r : Result ε ι α}
    (h : r.Reaches (run x first) I Q) : (r.prepend first).Reaches x I Q := by
  cases r <;> simpa only [Result.Reaches, Result.prepend, run_append] using h

theorem wlp_bind {m : Program σ ε ι α} {k : α → Program σ ε ι β} {Q : β → σ × η → Prop}
    (h : wlp E I m (fun a y => wlp E I (k a) Q y) x) : wlp E I (m >>= k) Q x := by
  intro inputs hallowed
  have hm := h inputs
  rw [Program.bind_exec] at hallowed ⊢
  cases hr : m.exec x.1 inputs with
  | done a first rest =>
    simp only [hr, Result.trace_prepend, allowed_append] at hallowed hm ⊢
    have hk := hm hallowed.1 rest
    rw [run_prod] at hallowed hk
    apply Result.Reaches.prepend
    rw [run_prod]
    exact hk hallowed.2
  | waiting trace =>
    rw [hr] at hallowed hm
    exact hm hallowed
  | failed trace =>
    rw [hr] at hallowed hm
    exact hm hallowed

theorem wlp_ask {Q : ι → σ × η → Prop} (hI : I x) (h : ∀ i, Q i x) :
    wlp E I (Program.ask : Program σ ε ι ι) Q x := by
  intro inputs _
  cases inputs with
  | nil => exact hI
  | cons i rest => exact h i

theorem wlp_get {Q : σ → σ × η → Prop} (h : Q x.1 x) :
    wlp E I (Program.get : Program σ ε ι σ) Q x :=
  fun _ _ => h

theorem wlp_emit {e : ε} {Q : Unit → σ × η → Prop} (h : E x e → Q () (Machine.after x e)) :
    wlp E I (Program.emit e : Program σ ε ι Unit) Q x :=
  fun _ hallowed => h hallowed.1

theorem wlp_emits {trace : List ε} {Q : Unit → σ × η → Prop}
    (h : Allowed E x trace → Q () (run x trace)) :
    wlp E I (Program.emits trace : Program σ ε ι Unit) Q x :=
  fun _ hallowed => h hallowed

theorem wlp_assert {p : σ → Bool} {Q : Unit → σ × η → Prop} (hI : I x)
    (h : p x.1 = true → Q () x) : wlp E I (Program.assert p : Program σ ε ι Unit) Q x := by
  intro inputs _
  simp only [Program.assert]
  split
  · rename_i hp
    exact h hp
  · exact hI

theorem wlp_loop {body : β → Program σ ε ι (β ⊕ α)} {Q : α → σ × η → Prop}
    (Inv : β → σ × η → Prop) (hI : ∀ b y, Inv b y → I y)
    (hbody : ∀ b y, Inv b y → wlp E I (body b)
      (fun r y' => match r with
        | .inl next => Inv next y'
        | .inr a => Q a y') y)
    (b : β) (h : Inv b x) : wlp E I (Program.loop body b) Q x := by
  suffices hfuel : ∀ fuel b (y : σ × η), Inv b y → wlp E I (Program.loopFuel body fuel b) Q y by
    intro inputs
    exact hfuel (inputs.length + 1) b x h inputs
  intro fuel
  induction fuel with
  | zero => exact fun b y hinv _ _ => hI b y hinv
  | succ fuel ih =>
    intro b y hinv
    rw [Program.loopFuel]
    apply wlp_bind
    apply wlp_post (hbody b y hinv)
    intro r z hz
    cases r with
    | inl next => exact ih next z hz
    | inr a => exact wlp_pure hz

/-- A program keeps what each of its events keeps. -/
theorem wlp_within {p : ε → Prop} {J : σ × η → Prop} {m : Program σ ε ι α}
    (hm : Program.Within p m) (hJ : ∀ y e, J y → p e → J (Machine.after y e))
    (hI : ∀ y, J y → I y) (hx : J x) : wlp E I m (fun _ y => J y) x := by
  have hrun : ∀ trace, (∀ e ∈ trace, p e) → ∀ y, J y → J (run y trace) := by
    intro trace
    induction trace with
    | nil => exact fun _ y hy => hy
    | cons e trace ih =>
      intro hp y hy
      rw [List.forall_mem_cons] at hp
      exact ih hp.2 _ (hJ y e hy hp.1)
  intro inputs _
  have hkept := hrun _ (hm x.1 inputs) x hx
  cases hr : m.exec x.1 inputs with
  | done a trace rest =>
    rw [hr] at hkept
    exact hkept
  | waiting trace =>
    rw [hr] at hkept
    exact hI _ hkept
  | failed trace =>
    rw [hr] at hkept
    exact hI _ hkept

/-- Two properties of what a program returns, one of them about finished runs only. -/
theorem wlp_done {m : Program σ ε ι α} {Q R : α → σ × η → Prop} (h : wlp E I m Q x)
    (hdone : ∀ inputs a trace rest, m.exec x.1 inputs = .done a trace rest → R a (run x trace)) :
    wlp E I m (fun a y => Q a y ∧ R a y) x := by
  intro inputs hallowed
  have hm := h inputs hallowed
  cases hr : m.exec x.1 inputs with
  | done a trace rest =>
    rw [hr] at hm
    exact ⟨hm, hdone _ _ _ _ hr⟩
  | waiting trace =>
    rw [hr] at hm
    exact hm
  | failed trace =>
    rw [hr] at hm
    exact hm

/-- What is proved without an assumption holds under each. -/
theorem wlp_of_wp {m : Program σ ε ι α} {Q : α → σ × η → Prop} (h : wp I m Q x) :
    wlp E I m Q x := by
  intro inputs _
  have hm := h inputs
  cases hr : m.exec x.1 inputs with
  | done a trace rest =>
    rw [hr] at hm
    exact hm
  | waiting trace =>
    rw [hr] at hm
    exact hm
  | failed trace =>
    rw [hr] at hm
    exact hm.elim

/-- A run only appends to its log. -/
theorem wlp_log {E : σ × List ε → ε → Prop} {I : σ × List ε → Prop} {x : σ × List ε}
    {m : Program σ ε ι α} {Q : α → σ × List ε → Prop} (h : wlp E I m Q x) :
    wlp E I m (fun a y => Q a y ∧ x.2 <+: y.2) x := by
  apply wlp_done h
  intro inputs a trace rest _
  rw [run_prod, run_log]
  exact List.prefix_append x.2 trace

/-- A program does not see the log: what it does after an empty log it does after any. -/
theorem wlp_shift {x : σ} {m : Program σ ε ι α} {Q : α → σ × List ε → Prop} (log : List ε)
    (h : wlp (fun _ _ => True) (fun _ => True) m Q (x, [])) :
    wlp (fun _ _ => True) (fun _ => True) m
      (fun a y => ∃ more, y.2 = log ++ more ∧ Q a (y.1, more)) (x, log) := by
  intro inputs _
  have hm := h inputs (allowed_true _ _)
  cases hr : m.exec x inputs with
  | done a trace rest =>
    rw [hr] at hm
    simp only [Result.Reaches, run_prod, run_log, List.nil_append] at hm ⊢
    exact ⟨trace, rfl, hm⟩
  | waiting trace => trivial
  | failed trace => trivial

/-- What `wlp` says of one run that never returns. -/
theorem run_of_wlp {m : Program σ ε ι α} {Q : α → σ × η → Prop} (h : wlp E I m Q x)
    (hQ : ∀ a y, Q a y → I y) {inputs : List ι}
    (hallowed : Allowed E x (m.exec x.1 inputs).trace) :
    I (run x (m.exec x.1 inputs).trace) := by
  have hm := h inputs hallowed
  cases hr : m.exec x.1 inputs with
  | done a trace rest =>
    rw [hr] at hm
    exact hQ a _ hm
  | waiting trace =>
    rw [hr] at hm
    exact hm
  | failed trace =>
    rw [hr] at hm
    exact hm

end StatsProxy.Interaction

import StatsProxy.Library.Assuming

/-! Total correctness on given answers. `Ends m Q x inputs` tells that on these
answers the program returns, and that `Q` holds of what it returns, of the answers
it leaves and of the state. There is one rule for each construct; a loop is run by
its iterations. `Leads` tells what a program has become when it has used some of the
answers, and so also of programs that never return. `Returns` composes: each part of a
program uses up its part of the answers. -/
namespace StatsProxy.Interaction

variable {σ η ε ι α β : Type} [Machine σ ε] [Machine η ε]

def Ends (m : Program σ ε ι α) (Q : α → List ι → σ × η → Prop) (x : σ × η) (inputs : List ι) :
    Prop :=
  ∃ a trace rest, m.exec x.1 inputs = .done a trace rest ∧ Q a rest (run x trace)

section

variable {x : σ × η} {inputs : List ι}

theorem ends_post {m : Program σ ε ι α} {Q Q' : α → List ι → σ × η → Prop}
    (h : Ends m Q x inputs) (hq : ∀ a rest y, Q a rest y → Q' a rest y) : Ends m Q' x inputs := by
  obtain ⟨a, trace, rest, hexec, hend⟩ := h
  exact ⟨a, trace, rest, hexec, hq a rest _ hend⟩

theorem ends_pure {Q : α → List ι → σ × η → Prop} {a : α} (h : Q a inputs x) :
    Ends (pure a : Program σ ε ι α) Q x inputs :=
  ⟨a, [], inputs, rfl, h⟩

theorem ends_ask {Q : ι → List ι → σ × η → Prop} {i : ι} (h : Q i inputs x) :
    Ends (Program.ask : Program σ ε ι ι) Q x (i :: inputs) :=
  ⟨i, [], inputs, rfl, h⟩

theorem ends_get {Q : σ → List ι → σ × η → Prop} (h : Q x.1 inputs x) :
    Ends (Program.get : Program σ ε ι σ) Q x inputs :=
  ⟨x.1, [], inputs, rfl, h⟩

theorem ends_emit {e : ε} {Q : Unit → List ι → σ × η → Prop}
    (h : Q () inputs (Machine.after x e)) :
    Ends (Program.emit e : Program σ ε ι Unit) Q x inputs :=
  ⟨(), [e], inputs, rfl, h⟩

theorem ends_assert {p : σ → Bool} {Q : Unit → List ι → σ × η → Prop} (hp : p x.1 = true)
    (h : Q () inputs x) : Ends (Program.assert p : Program σ ε ι Unit) Q x inputs := by
  refine ⟨(), [], inputs, ?_, h⟩
  simp only [Program.assert, hp, if_true]

theorem ends_bind {m : Program σ ε ι α} {k : α → Program σ ε ι β}
    {Q : β → List ι → σ × η → Prop}
    (h : Ends m (fun a rest y => Ends (k a) Q y rest) x inputs) : Ends (m >>= k) Q x inputs := by
  obtain ⟨a, first, middle, hm, b, last, rest, hk, hend⟩ := h
  rw [run_prod] at hk
  refine ⟨b, first ++ last, rest, ?_, ?_⟩
  · rw [Program.bind_exec, hm]
    dsimp only
    rw [hk]
    rfl
  · rw [run_append]
    exact hend

theorem ends_map {m : Program σ ε ι α} {f : α → β} {Q : β → List ι → σ × η → Prop}
    (h : Ends m (fun a rest y => Q (f a) rest y) x inputs) : Ends (f <$> m) Q x inputs :=
  ends_bind (ends_post h fun _ _ _ => ends_pure)

/-- One iteration, and the loop from there. -/
theorem ends_loop {body : β → Program σ ε ι (β ⊕ α)} (hp : Program.Productive body) {b : β}
    {Q : α → List ι → σ × η → Prop}
    (h : Ends (body b) (fun r rest y => match r with
      | .inl next => Ends (Program.loop body next) Q y rest
      | .inr a => Q a rest y) x inputs) : Ends (Program.loop body b) Q x inputs := by
  rw [Program.loop_unfold hp]
  apply ends_bind
  apply ends_post h
  intro r rest y hr
  cases r with
  | inl next => exact hr
  | inr a => exact ends_pure hr

/-- The log of a run from an empty one is its events. -/
theorem Ends.exec {m : Program σ ε ι α} {w : σ} {a : α} {trace : List ε} {rest : List ι}
    (h : Ends m (fun r left (y : σ × List ε) => r = a ∧ left = rest ∧ y.2 = trace) (w, []) inputs) :
    m.exec w inputs = .done a trace rest := by
  obtain ⟨r, t, left, hexec, rfl, rfl, htrace⟩ := h
  rw [run_prod, run_log, List.nil_append] at htrace
  rwa [← htrace]

end

/-- On these answers the program does `trace`, and goes on as `m'` with the rest. -/
def Leads (m : Program σ ε ι α) (w : σ) (inputs : List ι) (trace : List ε)
    (m' : Program σ ε ι α) (rest : List ι) : Prop :=
  m.exec w inputs = (m'.exec (run w trace) rest).prepend trace

section

variable {m m' m'' : Program σ ε ι α} {w : σ} {inputs rest last : List ι} {trace more : List ε}

theorem Leads.trans (h : Leads m w inputs trace m' rest)
    (h' : Leads m' (run w trace) rest more m'' last) :
    Leads m w inputs (trace ++ more) m'' last := by
  unfold Leads at h h' ⊢
  rw [h, h', Result.prepend_prepend, run_append]

theorem Leads.bind (h : Leads m w inputs trace m' rest) (k : α → Program σ ε ι β) :
    Leads (m >>= k) w inputs trace (m' >>= k) rest := by
  unfold Leads at h ⊢
  rw [Program.bind_exec, h, Program.bind_exec]
  cases m'.exec (run w trace) rest with
  | waiting t => rfl
  | failed t => rfl
  | done a t left =>
    change ((k a).exec (run w (trace ++ t)) left).prepend (trace ++ t) =
      (((k a).exec (run (run w trace) t) left).prepend t).prepend trace
    rw [run_append, Result.prepend_prepend]

/-- A program that returns goes on as what follows it. -/
theorem leads_of_done {a : α} (h : m.exec w inputs = .done a trace rest)
    (k : α → Program σ ε ι β) : Leads (m >>= k) w inputs trace (k a) rest := by
  unfold Leads
  rw [Program.bind_exec, h]

/-- One iteration of a loop. -/
theorem leads_loop {body : β → Program σ ε ι (β ⊕ α)} (hp : Program.Productive body) {b next : β}
    (h : (body b).exec w inputs = .done (.inl next) trace rest) :
    Leads (Program.loop body b) w inputs trace (Program.loop body next) rest := by
  rw [Program.loop_unfold hp]
  exact leads_of_done h _

theorem Leads.done {a : α} (h : Leads m w inputs trace m' rest)
    (h' : m'.exec (run w trace) rest = .done a more last) :
    m.exec w inputs = .done a (trace ++ more) last := by
  unfold Leads at h
  rw [h, h']
  rfl

/-- A program that has come to an unanswered call has not returned. -/
theorem Leads.unfinished (h : Leads m w inputs trace m' []) (hm : Program.Asks m') {a : α}
    {t : List ε} {left : List ι} : m.exec w inputs ≠ .done a t left := by
  unfold Leads at h
  rw [h]
  cases hr : m'.exec (run w trace) [] with
  | waiting t => exact nofun
  | failed t => exact nofun
  | done a t left => exact absurd (hm _ _ _ _ _ hr) (Nat.not_lt_zero _)

end

/-- With these answers, whatever follows them, the program returns `a` in the state `s'`. -/
def Returns (m : Program σ ε ι α) (s : σ) (inputs : List ι) (a : α) (s' : σ) : Prop :=
  ∀ rest, ∃ trace, m.exec s (inputs ++ rest) = .done a trace rest ∧ run s trace = s'

section

variable {m : Program σ ε ι α} {s s' s'' : σ} {inputs more : List ι} {a : α} {b : β}

theorem returns_pure (a : α) (s : σ) : Returns (pure a : Program σ ε ι α) s [] a s :=
  fun _ => ⟨[], rfl, rfl⟩

theorem returns_get (s : σ) : Returns (Program.get : Program σ ε ι σ) s [] s s :=
  fun _ => ⟨[], rfl, rfl⟩

theorem returns_ask (i : ι) (s : σ) : Returns (Program.ask : Program σ ε ι ι) s [i] i s :=
  fun _ => ⟨[], rfl, rfl⟩

theorem returns_emit (e : ε) (s : σ) :
    Returns (Program.emit e : Program σ ε ι Unit) s [] () (Machine.after s e) :=
  fun _ => ⟨[e], rfl, rfl⟩

theorem returns_emits (trace : List ε) (s : σ) :
    Returns (Program.emits trace : Program σ ε ι Unit) s [] () (run s trace) :=
  fun _ => ⟨trace, rfl, rfl⟩

theorem returns_assert {p : σ → Bool} (h : p s = true) :
    Returns (Program.assert p : Program σ ε ι Unit) s [] () s := by
  intro rest
  refine ⟨[], ?_, rfl⟩
  simp only [Program.assert, h, if_true]
  rfl

theorem Returns.bind (h : Returns m s inputs a s') {k : α → Program σ ε ι β}
    (hk : Returns (k a) s' more b s'') : Returns (m >>= k) s (inputs ++ more) b s'' := by
  intro rest
  obtain ⟨first, hm, rfl⟩ := h (more ++ rest)
  obtain ⟨last, hlast, rfl⟩ := hk rest
  refine ⟨first ++ last, ?_, run_append s first last⟩
  rw [List.append_assoc, Program.bind_exec, hm]
  dsimp only
  rw [hlast]
  rfl

theorem Returns.map (h : Returns m s inputs a s') (f : α → β) :
    Returns (f <$> m) s inputs (f a) s' := by
  rw [← List.append_nil inputs]
  exact h.bind (returns_pure (f a) s')

/-- A loop whose first iteration goes on. -/
theorem returns_loop {body : β → Program σ ε ι (β ⊕ α)} (hp : Program.Productive body)
    {next : β} (h : Returns (body b) s inputs (.inl next) s')
    (hnext : Returns (Program.loop body next) s' more a s'') :
    Returns (Program.loop body b) s (inputs ++ more) a s'' := by
  rw [Program.loop_unfold hp]
  exact h.bind hnext

theorem returns_loop_over {body : β → Program σ ε ι (β ⊕ α)} (hp : Program.Productive body)
    (h : Returns (body b) s inputs (.inr a) s') :
    Returns (Program.loop body b) s inputs a s' := by
  rw [Program.loop_unfold hp, ← List.append_nil inputs]
  exact h.bind (returns_pure a s')

end

end StatsProxy.Interaction

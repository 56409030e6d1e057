import Mathlib.Logic.Relation

/-! Transition systems whose steps show a label or are hidden. A history is the list of the
labels shown so far. What one system shows another shows too, if the second can follow each
step of the first with hidden steps of its own around the same label. -/
namespace StatsProxy.Simulation

variable {σ τ ℓ : Type}

structure Lts (σ ℓ : Type) where
  start : σ
  step : σ → Option ℓ → σ → Prop

namespace Lts

/-- The system can have shown this history and be in this state. -/
inductive Shows (t : Lts σ ℓ) : List ℓ → σ → Prop where
  | start : Shows t [] t.start
  | hidden {shown : List ℓ} {s s' : σ} (h : Shows t shown s) (hs : t.step s none s') :
      Shows t shown s'
  | visible {shown : List ℓ} {s s' : σ} {l : ℓ} (h : Shows t shown s) (hs : t.step s (some l) s') :
      Shows t (shown ++ [l]) s'

def Hidden (t : Lts σ ℓ) : σ → σ → Prop := Relation.ReflTransGen fun s s' => t.step s none s'

/-- The label with hidden steps before it and after it. -/
def Weak (t : Lts σ ℓ) (s : σ) : Option ℓ → σ → Prop
  | none, s' => t.Hidden s s'
  | some l, s' => ∃ m m', t.Hidden s m ∧ t.step m (some l) m' ∧ t.Hidden m' s'

variable {t : Lts σ ℓ} {s s' s'' : σ} {l : ℓ} {shown : List ℓ}

theorem hidden_refl (t : Lts σ ℓ) (s : σ) : t.Hidden s s := Relation.ReflTransGen.refl

theorem hidden_step (h : t.step s none s') : t.Hidden s s' := Relation.ReflTransGen.single h

theorem weak_step {l : Option ℓ} (h : t.step s l s') : t.Weak s l s' := by
  cases l with
  | none => exact hidden_step h
  | some l => exact ⟨s, s', t.hidden_refl s, h, t.hidden_refl s'⟩

theorem weak_after (hfirst : t.Hidden s s') (h : t.step s' (some l) s'') :
    t.Weak s (some l) s'' :=
  ⟨s', s'', hfirst, h, t.hidden_refl s''⟩

theorem Shows.then_hidden (h : t.Shows shown s) (hs : t.Hidden s s') : t.Shows shown s' := by
  induction hs with
  | refl => exact h
  | tail _ hstep ih => exact ih.hidden hstep

theorem Shows.then_weak (h : t.Shows shown s) {l : Option ℓ} (hs : t.Weak s l s') :
    t.Shows (shown ++ l.toList) s' := by
  cases l with
  | none =>
    rw [Option.toList_none, List.append_nil]
    exact h.then_hidden hs
  | some l =>
    obtain ⟨m, m', hfirst, hstep, hlast⟩ := hs
    exact ((h.then_hidden hfirst).visible hstep).then_hidden hlast

end Lts

/-- `R` relates states of `c` to states of `a` that can follow them. -/
structure Simulates (c : Lts σ ℓ) (a : Lts τ ℓ) (R : σ → τ → Prop) : Prop where
  start : R c.start a.start
  step : ∀ s t l s', R s t → c.step s l s' → ∃ t', a.Weak t l t' ∧ R s' t'

theorem Simulates.shows {c : Lts σ ℓ} {a : Lts τ ℓ} {R : σ → τ → Prop} (h : Simulates c a R)
    {shown : List ℓ} {s : σ} (hs : c.Shows shown s) : ∃ t, a.Shows shown t ∧ R s t := by
  induction hs with
  | start => exact ⟨a.start, .start, h.start⟩
  | hidden _ hstep ih =>
    obtain ⟨t, ht, hR⟩ := ih
    obtain ⟨t', hweak, hR'⟩ := h.step _ t none _ hR hstep
    exact ⟨t', ht.then_hidden hweak, hR'⟩
  | @visible shown s s' l _ hstep ih =>
    obtain ⟨t, ht, hR⟩ := ih
    obtain ⟨t', hweak, hR'⟩ := h.step _ t (some l) _ hR hstep
    exact ⟨t', ht.then_weak hweak, hR'⟩

end StatsProxy.Simulation

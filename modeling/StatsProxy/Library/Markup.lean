import StatsProxy.Library.CString

/-! The texts that stand in a page between a start and the next stop, such as the values of an
attribute. A page is put together of parts that no start reaches into. -/
namespace StatsProxy.Markup
open CString

/-- The texts behind each start, up to the next `stop`. -/
def between (start : Bytes) (stop : UInt8) : Bytes → List Bytes
  | [] => []
  | ch :: page =>
    if start.isPrefixOf (ch :: page) then
      ((ch :: page).drop start.length).takeWhile (· ≠ stop) :: between start stop page
    else between start stop page

/-- Nothing in the text begins a start, whatever follows it. -/
def Apart (start text : Bytes) : Prop :=
  ∀ c ∈ text.tails, c ≠ [] → ¬c <+: start ∧ ¬start <+: c

instance (start text : Bytes) : Decidable (Apart start text) :=
  inferInstanceAs (Decidable (∀ c ∈ text.tails, c ≠ [] → ¬c <+: start ∧ ¬start <+: c))

section

variable {start text other rest : Bytes} {stop : UInt8}

theorem Apart.tail {ch : UInt8} (h : Apart start (ch :: text)) : Apart start text := by
  intro c hc
  exact h c (by rw [List.tails_cons]; exact .tail _ hc)

theorem Apart.noStart (h : Apart start text) (hne : text ≠ []) (rest : Bytes) :
    ¬start <+: text ++ rest := by
  intro hstart
  obtain ⟨hnot, hno⟩ := h text ((List.mem_tails _ _).mpr (List.suffix_refl _)) hne
  rcases List.prefix_or_prefix_of_prefix hstart (List.prefix_append text rest) with h | h
  · exact hno h
  · exact hnot h

/-- Such a part of a page adds nothing. -/
theorem between_apart (h : Apart start text) :
    between start stop (text ++ rest) = between start stop rest := by
  induction text with
  | nil => rfl
  | cons ch text ih =>
    have hstart : ¬start.isPrefixOf (ch :: (text ++ rest)) = true := by
      rw [List.isPrefixOf_iff_prefix]
      exact h.noStart (List.cons_ne_nil _ _) rest
    rw [List.cons_append, between, if_neg hstart, ih h.tail]

theorem Apart.append (h : Apart start text) (h' : Apart start other) :
    Apart start (text ++ other) := by
  induction text with
  | nil => exact h'
  | cons ch text ih =>
    intro c hc hne
    rw [List.cons_append, List.tails_cons, List.mem_cons] at hc
    rcases hc with rfl | hc
    · obtain ⟨hnot, -⟩ := h (ch :: text) (by simp) (List.cons_ne_nil _ _)
      refine ⟨fun hc => hnot ?_, h.noStart (List.cons_ne_nil _ _) other⟩
      exact (List.prefix_append (ch :: text) other).trans hc
    · exact ih h.tail c hc hne

/-- A field without a byte of the start, before a byte that does not stand in front of it. -/
theorem apart_field {front back : Bytes} {mark ch : UInt8} (hmark : mark ∉ text)
    (hch : ch ∉ front ++ [mark]) : Apart (front ++ mark :: back) (text ++ [ch]) := by
  intro c hc hne
  rcases List.suffix_concat_iff.mp ((List.mem_tails _ _).mp hc) with rfl | ⟨s, rfl, hs⟩
  · exact absurd rfl hne
  have hfront : front ++ [mark] <+: front ++ mark :: back := ⟨back, by simp⟩
  have hno : mark ∉ s ++ [ch] := by
    rw [List.mem_append, List.mem_singleton, not_or]
    refine ⟨fun hmem => hmark (hs.mem hmem), ?_⟩
    rintro rfl
    exact hch (by simp)
  constructor
  · intro h
    rcases List.prefix_or_prefix_of_prefix h hfront with h | h
    · exact hch (h.mem (by simp))
    · exact hno (h.mem (by simp))
  · exact fun h => hno (h.mem (by simp))

/-- A value between its start and its stop. -/
theorem between_value {value : Bytes} (hstart : Apart start start.tail)
    (hvalue : Apart start (value ++ [stop])) (hstop : stop ∉ value) (hne : start ≠ []) :
    between start stop (start ++ (value ++ stop :: rest)) =
      value :: between start stop rest := by
  cases start with
  | nil => exact absurd rfl hne
  | cons ch start =>
    have hbegins : (ch :: start).isPrefixOf (ch :: (start ++ (value ++ stop :: rest))) = true := by
      rw [List.isPrefixOf_iff_prefix]
      exact List.prefix_append (ch :: start) _
    have hread : ((ch :: start ++ (value ++ stop :: rest)).drop
        (ch :: start).length).takeWhile (· ≠ stop) = value := by
      rw [List.drop_left, List.takeWhile_append_of_pos, List.takeWhile_cons_of_neg (by simp),
        List.append_nil]
      intro c hc
      exact decide_eq_true (ne_of_mem_of_not_mem hc hstop)
    have hrest : between (ch :: start) stop (start ++ (value ++ stop :: rest)) =
        between (ch :: start) stop rest := by
      rw [List.append_cons value]
      exact (between_apart hstart).trans (between_apart hvalue)
    rw [List.cons_append, between, if_pos hbegins, ← List.cons_append, hread, hrest]

end

end StatsProxy.Markup

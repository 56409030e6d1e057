import StatsProxy.Library.Scanf

/-! What `sscanf` reads back of a text that was written for its format. A piece is the text of
one directive; it fits if the character after it ends it. -/
namespace StatsProxy.Scanf
open CString

inductive Piece where
  | blank
  | literal (ch : UInt8)
  /-- A word for `%*s`. -/
  | skipped (width : Option Nat) (word : Bytes)
  | token (width : Option Nat) (word : Bytes)
  | notIn (stop : Bytes) (width : Nat) (word : Bytes)
  | number (type : IntType) (n : Nat)

namespace Piece

def directive : Piece → Directive
  | .blank => .space
  | .literal ch => .literal ch
  | .skipped width _ => .string width false
  | .token width _ => .string width true
  | .notIn stop width _ => .notIn stop width
  | .number type _ => .integer type

def text : Piece → Bytes
  | .blank => [32]
  | .literal ch => [ch]
  | .skipped _ word => word
  | .token _ word => word
  | .notIn _ _ word => word
  | .number _ n => printDecimal n

def value : Piece → Option Value
  | .blank | .literal _ | .skipped .. => none
  | .token _ word | .notIn _ _ word => some (.text word)
  | .number _ n => some (.number n)

/-- A word that white space ends, or the end of the text. -/
structure Ends (word : Bytes) (next : Option UInt8) : Prop where
  ne : word ≠ []
  noSpace : ∀ ch ∈ word, isSpace ch = false
  next : ∀ ch ∈ next, isSpace ch = true

/-- The largest number that is not cut. -/
def limit : IntType → Nat
  | .int => 2 ^ 31
  | .ushort => 2 ^ 16
  | .ulong => 2 ^ 64

/-- The piece can be followed by this character. -/
def Fits (next : Option UInt8) : Piece → Prop
  | .blank => ∀ ch ∈ next, isSpace ch = false
  | .literal _ => True
  | .skipped width word | .token width word => Ends word next ∧ ∀ n ∈ width, word.length ≤ n
  | .notIn stop width word => word ≠ [] ∧ word.length ≤ width ∧ (∀ ch ∈ word, ch ∉ stop) ∧
      ∀ ch ∈ next, ch ∈ stop
  | .number type n => n < limit type ∧ ∀ ch ∈ next, isDigit ch = false

/-- How long the text can be. -/
def room : Piece → Nat
  | .blank | .literal _ => 1
  | .skipped _ word | .token _ word | .notIn _ _ word => word.length
  | .number .. => 20

variable {rest : Bytes}

theorem text_length {p : Piece} {next : Option UInt8} (h : p.Fits next) :
    p.text.length ≤ p.room := by
  cases p with
  | number type n =>
    have hlimit : limit type ≤ 10 ^ 20 := by cases type <;> decide
    exact printDecimal_length (lt_of_lt_of_le h.1 hlimit) (Nat.le_add_left 1 19)
  | _ => exact le_rfl

theorem takeWhile_ended {p : UInt8 → Bool} {word : Bytes} (hword : ∀ ch ∈ word, p ch = true)
    (hrest : ∀ ch ∈ rest.head?, p ch = false) : (word ++ rest).takeWhile p = word := by
  rw [List.takeWhile_append_of_pos hword]
  cases rest with
  | nil => rw [List.takeWhile_nil, List.append_nil]
  | cons ch rest =>
    have hch := hrest ch rfl
    rw [List.takeWhile_cons_of_neg (by simp [hch]), List.append_nil]

theorem dropWhile_started {p : UInt8 → Bool} {text : Bytes}
    (h : ∀ ch ∈ text.head?, p ch = false) : text.dropWhile p = text := by
  cases text with
  | nil => rfl
  | cons ch text => exact List.dropWhile_cons_of_neg (by simp [h ch rfl])

theorem Ends.started {word : Bytes} {next : Option UInt8} (h : Ends word next) (rest : Bytes) :
    (word ++ rest).dropWhile isSpace = word ++ rest := by
  apply dropWhile_started
  intro ch hch
  cases word with
  | nil => exact absurd rfl h.ne
  | cons c word =>
    cases hch
    exact h.noSpace _ List.mem_cons_self

theorem Ends.run {word : Bytes} (h : Ends word rest.head?) :
    (word ++ rest).takeWhile (!isSpace ·) = word :=
  takeWhile_ended (fun ch hch => by simp [h.noSpace ch hch])
    fun ch hch => by simp [h.next ch hch]

theorem value_limit {type : IntType} {n : Nat} (h : n < limit type) :
    type.value false n = n := by
  cases type with
  | int =>
    change n < 2 ^ 31 at h
    simp only [IntType.value, Bool.false_eq_true, if_false]
    rw [Int.min_eq_left (by omega), Int.max_eq_right (by omega), Int.bmod_eq_of_le (by omega)
      (by omega)]
  | ushort =>
    change n < 2 ^ 16 at h
    have hwide : IntType.value.wide false n = n := by
      rw [IntType.value.wide, if_neg (by omega)]
      rfl
    rw [IntType.value, hwide, Nat.mod_eq_of_lt h]
  | ulong =>
    change n < 2 ^ 64 at h
    rw [IntType.value, IntType.value.wide, if_neg (by omega)]
    rfl

theorem splitSign_digits {n : Nat} (rest : Bytes) :
    splitSign (printDecimal n ++ rest) = (false, printDecimal n ++ rest) := by
  have hdigits := isDigit_printDecimal n
  cases hn : printDecimal n with
  | nil => exact absurd hn (printDecimal_ne_nil n)
  | cons ch digits =>
    have hch : isDigit ch = true := hdigits ch (by rw [hn]; exact List.mem_cons_self)
    rw [List.cons_append, splitSign, if_neg (isDigit_ne hch (by decide)),
      if_neg (isDigit_ne hch (by decide))]

theorem decimalValue_printDecimal (n : Nat) : decimalValue (printDecimal n) = n := by
  unfold printDecimal
  split
  · rename_i h
    rw [h]
    rfl
  · exact decimalValue_decimalDigits n

theorem matching_word {width : Option Nat} {word : Bytes}
    (h : Ends word rest.head? ∧ ∀ n ∈ width, word.length ≤ n) (stored : Bool) :
    (Directive.string width stored).matching (word ++ rest) =
      .matched (if stored then some (.text word) else none) rest := by
  obtain ⟨hends, hwidth⟩ := h
  have hne : word ++ rest ≠ [] := by simp [hends.ne]
  cases width with
  | none =>
    simp only [Directive.matching, hends.started, hends.run, if_neg hne, List.drop_left]
  | some width =>
    have hshort : word.take width = word := List.take_of_length_le (hwidth width rfl)
    simp only [Directive.matching, hends.started, hends.run, hshort, if_neg hne, List.drop_left]

/-- A piece is matched by its directive. -/
theorem matching (p : Piece) (h : p.Fits rest.head?) :
    p.directive.matching (p.text ++ rest) = .matched p.value rest := by
  cases p with
  | blank =>
    have hblank : ∀ ch ∈ rest.head?, isSpace ch = false := h
    exact congrArg (Matching.matched none) (dropWhile_started hblank)
  | literal ch =>
    show (if ch = ch then Matching.matched none rest else .mismatch) = _
    rw [if_pos rfl]
    rfl
  | skipped width word => exact matching_word h false
  | token width word => exact matching_word h true
  | notIn stop width word =>
    obtain ⟨hword, hwidth, hstop, hnext⟩ := h
    have hne : word ++ rest ≠ [] := by simp [hword]
    have hrun : (word ++ rest).takeWhile (fun ch => decide (ch ∉ stop)) = word :=
      takeWhile_ended (fun ch hch => by simp [hstop ch hch]) fun ch hch => by simp [hnext ch hch]
    simp only [directive, text, value, Directive.matching, hrun, List.take_of_length_le hwidth,
      if_neg hne, if_neg hword, List.drop_left]
  | number type n =>
    obtain ⟨hlimit, hnext⟩ := h
    have hstart : (printDecimal n ++ rest).dropWhile isSpace = printDecimal n ++ rest := by
      apply dropWhile_started
      intro ch hch
      apply isSpace_of_isDigit
      apply isDigit_printDecimal n
      cases hn : printDecimal n with
      | nil => exact absurd hn (printDecimal_ne_nil n)
      | cons c digits =>
        rw [hn] at hch
        cases hch
        exact List.mem_cons_self
    have hrun : (printDecimal n ++ rest).takeWhile isDigit = printDecimal n :=
      takeWhile_ended (isDigit_printDecimal n) hnext
    have hne : printDecimal n ++ rest ≠ [] := by simp [printDecimal_ne_nil]
    simp only [directive, text, value, Directive.matching, hstart, splitSign_digits, hrun,
      if_neg hne, if_neg (printDecimal_ne_nil n), decimalValue_printDecimal, value_limit hlimit,
      List.drop_left]

end Piece

/-- The text of the pieces, one after the other. -/
def piecesText (ps : List Piece) : Bytes := ps.flatMap Piece.text

/-- Each piece fits before the ones that follow it. -/
def Fit (rest : Bytes) : List Piece → Prop
  | [] => True
  | p :: ps => p.Fits (piecesText ps ++ rest).head? ∧ Fit rest ps

theorem piecesText_length {ps : List Piece} {rest : Bytes} (h : Fit rest ps) :
    (piecesText ps).length ≤ (ps.map Piece.room).sum := by
  induction ps with
  | nil => exact le_rfl
  | cons p ps ih =>
    rw [piecesText, List.flatMap_cons, List.length_append, List.map_cons, List.sum_cons]
    exact Nat.add_le_add (p.text_length h.1) (ih h.2)

/-- What comes next is the start of the next piece. -/
theorem next_piece {p : Piece} {ps : List Piece} {rest : Bytes} {P : UInt8 → Prop}
    (hne : p.text ≠ []) (h : ∀ ch ∈ p.text, P ch) :
    ∀ ch ∈ (piecesText (p :: ps) ++ rest).head?, P ch := by
  intro ch hch
  rw [piecesText, List.flatMap_cons, List.append_assoc, List.head?_append_of_ne_nil _ hne] at hch
  exact h ch (List.mem_of_mem_head? hch)

theorem next_number {type : IntType} {n : Nat} {ps : List Piece} {rest : Bytes} :
    ∀ ch ∈ (piecesText (.number type n :: ps) ++ rest).head?, isSpace ch = false :=
  next_piece (printDecimal_ne_nil n) fun ch hch =>
    isSpace_of_isDigit (isDigit_printDecimal n ch hch)

/-- The values that were written are read back. -/
theorem scan_pieces {ps : List Piece} {rest : Bytes} (h : Fit rest ps) :
    scan (ps.map Piece.directive) (piecesText ps ++ rest) = (ps.filterMap Piece.value, false) := by
  induction ps with
  | nil => rfl
  | cons p ps ih =>
    have hmatching := p.matching h.1
    rw [piecesText, List.flatMap_cons, List.append_assoc, ← piecesText, List.map_cons, scan,
      hmatching]
    cases hvalue : p.value with
    | none =>
      rw [List.filterMap_cons_none hvalue]
      exact ih h.2
    | some value =>
      rw [List.filterMap_cons_some hvalue]
      dsimp only
      rw [ih h.2]

/-- All arguments are stored. -/
theorem sscanf_pieces {σ : Type} {ps : List Piece} {rest : Bytes} (h : Fit rest ps)
    (hnul : 0 ∉ piecesText ps ++ rest) (args : List (Value → σ → σ)) (locals : σ) :
    sscanf (piecesText ps ++ rest) (ps.map Piece.directive) args locals =
      (((ps.filterMap Piece.value).length : Int),
        store args (ps.filterMap Piece.value) locals) := by
  have hscan := scan_pieces h
  rw [← cString_of_nul hnul] at hscan
  unfold sscanf result
  rw [hscan]
  simp

end StatsProxy.Scanf

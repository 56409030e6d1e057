import StatsProxy.TokenText

/-! Integer literals in their three bases, and the literals that the scanner reads as
what they spell. -/
namespace StatsProxy
open CString

/-- The value of a digit, in either case. -/
def literalDigit (ch : UInt8) : Nat := if isDigit ch then digitValue ch else (toLower ch).toNat - 87

def literalValue (base : Nat) (digits : Bytes) : Nat :=
  digits.foldl (fun v ch => v * base + literalDigit ch) 0

inductive Literal where
  | decimal (digits : Bytes)
  /-- The digits after the leading 0. -/
  | octal (digits : Bytes)
  | hexadecimal (x : UInt8) (digits : Bytes)
deriving DecidableEq

namespace Literal

def text : Literal → Bytes
  | .decimal digits => digits
  | .octal digits => 48 :: digits
  | .hexadecimal x digits => 48 :: x :: digits

def value : Literal → Nat
  | .decimal digits => literalValue 10 digits
  | .octal digits => literalValue 8 digits
  | .hexadecimal _ digits => literalValue 16 digits

def Valid : Literal → Prop
  | .decimal digits =>
    digits ≠ [] ∧ (∀ ch ∈ digits, isDigit ch = true) ∧ digits.head? ≠ some 48
  | .octal digits => ∀ ch ∈ digits, isDigit ch = true ∧ ch < 56
  | .hexadecimal x digits =>
    (x = 120 ∨ x = 88) ∧ digits ≠ [] ∧ ∀ ch ∈ digits, isHexDigit ch = true

instance : DecidablePred Valid
  | .decimal digits => inferInstanceAs (Decidable
      (digits ≠ [] ∧ (∀ ch ∈ digits, isDigit ch = true) ∧ digits.head? ≠ some 48))
  | .octal digits => inferInstanceAs (Decidable (∀ ch ∈ digits, isDigit ch = true ∧ ch < 56))
  | .hexadecimal x digits => inferInstanceAs (Decidable
      ((x = 120 ∨ x = 88) ∧ digits ≠ [] ∧ ∀ ch ∈ digits, isHexDigit ch = true))

/-- The literal is in the buffer with all its digits, and a hexadecimal one has only
digits below 9. -/
def Readable : Literal → Prop
  | .decimal _ => True
  | .octal digits => digits.length < yylexBufferSize
  | .hexadecimal _ digits =>
    (∀ ch ∈ digits, isDigit ch = true ∧ ch < 57) ∧ digits.length ≤ yylexBufferSize

instance : DecidablePred Readable
  | .decimal _ => .isTrue trivial
  | .octal digits => inferInstanceAs (Decidable (digits.length < yylexBufferSize))
  | .hexadecimal _ digits => inferInstanceAs (Decidable
      ((∀ ch ∈ digits, isDigit ch = true ∧ ch < 57) ∧ digits.length ≤ yylexBufferSize))

end Literal

/-- The characters that the loop adds to a number of this base. -/
def Taken (base : Nat) (ch : UInt8) : Prop :=
  isDigit ch = true ∧ (base = 8 → ch < 56) ∧ (base = 16 → ch < 57)

/-- A text at which the loop returns an integer. -/
def StopsNumber (base : Nat) (rest : Bytes) : Prop :=
  ∀ ch ∈ rest.head?, isDigit ch = false ∧ (ch = 46 → base = 16)

def IsBase (base : Nat) : Prop := base = 8 ∨ base = 10 ∨ base = 16

section

variable {base value consumed : Nat} {ch : UInt8} {input digits rest : Bytes}

/-- After a decimal point there is no integer. -/
theorem lexNumber_float {v : Nat} : lexNumber base value consumed true input ≠
    .token (.integer v) rest := by
  induction input generalizing base value consumed with
  | nil => nofun
  | cons ch input ih =>
    intro h
    rw [lexNumber] at h
    by_cases hdigit : isDigit ch = true
    · have hdot : ch ≠ 46 := isDigit_ne hdigit (by decide)
      simp only [hdigit, Bool.true_or, if_true, hdot, if_false] at h
      repeat' split at h
      all_goals first
        | contradiction
        | exact ih h
    · simp [hdigit, numberToken] at h

/-- One character of the loop that is added to the number. -/
theorem lexNumber_step (hbase : IsBase base) (hch : Taken base ch)
    (hconsumed : consumed < yylexBufferSize) :
    lexNumber base value consumed false (ch :: input) =
      lexNumber base (accumulate base value ch) (consumed + 1) false input := by
  obtain ⟨hdigit, hoctal, hhex⟩ := hch
  have hdot : ch ≠ 46 := isDigit_ne hdigit (by decide)
  have hroom : ¬yylexBufferSize ≤ consumed := Nat.not_le.mpr hconsumed
  rw [lexNumber]
  simp only [hdigit, Bool.true_or, if_true, hdot, if_false, hroom]
  rcases hbase with rfl | rfl | rfl
  · have hsmall : ¬56 ≤ ch := UInt8.not_le.mpr (hoctal rfl)
    simp only [if_true, hsmall, if_false]
  · simp
  · have hsmall : ch < 57 := hhex rfl
    simp only [Nat.reduceEqDiff, if_false, hsmall, if_true]

theorem lexNumber_run (hbase : IsBase base) (hdigits : ∀ ch ∈ digits, Taken base ch)
    (hlen : consumed + digits.length ≤ yylexBufferSize) :
    lexNumber base value consumed false (digits ++ rest) =
      lexNumber base (digits.foldl (accumulate base) value) (consumed + digits.length) false
        rest := by
  induction digits generalizing value consumed with
  | nil => rfl
  | cons ch digits ih =>
    rw [List.forall_mem_cons] at hdigits
    rw [List.length_cons] at hlen
    rw [List.cons_append, lexNumber_step hbase hdigits.1 (by omega), ih hdigits.2 (by omega),
      List.foldl_cons, List.length_cons, Nat.add_right_comm, Nat.add_assoc]

theorem lexNumber_stop (hrest : StopsNumber base rest) :
    lexNumber base value consumed false rest = .token (.integer value) rest := by
  cases rest with
  | nil => rfl
  | cons ch rest =>
    obtain ⟨hdigit, hdot⟩ := hrest ch rfl
    rw [lexNumber]
    by_cases hch : ch = 46
    · simp [hch, hdot hch]
    · simp [hch, hdigit, numberToken]

/-- A digit of a number that the loop returns has been added to it. -/
theorem lexNumber_taken {v : Nat} (hdigit : isDigit ch = true)
    (h : lexNumber base value consumed false (ch :: input) = .token (.integer v) rest) :
    Taken base ch ∧ consumed < yylexBufferSize := by
  have hdot : ch ≠ 46 := isDigit_ne hdigit (by decide)
  rw [lexNumber] at h
  simp only [hdigit, Bool.true_or, if_true, hdot, if_false] at h
  split at h
  · contradiction
  · next hroom =>
    refine ⟨⟨hdigit, ?_, ?_⟩, Nat.not_le.mp hroom⟩
    · rintro rfl
      simp only [if_true] at h
      split at h
      · contradiction
      · next hsmall => exact UInt8.not_le.mp hsmall
    · rintro rfl
      simp only [Nat.reduceEqDiff, if_false] at h
      split at h
      · next hsmall => exact hsmall
      · contradiction

/-- A number that the loop returns ends before any other character, but for the point
of a float. -/
theorem lexNumber_stops {v : Nat} (hdigit : ¬isDigit ch = true)
    (h : lexNumber base value consumed false (ch :: input) = .token (.integer v) rest) :
    StopsNumber base (ch :: input) := by
  intro c hc
  cases hc
  refine ⟨by simpa using hdigit, ?_⟩
  rintro rfl
  by_contra hhex
  rw [lexNumber] at h
  simp only [Bool.not_false, Bool.true_and, decide_true, Bool.or_true, if_true, hhex,
    if_false] at h
  exact lexNumber_float h

/-- The loop returns an integer exactly for digits of the base that fit into the
buffer and end where the loop stops. -/
theorem lexNumber_integer_iff (hbase : IsBase base) (hconsumed : consumed ≤ yylexBufferSize)
    {v : Nat} : lexNumber base value consumed false input = .token (.integer v) rest ↔
      ∃ digits, input = digits ++ rest ∧ (∀ ch ∈ digits, Taken base ch) ∧
        consumed + digits.length ≤ yylexBufferSize ∧ StopsNumber base rest ∧
        v = digits.foldl (accumulate base) value := by
  constructor
  · intro h
    induction input generalizing value consumed with
    | nil =>
      cases h
      exact ⟨[], rfl, nofun, hconsumed, nofun, rfl⟩
    | cons ch input ih =>
      by_cases hdigit : isDigit ch = true
      · obtain ⟨htaken, hroom⟩ := lexNumber_taken hdigit h
        rw [lexNumber_step hbase htaken hroom] at h
        obtain ⟨digits, rfl, hdigits, hlen, hstops, rfl⟩ := ih hroom h
        refine ⟨ch :: digits, rfl, List.forall_mem_cons.mpr ⟨htaken, hdigits⟩, ?_, hstops, rfl⟩
        rw [List.length_cons]
        omega
      · have hstops := lexNumber_stops hdigit h
        rw [lexNumber_stop hstops] at h
        cases h
        exact ⟨[], rfl, nofun, hconsumed, hstops, rfl⟩
  · rintro ⟨digits, rfl, hdigits, hlen, hstops, rfl⟩
    rw [lexNumber_run hbase hdigits hlen, lexNumber_stop hstops]

/-- The accumulation loses the multiples of 2^64 only. -/
theorem foldl_accumulate (v : Nat) :
    digits.foldl (accumulate base) (v % 2 ^ 64) =
      digits.foldl (fun v ch => v * base + digitValue ch) v % 2 ^ 64 := by
  induction digits generalizing v with
  | nil => rfl
  | cons ch digits ih =>
    have hstep : accumulate base (v % 2 ^ 64) ch = (v * base + digitValue ch) % 2 ^ 64 := by
      unfold accumulate
      rw [Nat.add_mod, Nat.mod_mul_mod, ← Nat.add_mod]
    rw [List.foldl_cons, List.foldl_cons, hstep, ih]

theorem literalValue_digits (hdigits : ∀ ch ∈ digits, isDigit ch = true) :
    digits.foldl (fun v ch => v * base + digitValue ch) 0 = literalValue base digits := by
  apply List.foldl_ext
  intro v ch hch
  rw [literalDigit, if_pos (hdigits ch hch)]

/-- What the loop computes of digits. -/
theorem foldl_accumulate_digits (hdigits : ∀ ch ∈ digits, isDigit ch = true) :
    digits.foldl (accumulate base) 0 = literalValue base digits % 2 ^ 64 := by
  have hfold : digits.foldl (accumulate base) (0 % 2 ^ 64) =
      digits.foldl (fun v ch => v * base + digitValue ch) 0 % 2 ^ 64 := foldl_accumulate 0
  rw [literalValue_digits hdigits] at hfold
  exact hfold

/-- What the loop makes of digits that a delimiter follows. -/
theorem lexNumber_delimited_iff {d : UInt8} {v : Nat} (hbase : IsBase base)
    (hd : isAlnum d = false ∧ d ≠ 46) :
    lexNumber base 0 0 false (digits ++ d :: rest) = .token (.integer v) (d :: rest) ↔
      (∀ ch ∈ digits, Taken base ch) ∧ digits.length ≤ yylexBufferSize ∧
        v = literalValue base digits % 2 ^ 64 := by
  have hstops : StopsNumber base (d :: rest) := by
    intro ch hch
    cases hch
    have hdigit := hd.1
    rw [isAlnum, Bool.or_eq_false_iff] at hdigit
    exact ⟨hdigit.2, fun hdot => absurd hdot hd.2⟩
  have hsame : (∀ ch ∈ digits, Taken base ch) →
      digits.foldl (accumulate base) 0 = literalValue base digits % 2 ^ 64 :=
    fun htaken => foldl_accumulate_digits fun ch hch => (htaken ch hch).1
  rw [lexNumber_integer_iff hbase (Nat.zero_le _)]
  constructor
  · rintro ⟨digits', hsplit, htaken, hlen, -, rfl⟩
    cases List.append_cancel_right hsplit
    exact ⟨htaken, by omega, hsame htaken⟩
  · rintro ⟨htaken, hlen, rfl⟩
    exact ⟨digits, rfl, htaken, by omega, hstops, (hsame htaken).symm⟩

end

theorem isDigit_not_x {ch : UInt8} (h : isDigit ch = true ∨ isAlnum ch = false) :
    (ch = 120 || ch = 88) = false := by
  rw [Bool.or_eq_false_iff, decide_eq_false_iff_not, decide_eq_false_iff_not]
  constructor
  · rintro rfl
    rcases h with h | h <;> contradiction
  · rintro rfl
    rcases h with h | h <;> contradiction

section

variable {digits rest : Bytes} {d : UInt8}

/-- A decimal literal of less than 2^64 is short enough for the buffer. -/
theorem yylex_decimal (hlit : (Literal.decimal digits).Valid)
    (hvalue : literalValue 10 digits < 2 ^ 64) (hd : isAlnum d = false ∧ d ≠ 46) :
    yylex (digits ++ d :: rest) = .token (.integer (literalValue 10 digits)) (d :: rest) := by
  obtain ⟨hne, hdigits, hhead⟩ := hlit
  obtain ⟨ch, tail, rfl⟩ := List.exists_cons_of_ne_nil hne
  have hzero : ch ≠ 48 := fun heq => hhead (congrArg some heq)
  have hnumber : decimalValue (ch :: tail) < 2 ^ 64 := by
    have hsame : decimalValue (ch :: tail) = literalValue 10 (ch :: tail) :=
      literalValue_digits hdigits
    rw [hsame]
    exact hvalue
  have hshort : tail.length < 20 := by
    apply (Nat.pow_lt_pow_iff_right (by decide : 1 < 10)).mp
    have hlen := digits_length_of_decimalValue hdigits hzero
    exact Nat.lt_of_le_of_lt hlen (Nat.lt_trans hnumber (by decide))
  have hstart : lexNumberStart ch (tail ++ d :: rest) =
      lexNumber 10 0 0 false (ch :: tail ++ d :: rest) := by
    unfold lexNumberStart
    exact if_neg hzero
  rw [List.cons_append, yylex_digit (hdigits ch List.mem_cons_self), hstart,
    lexNumber_delimited_iff (Or.inr (Or.inl rfl)) hd]
  refine ⟨fun c hc => ⟨hdigits c hc, nofun, nofun⟩, ?_, (Nat.mod_eq_of_lt hvalue).symm⟩
  rw [List.length_cons, yylexBufferSize]
  omega

/-- An octal literal is in the buffer with its leading 0. -/
theorem yylex_octal_iff (hlit : (Literal.octal digits).Valid)
    (hvalue : literalValue 8 digits < 2 ^ 64) (hd : isAlnum d = false ∧ d ≠ 46) :
    yylex (48 :: digits ++ d :: rest) =
      .token (.integer (literalValue 8 digits)) (d :: rest) ↔ digits.length < yylexBufferSize := by
  have hstart : lexNumberStart 48 (digits ++ d :: rest) =
      lexNumber 8 0 0 false (48 :: digits ++ d :: rest) := by
    cases digits with
    | nil =>
      rw [List.nil_append, lexNumberStart, if_pos rfl, isDigit_not_x (Or.inr hd.1)]
      rfl
    | cons ch digits =>
      have hx := isDigit_not_x (Or.inl (hlit ch List.mem_cons_self).1)
      rw [List.cons_append, lexNumberStart, if_pos rfl, hx]
      rfl
  have hzero : literalValue 8 (48 :: digits) = literalValue 8 digits := rfl
  rw [List.cons_append, yylex_digit (by decide), hstart, lexNumber_delimited_iff (Or.inl rfl) hd,
    hzero, List.length_cons]
  constructor
  · rintro ⟨-, hlen, -⟩
    exact hlen
  · intro hlen
    refine ⟨?_, hlen, (Nat.mod_eq_of_lt hvalue).symm⟩
    intro ch hch
    have hbase : (8 : Nat) ≠ 16 := by decide
    rcases List.mem_cons.mp hch with rfl | hch
    · exact ⟨by decide, fun _ => by decide, fun h => absurd h hbase⟩
    · exact ⟨(hlit ch hch).1, fun _ => (hlit ch hch).2, fun h => absurd h hbase⟩

/-- The loop takes only some of the hexadecimal digits. -/
theorem yylex_hexadecimal_iff {x : UInt8} (hx : x = 120 ∨ x = 88)
    (hvalue : literalValue 16 digits < 2 ^ 64) (hd : isAlnum d = false ∧ d ≠ 46) :
    yylex (48 :: x :: digits ++ d :: rest) =
        .token (.integer (literalValue 16 digits)) (d :: rest) ↔
      (∀ ch ∈ digits, isDigit ch = true ∧ ch < 57) ∧ digits.length ≤ yylexBufferSize := by
  have hstart : lexNumberStart 48 (x :: (digits ++ d :: rest)) =
      lexNumber 16 0 0 false (digits ++ d :: rest) := by
    rw [lexNumberStart, if_pos rfl, if_pos]
    simpa using hx
  rw [List.cons_append, List.cons_append, yylex_digit (by decide), hstart,
    lexNumber_delimited_iff (Or.inr (Or.inr rfl)) hd]
  constructor
  · rintro ⟨htaken, hlen, -⟩
    exact ⟨fun ch hch => ⟨(htaken ch hch).1, (htaken ch hch).2.2 rfl⟩, hlen⟩
  · rintro ⟨hdigits, hlen⟩
    have hbase : (16 : Nat) ≠ 8 := by decide
    refine ⟨fun ch hch => ⟨(hdigits ch hch).1, fun h => absurd h hbase,
      fun _ => (hdigits ch hch).2⟩, hlen, ?_⟩
    exact (Nat.mod_eq_of_lt hvalue).symm

end

/-- The scanner reads a literal as the number it spells, and stops at the delimiter,
exactly if the literal is readable. -/
theorem yylex_literal_iff (lit : Literal) (d : UInt8) (rest : Bytes) (hlit : lit.Valid)
    (hvalue : lit.value < 2 ^ 64) (hd : isAlnum d = false ∧ d ≠ 46) :
    yylex (lit.text ++ d :: rest) = .token (.integer lit.value) (d :: rest) ↔ lit.Readable := by
  cases lit with
  | decimal digits => exact iff_of_true (yylex_decimal hlit hvalue hd) trivial
  | octal digits => exact yylex_octal_iff hlit hvalue hd
  | hexadecimal x digits => exact yylex_hexadecimal_iff hlit.1 hvalue hd

theorem yylex_literal_iff_hexadecimal :
    yylex (ascii "0X1780;") = .token (.integer 6016) (ascii ";") ↔
      (Literal.hexadecimal 88 (ascii "1780")).Readable :=
  yylex_literal_iff (.hexadecimal 88 (ascii "1780")) 59 [] (by decide +kernel)
    (by decide +kernel) (by decide)

/-- A digit 9 is no hexadecimal digit, and a letter ends the number. -/
theorem yylex_hexadecimal_fails : ¬∀ (lit : Literal) (d : UInt8) (rest : Bytes), lit.Valid →
    lit.value < 2 ^ 64 → isAlnum d = false ∧ d ≠ 46 →
      yylex (lit.text ++ d :: rest) = .token (.integer lit.value) (d :: rest) := by
  intro h
  have hnine := h (.hexadecimal 120 (ascii "9")) 59 [] (by decide +kernel) (by decide +kernel)
    (by decide)
  exact absurd hnine (by decide +kernel)

end StatsProxy

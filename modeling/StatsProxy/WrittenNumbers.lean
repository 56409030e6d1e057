import StatsProxy.IntegerLiterals

/-! The tokens of a file with the integers it spells. The scanner returns these
integers up to the multiples of 2^64. -/
namespace StatsProxy
open CString

/-- The number that the text of an integer spells. -/
def writtenValue : Bytes → Nat
  | ch :: x :: digits =>
    if ch = 48 then
      if x = 120 || x = 88 then literalValue 16 digits else literalValue 8 (x :: digits)
    else literalValue 10 (ch :: x :: digits)
  | digits => literalValue 10 digits

/-- The text of a token: what `yylex` takes, without the layout before it. -/
def tokenText (input rest : Bytes) : Bytes :=
  match skipSpace false input with
  | some (ch, tail) => (ch :: tail).take ((ch :: tail).length - rest.length)
  | none => []

def writtenToken (input rest : Bytes) : Token → Token
  | .integer _ => .integer (writtenValue (tokenText input rest))
  | t => t

/-- `tokens` with the integers as they are spelled. -/
def writtenTokens : Nat → Bytes → List Token
  | 0, _ => []
  | fuel+1, input => match yylex input with
    | .token t rest => writtenToken input rest t :: writtenTokens fuel rest
    | _ => []

def writtenFile (file : Bytes) : List Token := writtenTokens (file.length + 1) file

def toSizeT (value : Nat) : Nat := value % 2 ^ 64

/-- The value of an integer token is a `size_t`. -/
def Token.stored : Token → Token
  | .integer value => .integer (toSizeT value)
  | t => t

section

variable {ch : UInt8} {input tail rest : Bytes} {v : Nat}

theorem lexClose_integer (value : UInt8) : lexClose value input ≠ .token (.integer v) rest := by
  unfold lexClose
  split
  · nofun
  · split <;> nofun

theorem lexChar_integer : lexChar input ≠ .token (.integer v) rest := by
  unfold lexChar
  split
  · nofun
  · split
    · split
      · nofun
      · exact lexClose_integer _
    · exact lexClose_integer _

theorem lexString_integer {room : Nat} {escape : Bool} {stored : Bytes} :
    lexString room escape stored input ≠ .token (.integer v) rest := by
  induction input generalizing room escape stored with
  | nil => cases room <;> simp [lexString]
  | cons ch input ih =>
    cases room with
    | zero => simp [lexString]
    | succ room =>
      unfold lexString
      split
      · simp
      · split
        · exact ih
        · exact ih

theorem lexKeyword_integer : lexKeyword input ≠ .token (.integer v) rest := by
  unfold lexKeyword
  dsimp only
  split
  · nofun
  · split <;> nofun

/-- The digits that the loop takes of a text that starts with a digit. -/
theorem lexNumber_written {base : Nat} (hbase : IsBase base) (hch : isDigit ch = true)
    (h : lexNumber base 0 0 false (ch :: tail) = .token (.integer v) rest) :
    ∃ digits, tail = digits ++ rest ∧ v = toSizeT (literalValue base (ch :: digits)) := by
  obtain ⟨digits, hsplit, htaken, -, hstops, rfl⟩ :=
    (lexNumber_integer_iff hbase (Nat.zero_le _)).mp h
  cases digits with
  | nil =>
    rw [List.nil_append] at hsplit
    subst hsplit
    have hdigit := (hstops ch rfl).1
    rw [hch] at hdigit
    contradiction
  | cons c digits =>
    cases hsplit
    exact ⟨digits, rfl, foldl_accumulate_digits fun c hc => (htaken c hc).1⟩

/-- An integer is the number that its text spells, in a `size_t`. -/
theorem lexNumberStart_written (h : lexNumberStart ch tail = .token (.integer v) rest)
    (hch : isDigit ch = true ∨ ch = 46) :
    ∃ text, ch :: tail = text ++ rest ∧ v = toSizeT (writtenValue text) := by
  by_cases hzero : ch = 48
  · subst hzero
    cases tail with
    | nil =>
      cases h
      exact ⟨[48], rfl, rfl⟩
    | cons x tail =>
      rw [lexNumberStart, if_pos rfl] at h
      split at h
      · next hx =>
        obtain ⟨digits, rfl, htaken, -, -, rfl⟩ :=
          (lexNumber_integer_iff (Or.inr (Or.inr rfl)) (Nat.zero_le _)).mp h
        refine ⟨48 :: x :: digits, rfl, ?_⟩
        rw [writtenValue, if_pos rfl, if_pos hx]
        exact foldl_accumulate_digits fun c hc => (htaken c hc).1
      · next hx =>
        obtain ⟨digits, hsplit, rfl⟩ := lexNumber_written (Or.inl rfl) (by decide) h
        refine ⟨48 :: digits, congrArg _ hsplit, ?_⟩
        cases digits with
        | nil => rfl
        | cons y digits =>
          cases hsplit
          rw [writtenValue, if_pos rfl, if_neg hx]
          rfl
  · have hten : lexNumber 10 0 0 false (ch :: tail) = .token (.integer v) rest := by
      unfold lexNumberStart at h
      rwa [if_neg hzero] at h
    have hdigit : isDigit ch = true := by
      apply hch.resolve_right
      rintro rfl
      obtain ⟨digits, hsplit, htaken, -, hstops, -⟩ :=
        (lexNumber_integer_iff (Or.inr (Or.inl rfl)) (Nat.zero_le _)).mp hten
      cases digits with
      | nil =>
        rw [List.nil_append] at hsplit
        subst hsplit
        exact absurd ((hstops 46 rfl).2 rfl) (by decide)
      | cons c digits =>
        cases hsplit
        exact absurd (htaken 46 List.mem_cons_self).1 (by decide)
    obtain ⟨digits, rfl, rfl⟩ := lexNumber_written (Or.inr (Or.inl rfl)) hdigit hten
    refine ⟨ch :: digits, rfl, ?_⟩
    cases digits with
    | nil => rfl
    | cons x digits => rw [writtenValue, if_neg hzero]

/-- The scanner returns what is written, in a `size_t`. -/
theorem writtenToken_stored {t : Token} (h : yylex input = .token t rest) :
    (writtenToken input rest t).stored = t := by
  cases t with
  | integer v =>
    have hwritten : v = toSizeT (writtenValue (tokenText input rest)) := by
      unfold yylex at h
      unfold tokenText
      cases hskip : skipSpace false input with
      | none =>
        rw [hskip] at h
        contradiction
      | some p =>
        obtain ⟨ch, tail⟩ := p
        simp only [hskip] at h ⊢
        split at h
        · exact absurd h lexChar_integer
        · split at h
          · exact absurd h lexString_integer
          · split at h
            · next hnumber =>
              obtain ⟨text, hsplit, rfl⟩ := lexNumberStart_written h (by simpa using hnumber)
              rw [hsplit, List.length_append, Nat.add_sub_cancel, List.take_left]
            · split at h
              · exact absurd h lexKeyword_integer
              · split at h <;> cases h
    rw [writtenToken, Token.stored, ← hwritten]
  | _ => rfl

end

/-- The tokens of a file are those that are written in it, each integer in a `size_t`. -/
theorem lexFile_written (file : Bytes) :
    (lexFile file).1 = (writtenFile file).map Token.stored := by
  have htokens : ∀ fuel input,
      (tokens fuel input).1 = (writtenTokens fuel input).map Token.stored := by
    intro fuel
    induction fuel with
    | zero => exact fun _ => rfl
    | succ fuel ih =>
      intro input
      unfold tokens writtenTokens
      cases hlex : yylex input with
      | token t rest =>
        dsimp only
        rw [List.map_cons, writtenToken_stored hlex, ih rest]
      | _ => rfl
  exact htokens _ file

end StatsProxy

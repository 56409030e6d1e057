import Mathlib.Data.List.Chain
import StatsProxy.Yylex

/-! The texts of a list of tokens. A token may be spelled in many ways and any
white space and comments may stand before it; `lexFile` takes every such text
to the tokens. -/
namespace StatsProxy
open CString

/-- White space and comments, each comment with its newline. -/
inductive Layout : Bytes → Prop where
  | nil : Layout []
  | space {ch : UInt8} {text : Bytes} (hch : isSpace ch = true) (h : Layout text) :
      Layout (ch :: text)
  | comment {body text : Bytes} (hbody : 10 ∉ body) (h : Layout text) :
      Layout (35 :: (body ++ 10 :: text))

/-- What follows the last token; a comment may lack its newline. -/
inductive Trailing : Bytes → Prop where
  | layout {text : Bytes} (h : Layout text) : Trailing text
  | comment {text body : Bytes} (h : Layout text) (hbody : 10 ∉ body) :
      Trailing (text ++ 35 :: body)

/-- The text between the quotes of a STRING: a quote and a backslash are
escaped, any other byte may be. -/
inductive Escaped : Bytes → Bytes → Prop where
  | nil : Escaped [] []
  | plain {ch : UInt8} {value text : Bytes} (hquote : ch ≠ 34) (hescape : ch ≠ 92)
      (h : Escaped value text) : Escaped (ch :: value) (ch :: text)
  | escape {ch : UInt8} {value text : Bytes} (h : Escaped value text) :
      Escaped (ch :: value) (92 :: ch :: text)

/-- The punctuation of the grammar. -/
def grammarPunct : Bytes := [123, 125, 61, 59]

inductive Spelling : Token → Bytes → Prop where
  | keyword (k : Keyword) : Spelling (.keyword k) k.text
  | punct {ch : UInt8} (h : ch ∈ grammarPunct) : Spelling (.punct ch) [ch]
  | string {value text : Bytes} (h : Escaped value text) (hlen : value.length < 4095) :
      Spelling (.string value) (34 :: (text ++ [34]))
  | integer {ch : UInt8} {digits : Bytes} (hdigits : ∀ c ∈ ch :: digits, isDigit c = true)
      (hzero : ch ≠ 48) (hvalue : decimalValue (ch :: digits) < 2 ^ 64) :
      Spelling (.integer (decimalValue (ch :: digits))) (ch :: digits)

inductive Rendering : List Token → Bytes → Prop where
  | nil {text : Bytes} (h : Trailing text) : Rendering [] text
  | cons {t : Token} {ts : List Token} {layout spelling text : Bytes} (hlayout : Layout layout)
      (hspelling : Spelling t spelling) (h : Rendering ts text) :
      Rendering (t :: ts) (layout ++ (spelling ++ text))

/-- A token that ends where its characters end. -/
def Token.isWord : Token → Bool
  | .keyword _ | .integer _ | .float => true
  | _ => false

/-- No two words in a row: the layout before each token may be empty. -/
def Separated (ts : List Token) : Prop :=
  ts.IsChain fun t u => t.isWord = true → u.isWord = false

/-- The text does not go on with a character of a word. -/
def EndsWord (text : Bytes) : Prop := ∀ ch ∈ text.head?, isKeywordByte ch = false ∧ ch ≠ 46

theorem skipSpace_comment {body : Bytes} (hbody : 10 ∉ body) (text : Bytes) :
    skipSpace true (body ++ 10 :: text) = skipSpace false text := by
  induction body with
  | nil => simp [skipSpace, isSpace]
  | cons ch body ih =>
    rw [List.mem_cons, not_or] at hbody
    rw [List.cons_append, skipSpace, if_pos (by simpa using Ne.symm hbody.1)]
    exact ih hbody.2

theorem skipSpace_openComment {body : Bytes} (hbody : 10 ∉ body) : skipSpace true body = none := by
  induction body with
  | nil => rfl
  | cons ch body ih =>
    rw [List.mem_cons, not_or] at hbody
    rw [skipSpace, if_pos (by simpa using Ne.symm hbody.1)]
    exact ih hbody.2

theorem skipSpace_layout {layout : Bytes} (h : Layout layout) (text : Bytes) :
    skipSpace false (layout ++ text) = skipSpace false text := by
  induction h with
  | nil => rfl
  | @space ch layout hch _ ih =>
    have hhash : ch ≠ 35 := by
      intro heq
      rw [heq] at hch
      contradiction
    rw [List.cons_append, skipSpace]
    simp only [Bool.false_and, Bool.false_eq_true, if_false, hhash, hch, if_true]
    exact ih
  | @comment body layout hbody _ ih =>
    rw [List.cons_append, skipSpace]
    simp only [Bool.false_and, Bool.false_eq_true, if_false, if_true]
    rw [List.append_assoc, List.cons_append, skipSpace_comment hbody]
    exact ih

theorem skipSpace_trailing {text : Bytes} (h : Trailing text) : skipSpace false text = none := by
  cases h with
  | layout h => simpa [skipSpace] using skipSpace_layout h []
  | comment h hbody =>
    rw [skipSpace_layout h, skipSpace]
    simp only [Bool.false_and, Bool.false_eq_true, if_false, if_true]
    exact skipSpace_openComment hbody

theorem yylex_layout {layout : Bytes} (h : Layout layout) (text : Bytes) :
    yylex (layout ++ text) = yylex text := by
  unfold yylex
  rw [skipSpace_layout h]

theorem lexString_escaped {value text : Bytes} (h : Escaped value text) {room : Nat}
    (hlen : value.length < room) (stored rest : Bytes) :
    lexString room false stored (text ++ 34 :: rest) = .token (.string (stored ++ value)) rest := by
  induction h generalizing room stored with
  | nil =>
    cases room with
    | zero => contradiction
    | succ room => simp [lexString]
  | @plain ch value text hquote hescape _ ih =>
    cases room with
    | zero => contradiction
    | succ room =>
      rw [List.length_cons] at hlen
      rw [List.cons_append, lexString]
      simp only [Bool.not_false, Bool.true_and, decide_eq_true_eq, hquote, hescape, if_false]
      rw [ih (by omega), List.append_assoc, List.singleton_append]
  | @escape ch value text _ ih =>
    cases room with
    | zero => contradiction
    | succ room =>
      rw [List.length_cons] at hlen
      rw [List.cons_append, List.cons_append, lexString, lexString]
      simp only [Bool.not_false, Bool.not_true, Bool.true_and, Bool.false_and, decide_eq_true_eq,
        Bool.false_eq_true, if_false, if_true, show (92 : UInt8) ≠ 34 by decide]
      rw [ih (by omega), List.append_assoc, List.singleton_append]

theorem EndsWord.digit {ch : UInt8} {rest : Bytes} (h : EndsWord (ch :: rest)) :
    isDigit ch = false ∧ ch ≠ 46 := by
  obtain ⟨hk, hdot⟩ := h ch rfl
  simp only [isKeywordByte, isAlnum, Bool.or_eq_false_iff] at hk
  exact ⟨hk.1.1.2, hdot⟩

theorem lexNumber_digits {digits : Bytes} (hdigits : ∀ c ∈ digits, isDigit c = true)
    {value consumed : Nat} (hvalue : value * 10 ^ digits.length + decimalValue digits < 2 ^ 64)
    (hconsumed : consumed + digits.length ≤ yylexBufferSize) {rest : Bytes}
    (hrest : EndsWord rest) :
    lexNumber 10 value consumed false (digits ++ rest) =
      .token (.integer (value * 10 ^ digits.length + decimalValue digits)) rest := by
  induction digits generalizing value consumed with
  | nil =>
    cases rest with
    | nil => simp [lexNumber, numberToken, decimalValue]
    | cons ch rest =>
      have hend := hrest.digit
      simp [lexNumber, numberToken, decimalValue, hend.1, hend.2]
  | cons ch digits ih =>
    have hch : isDigit ch = true := hdigits ch List.mem_cons_self
    have hdot : ch ≠ 46 := isDigit_ne hch (by decide)
    rw [List.length_cons] at hconsumed
    have hstep : value * 10 ^ (ch :: digits).length + decimalValue (ch :: digits) =
        (value * 10 + digitValue ch) * 10 ^ digits.length + decimalValue digits := by
      rw [decimalValue_cons, List.length_cons, Nat.pow_succ]
      ring
    rw [hstep] at hvalue ⊢
    have hlt : value * 10 + digitValue ch < 2 ^ 64 := by
      have hpow : 0 < 10 ^ digits.length := Nat.pow_pos (by decide)
      have := Nat.le_mul_of_pos_right (value * 10 + digitValue ch) hpow
      omega
    rw [List.cons_append, lexNumber]
    simp only [hch, Bool.true_or, if_true, hdot, if_false, Nat.reduceEqDiff,
      Bool.false_eq_true, accumulate, Nat.mod_eq_of_lt hlt]
    rw [if_neg (by omega)]
    have hrestDigits : ∀ c ∈ digits, isDigit c = true := by
      intro c hc
      exact hdigits c (List.mem_cons_of_mem ch hc)
    have hroom : consumed + 1 + digits.length ≤ yylexBufferSize := by omega
    exact @ih hrestDigits (value * 10 + digitValue ch) (consumed + 1) hvalue hroom

theorem Keyword.text_bytes (k : Keyword) : ∀ ch ∈ k.text, isKeywordByte ch = true := by
  have hall : k.text.all isKeywordByte = true := by cases k <;> rfl
  exact List.all_eq_true.mp hall

theorem findKeyword_text (k : Keyword) : findKeyword k.text = some k := by
  cases k <;> decide

theorem Keyword.text_length (k : Keyword) : k.text.length < yylexBufferSize - 1 := by
  cases k <;> decide

/-- A keyword starts with a letter. -/
theorem Keyword.text_head (k : Keyword) : ∃ ch tail, k.text = ch :: tail ∧ isAlpha ch = true := by
  cases k <;> exact ⟨_, _, rfl, by decide⟩

theorem lexKeyword_text (k : Keyword) {rest : Bytes} (hrest : EndsWord rest) :
    lexKeyword (k.text ++ rest) = .token (.keyword k) rest := by
  have htake : rest.takeWhile isKeywordByte = [] := by
    cases rest with
    | nil => rfl
    | cons ch rest => rw [List.takeWhile_cons_of_neg (by simp [(hrest ch rfl).1])]
  have hdrop : rest.dropWhile isKeywordByte = rest := by
    cases rest with
    | nil => rfl
    | cons ch rest => rw [List.dropWhile_cons_of_neg (by simp [(hrest ch rfl).1])]
  have hlen := k.text_length
  unfold lexKeyword
  rw [List.takeWhile_append_of_pos k.text_bytes, List.dropWhile_append_of_pos k.text_bytes, htake,
    hdrop, List.append_nil]
  simp only [findKeyword_text]
  rw [if_neg (by omega)]

theorem isAlpha_facts {ch : UInt8} (h : isAlpha ch = true) :
    isSpace ch = false ∧ isDigit ch = false ∧ ch ≠ 35 ∧ ch ≠ 39 ∧ ch ≠ 34 ∧ ch ≠ 46 := by
  simp only [isAlpha, isUpper, isLower, isSpace, isDigit, Bool.or_eq_true, Bool.and_eq_true,
    decide_eq_true_eq, Bool.or_eq_false_iff, Bool.and_eq_false_iff, decide_eq_false_iff_not] at h ⊢
  grind

theorem yylex_digit {ch : UInt8} {input : Bytes} (hch : isDigit ch = true) :
    yylex (ch :: input) = lexNumberStart ch input := by
  have hspace : isSpace ch = false := isSpace_of_isDigit hch
  have hhash : ch ≠ 35 := isDigit_ne hch (by decide)
  have hchar : ch ≠ 39 := isDigit_ne hch (by decide)
  have hquote : ch ≠ 34 := isDigit_ne hch (by decide)
  simp only [yylex, skipSpace, Bool.false_and, Bool.false_eq_true, if_false, hhash, hspace, hchar,
    hquote, hch, Bool.true_or, if_true]

theorem yylex_quote (input : Bytes) :
    yylex (34 :: input) = lexString (yylexBufferSize - 1) false [] input := rfl

theorem yylex_alpha {ch : UInt8} {input : Bytes} (hch : isAlpha ch = true) :
    yylex (ch :: input) = lexKeyword (ch :: input) := by
  obtain ⟨hspace, hdigit, hhash, hchar, hquote, hdot⟩ := isAlpha_facts hch
  simp only [yylex, skipSpace, Bool.false_and, Bool.false_eq_true, if_false, hhash, hspace, hchar,
    hquote, hdigit, hdot, decide_false, Bool.or_self, hch, if_true]

/-- One token, from a text that starts with it. -/
theorem yylex_spelling {t : Token} {spelling rest : Bytes} (h : Spelling t spelling)
    (hrest : t.isWord = true → EndsWord rest) : yylex (spelling ++ rest) = .token t rest := by
  cases h with
  | keyword k =>
    obtain ⟨ch, tail, htext, hch⟩ := k.text_head
    have hlex := lexKeyword_text k (hrest rfl)
    rw [htext, List.cons_append] at hlex ⊢
    rw [yylex_alpha hch, hlex]
  | @punct ch hch =>
    simp only [grammarPunct, List.mem_cons, List.not_mem_nil, or_false] at hch
    rcases hch with rfl | rfl | rfl | rfl <;> rfl
  | @string value text htext hlen =>
    rw [List.cons_append, List.append_assoc, yylex_quote]
    exact lexString_escaped htext hlen [] rest
  | @integer ch digits hdigits hzero hvalue =>
    have hlen := digits_length_of_decimalValue hdigits hzero
    have hshort : digits.length < 20 := by
      apply (Nat.pow_lt_pow_iff_right (by decide : 1 < 10)).mp
      exact Nat.lt_of_le_of_lt hlen (Nat.lt_trans hvalue (by decide))
    have hbuffer : 0 + (ch :: digits).length ≤ yylexBufferSize := by
      simp only [List.length_cons, yylexBufferSize]
      omega
    have hnumber := @lexNumber_digits _ hdigits 0 0 (by simpa using hvalue) hbuffer rest (hrest rfl)
    rw [List.cons_append, yylex_digit (hdigits ch List.mem_cons_self)]
    unfold lexNumberStart
    rw [if_neg hzero]
    simpa using hnumber

theorem endsWord_layout {layout text : Bytes} (h : Layout layout) (htext : EndsWord text) :
    EndsWord (layout ++ text) := by
  cases h with
  | nil => exact htext
  | space hch _ =>
    intro ch hhead
    cases hhead
    simp only [isSpace, isKeywordByte, isAlnum, isAlpha, isUpper, isLower, isDigit, Bool.or_eq_true,
      Bool.and_eq_true, decide_eq_true_eq, Bool.or_eq_false_iff, Bool.and_eq_false_iff,
      decide_eq_false_iff_not] at hch ⊢
    grind
  | comment _ _ =>
    intro ch hhead
    cases hhead
    decide

theorem endsWord_trailing {text : Bytes} (h : Trailing text) : EndsWord text := by
  cases h with
  | layout h =>
    rw [← List.append_nil text]
    exact endsWord_layout h (by intro ch hhead; contradiction)
  | comment h _ =>
    apply endsWord_layout h
    intro ch hhead
    cases hhead
    decide

theorem endsWord_spelling {t : Token} {spelling : Bytes} (h : Spelling t spelling)
    (ht : t.isWord = false) (text : Bytes) : EndsWord (spelling ++ text) := by
  intro ch hhead
  cases h with
  | keyword k => contradiction
  | integer => contradiction
  | punct hch =>
    cases hhead
    simp only [grammarPunct, List.mem_cons, List.not_mem_nil, or_false] at hch
    rcases hch with rfl | rfl | rfl | rfl <;> decide
  | string =>
    cases hhead
    decide

theorem Rendering.endsWord {ts : List Token} {text : Bytes} (h : Rendering ts text)
    (hts : ∀ t ∈ ts.head?, t.isWord = false) : EndsWord text := by
  cases h with
  | nil h => exact endsWord_trailing h
  | cons hlayout hspelling _ =>
    exact endsWord_layout hlayout (endsWord_spelling hspelling (hts _ rfl) _)

/-- One spelling of a token: every byte of a STRING is escaped. -/
def Token.spell : Token → Bytes
  | .keyword k => k.text
  | .punct ch => [ch]
  | .string value => 34 :: (value.flatMap (fun ch => [92, ch]) ++ [34])
  | .integer value => decimalDigits value
  | _ => []

def Token.Spellable : Token → Prop
  | .keyword _ => True
  | .punct ch => ch ∈ grammarPunct
  | .string value => value.length < 4095
  | .integer value => value ≠ 0 ∧ value < 2 ^ 64
  | _ => False

instance : DecidablePred Token.Spellable
  | .keyword _ => .isTrue trivial
  | .punct ch => inferInstanceAs (Decidable (ch ∈ grammarPunct))
  | .string value => inferInstanceAs (Decidable (value.length < 4095))
  | .integer value => inferInstanceAs (Decidable (value ≠ 0 ∧ value < 2 ^ 64))
  | .float | .char _ => .isFalse id

theorem escaped_all (value : Bytes) : Escaped value (value.flatMap fun ch => [92, ch]) := by
  induction value with
  | nil => exact .nil
  | cons ch value ih => exact .escape ih

theorem spelling_spell {t : Token} (h : t.Spellable) : Spelling t t.spell := by
  cases t with
  | keyword k => exact .keyword k
  | punct ch => exact .punct h
  | string value => exact .string (escaped_all value) h
  | integer value =>
    have hvalue := decimalValue_decimalDigits value
    have hdigits := isDigit_decimalDigits value
    obtain ⟨ch, tail, hsplit, hzero⟩ := decimalDigits_head h.1
    rw [Token.spell]
    rw [hsplit] at hvalue hdigits ⊢
    have hspelling := Spelling.integer hdigits hzero (by rw [hvalue]; exact h.2)
    rwa [hvalue] at hspelling
  | float => contradiction
  | char value => contradiction

def printTokens (layout : Bytes) (ts : List Token) : Bytes := ts.flatMap (layout ++ ·.spell)

theorem rendering_printTokens {layout : Bytes} (hlayout : Layout layout) {ts : List Token}
    (hts : ∀ t ∈ ts, t.Spellable) : Rendering ts (printTokens layout ts) := by
  induction ts with
  | nil => exact .nil (.layout .nil)
  | cons t ts ih =>
    rw [List.forall_mem_cons] at hts
    rw [printTokens, List.flatMap_cons, List.append_assoc]
    exact .cons hlayout (spelling_spell hts.1) (ih hts.2)

/-- Every text of the tokens is scanned to the tokens. -/
theorem lexFile_rendering {ts : List Token} {text : Bytes} (h : Rendering ts text)
    (hts : Separated ts) : lexFile text = (ts, .eof) := by
  induction h with
  | nil h =>
    simp only [lexFile, tokens, yylex, skipSpace_trailing h]
  | @cons t ts layout spelling text hlayout hspelling htext ih =>
    have hlex : yylex (layout ++ (spelling ++ text)) = .token t text := by
      rw [yylex_layout hlayout]
      apply yylex_spelling hspelling
      intro hword
      apply htext.endsWord
      intro u hu
      exact (List.isChain_cons.mp hts).1 u hu hword
    rw [lexFile_cons hlex, ih (List.isChain_cons.mp hts).2]

end StatsProxy

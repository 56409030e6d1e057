import Mathlib.Data.List.Infix
import Mathlib.Data.List.TakeWhile
import Mathlib.Data.Nat.Digits.Lemmas
import Mathlib.Tactic.Ring

/-! C strings as byte lists, with the functions of `string.h` and `ctype.h` in
the C locale. A list stands for the bytes of an array; the string it holds ends
before its first NUL. -/
namespace StatsProxy.CString

abbrev Bytes := List UInt8

instance Bytes.lawfulBEq : LawfulBEq Bytes := inferInstance

def ascii (text : String) : Bytes := text.toList.map fun c => UInt8.ofNat c.toNat

/-- A literal is its characters; its evaluation does not decode it. -/
theorem ascii_ofList (l : List Char) :
    ascii (String.ofList l) = l.map fun c => UInt8.ofNat c.toNat := by
  rw [ascii, String.toList_ofList]

def cString (array : Bytes) : Bytes := array.takeWhile (· ≠ 0)

def isSpace (ch : UInt8) : Bool := ch = 32 || (9 ≤ ch && ch ≤ 13)
def isDigit (ch : UInt8) : Bool := 48 ≤ ch && ch ≤ 57
def isUpper (ch : UInt8) : Bool := 65 ≤ ch && ch ≤ 90
def isLower (ch : UInt8) : Bool := 97 ≤ ch && ch ≤ 122
def isAlpha (ch : UInt8) : Bool := isUpper ch || isLower ch
def isAlnum (ch : UInt8) : Bool := isAlpha ch || isDigit ch
def isPunct (ch : UInt8) : Bool := 33 ≤ ch && ch ≤ 126 && !isAlnum ch
def toLower (ch : UInt8) : UInt8 := if isUpper ch then ch + 32 else ch
def isHexDigit (ch : UInt8) : Bool := isDigit ch || (97 ≤ toLower ch && toLower ch ≤ 102)

/-- Whether `needle` occurs in `haystack`. -/
def strstr (haystack needle : Bytes) : Bool :=
  haystack.tails.any fun rest => needle.isPrefixOf rest

/-- The tokens that repeated calls of `strtok` return. -/
def strtok (delimiters : Bytes) (text : Bytes) : List Bytes :=
  (text.splitOnP (· ∈ delimiters)).filter (· ≠ [])

/-- The text before and after the first `ch`. -/
def strchr (text : Bytes) (ch : UInt8) : Option (Bytes × Bytes) :=
  match text with
  | [] => none
  | c :: rest =>
    if c = ch then some ([], rest)
    else (strchr rest ch).map fun p => (c :: p.1, p.2)

def digitValue (ch : UInt8) : Nat := ch.toNat - 48

/-- The number that a string of decimal digits spells. -/
def decimalValue (digits : Bytes) : Nat := digits.foldl (fun v ch => v * 10 + digitValue ch) 0

theorem foldl_decimal (v : Nat) (digits : Bytes) :
    digits.foldl (fun v ch => v * 10 + digitValue ch) v =
      v * 10 ^ digits.length + decimalValue digits := by
  induction digits generalizing v with
  | nil => simp [decimalValue]
  | cons ch digits ih =>
    rw [decimalValue, List.foldl_cons, List.foldl_cons, ih, ih (0 * 10 + digitValue ch),
      List.length_cons, Nat.pow_succ]
    ring

theorem decimalValue_cons (ch : UInt8) (digits : Bytes) :
    decimalValue (ch :: digits) = digitValue ch * 10 ^ digits.length + decimalValue digits := by
  have h := foldl_decimal (0 * 10 + digitValue ch) digits
  simpa [decimalValue] using h

/-- A number without a leading zero is as long as its value. -/
theorem digits_length_of_decimalValue {ch : UInt8} {digits : Bytes}
    (hdigits : ∀ c ∈ ch :: digits, isDigit c = true) (hzero : ch ≠ 48) :
    10 ^ digits.length ≤ decimalValue (ch :: digits) := by
  have hch : isDigit ch = true := hdigits ch List.mem_cons_self
  have hvalue : 1 ≤ digitValue ch := by
    simp only [isDigit, Bool.and_eq_true, decide_eq_true_eq, UInt8.le_iff_toNat_le] at hch
    have hne : ch.toNat ≠ 48 := fun heq => hzero (UInt8.toNat_inj.mp heq)
    simp only [digitValue]
    have : (48 : UInt8).toNat = 48 := rfl
    omega
  rw [decimalValue_cons]
  have := Nat.le_mul_of_pos_left (10 ^ digits.length) hvalue
  omega

/-- The decimal digits of a number, without a leading zero. -/
def decimalDigits (n : Nat) : Bytes :=
  (Nat.digits 10 n).reverse.map fun d => UInt8.ofNat (48 + d)

theorem digit_ofNat {d : Nat} (h : d < 10) :
    isDigit (UInt8.ofNat (48 + d)) = true ∧ digitValue (UInt8.ofNat (48 + d)) = d := by
  have hval : (UInt8.ofNat (48 + d)).toNat = 48 + d := by
    rw [UInt8.toNat_ofNat']
    omega
  constructor
  · simp only [isDigit, Bool.and_eq_true, decide_eq_true_eq, UInt8.le_iff_toNat_le, hval]
    have h48 : (48 : UInt8).toNat = 48 := rfl
    have h57 : (57 : UInt8).toNat = 57 := rfl
    omega
  · rw [digitValue, hval]
    omega

theorem isDigit_decimalDigits (n : Nat) : ∀ ch ∈ decimalDigits n, isDigit ch = true := by
  intro ch hch
  simp only [decimalDigits, List.mem_map, List.mem_reverse] at hch
  obtain ⟨d, hd, rfl⟩ := hch
  exact (digit_ofNat (Nat.digits_lt_base (by decide) hd)).1

theorem decimalValue_decimalDigits (n : Nat) : decimalValue (decimalDigits n) = n := by
  have hfold : ∀ ds : List Nat, (∀ d ∈ ds, d < 10) →
      decimalValue (ds.reverse.map fun d => UInt8.ofNat (48 + d)) = Nat.ofDigits 10 ds := by
    intro ds hds
    induction ds with
    | nil => rfl
    | cons d ds ih =>
      rw [List.forall_mem_cons] at hds
      have hd := (digit_ofNat hds.1).2
      rw [List.reverse_cons, List.map_append, decimalValue, List.foldl_append, ← decimalValue,
        ih hds.2, Nat.ofDigits_cons]
      simp only [List.map_cons, List.map_nil, List.foldl_cons, List.foldl_nil, hd]
      omega
  rw [decimalDigits, hfold _ fun d hd => Nat.digits_lt_base (by decide) hd]
  exact Nat.ofDigits_digits 10 n

theorem decimalDigits_head {n : Nat} (h : n ≠ 0) :
    ∃ ch tail, decimalDigits n = ch :: tail ∧ ch ≠ 48 := by
  have hne : Nat.digits 10 n ≠ [] := Nat.digits_ne_nil_iff_ne_zero.mpr h
  have hlast := Nat.getLast_digit_ne_zero 10 h
  have hlt : (Nat.digits 10 n).getLast hne < 10 :=
    Nat.digits_lt_base (by decide) (List.getLast_mem hne)
  refine ⟨UInt8.ofNat (48 + (Nat.digits 10 n).getLast hne),
    (Nat.digits 10 n).dropLast.reverse.map fun d => UInt8.ofNat (48 + d), ?_, ?_⟩
  · have hsplit := List.dropLast_append_getLast hne
    rw [decimalDigits]
    conv_lhs => rw [← hsplit]
    simp
  · intro heq
    have hvalue := (digit_ofNat hlt).2
    rw [heq] at hvalue
    exact hlast hvalue.symm

/-- `strtoul(text, NULL, 10)`. -/
def strtoul (text : Bytes) : Nat :=
  let body := text.dropWhile isSpace
  let (negative, body) := match body with
    | ch :: rest =>
      if ch = 45 then (true, rest) else if ch = 43 then (false, rest) else (false, body)
    | [] => (false, body)
  let value := decimalValue (body.takeWhile isDigit)
  if 2 ^ 64 ≤ value then 2 ^ 64 - 1
  else if negative then (2 ^ 64 - value) % 2 ^ 64
  else value

/-- The text of `%d` for a number that is not negative. -/
def printDecimal (n : Nat) : Bytes := if n = 0 then [48] else decimalDigits n

/-- `%s` of `sscanf` with a width, and the rest; `none` at the end of the text. -/
def scanString (width : Nat) (text : Bytes) : Option (Bytes × Bytes) :=
  let body := text.dropWhile isSpace
  let word := (body.takeWhile (!isSpace ·)).take width
  if word = [] then none else some (word, body.drop word.length)

/-- `%hd` of `sscanf` into a `uint16_t`; `none` where it stores nothing. -/
def scanShort (text : Bytes) : Option Nat :=
  let body := text.dropWhile isSpace
  let (negative, body) := match body with
    | ch :: rest =>
      if ch = 45 then (true, rest) else if ch = 43 then (false, rest) else (false, body)
    | [] => (false, body)
  let digits := body.takeWhile isDigit
  let value : Int := if negative then -decimalValue digits else decimalValue digits
  if digits = [] then none
  else some ((max (-2 ^ 63) (min value (2 ^ 63 - 1)) % 2 ^ 16).toNat)

theorem strchr_append {front : Bytes} {ch : UInt8} (h : ch ∉ front) (back : Bytes) :
    strchr (front ++ ch :: back) ch = some (front, back) := by
  induction front with
  | nil => simp [strchr]
  | cons c front ih =>
    rw [List.mem_cons, not_or] at h
    rw [List.cons_append, strchr, if_neg (Ne.symm h.1), ih h.2]
    rfl

theorem cString_noNul (array : Bytes) : 0 ∉ cString array := by
  intro h
  simpa using List.mem_takeWhile_imp h

theorem cString_append {front : Bytes} (h : 0 ∉ front) (back : Bytes) :
    cString (front ++ back) = front ++ cString back := by
  unfold cString
  apply List.takeWhile_append_of_pos
  intro ch hch
  simp only [ne_eq, decide_eq_true_eq]
  exact fun heq => h (heq ▸ hch)

/-- Nothing after a NUL is read. -/
theorem cString_nul (front back : Bytes) : cString (front ++ 0 :: back) = cString front := by
  induction front with
  | nil => simp [cString]
  | cons ch front ih =>
    unfold cString at ih ⊢
    rw [List.cons_append, List.takeWhile_cons, List.takeWhile_cons, ih]

theorem cString_of_nul {text : Bytes} (h : 0 ∉ text) : cString text = text := by
  have happ := cString_append h []
  simpa [cString] using happ

theorem cString_append_nul {front : Bytes} (h : 0 ∉ front) (back : Bytes) :
    cString (front ++ 0 :: back) = front := by
  rw [cString_nul, cString_of_nul h]

/-- The string fills the array, or its NUL stands in it. -/
theorem cString_split (array : Bytes) :
    cString array = array ∨ ∃ back, array = cString array ++ 0 :: back := by
  by_cases hnul : 0 ∈ array
  · obtain ⟨front, back, rfl, hfront⟩ := List.eq_append_cons_of_mem hnul
    exact Or.inr ⟨back, by rw [cString_append_nul hfront]⟩
  · exact Or.inl (cString_of_nul hnul)

theorem scanString_length {width : Nat} {text word rest : Bytes}
    (h : scanString width text = some (word, rest)) : word.length ≤ width := by
  dsimp only [scanString] at h
  split at h
  · contradiction
  · cases h
    exact List.length_take_le _ _

/-- A scanned word is taken off the front of the text. -/
theorem scanString_word {width : Nat} {text word rest : Bytes}
    (h : scanString width text = some (word, rest)) :
    word ++ rest = text.dropWhile isSpace ∧ ∀ ch ∈ word, isSpace ch = false := by
  dsimp only [scanString] at h
  split at h
  · contradiction
  · cases h
    have hleading := (List.take_prefix width _).trans
      (List.takeWhile_prefix (!isSpace ·) (l := text.dropWhile isSpace))
    apply And.intro (List.prefix_iff_eq_append.mp hleading)
    intro ch hch
    simpa using List.mem_takeWhile_imp (List.mem_of_mem_take hch)

/-- A word that fits is scanned whole. -/
theorem scanString_append {width : Nat} {word rest : Bytes} (hne : word ≠ [])
    (hword : ∀ ch ∈ word, isSpace ch = false) (hrest : ∀ ch ∈ rest.head?, isSpace ch = true)
    (hwidth : word.length ≤ width) : scanString width (word ++ rest) = some (word, rest) := by
  have hbody : (word ++ rest).dropWhile isSpace = word ++ rest := by
    cases word with
    | nil => contradiction
    | cons ch word =>
      have hch := hword ch List.mem_cons_self
      exact List.dropWhile_cons_of_neg (by simp [hch])
  have htake : (word ++ rest).takeWhile (!isSpace ·) = word := by
    rw [List.takeWhile_append_of_pos (by simpa using hword)]
    cases rest with
    | nil => simp
    | cons ch rest =>
      have hch := hrest ch rfl
      rw [List.takeWhile_cons_of_neg (by simp [hch]), List.append_nil]
  dsimp only [scanString]
  rw [hbody, htake, List.take_of_length_le hwidth, if_neg hne, List.drop_left]

theorem scanString_blank (width : Nat) (text : Bytes) :
    scanString width (32 :: text) = scanString width text := rfl

theorem isDigit_ne {ch c : UInt8} (h : isDigit ch = true) (hc : isDigit c = false) : ch ≠ c := by
  intro heq
  rw [heq, hc] at h
  contradiction

theorem isSpace_of_isDigit {ch : UInt8} (h : isDigit ch = true) : isSpace ch = false := by
  simp only [isSpace, isDigit, Bool.and_eq_true, decide_eq_true_eq, Bool.or_eq_false_iff,
    Bool.and_eq_false_iff, decide_eq_false_iff_not] at h ⊢
  grind

theorem strtoul_digits {digits : Bytes} (hdigits : ∀ ch ∈ digits, isDigit ch = true)
    (hvalue : decimalValue digits < 2 ^ 64) : strtoul digits = decimalValue digits := by
  have htake : digits.takeWhile isDigit = digits := List.takeWhile_eq_self_iff.mpr hdigits
  have hlt : ¬2 ^ 64 ≤ decimalValue digits := Nat.not_le.mpr hvalue
  cases digits with
  | nil => rfl
  | cons ch digits =>
    have hch : isDigit ch = true := hdigits ch List.mem_cons_self
    have hminus : ch ≠ 45 := isDigit_ne hch (by decide)
    have hplus : ch ≠ 43 := isDigit_ne hch (by decide)
    unfold strtoul
    rw [List.dropWhile_cons_of_neg (by simp [isSpace_of_isDigit hch])]
    simp only [hminus, hplus, if_false, htake, hlt, Bool.false_eq_true]

theorem isDigit_printDecimal (n : Nat) : ∀ ch ∈ printDecimal n, isDigit ch = true := by
  unfold printDecimal
  split
  · decide +kernel
  · exact isDigit_decimalDigits n

theorem printDecimal_ne_nil (n : Nat) : printDecimal n ≠ [] := by
  unfold printDecimal
  split
  · exact List.cons_ne_nil _ _
  · next hzero =>
    obtain ⟨ch, tail, heq, -⟩ := decimalDigits_head hzero
    exact heq ▸ List.cons_ne_nil _ _

theorem printDecimal_length {n k : Nat} (h : n < 10 ^ k) (hk : 1 ≤ k) :
    (printDecimal n).length ≤ k := by
  unfold printDecimal
  split
  · exact hk
  · rw [decimalDigits, List.length_map, List.length_reverse]
    exact (Nat.digits_length_le_iff (by decide) n).mpr h

theorem scanShort_lt {text : Bytes} {n : Nat} (h : scanShort text = some n) : n < 2 ^ 16 := by
  unfold scanShort at h
  dsimp only at h
  rw [Option.ite_none_left_eq_some] at h
  rw [← Option.some.inj h.2]
  exact (Int.toNat_lt' (by decide)).mpr (Int.emod_lt_of_pos _ (by decide))

theorem scanShort_printDecimal {n : Nat} (h : n < 2 ^ 16) :
    scanShort (printDecimal n) = some n := by
  have hdigits := isDigit_printDecimal n
  have hvalue : decimalValue (printDecimal n) = n := by
    unfold printDecimal
    split
    · next hzero => rw [hzero]; rfl
    · exact decimalValue_decimalDigits n
  have htake : (printDecimal n).takeWhile isDigit = printDecimal n :=
    List.takeWhile_eq_self_iff.mpr hdigits
  cases hprint : printDecimal n with
  | nil => exact absurd hprint (printDecimal_ne_nil n)
  | cons ch digits =>
    rw [hprint] at hdigits hvalue htake
    have hch : isDigit ch = true := hdigits ch List.mem_cons_self
    have hminus : ch ≠ 45 := isDigit_ne hch (by decide)
    have hplus : ch ≠ 43 := isDigit_ne hch (by decide)
    unfold scanShort
    rw [List.dropWhile_cons_of_neg (by simp [isSpace_of_isDigit hch])]
    simp only [hminus, hplus, if_false, htake, hvalue, Bool.false_eq_true, reduceCtorEq]
    congr 1
    omega

/-- A piece has bytes of the text only, and no delimiter. -/
theorem mem_splitOnP {p : UInt8 → Bool} {text piece : Bytes} (h : piece ∈ text.splitOnP p) :
    ∀ ch ∈ piece, ch ∈ text ∧ p ch = false := by
  induction text generalizing piece with
  | nil =>
    rw [List.splitOnP_nil, List.mem_singleton] at h
    subst h
    exact nofun
  | cons ch text ih =>
    have hlonger : ∀ {piece : Bytes}, (∀ c ∈ piece, c ∈ text ∧ p c = false) →
        ∀ c ∈ piece, c ∈ ch :: text ∧ p c = false :=
      fun hpiece c hc => ⟨List.mem_cons_of_mem ch (hpiece c hc).1, (hpiece c hc).2⟩
    rw [List.splitOnP_cons_eq_if_modifyHead] at h
    split at h
    · rcases List.mem_cons.mp h with rfl | h
      · exact nofun
      · exact hlonger (ih h)
    · rename_i hch
      obtain ⟨first, pieces, hsplit⟩ := List.exists_cons_of_ne_nil (List.splitOnP_ne_nil p text)
      rw [hsplit] at h ih
      rcases List.mem_cons.mp h with rfl | h
      · rw [List.forall_mem_cons]
        exact ⟨⟨List.mem_cons_self, by simpa using hch⟩, hlonger (ih List.mem_cons_self)⟩
      · exact hlonger (ih (List.mem_cons_of_mem _ h))

theorem strtok_pieces {delimiters text piece : Bytes} (h : piece ∈ strtok delimiters text) :
    piece ≠ [] ∧ ∀ ch ∈ piece, ch ∉ delimiters := by
  obtain ⟨hmem, hne⟩ := List.mem_filter.mp h
  refine ⟨by simpa using hne, fun ch hch => ?_⟩
  simpa using (mem_splitOnP hmem ch hch).2

theorem strtok_subset {delimiters text piece : Bytes} (h : piece ∈ strtok delimiters text) :
    piece ⊆ text :=
  fun ch hch => (mem_splitOnP (List.mem_filter.mp h).1 ch hch).1

/-- Words that are joined by blanks can be told apart again exactly if none is
empty and none has a blank. -/
theorem strtok_intercalate {words : List Bytes} (hne : words ≠ []) :
    strtok (ascii " ") ((ascii " ").intercalate words) = words ↔
      ∀ word ∈ words, word ≠ [] ∧ 32 ∉ word := by
  have hblank : ascii " " = [32] := by decide
  constructor
  · intro h word hword
    rw [← h] at hword
    obtain ⟨hword, hpieces⟩ := strtok_pieces hword
    exact ⟨hword, fun hmem => hpieces 32 hmem (by decide)⟩
  · intro h
    have hsplit : ((ascii " ").intercalate words).splitOnP (· ∈ ascii " ") = words := by
      have hp : (fun ch : UInt8 => decide (ch ∈ ascii " ")) = (· == 32) := by
        funext ch
        rw [hblank]
        by_cases hch : ch = 32 <;> simp [hch]
      rw [hp, hblank]
      exact List.splitOn_intercalate 32 (fun word hword => (h word hword).2) hne
    unfold strtok
    rw [hsplit, List.filter_eq_self]
    intro word hword
    simpa using (h word hword).1

theorem mem_intercalate_blank {words : List Bytes} {ch : UInt8} (hch : ch ≠ 32) :
    ch ∈ (ascii " ").intercalate words ↔ ∃ word ∈ words, ch ∈ word := by
  have hblank : ch ∉ ascii " " := by
    intro h
    exact hch (List.mem_singleton.mp h)
  induction words with
  | nil => simp
  | cons word words ih =>
    by_cases hwords : words = []
    · subst hwords
      simp
    · rw [List.intercalate_cons_of_ne_nil hwords]
      simp [hblank, ih]

theorem strstr_iff {haystack needle : Bytes} :
    strstr haystack needle = true ↔ needle <:+: haystack := by
  simp only [strstr, List.any_eq_true, List.mem_tails, List.isPrefixOf_iff_prefix]
  rw [List.infix_iff_prefix_suffix]
  apply exists_congr
  intro rest
  exact and_comm

/-- A search of the string in an array sees the occurrences before the first NUL. -/
theorem strstr_cString_iff {array needle : Bytes} (h : 0 ∉ needle) :
    strstr (cString array) needle = true ↔
      ∃ front back, array = front ++ needle ++ back ∧ 0 ∉ front := by
  rw [strstr_iff]
  constructor
  · rintro ⟨front, back, hstring⟩
    have hsplit := List.takeWhile_append_dropWhile (p := (· ≠ 0)) (l := array)
    rw [← cString, ← hstring, List.append_assoc] at hsplit
    refine ⟨front, _, hsplit.symm, fun hnul => cString_noNul array ?_⟩
    rw [← hstring]
    exact List.mem_append_left _ (List.mem_append_left _ hnul)
  · rintro ⟨front, back, rfl, hfront⟩
    have hnul : 0 ∉ front ++ needle := by
      rw [List.mem_append, not_or]
      exact ⟨hfront, h⟩
    exact ⟨front, cString back, (cString_append hnul back).symm⟩

theorem strtok_nil (delimiters : Bytes) : strtok delimiters [] = [] := by
  simp [strtok]

/-- No token crosses a delimiter. -/
theorem strtok_append_cons {delimiters : Bytes} {ch : UInt8} (h : ch ∈ delimiters)
    (front back : Bytes) :
    strtok delimiters (front ++ ch :: back) =
      strtok delimiters front ++ strtok delimiters back := by
  unfold strtok
  rw [List.splitOnP_append_cons front back (by simpa using h), List.filter_append]

theorem strtok_delimiter {delimiters : Bytes} {ch : UInt8} (h : ch ∈ delimiters) (text : Bytes) :
    strtok delimiters (ch :: text) = strtok delimiters text := by
  rw [← List.nil_append (ch :: text), strtok_append_cons h, strtok_nil, List.nil_append]

theorem strtok_word {delimiters word : Bytes} (hne : word ≠ [])
    (hword : ∀ ch ∈ word, ch ∉ delimiters) : strtok delimiters word = [word] := by
  unfold strtok
  rw [List.splitOnP_eq_singleton (by simpa using hword)]
  simpa using hne

/-- One call of `strtok_r`: the token, and the text it saves for the next call. -/
def strtokR (delimiters : Bytes) (text : Bytes) : Option (Bytes × Bytes) :=
  let body := text.dropWhile (· ∈ delimiters)
  if body = [] then none
  else some (body.takeWhile (· ∉ delimiters), (body.dropWhile (· ∉ delimiters)).tail)

theorem strtokR_length {delimiters text token save : Bytes}
    (h : strtokR delimiters text = some (token, save)) : save.length < text.length := by
  dsimp only [strtokR] at h
  split at h
  · contradiction
  · rename_i hbody
    cases h
    have hskip := (List.dropWhile_suffix (l := text) (· ∈ delimiters)).length_le
    have hpos := List.length_pos_of_ne_nil hbody
    have hrest := (List.dropWhile_suffix (l := text.dropWhile (· ∈ delimiters))
      (· ∉ delimiters)).length_le
    rw [List.length_tail]
    omega

/-- The calls return the tokens one by one. -/
theorem strtok_eq_strtokR (delimiters text : Bytes) :
    strtok delimiters text = match strtokR delimiters text with
      | none => []
      | some (token, save) => token :: strtok delimiters save := by
  have hskip : strtok delimiters text =
      strtok delimiters (text.dropWhile (· ∈ delimiters)) := by
    induction text with
    | nil => rfl
    | cons ch text ih =>
      rw [List.dropWhile_cons]
      split
      · rename_i hch
        rw [strtok_delimiter (by simpa using hch), ih]
      · rfl
  rw [hskip, strtokR]
  cases hbody : text.dropWhile (· ∈ delimiters) with
  | nil =>
    rw [if_pos rfl]
    exact strtok_nil _
  | cons ch body =>
    rw [if_neg (List.cons_ne_nil _ _)]
    have hch : ch ∉ delimiters := by
      have hne : text.dropWhile (· ∈ delimiters) ≠ [] := hbody ▸ List.cons_ne_nil _ _
      simpa [hbody] using List.head_dropWhile_not (· ∈ delimiters) hne
    have htoken : (ch :: body).takeWhile (· ∉ delimiters) ≠ [] := by
      rw [List.takeWhile_cons_of_pos (by simpa using hch)]
      exact List.cons_ne_nil _ _
    have hclean : ∀ c ∈ (ch :: body).takeWhile (· ∉ delimiters), c ∉ delimiters := by
      intro c hc
      simpa using List.mem_takeWhile_imp hc
    have hsplit := List.takeWhile_append_dropWhile (p := (· ∉ delimiters)) (l := ch :: body)
    dsimp only
    cases hrest : (ch :: body).dropWhile (· ∉ delimiters) with
    | nil =>
      rw [hrest, List.append_nil] at hsplit
      rw [List.tail_nil, strtok_nil]
      conv_lhs => rw [← hsplit]
      exact strtok_word htoken hclean
    | cons d rest =>
      have hd : d ∈ delimiters := by
        have hne : (ch :: body).dropWhile (· ∉ delimiters) ≠ [] := hrest ▸ List.cons_ne_nil _ _
        have hhead := List.head_dropWhile_not (· ∉ delimiters) hne
        simp only [hrest, List.head_cons] at hhead
        simpa using hhead
      rw [hrest] at hsplit
      conv_lhs => rw [← hsplit]
      rw [strtok_append_cons hd, strtok_word htoken hclean]
      rfl

example : strtok (ascii "\r\n") (ascii "STAT a 1\r\n\r\nEND\r\n") =
    [ascii "STAT a 1", ascii "END"] := by decide

end StatsProxy.CString

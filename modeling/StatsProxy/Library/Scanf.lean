import StatsProxy.Library.CString

/-! `sscanf` of the C library. A format is a list of directives, and the arguments of a
call are the ways to store into a record of local variables. A conversion the call does
not come to leaves its argument as it was. -/
namespace StatsProxy.Scanf
open CString

inductive Value where
  | text (word : Bytes)
  | number (value : Int)
deriving DecidableEq

def Value.word : Value → Bytes
  | .text word => word
  | .number _ => []

def Value.int : Value → Int
  | .text _ => 0
  | .number value => value

/-- The types of the integer conversions: `%d`, `%hu` and `%lu`. -/
inductive IntType where
  | int | ushort | ulong

/-- A number of digits of `strtol` or `strtoul`, narrowed to the type. -/
def IntType.value (negative : Bool) (magnitude : Nat) : IntType → Int
  | .int =>
    let value : Int := if negative then -magnitude else magnitude
    (max (-2 ^ 63) (min value (2 ^ 63 - 1))).bmod (2 ^ 32)
  | .ushort => (wide negative magnitude % 2 ^ 16 : Nat)
  | .ulong => (wide negative magnitude : Nat)
where
  wide (negative : Bool) (magnitude : Nat) : Nat :=
    if 2 ^ 64 ≤ magnitude then 2 ^ 64 - 1
    else if negative then (2 ^ 64 - magnitude) % 2 ^ 64
    else magnitude

inductive Directive where
  /-- White space, which matches any amount of it. -/
  | space
  | literal (ch : UInt8)
  /-- `%s` with a width, and `%*s`, which is not stored. -/
  | string (width : Option Nat) (stored : Bool)
  /-- `%[^..]` with a width. -/
  | notIn (stop : Bytes) (width : Nat)
  | integer (type : IntType)

/-- What a directive does: it matches and leaves a rest, or it does not match, or the
input ends before it. -/
inductive Matching where
  | matched (value : Option Value) (rest : Bytes)
  | mismatch
  | ended

def splitSign (text : Bytes) : Bool × Bytes :=
  match text with
  | [] => (false, [])
  | ch :: rest => if ch = 45 then (true, rest) else if ch = 43 then (false, rest) else (false, text)

def Directive.matching (text : Bytes) : Directive → Matching
  | .space => .matched none (text.dropWhile isSpace)
  | .literal ch => match text with
    | [] => .ended
    | c :: rest => if c = ch then .matched none rest else .mismatch
  | .string width stored =>
    let body := text.dropWhile isSpace
    let run := body.takeWhile (!isSpace ·)
    let word := match width with
      | none => run
      | some width => run.take width
    if body = [] then .ended
    else .matched (if stored then some (.text word) else none) (body.drop word.length)
  | .notIn stop width =>
    let word := (text.takeWhile (· ∉ stop)).take width
    if text = [] then .ended
    else if word = [] then .mismatch
    else .matched (some (.text word)) (text.drop word.length)
  | .integer type =>
    let body := text.dropWhile isSpace
    let signed := splitSign body
    let digits := signed.2.takeWhile isDigit
    if body = [] then .ended
    else if digits = [] then .mismatch
    else .matched (some (.number (type.value signed.1 (decimalValue digits))))
      (signed.2.drop digits.length)

/-- Whether the conversion has an argument. -/
def Directive.stored : Directive → Bool
  | .space | .literal _ => false
  | .string _ stored => stored
  | .notIn .. | .integer _ => true

/-- The values that are stored, and whether it was the input that ended. -/
def scan : List Directive → Bytes → List Value × Bool
  | [], _ => ([], false)
  | d :: format, text => match d.matching text with
    | .matched none rest => scan format rest
    | .matched (some value) rest => (value :: (scan format rest).1, (scan format rest).2)
    | .mismatch => ([], false)
    | .ended => ([], true)

section

variable {σ β : Type}

/-- The values are stored in order, as many as there are. -/
def store : List (Value → σ → σ) → List Value → σ → σ
  | set :: args, value :: values, locals => store args values (set value locals)
  | _, _, locals => locals

/-- The number of stored values, or -1 if the input ends before there is one. -/
def result (text : Bytes) (format : List Directive) : Int :=
  let scanned := scan format (cString text)
  if scanned.1 = [] ∧ scanned.2 then -1 else scanned.1.length

def sscanf (text : Bytes) (format : List Directive) (args : List (Value → σ → σ)) (locals : σ) :
    Int × σ :=
  (result text format, store args (scan format (cString text)).1 locals)

theorem scan_space (format : List Directive) (text : Bytes) :
    scan (.space :: format) text = scan format (text.dropWhile isSpace) := rfl

/-- `%*s` passes over a word. -/
theorem scan_skipped (format : List Directive) (text : Bytes) :
    scan (.string none false :: format) text =
      if text.dropWhile isSpace = [] then ([], true)
      else scan format ((text.dropWhile isSpace).dropWhile (!isSpace ·)) := by
  have hdrop : ∀ body : Bytes, body.drop (body.takeWhile (!isSpace ·)).length =
      body.dropWhile (!isSpace ·) := by
    intro body
    have hsplit := List.takeWhile_append_dropWhile (p := (!isSpace ·)) (l := body)
    calc body.drop (body.takeWhile (!isSpace ·)).length
        = (body.takeWhile (!isSpace ·) ++ body.dropWhile (!isSpace ·)).drop
            (body.takeWhile (!isSpace ·)).length := by rw [hsplit]
      _ = body.dropWhile (!isSpace ·) := List.drop_left
  by_cases hbody : text.dropWhile isSpace = []
  · simp [scan, Directive.matching, hbody]
  · simp only [scan, Directive.matching, hbody, if_false]
    rw [← hdrop]
    rfl

/-- `%s` stores a word unless the input ends. -/
theorem scan_string (width : Option Nat) (format : List Directive) (text : Bytes) :
    scan (.string width true :: format) text = ([], true) ∨
      (scan (.string width true :: format) text).1 ≠ [] := by
  by_cases hbody : text.dropWhile isSpace = []
  · exact Or.inl (by simp [scan, Directive.matching, hbody])
  · exact Or.inr (by simp [scan, Directive.matching, hbody])

/-- `%[^..]` mismatches on the characters it stops at. -/
theorem scan_notIn (stop : Bytes) {width : Nat} (hwidth : 0 < width) (format : List Directive)
    (text : Bytes) :
    scan (.notIn stop width :: format) text = ([], false) ↔ ∃ ch ∈ stop, text.head? = some ch := by
  cases text with
  | nil => simp [scan, Directive.matching]
  | cons ch text =>
    by_cases hch : ch ∈ stop
    · simp [scan, Directive.matching, hch]
    · have hword : ((ch :: text).takeWhile (· ∉ stop)).take width ≠ [] := by
        obtain ⟨n, rfl⟩ := Nat.exists_eq_succ_of_ne_zero hwidth.ne'
        simp [hch]
      have hne : (scan (.notIn stop width :: format) (ch :: text)).1 ≠ [] := by
        simp only [scan, Directive.matching, hword, if_false]
        simp
      apply iff_of_false
      · intro h
        exact hne (congrArg Prod.fst h)
      · rintro ⟨c, hc, hhead⟩
        cases hhead
        exact hch hc

theorem result_eq_zero_iff (text : Bytes) (format : List Directive) :
    result text format = 0 ↔ scan format (cString text) = ([], false) := by
  unfold result
  dsimp only
  cases hscan : scan format (cString text) with
  | mk values ended =>
    cases values with
    | nil => cases ended <;> simp
    | cons value values =>
      have hne : ((value :: values).length : Int) ≠ 0 := by
        rw [List.length_cons]
        omega
      simpa using hne

/-- A part of the locals that only later arguments store into is left alone. -/
theorem store_keeps {f : σ → β} {args : List (Value → σ → σ)} {values : List Value}
    (h : ∀ set ∈ args.take values.length, ∀ value locals, f (set value locals) = f locals)
    (locals : σ) : f (store args values locals) = f locals := by
  induction args generalizing values locals with
  | nil => rfl
  | cons set args ih =>
    cases values with
    | nil => rfl
    | cons value values =>
      rw [List.length_cons, List.take_succ_cons, List.forall_mem_cons] at h
      rw [store, ih h.2]
      exact h.1 value locals

/-- What the first argument stores is the first value, if there is one. -/
theorem store_first {f : σ → Bytes} {set : Value → σ → σ} {args : List (Value → σ → σ)}
    (hset : ∀ value locals, f (set value locals) = value.word)
    (hargs : ∀ set ∈ args, ∀ value locals, f (set value locals) = f locals)
    (values : List Value) (locals : σ) :
    f (store (set :: args) values locals) = (values.head?.map Value.word).getD (f locals) := by
  cases values with
  | nil => rfl
  | cons value values =>
    rw [store, store_keeps fun set hmem => hargs set (List.take_subset _ _ hmem)]
    exact hset value locals

theorem Directive.matching_string {width : Nat} {text rest : Bytes} {value : Option Value}
    (h : (Directive.string (some width) true).matching text = .matched value rest) :
    ∃ word, value = some (.text word) ∧ word.length ≤ width := by
  simp only [Directive.matching] at h
  split at h
  · cases h
  · cases h
    exact ⟨_, rfl, List.length_take_le _ _⟩

theorem Directive.matching_notIn {stop : Bytes} {width : Nat} {text rest : Bytes}
    {value : Option Value} (h : (Directive.notIn stop width).matching text = .matched value rest) :
    ∃ word, value = some (.text word) ∧ word.length ≤ width := by
  simp only [Directive.matching] at h
  split at h
  · cases h
  · split at h
    · cases h
    · cases h
      exact ⟨_, rfl, List.length_take_le _ _⟩

/-- The word that a directive with a width stores is no longer than that. -/
theorem scan_width {d : Directive} {width : Nat}
    (hd : ∀ text value rest, d.matching text = .matched value rest →
      ∃ word, value = some (.text word) ∧ word.length ≤ width)
    (format : List Directive) (text : Bytes) :
    ∀ value ∈ (scan (d :: format) text).1.head?, value.word.length ≤ width := by
  intro value hvalue
  rw [scan] at hvalue
  cases hmatching : d.matching text with
  | mismatch =>
    rw [hmatching] at hvalue
    cases hvalue
  | ended =>
    rw [hmatching] at hvalue
    cases hvalue
  | matched stored rest =>
    obtain ⟨word, rfl, hlength⟩ := hd text stored rest hmatching
    rw [hmatching] at hvalue
    cases hvalue
    exact hlength

theorem Directive.matching_stored {d : Directive} {text rest : Bytes} {value : Value}
    (h : d.matching text = .matched (some value) rest) : d.stored = true := by
  cases d with
  | space => cases h
  | literal ch =>
    cases text with
    | nil => cases h
    | cons c text =>
      simp only [Directive.matching] at h
      split at h <;> cases h
  | string width stored =>
    simp only [Directive.matching] at h
    split at h
    · cases h
    · cases stored with
      | true => rfl
      | false => cases h
  | notIn stop width => rfl
  | integer type => rfl

/-- No more is stored than the format has conversions. -/
theorem scan_length (format : List Directive) (text : Bytes) :
    (scan format text).1.length ≤ format.countP Directive.stored := by
  induction format generalizing text with
  | nil => exact Nat.le_refl 0
  | cons d format ih =>
    rw [List.countP_cons, scan]
    cases hd : d.matching text with
    | mismatch => exact Nat.zero_le _
    | ended => exact Nat.zero_le _
    | matched value rest =>
      cases value with
      | none => exact (ih rest).trans (Nat.le_add_right _ _)
      | some value =>
        rw [if_pos (Directive.matching_stored hd)]
        exact Nat.succ_le_succ (ih rest)

end

end StatsProxy.Scanf

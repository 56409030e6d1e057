import StatsProxy.Library.CString

/-! The scanner of the settings file. `yylex` reads one token; every error exit
of the scanner returns the one code -1. The value of a `FLOAT` is left out: no
rule of the grammar has one. -/
namespace StatsProxy
open CString

inductive Keyword where
  | memcacheStatsProxySettings | uri | proxyMapping | frontEnd | backEnd | timeout
  | pollInterval | webpageRefreshInterval | memcacheReporter
deriving DecidableEq

/-- The spelling in `yytname`. -/
def Keyword.text : Keyword → Bytes
  | .memcacheStatsProxySettings => ascii "memcache-stats-proxy-settings"
  | .uri => ascii "uri"
  | .proxyMapping => ascii "proxy-mapping"
  | .frontEnd => ascii "front-end"
  | .backEnd => ascii "back-end"
  | .timeout => ascii "timeout"
  | .pollInterval => ascii "poll-interval"
  | .webpageRefreshInterval => ascii "webpage-refresh-interval"
  | .memcacheReporter => ascii "memcache-reporter"

def yytname : List Keyword :=
  [.memcacheStatsProxySettings, .uri, .proxyMapping, .frontEnd, .backEnd, .timeout,
    .pollInterval, .webpageRefreshInterval, .memcacheReporter]

inductive Token where
  | integer (value : Nat)
  | float
  | string (value : Bytes)
  | char (value : UInt8)
  | keyword (k : Keyword)
  | punct (ch : UInt8)
deriving DecidableEq

/-- One call of `yylex`, with the input that is left. -/
inductive Lexed where
  | token (t : Token) (rest : Bytes)
  /-- The return value 0. -/
  | eof
  /-- The return value -1. -/
  | bad (rest : Bytes)
  /-- `yyerror` is called, which exits. -/
  | exited
deriving DecidableEq

def yylexBufferSize : Nat := 4096

/-- The first byte that is neither white space nor in a comment, and the rest. -/
def skipSpace : Bool → Bytes → Option (UInt8 × Bytes)
  | _, [] => none
  | processingComment, ch :: rest =>
    if processingComment && ch ≠ 10 then skipSpace true rest
    else if ch = 35 then skipSpace true rest
    else if isSpace ch then skipSpace false rest
    else some (ch, rest)

/-- After the opening quote of a CHAR. -/
def lexClose (value : UInt8) : Bytes → Lexed
  | [] => .bad []
  | ch :: rest => if ch = 39 then .token (.char value) rest else .bad rest

def lexChar : Bytes → Lexed
  | [] => .bad []
  | ch :: rest =>
    if ch = 92 then
      match rest with
      | [] => .bad []
      | escaped :: rest => lexClose escaped rest
    else lexClose ch rest

/-- After the opening quote of a STRING; `room` is what is left of the buffer. -/
def lexString : Nat → Bool → Bytes → Bytes → Lexed
  | 0, _, _, input => .bad input
  | _+1, _, _, [] => .bad []
  | room+1, escape, stored, ch :: rest =>
    if !escape && ch = 34 then .token (.string stored) rest
    else if !escape && ch = 92 then lexString (room+1) true stored rest
    else lexString room false (stored ++ [ch]) rest

/-- Accumulation in a `size_t`. -/
def accumulate (base value : Nat) (ch : UInt8) : Nat := (value * base + digitValue ch) % 2 ^ 64

def numberToken (sawDecimal : Bool) (value : Nat) : Token :=
  if sawDecimal then .float else .integer value

/-- The loop over the characters of a number; `consumed` is what the buffer
holds. A hexadecimal digit is tested with `ch < '9'`. -/
def lexNumber (base value consumed : Nat) (sawDecimal : Bool) : Bytes → Lexed
  | [] => .token (numberToken sawDecimal value) []
  | ch :: rest =>
    if isDigit ch || (!sawDecimal && ch = 46) then
      if ch = 46 then
        if base = 16 then .token (.integer value) (ch :: rest)
        else lexNumber 10 value consumed true rest
      else if yylexBufferSize ≤ consumed then .bad rest
      else if base = 8 then
        if 56 ≤ ch then .bad rest
        else lexNumber 8 (accumulate 8 value ch) (consumed + 1) sawDecimal rest
      else if base = 10 then
        lexNumber 10 (if sawDecimal then value else accumulate 10 value ch) (consumed + 1)
          sawDecimal rest
      else if ch < 57 then lexNumber 16 (accumulate 16 value ch) (consumed + 1) sawDecimal rest
      else .bad rest
    else .token (numberToken sawDecimal value) (ch :: rest)

/-- A number starts with `ch`; a leading zero selects the base. -/
def lexNumberStart (ch : UInt8) (rest : Bytes) : Lexed :=
  if ch = 48 then
    match rest with
    | [] => .token (.integer 0) []
    | x :: digits =>
      if x = 120 || x = 88 then lexNumber 16 0 0 false digits
      else lexNumber 8 0 0 false (ch :: rest)
  else lexNumber 10 0 0 false (ch :: rest)

def isKeywordByte (ch : UInt8) : Bool := isAlnum ch || ch = 45 || ch = 95

def findKeyword (name : Bytes) : Option Keyword := yytname.find? (·.text = name)

def lexKeyword (input : Bytes) : Lexed :=
  let name := input.takeWhile isKeywordByte
  let rest := input.dropWhile isKeywordByte
  if yylexBufferSize - 1 ≤ name.length then .exited
  else match findKeyword name with
    | some k => .token (.keyword k) rest
    | none => .bad rest

def yylex (input : Bytes) : Lexed :=
  match skipSpace false input with
  | none => .eof
  | some (ch, rest) =>
    if ch = 39 then lexChar rest
    else if ch = 34 then lexString (yylexBufferSize - 1) false [] rest
    else if isDigit ch || ch = 46 then lexNumberStart ch rest
    else if isAlpha ch then lexKeyword (ch :: rest)
    else if isPunct ch then .token (.punct ch) rest
    else .bad rest

/-- How the tokens of a file end. -/
inductive Final where
  | eof | bad | exited
deriving DecidableEq

/-- The tokens of a file up to the first call that returns none. -/
def tokens : Nat → Bytes → List Token × Final
  | 0, _ => ([], .eof)
  | fuel+1, input => match yylex input with
    | .token t rest => (t :: (tokens fuel rest).1, (tokens fuel rest).2)
    | .eof => ([], .eof)
    | .bad _ => ([], .bad)
    | .exited => ([], .exited)

/-- Every token takes at least one byte, so the fuel lasts (`lexFile_cons`). -/
def lexFile (input : Bytes) : List Token × Final := tokens (input.length + 1) input

/-- A call that has found something to scan leaves an end of the input. -/
def Lexed.Takes (input : Bytes) : Lexed → Prop
  | .token _ rest | .bad rest => rest <:+ input
  | .eof => False
  | .exited => True

theorem Lexed.Takes.cons {lexed : Lexed} {input : Bytes} (h : lexed.Takes input) (ch : UInt8) :
    lexed.Takes (ch :: input) := by
  cases lexed with
  | token t rest => exact List.IsSuffix.trans h (List.suffix_cons ch input)
  | bad rest => exact List.IsSuffix.trans h (List.suffix_cons ch input)
  | eof => exact h
  | exited => trivial

theorem skipSpace_suffix {comment : Bool} {input : Bytes} {ch : UInt8} {rest : Bytes}
    (h : skipSpace comment input = some (ch, rest)) : ch :: rest <:+ input := by
  induction input generalizing comment with
  | nil => simp [skipSpace] at h
  | cons c tail ih =>
    unfold skipSpace at h
    split at h
    · exact (ih h).trans (List.suffix_cons c tail)
    · split at h
      · exact (ih h).trans (List.suffix_cons c tail)
      · split at h
        · exact (ih h).trans (List.suffix_cons c tail)
        · cases h
          exact List.suffix_refl _

theorem lexClose_takes (value : UInt8) (input : Bytes) : (lexClose value input).Takes input := by
  unfold lexClose
  split
  · exact List.suffix_refl []
  · split <;> exact List.suffix_cons _ _

theorem lexChar_takes (input : Bytes) : (lexChar input).Takes input := by
  unfold lexChar
  split
  · exact List.suffix_refl []
  · split
    · split
      · exact List.nil_suffix
      · exact ((lexClose_takes _ _).cons _).cons _
    · exact (lexClose_takes _ _).cons _

theorem lexString_takes (room : Nat) (escape : Bool) (stored input : Bytes) :
    (lexString room escape stored input).Takes input := by
  induction input generalizing room escape stored with
  | nil => cases room <;> exact List.suffix_refl []
  | cons ch tail ih =>
    cases room with
    | zero => exact List.suffix_refl _
    | succ room =>
      rw [lexString]
      split
      · exact List.suffix_cons ch tail
      · split <;> exact (ih _ _ _).cons ch

theorem lexNumber_takes (base value consumed : Nat) (sawDecimal : Bool) (input : Bytes) :
    (lexNumber base value consumed sawDecimal input).Takes input := by
  induction input generalizing base value consumed sawDecimal with
  | nil => exact List.suffix_refl []
  | cons ch tail ih =>
    unfold lexNumber
    repeat' split
    all_goals first
      | exact (ih _ _ _ _).cons ch
      | exact List.suffix_cons ch tail
      | exact List.suffix_refl _

/-- The first character of a number is taken. -/
theorem lexNumber_progress {base : Nat} {ch : UInt8} (hch : isDigit ch = true ∨ ch = 46)
    (hbase : base ≠ 16) (value consumed : Nat) (tail : Bytes) :
    (lexNumber base value consumed false (ch :: tail)).Takes tail := by
  have hcond : (isDigit ch || (!false && ch = 46)) = true := by simpa using hch
  unfold lexNumber
  rw [if_pos hcond]
  simp only [hbase, if_false]
  repeat' split
  all_goals first
    | exact lexNumber_takes _ _ _ _ tail
    | exact List.suffix_refl tail

theorem lexNumberStart_progress {ch : UInt8} (hch : isDigit ch = true ∨ ch = 46) (tail : Bytes) :
    (lexNumberStart ch tail).Takes tail := by
  unfold lexNumberStart
  split
  · split
    · exact List.suffix_refl []
    · split
      · exact (lexNumber_takes _ _ _ _ _).cons _
      · exact lexNumber_progress hch (by decide) _ _ _
  · exact lexNumber_progress hch (by decide) _ _ _

theorem lexKeyword_progress {ch : UInt8} (hch : isAlpha ch = true) (tail : Bytes) :
    (lexKeyword (ch :: tail)).Takes tail := by
  have hk : isKeywordByte ch = true := by simp [isKeywordByte, isAlnum, hch]
  unfold lexKeyword
  rw [List.dropWhile_cons_of_pos hk]
  dsimp only
  split
  · trivial
  · split <;> exact List.dropWhile_suffix _

/-- A call returns 0 at the end of the input, or it takes at least one byte, or it does not
return. -/
def Lexed.Advances (input : Bytes) : Lexed → Prop
  | .token _ rest | .bad rest => rest <:+ input ∧ rest.length < input.length
  | .eof => skipSpace false input = none
  | .exited => True

theorem Lexed.Takes.advances {lexed : Lexed} {ch : UInt8} {tail input : Bytes}
    (h : lexed.Takes tail) (hstart : ch :: tail <:+ input) : lexed.Advances input := by
  have hprogress : ∀ rest, rest <:+ tail → rest <:+ input ∧ rest.length < input.length := by
    intro rest hrest
    constructor
    · exact hrest.trans ((List.suffix_cons ch tail).trans hstart)
    · exact (Nat.lt_succ_of_le hrest.length_le).trans_le hstart.length_le
  cases lexed with
  | token t rest => exact hprogress rest h
  | bad rest => exact hprogress rest h
  | eof => contradiction
  | exited => trivial

theorem yylex_advances (input : Bytes) : (yylex input).Advances input := by
  unfold yylex
  cases hskip : skipSpace false input with
  | none => exact hskip
  | some next =>
    have hstart := skipSpace_suffix hskip
    dsimp only
    split
    · exact (lexChar_takes next.2).advances hstart
    · split
      · exact (lexString_takes _ _ _ next.2).advances hstart
      · split
        · rename_i hdigit
          exact (lexNumberStart_progress (by simpa using hdigit) next.2).advances hstart
        · split
          · rename_i halpha
            exact (lexKeyword_progress halpha next.2).advances hstart
          · have hrest : next.2 <:+ next.2 := List.suffix_refl next.2
            split
            · have htaken : (Lexed.token (.punct next.1) next.2).Takes next.2 := hrest
              exact htaken.advances hstart
            · have htaken : (Lexed.bad next.2).Takes next.2 := hrest
              exact htaken.advances hstart

/-- A token takes at least one byte of the input. -/
theorem yylex_progress {input rest : Bytes} {t : Token} (h : yylex input = .token t rest) :
    rest.length < input.length := by
  have hadvances := yylex_advances input
  rw [h] at hadvances
  exact hadvances.2

theorem tokens_stable (fuel : Nat) (input : Bytes) (h : input.length < fuel) :
    tokens fuel input = lexFile input := by
  induction fuel using Nat.strongRecOn generalizing input with
  | ind fuel ih =>
    cases fuel with
    | zero => omega
    | succ fuel =>
      simp only [lexFile, tokens]
      cases hlex : yylex input with
      | token t rest =>
        have hlt := yylex_progress hlex
        simp only
        rw [ih fuel (by omega) rest (by omega)]
        by_cases he : input.length = fuel
        · rw [he, ih fuel (by omega) rest (by omega)]
        · rw [ih input.length (by omega) rest hlt]
      | eof => rfl
      | bad rest => rfl
      | exited => rfl

theorem lexFile_cons {input rest : Bytes} {t : Token} (h : yylex input = .token t rest) :
    lexFile input = (t :: (lexFile rest).1, (lexFile rest).2) := by
  rw [← tokens_stable input.length rest (yylex_progress h)]
  simp only [lexFile, tokens, h]

end StatsProxy

import StatsProxy.Library.CheckedArray
import StatsProxy.Yylex

/-! `yylex` with its `yylex_buffer`, every access to which is checked. The scanner without
a buffer is what it computes, and no access fails. -/
namespace StatsProxy
open CString CheckedArray

abbrev YylexBuffer := Vector UInt8 yylexBufferSize

/-- How a scan returns, with what it leaves in the buffer, or the index it fails at. -/
abbrev Scan := Except Nat (Lexed × YylexBuffer)

/-- The loop of a STRING, of which `size` bytes have been stored. -/
def yylexString (buf : YylexBuffer) (size : Nat) (escape : Bool) : Bytes → Scan
  | [] => .ok (.bad [], buf)
  | ch :: rest =>
    if yylexBufferSize - 1 ≤ size then .ok (.bad (ch :: rest), buf)
    else if !escape && ch = 34 then do
      let buf ← store buf size 0
      return (.token (.string (front buf size)) rest, buf)
    else if !escape && ch = 92 then yylexString buf size true rest
    else do
      let buf ← store buf size ch
      yylexString buf (size + 1) false rest

/-- The loop of a number. At the decimal point of what was taken for an octal number the
digits are read again from the buffer. -/
def yylexNumber (buf : YylexBuffer) (base value consumed : Nat) (sawDecimal : Bool) : Bytes → Scan
  | [] => .ok (.token (numberToken sawDecimal value) [], buf)
  | ch :: rest =>
    if isDigit ch || (!sawDecimal && ch = 46) then
      if ch = 46 then
        if base = 16 then .ok (.token (.integer value) (ch :: rest), buf)
        else if base = 8 then do
          let digits ← loads buf consumed
          yylexNumber buf 10 (digits.foldl (accumulate 10) 0) consumed true rest
        else yylexNumber buf 10 value consumed true rest
      else if yylexBufferSize ≤ consumed then .ok (.bad rest, buf)
      else do
        let buf ← store buf consumed ch
        if base = 8 then
          if 56 ≤ ch then .ok (.bad rest, buf)
          else yylexNumber buf 8 (accumulate 8 value ch) (consumed + 1) sawDecimal rest
        else if base = 10 then
          yylexNumber buf 10 (if sawDecimal then value else accumulate 10 value ch) (consumed + 1)
            sawDecimal rest
        else if ch < 57 then
          yylexNumber buf 16 (accumulate 16 value ch) (consumed + 1) sawDecimal rest
        else .ok (.bad rest, buf)
    else .ok (.token (numberToken sawDecimal value) (ch :: rest), buf)

def yylexNumberStart (buf : YylexBuffer) (ch : UInt8) (rest : Bytes) : Scan :=
  if ch = 48 then
    match rest with
    | [] => .ok (.token (.integer 0) [], buf)
    | x :: digits =>
      if x = 120 || x = 88 then yylexNumber buf 16 0 0 false digits
      else yylexNumber buf 8 0 0 false (ch :: rest)
  else yylexNumber buf 10 0 0 false (ch :: rest)

/-- The search in `yytname` for what has been stored. -/
def yylexName (buf : YylexBuffer) (index : Nat) (rest : Bytes) : Scan := do
  let buf ← store buf index 0
  let name ← loads buf index
  match findKeyword name with
  | some k => return (.token (.keyword k) rest, buf)
  | none => return (.bad rest, buf)

def yylexKeyword (buf : YylexBuffer) (index : Nat) : Bytes → Scan
  | [] => yylexName buf index []
  | ch :: rest =>
    if isKeywordByte ch then do
      let buf ← store buf index ch
      if index + 1 = yylexBufferSize - 1 then return (.exited, buf)
      else yylexKeyword buf (index + 1) rest
    else yylexName buf index (ch :: rest)

def yylexToken (buf : YylexBuffer) (input : Bytes) : Scan :=
  match skipSpace false input with
  | none => .ok (.eof, buf)
  | some (ch, rest) =>
    if ch = 39 then .ok (lexChar rest, buf)
    else if ch = 34 then yylexString buf 0 false rest
    else if isDigit ch || ch = 46 then yylexNumberStart buf ch rest
    else if isAlpha ch then yylexKeyword buf 0 (ch :: rest)
    else if isPunct ch then .ok (.token (.punct ch) rest, buf)
    else .ok (.bad rest, buf)

/-- A call of `yylex`. The buffer is allocated by the first one. -/
def yylexCall (malloc buffer : Option YylexBuffer) (input : Bytes) :
    Except Nat (Lexed × Option YylexBuffer) :=
  match buffer.or malloc with
  | none => .ok (.bad input, none)
  | some buf => do
    let scanned ← yylexToken buf input
    return (scanned.1, some scanned.2)

/-- The scan makes no access outside of the buffer and returns this. -/
def Scan.Returns (s : Scan) (lexed : Lexed) : Prop := ∃ buf, s = .ok (lexed, buf)

theorem yylexString_returns {size : Nat} (hsize : size ≤ yylexBufferSize - 1) (buf : YylexBuffer)
    (escape : Bool) (input : Bytes) :
    (yylexString buf size escape input).Returns
      (lexString (yylexBufferSize - 1 - size) escape (front buf size) input) := by
  have hpos : 0 < yylexBufferSize := by decide
  induction input generalizing buf size escape with
  | nil =>
    refine ⟨buf, ?_⟩
    cases yylexBufferSize - 1 - size <;> rfl
  | cons ch rest ih =>
    rw [yylexString]
    split
    · rename_i hfull
      rw [Nat.sub_eq_zero_of_le hfull]
      exact ⟨buf, rfl⟩
    · rename_i hroom
      have hlt : size < yylexBufferSize := by omega
      obtain ⟨room, hleft⟩ : ∃ room, yylexBufferSize - 1 - size = room + 1 :=
        ⟨yylexBufferSize - 1 - size - 1, by omega⟩
      have hnext : yylexBufferSize - 1 - (size + 1) = room := by omega
      rw [hleft, lexString]
      split
      · rw [store_ok hlt]
        exact ⟨buf.set size 0 hlt, by rw [← front_set hlt buf 0]; rfl⟩
      · split
        · rw [← hleft]
          exact ih hsize buf true
        · rw [store_ok hlt, ← front_set_succ hlt, ← hnext]
          exact ih (by omega) (buf.set size ch hlt) false

/-- The value of a number does not matter any more behind its decimal point. -/
theorem lexNumber_fraction (value value' consumed : Nat) (input : Bytes) :
    lexNumber 10 value consumed true input = lexNumber 10 value' consumed true input := by
  induction input generalizing consumed with
  | nil => rfl
  | cons ch rest ih => simp [lexNumber, ih, numberToken]

theorem yylexNumber_returns {consumed : Nat} (hconsumed : consumed ≤ yylexBufferSize)
    (buf : YylexBuffer) (base value : Nat) (sawDecimal : Bool) (input : Bytes) :
    (yylexNumber buf base value consumed sawDecimal input).Returns
      (lexNumber base value consumed sawDecimal input) := by
  induction input generalizing buf base value consumed sawDecimal with
  | nil => exact ⟨buf, rfl⟩
  | cons ch rest ih =>
    rw [yylexNumber, lexNumber]
    split
    · split
      · split
        · exact ⟨buf, rfl⟩
        · split
          · rw [loads_ok hconsumed, lexNumber_fraction value]
            exact ih hconsumed buf 10 _ true
          · exact ih hconsumed buf 10 value true
      · split
        · exact ⟨buf, rfl⟩
        · rename_i hroom
          have hlt : consumed < yylexBufferSize := by omega
          rw [store_ok hlt]
          dsimp only [bind, Except.bind]
          split
          · split
            · exact ⟨_, rfl⟩
            · exact ih hlt _ 8 _ sawDecimal
          · split
            · exact ih hlt _ 10 _ sawDecimal
            · split
              · exact ih hlt _ 16 _ sawDecimal
              · exact ⟨_, rfl⟩
    · exact ⟨buf, rfl⟩

theorem yylexNumberStart_returns (buf : YylexBuffer) (ch : UInt8) (rest : Bytes) :
    (yylexNumberStart buf ch rest).Returns (lexNumberStart ch rest) := by
  have hnone : 0 ≤ yylexBufferSize := Nat.zero_le _
  unfold yylexNumberStart lexNumberStart
  split
  · cases rest with
    | nil => exact ⟨buf, rfl⟩
    | cons x digits =>
      dsimp only
      split
      · exact yylexNumber_returns hnone buf 16 0 false digits
      · exact yylexNumber_returns hnone buf 8 0 false (ch :: x :: digits)
  · exact yylexNumber_returns hnone buf 10 0 false (ch :: rest)

/-- What a call returns for this name. -/
def nameLexed (name rest : Bytes) : Lexed :=
  if yylexBufferSize - 1 ≤ name.length then .exited
  else match findKeyword name with
    | some k => .token (.keyword k) rest
    | none => .bad rest

theorem yylexName_returns {index : Nat} (h : index < yylexBufferSize - 1) (buf : YylexBuffer)
    (rest : Bytes) : (yylexName buf index rest).Returns (nameLexed (front buf index) rest) := by
  have hlt : index < yylexBufferSize := by omega
  have hlength := front_length hlt.le buf
  rw [yylexName, store_ok hlt, nameLexed, if_neg (by omega)]
  dsimp only [bind, Except.bind]
  rw [loads_ok hlt.le, front_set]
  dsimp only
  cases findKeyword (front buf index) with
  | some k => exact ⟨_, rfl⟩
  | none => exact ⟨_, rfl⟩

theorem yylexKeyword_returns {index : Nat} (h : index < yylexBufferSize - 1) (buf : YylexBuffer)
    (input : Bytes) :
    (yylexKeyword buf index input).Returns (nameLexed
      (front buf index ++ input.takeWhile isKeywordByte) (input.dropWhile isKeywordByte)) := by
  induction input generalizing buf index with
  | nil =>
    rw [yylexKeyword, List.takeWhile_nil, List.append_nil]
    exact yylexName_returns h buf []
  | cons ch rest ih =>
    rw [yylexKeyword]
    split
    · rename_i hch
      have hlt : index < yylexBufferSize := by omega
      have hfront := front_set_succ hlt buf ch
      rw [store_ok hlt, List.takeWhile_cons_of_pos hch, List.dropWhile_cons_of_pos hch,
        ← List.singleton_append, ← List.append_assoc, ← hfront]
      dsimp only [bind, Except.bind]
      split
      · rename_i hfull
        have hlength := front_length (Nat.succ_le_of_lt hlt) (buf.set index ch hlt)
        rw [nameLexed, if_pos]
        · exact ⟨_, rfl⟩
        · rw [List.length_append, hlength, ← hfull]
          exact Nat.le_add_right _ _
      · rename_i hroom
        exact ih (by omega) _
    · rename_i hch
      rw [List.takeWhile_cons_of_neg hch, List.dropWhile_cons_of_neg hch, List.append_nil]
      exact yylexName_returns h buf (ch :: rest)

/-- No access of a scan is outside of the buffer, and it returns what the scanner without a
buffer does. -/
theorem yylexToken_returns (buf : YylexBuffer) (input : Bytes) :
    (yylexToken buf input).Returns (yylex input) := by
  unfold yylexToken yylex
  cases skipSpace false input with
  | none => exact ⟨buf, rfl⟩
  | some next =>
    dsimp only
    split
    · exact ⟨buf, rfl⟩
    · split
      · exact yylexString_returns (Nat.zero_le _) buf false next.2
      · split
        · exact yylexNumberStart_returns buf next.1 next.2
        · split
          · exact yylexKeyword_returns (by decide) buf (next.1 :: next.2)
          · split <;> exact ⟨buf, rfl⟩

/-- The calls of `yylex` on a file, up to the one that returns 0 or ends the program. -/
inductive Tokenises (malloc : Option YylexBuffer) : Option YylexBuffer → Bytes → Nat → Prop
  | eof {buffer after : Option YylexBuffer} {input : Bytes}
      (hcall : yylexCall malloc buffer input = .ok (.eof, after)) :
      Tokenises malloc buffer input 1
  | exited {buffer after : Option YylexBuffer} {input : Bytes}
      (hcall : yylexCall malloc buffer input = .ok (.exited, after)) :
      Tokenises malloc buffer input 1
  | token {buffer after : Option YylexBuffer} {input rest : Bytes} {t : Token} {calls : Nat}
      (hcall : yylexCall malloc buffer input = .ok (.token t rest, after))
      (hnext : Tokenises malloc after rest calls) : Tokenises malloc buffer input (calls + 1)
  | bad {buffer after : Option YylexBuffer} {input rest : Bytes} {calls : Nat}
      (hcall : yylexCall malloc buffer input = .ok (.bad rest, after))
      (hnext : Tokenises malloc after rest calls) : Tokenises malloc buffer input (calls + 1)

theorem yylexCall_returns {malloc buffer : Option YylexBuffer} {buf : YylexBuffer}
    (h : buffer.or malloc = some buf) (input : Bytes) :
    ∃ after, yylexCall malloc buffer input = .ok (yylex input, some after) := by
  obtain ⟨after, hscan⟩ := yylexToken_returns buf input
  refine ⟨after, ?_⟩
  rw [yylexCall, h]
  dsimp only
  rw [hscan]
  rfl

/-- Each call but the last takes a byte, so there is at most one call more than bytes. -/
theorem exists_tokenises {malloc buffer : Option YylexBuffer} {buf : YylexBuffer}
    (h : buffer.or malloc = some buf) (input : Bytes) :
    ∃ calls ≤ input.length + 1, Tokenises malloc buffer input calls := by
  induction hlength : input.length using Nat.strongRecOn generalizing buffer buf input with
  | ind length ih =>
    obtain ⟨after, hcall⟩ := yylexCall_returns h input
    have hafter : (some after).or malloc = some after := rfl
    have hadvances := yylex_advances input
    cases hlexed : yylex input with
    | eof => exact ⟨1, Nat.le_add_left 1 length, .eof (hlexed ▸ hcall)⟩
    | exited => exact ⟨1, Nat.le_add_left 1 length, .exited (hlexed ▸ hcall)⟩
    | token t rest =>
      rw [hlexed] at hadvances hcall
      obtain ⟨calls, hcalls, hends⟩ := ih rest.length (hlength ▸ hadvances.2) hafter rest rfl
      have hlt := hadvances.2
      exact ⟨calls + 1, by omega, .token hcall hends⟩
    | bad rest =>
      rw [hlexed] at hadvances hcall
      obtain ⟨calls, hcalls, hends⟩ := ih rest.length (hlength ▸ hadvances.2) hafter rest rfl
      have hlt := hadvances.2
      exact ⟨calls + 1, by omega, .bad hcall hends⟩

/-- Unless there is no memory for the buffer, a call stays inside of it and makes progress,
and the calls on the file end. -/
theorem yylexCall_bounded (malloc buffer : Option YylexBuffer) (input : Bytes) :
    (buffer = none ∧ malloc = none ∧ yylexCall malloc buffer input = .ok (.bad input, none)) ∨
      (∃ lexed after, yylexCall malloc buffer input = .ok (lexed, some after) ∧
          lexed.Advances input) ∧
        ∃ calls ≤ input.length + 1, Tokenises malloc buffer input calls := by
  cases h : buffer.or malloc with
  | none =>
    obtain ⟨rfl, rfl⟩ := Option.or_eq_none_iff.mp h
    exact Or.inl ⟨rfl, rfl, rfl⟩
  | some buf =>
    obtain ⟨after, hcall⟩ := yylexCall_returns h input
    exact Or.inr ⟨⟨yylex input, after, hcall, yylex_advances input⟩, exists_tokenises h input⟩

end StatsProxy

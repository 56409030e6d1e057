import StatsProxy.UriStrings

/-! The codec of uris: its round trip, over the arithmetic of a signed `char`, and the
escapes that the decoder takes without looking at their digits. -/
namespace StatsProxy
open CString

/-- A signed `char` as an `int`. -/
def promote (ch : UInt8) : BitVec 32 := ch.toBitVec.signExtend 32

/-- An `int` stored in a `char`. -/
def narrow (code : BitVec 32) : UInt8 := UInt8.ofBitVec (code.setWidth 8)

def toHexChar (code : UInt8) : UInt8 :=
  (ascii "0123456789abcdef").getD (promote code &&& 15).toNat 0

/-- What `uri_encode` appends for a character that it escapes. -/
def escapeChar (ch : UInt8) : Bytes :=
  [37, toHexChar (narrow ((promote ch).sshiftRight 4)), toHexChar (narrow (promote ch &&& 15))]

def fromHexChar (ch : UInt8) : UInt8 :=
  narrow (if isDigit ch then promote ch - 48 else promote (toLower ch) - 97 + 10)

/-- What `uri_decode` appends for an escape. -/
def unescapeChar (high low : UInt8) : UInt8 :=
  narrow (promote (fromHexChar high) <<< 4 ||| promote (fromHexChar low))

/-- The sign of a character is shifted out, or masked. -/
theorem encodeByte_signed (ch : UInt8) : encodeByte ch =
    if unreserved ch then [ch] else if ch = 32 then [43] else escapeChar ch := by
  have hbyte : (escapeChar ch == [37, toHex (ch >>> 4), toHex (ch &&& 15)]) = true :=
    forall_byte (p := fun ch => escapeChar ch == [37, toHex (ch >>> 4), toHex (ch &&& 15)])
      (by decide +kernel) ch
  rw [beq_iff_eq.mp hbyte]
  rfl

theorem fromHex_signed (ch : UInt8) : fromHexChar ch = fromHex ch := by
  have hbyte : (fromHexChar ch == fromHex ch) = true :=
    forall_byte (p := fun ch => fromHexChar ch == fromHex ch) (by decide +kernel) ch
  exact beq_iff_eq.mp hbyte

theorem unescape_signed (high low : UInt8) :
    unescapeChar high low = fromHex high <<< 4 ||| fromHex low := by
  have hbits : ∀ a b : BitVec 8,
      (a.signExtend 32 <<< 4 ||| b.signExtend 32).setWidth 8 = a <<< 4 ||| b := by
    intro a b
    ext i hi
    have hi' : i < 32 := by omega
    simp only [BitVec.getElem_setWidth, BitVec.getElem_or, BitVec.getElem_shiftLeft,
      BitVec.getLsbD_or, BitVec.getLsbD_shiftLeft, BitVec.getLsbD_signExtend, hi', hi]
    grind
  unfold unescapeChar
  rw [fromHex_signed, fromHex_signed]
  unfold narrow promote
  rw [hbits]
  rfl

/-! What the encoder writes. -/

def isLowerHex (ch : UInt8) : Bool := isDigit ch || (97 ≤ ch && ch ≤ 102)

/-- Unreserved characters, `+`, and escapes with digits in lower case. -/
inductive EncodedText : Bytes → Prop where
  | nil : EncodedText []
  | plain {ch : UInt8} {text : Bytes} (hch : unreserved ch = true ∨ ch = 43)
      (h : EncodedText text) : EncodedText (ch :: text)
  | escape {high low : UInt8} {text : Bytes} (hhigh : isLowerHex high = true)
      (hlow : isLowerHex low = true) (h : EncodedText text) :
      EncodedText (37 :: high :: low :: text)

theorem toHex_lower (code : UInt8) : isLowerHex (toHex code) = true :=
  forall_byte (p := fun code => isLowerHex (toHex code)) (by decide +kernel) code

theorem encodedText_encodeByte (ch : UInt8) {text : Bytes} (h : EncodedText text) :
    EncodedText (encodeByte ch ++ text) := by
  unfold encodeByte
  split
  · next hch => exact .plain (Or.inl hch) h
  · split
    · exact .plain (Or.inr rfl) h
    · exact .escape (toHex_lower _) (toHex_lower _) h

theorem encodedText_uriEncode (text : Bytes) : EncodedText (uriEncode text) := by
  induction text with
  | nil => exact .nil
  | cons ch text ih =>
    rw [uriEncode, List.flatMap_cons]
    exact encodedText_encodeByte ch ih

theorem uriEncode_length (text : Bytes) : (uriEncode text).length ≤ 3 * text.length := by
  have hbyte : ∀ ch, (encodeByte ch).length ≤ 3 := by
    intro ch
    unfold encodeByte
    split
    · simp
    · split <;> simp
  induction text with
  | nil => exact Nat.le_refl _
  | cons ch text ih =>
    rw [uriEncode, List.flatMap_cons, List.length_append, List.length_cons, ← uriEncode]
    have := hbyte ch
    omega

/-- The codec of the source, character by character, and its round trip. -/
theorem uriCodec_roundTrip :
    (∀ ch high low, encodeByte ch =
        (if unreserved ch then [ch] else if ch = 32 then [43] else escapeChar ch) ∧
      unescapeChar high low = fromHex high <<< 4 ||| fromHex low) ∧
    (∀ text, uriDecode (uriEncode text) = text ∧ EncodedText (uriEncode text) ∧
      (uriEncode text).length ≤ 3 * text.length) ∧
    (∀ text, (uriDecode text).length ≤ text.length) := by
  refine ⟨?_, ?_, fun text => (uriDecode_length text).1⟩
  · intro ch high low
    exact ⟨encodeByte_signed ch, unescape_signed high low⟩
  · intro text
    have happ := uriDecode_uriEncode text []
    rw [List.append_nil] at happ
    refine ⟨?_, encodedText_uriEncode text, uriEncode_length text⟩
    rw [happ]
    exact List.append_nil text

/-! The escapes that are not what they should be. -/

/-- Decoding of valid escapes only: any other `%` is kept. -/
def decodeValid : Bytes → Bytes
  | ch :: high :: low :: rest =>
    if ch = 37 then
      if isHexDigit high && isHexDigit low then
        (fromHex high <<< 4 ||| fromHex low) :: decodeValid rest
      else 37 :: decodeValid (high :: low :: rest)
    else decodePlain ch :: decodeValid (high :: low :: rest)
  | ch :: rest => if ch = 37 then 37 :: decodeValid rest else decodePlain ch :: decodeValid rest
  | [] => []

/-- Each `%` that the decoder comes to has two hexadecimal digits after it, and they
are not both zero. -/
def WellEscaped : Bytes → Prop
  | ch :: high :: low :: rest =>
    if ch = 37 then
      isHexDigit high = true ∧ isHexDigit low = true ∧ ¬(high = 48 ∧ low = 48) ∧ WellEscaped rest
    else WellEscaped (high :: low :: rest)
  | ch :: rest => ch ≠ 37 ∧ WellEscaped rest
  | [] => True

instance decidableWellEscaped : (text : Bytes) → Decidable (WellEscaped text)
  | ch :: high :: low :: rest => by
    have := decidableWellEscaped rest
    have := decidableWellEscaped (high :: low :: rest)
    unfold WellEscaped
    infer_instance
  | [ch, last] => by
    have := decidableWellEscaped [last]
    unfold WellEscaped
    infer_instance
  | [ch] => inferInstanceAs (Decidable (ch ≠ 37 ∧ True))
  | [] => .isTrue trivial

theorem decodeValid_cons {ch : UInt8} (h : ch ≠ 37) (rest : Bytes) :
    decodeValid (ch :: rest) = decodePlain ch :: decodeValid rest := by
  rcases rest with _ | ⟨high, _ | ⟨low, rest⟩⟩ <;> simp [decodeValid, h]

/-- A character decodes to one character more, at most, and two characters in front
do not make the decoded text shorter. -/
theorem uriDecode_front (n : Nat) :
    (∀ ch rest, (ch :: rest).length ≤ n →
      (uriDecode (ch :: rest)).length ≤ (uriDecode rest).length + 1) ∧
    (∀ high low rest, (high :: low :: rest).length ≤ n →
      (uriDecode rest).length ≤ (uriDecode (high :: low :: rest)).length) := by
  induction n with
  | zero => exact ⟨fun _ _ => nofun, fun _ _ _ => nofun⟩
  | succ n ih =>
    obtain ⟨ihone, ihtwo⟩ := ih
    refine ⟨fun ch rest hlen => ?_, fun high low rest hlen => ?_⟩
    · rw [List.length_cons] at hlen
      by_cases hch : ch = 37
      · subst hch
        rcases rest with _ | ⟨high, _ | ⟨low, rest⟩⟩
        · exact Nat.zero_le _
        · exact Nat.le_succ _
        · have := ihtwo high low rest (by omega)
          simpa [uriDecode] using this
      · rw [uriDecode_cons hch, List.length_cons]
    · simp only [List.length_cons] at hlen
      by_cases hhigh : high = 37
      · subst hhigh
        cases rest with
        | nil => exact Nat.zero_le _
        | cons ch rest =>
          have := ihone ch rest (by simp only [List.length_cons] at hlen ⊢; omega)
          simpa [uriDecode] using this
      · rw [uriDecode_cons hhigh, List.length_cons]
        by_cases hlow : low = 37
        · subst hlow
          rcases rest with _ | ⟨ch, _ | ⟨last, rest⟩⟩
          · exact Nat.zero_le _
          · simp [uriDecode]
          · simp only [List.length_cons] at hlen
            have hfirst := ihone ch (last :: rest) (by simp only [List.length_cons]; omega)
            have hsecond := ihone last rest (by simp only [List.length_cons]; omega)
            simp only [uriDecode, if_true, List.length_cons]
            omega
        · rw [uriDecode_cons hlow, List.length_cons]
          omega

/-- Keeping a `%` never makes the decoded text shorter. -/
theorem uriDecode_le_valid (text : Bytes) :
    (uriDecode text).length ≤ (decodeValid text).length := by
  fun_induction decodeValid text with
  | case1 high low rest hhex ih =>
    simp only [uriDecode, if_true, List.length_cons]
    omega
  | case2 high low rest hhex ih =>
    have := (uriDecode_front _).2 high low rest (Nat.le_refl _)
    simp only [uriDecode, if_true, List.length_cons] at this ⊢
    omega
  | case3 ch high low rest hch ih =>
    rw [uriDecode_cons hch, List.length_cons, List.length_cons]
    omega
  | case4 rest hshort ih =>
    have := (uriDecode_front _).1 37 rest (Nat.le_refl _)
    rw [List.length_cons]
    omega
  | case5 ch rest hshort hch ih =>
    rw [uriDecode_cons hch, List.length_cons, List.length_cons]
    omega
  | case6 => exact Nat.zero_le _

/-- An escape whose value is a `%` has no `%` among its digits. -/
theorem fromHex_percent {high low : UInt8} (h : fromHex high <<< 4 ||| fromHex low = 37) :
    high ≠ 37 ∧ low ≠ 37 := by
  constructor
  · rintro rfl
    have hlow : (fromHex 37 <<< 4 ||| fromHex low != 37) = true :=
      forall_byte (p := fun low => fromHex 37 <<< 4 ||| fromHex low != 37) (by decide +kernel) low
    rw [h] at hlow
    contradiction
  · rintro rfl
    have hhigh : (fromHex high <<< 4 ||| fromHex 37 != 37) = true :=
      forall_byte (p := fun high => fromHex high <<< 4 ||| fromHex 37 != 37) (by decide +kernel)
        high
    rw [h] at hhigh
    contradiction

/-- The digits of an escape with the value 0. -/
theorem fromHex_nul {high low : UInt8} (hhigh : isHexDigit high = true)
    (hlow : isHexDigit low = true) :
    fromHex high <<< 4 ||| fromHex low = 0 ↔ high = 48 ∧ low = 48 := by
  have hdigit : ∀ ch, (!isHexDigit ch || (decide (fromHex ch <<< 4 = 0 ↔ ch = 48) &&
      decide (fromHex ch = 0 ↔ ch = 48))) = true :=
    forall_byte (by decide +kernel)
  have hh := hdigit high
  have hl := hdigit low
  simp only [hhigh, hlow, Bool.not_true, Bool.false_or, Bool.and_eq_true,
    decide_eq_true_eq] at hh hl
  rw [UInt8.or_eq_zero_iff, hh.1, hl.2]

theorem decodePlain_ne {ch : UInt8} (h : ch ≠ 0) : decodePlain ch ≠ 0 := by
  unfold decodePlain
  split
  · decide
  · exact h

/-- The decoder decodes valid escapes only, and no NUL, exactly if the text is well
escaped. -/
theorem uriDecode_valid_iff (text : Bytes) (hnul : 0 ∉ text) :
    (uriDecode text = decodeValid text ∧ 0 ∉ uriDecode text) ↔ WellEscaped text := by
  fun_induction decodeValid text with
  | case1 high low rest hhex ih =>
    rw [Bool.and_eq_true] at hhex
    have hrest : 0 ∉ rest := fun h => hnul (by simp [h])
    simp only [uriDecode, WellEscaped, if_true, List.cons.injEq, true_and, List.mem_cons, not_or,
      hhex, eq_comm (a := (0 : UInt8)), fromHex_nul hhex.1 hhex.2]
    rw [← ih hrest]
    tauto
  | case2 high low rest hhex ih =>
    apply iff_of_false
    · rintro ⟨hsame, -⟩
      simp only [uriDecode, if_true, List.cons.injEq] at hsame
      obtain ⟨hvalue, hrest⟩ := hsame
      obtain ⟨hhigh, hlow⟩ := fromHex_percent hvalue
      rw [decodeValid_cons hhigh, decodeValid_cons hlow] at hrest
      -- two characters more have been kept than the decoder has left to give
      have hlen := congrArg List.length hrest
      have hle := uriDecode_le_valid rest
      simp only [List.length_cons] at hlen
      omega
    · intro hwell
      rw [Bool.and_eq_true] at hhex
      simp only [WellEscaped, if_true] at hwell
      exact hhex ⟨hwell.1, hwell.2.1⟩
  | case3 ch high low rest hch ih =>
    have hrest : 0 ∉ high :: low :: rest := fun h => hnul (List.mem_cons_of_mem _ h)
    have hplain := decodePlain_ne fun heq => hnul (heq ▸ List.mem_cons_self)
    rw [uriDecode_cons hch, List.cons.injEq, List.mem_cons, not_or, WellEscaped, if_neg hch,
      ← ih hrest]
    simp [Ne.symm hplain]
  | case4 rest hshort ih =>
    apply iff_of_false
    · rintro ⟨hsame, -⟩
      have hlen := congrArg List.length hsame
      have hle := uriDecode_le_valid rest
      have hdrop : uriDecode (37 :: rest) = uriDecode rest := by
        rcases rest with _ | ⟨high, _ | ⟨low, rest⟩⟩
        · rfl
        · rfl
        · exact absurd rfl (hshort high low rest)
      rw [hdrop, List.length_cons] at hlen
      omega
    · intro hwell
      rcases rest with _ | ⟨high, _ | ⟨low, rest⟩⟩
      · exact hwell.1 rfl
      · exact hwell.1 rfl
      · exact absurd rfl (hshort high low rest)
  | case5 ch rest hshort hch ih =>
    have hrest : 0 ∉ rest := fun h => hnul (List.mem_cons_of_mem _ h)
    have hplain := decodePlain_ne fun heq => hnul (heq ▸ List.mem_cons_self)
    have hwell : WellEscaped (ch :: rest) ↔ WellEscaped rest := by
      rcases rest with _ | ⟨high, _ | ⟨low, rest⟩⟩
      · exact and_iff_right hch
      · exact and_iff_right hch
      · exact absurd rfl (hshort high low rest)
    rw [uriDecode_cons hch, List.cons.injEq, List.mem_cons, not_or, hwell, ← ih hrest]
    simp [Ne.symm hplain]
  | case6 => simp [uriDecode, WellEscaped]

theorem uriDecode_valid_iff_escapes :
    uriDecode (ascii "a%2Bb+%7e") = decodeValid (ascii "a%2Bb+%7e") ∧
      0 ∉ uriDecode (ascii "a%2Bb+%7e") :=
  (uriDecode_valid_iff _ (by decide)).mpr (by decide)

/-- A `%` before two letters that are no digits. -/
theorem uriDecode_invalid :
    ¬∀ text : Bytes, 0 ∉ text → uriDecode text = decodeValid text ∧ 0 ∉ uriDecode text := by
  intro h
  have hsame := (h (ascii "100%zz") (by decide)).1
  exact absurd hsame (by decide)

end StatsProxy

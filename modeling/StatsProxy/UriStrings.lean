import StatsProxy.Library.CString

/-! Percent-encoding, and the decoding of a request target. A `char` is one byte. -/
namespace StatsProxy
open CString

def fromHex (ch : UInt8) : UInt8 := if isDigit ch then ch - 48 else toLower ch - 97 + 10

/-- A byte that is not a `%`. -/
def decodePlain (ch : UInt8) : UInt8 := if ch = 43 then 32 else ch

/-- Over the bytes of a C string. A `%` without two bytes after it is dropped. -/
def uriDecode : Bytes → Bytes
  | ch :: high :: low :: rest =>
    if ch = 37 then (fromHex high <<< 4 ||| fromHex low) :: uriDecode rest
    else decodePlain ch :: uriDecode (high :: low :: rest)
  | ch :: rest => if ch = 37 then uriDecode rest else decodePlain ch :: uriDecode rest
  | [] => []

def toHex (code : UInt8) : UInt8 := (ascii "0123456789abcdef").getD (code &&& 15).toNat 0

def unreserved (ch : UInt8) : Bool := isAlnum ch || ch = 45 || ch = 95 || ch = 46 || ch = 126

def encodeByte (ch : UInt8) : Bytes :=
  if unreserved ch then [ch]
  else if ch = 32 then [43]
  else [37, toHex (ch >>> 4), toHex (ch &&& 15)]

def uriEncode (text : Bytes) : Bytes := text.flatMap encodeByte

example : uriDecode (ascii "a%20b+c%2") = ascii "a b c2" := by decide

theorem uriDecode_cons {ch : UInt8} (h : ch ≠ 37) (rest : Bytes) :
    uriDecode (ch :: rest) = decodePlain ch :: uriDecode rest := by
  rcases rest with _ | ⟨high, _ | ⟨low, rest⟩⟩ <;> simp [uriDecode, h]

theorem uriDecode_append {front : Bytes} (h : 37 ∉ front) (back : Bytes) :
    uriDecode (front ++ back) = front.map decodePlain ++ uriDecode back := by
  induction front with
  | nil => rfl
  | cons ch front ih =>
    rw [List.mem_cons, not_or] at h
    rw [List.cons_append, uriDecode_cons (Ne.symm h.1), ih h.2]
    rfl

/-- An escape makes the text shorter. -/
theorem uriDecode_length (text : Bytes) :
    (uriDecode text).length ≤ text.length ∧
      (37 ∈ text → (uriDecode text).length < text.length) := by
  fun_induction uriDecode text with
  | case1 high low rest ih =>
    simp only [List.length_cons]
    omega
  | case2 ch high low rest hch ih =>
    simp only [List.length_cons, List.mem_cons, Ne.symm hch, false_or] at ih ⊢
    grind
  | case3 rest h ih =>
    simp only [List.length_cons]
    omega
  | case4 ch rest h hch ih =>
    simp only [List.length_cons, List.mem_cons, Ne.symm hch, false_or] at ih ⊢
    grind
  | case5 => simp

theorem map_decodePlain {text : Bytes} : text.map decodePlain = text ↔ 43 ∉ text := by
  induction text with
  | nil => simp
  | cons ch text ih =>
    rw [List.map_cons, List.cons.injEq, ih, List.mem_cons, not_or]
    apply and_congr_left
    intro _
    unfold decodePlain
    split
    · next hch =>
      subst hch
      decide
    · next hch => exact iff_of_true rfl (Ne.symm hch)

theorem uriDecode_plain {text : Bytes} (hescape : 37 ∉ text) (hplus : 43 ∉ text) :
    uriDecode text = text := by
  have happ := uriDecode_append hescape []
  rw [List.append_nil, map_decodePlain.mpr hplus] at happ
  simpa [uriDecode] using happ

/-- Only a text without escapes and without `+` decodes to itself. -/
theorem uriDecode_eq_self {text : Bytes} : uriDecode text = text ↔ 37 ∉ text ∧ 43 ∉ text := by
  constructor
  · intro h
    have hescape : 37 ∉ text := by
      intro hmem
      have hlt := (uriDecode_length text).2 hmem
      rw [h] at hlt
      exact Nat.lt_irrefl _ hlt
    have happ := uriDecode_append hescape []
    rw [List.append_nil, h] at happ
    refine ⟨hescape, map_decodePlain.mp ?_⟩
    simpa [uriDecode] using happ.symm
  · rintro ⟨hescape, hplus⟩
    exact uriDecode_plain hescape hplus

/-- What holds of all bytes can be checked one by one. -/
theorem forall_byte {p : UInt8 → Bool} (h : ∀ n < 256, p (UInt8.ofNat n) = true) (ch : UInt8) :
    p ch = true := by
  have hch := h ch.toNat ch.toNat_lt
  rwa [UInt8.ofNat_toNat] at hch

theorem uriDecode_encodeByte (ch : UInt8) (rest : Bytes) :
    uriDecode (encodeByte ch ++ rest) = ch :: uriDecode rest := by
  have hplain : (!unreserved ch || (ch ≠ 37 && decodePlain ch = ch)) = true :=
    forall_byte (p := fun ch => !unreserved ch || (ch ≠ 37 && decodePlain ch = ch))
      (by decide +kernel) ch
  have hhex : (fromHex (toHex (ch >>> 4)) <<< 4 ||| fromHex (toHex (ch &&& 15)) == ch) = true :=
    forall_byte
      (p := fun ch => fromHex (toHex (ch >>> 4)) <<< 4 ||| fromHex (toHex (ch &&& 15)) == ch)
      (by decide +kernel) ch
  unfold encodeByte
  split
  · next hch =>
    simp only [hch, Bool.not_true, Bool.false_or, Bool.and_eq_true, decide_eq_true_eq] at hplain
    rw [List.singleton_append, uriDecode_cons hplain.1, hplain.2]
  · split
    · next hch =>
      subst hch
      exact uriDecode_cons (by decide) rest
    · simp only [List.cons_append, List.nil_append, uriDecode, if_true, beq_iff_eq.mp hhex]

theorem uriDecode_uriEncode (text rest : Bytes) :
    uriDecode (uriEncode text ++ rest) = text ++ uriDecode rest := by
  induction text with
  | nil => rfl
  | cons ch text ih =>
    rw [uriEncode, List.flatMap_cons, List.append_assoc, uriDecode_encodeByte, ← uriEncode, ih]
    rfl

theorem uriEncode_bytes (text : Bytes) : ∀ ch ∈ uriEncode text, isSpace ch = false ∧ ch ≠ 0 := by
  have hbyte : ∀ c, (encodeByte c).all (fun ch => !isSpace ch && ch ≠ 0) = true :=
    forall_byte (by decide +kernel)
  intro ch hch
  obtain ⟨c, -, hc⟩ := List.mem_flatMap.mp hch
  have h := List.all_eq_true.mp (hbyte c) ch hc
  simpa using h

end StatsProxy

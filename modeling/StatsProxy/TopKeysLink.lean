import StatsProxy.UriParams

/-! The links of the top-keys page. `key_href` prints the key as it is, so what comes
back is the key only where no byte of it means anything on the way. -/
namespace StatsProxy
open CString Interaction Program

/-- The encoded key is not used. -/
def keyHref (base dotquad : Bytes) (port : Nat) (key : Bytes) : Bytes :=
  (ascii "<a href=\"" ++ base ++ ascii "?addr=" ++ dotquad ++ ascii "&port=" ++
    printDecimal port ++ ascii "&key=" ++ key ++ ascii "\">").take (lineSz - 1)

/-- The attribute between the first two double quotes of a tag. -/
def hrefOf (tag : Bytes) : Option Bytes := do
  let (_, rest) ← strchr tag 34
  let (href, _) ← strchr rest 34
  return href

/-- A key has neither white space nor control characters. -/
structure MemcacheKey where
  text : Bytes
  nonempty : text ≠ []
  length : text.length ≤ 250
  bytes : ∀ ch ∈ text, 32 < ch ∧ ch ≠ 127

def dottedQuad (a b c d : UInt8) : Bytes :=
  printDecimal a.toNat ++ 46 :: (printDecimal b.toNat ++ 46 :: (printDecimal c.toNat ++
    46 :: printDecimal d.toNat))

/-- The part of a key that is inside the attribute. -/
def hrefKey (key : Bytes) : Bytes := key.takeWhile (· ≠ 34)

/-- The parameters of a link as they are decoded. -/
def linkParams (dotquad : Bytes) (port : Nat) (key : Bytes) : List (Bytes × Bytes) :=
  [(ascii "addr", dotquad), (ascii "port", printDecimal port), (ascii "key", key)]

/-- No byte of the key means anything in a link, and what it has that reads like a
parameter agrees with the link. -/
structure LinkSafe (dotquad : Bytes) (port : Nat) (key : Bytes) : Prop where
  plain : ∀ ch ∈ key, ch ∉ [34, 37, 38, 43, 63]
  noKey : strstr key (ascii "key=") = false
  addr : ∀ rest, (places (ascii "addr=") key).getLast? = some rest → rest = dotquad
  port : ∀ n, ((places (ascii "port=") key).filterMap scanShort).getLast? = some n → n = port

section

variable {dotquad key : Bytes} {port : Nat}

theorem dottedQuad_bytes (a b c d : UInt8) :
    ∀ ch ∈ dottedQuad a b c d, isDigit ch = true ∨ ch = 46 := by
  intro ch hch
  simp only [dottedQuad, List.mem_append, List.mem_cons] at hch
  rcases hch with hch | rfl | hch | rfl | hch | rfl | hch
  · exact Or.inl (isDigit_printDecimal _ ch hch)
  · exact Or.inr rfl
  · exact Or.inl (isDigit_printDecimal _ ch hch)
  · exact Or.inr rfl
  · exact Or.inl (isDigit_printDecimal _ ch hch)
  · exact Or.inr rfl
  · exact Or.inl (isDigit_printDecimal _ ch hch)

theorem places_eq_nil {name text : Bytes} : places name text = [] ↔ strstr text name = false := by
  unfold places strstr placeAt
  rw [List.filterMap_eq_nil_iff, List.any_eq_false]
  refine forall₂_congr fun c _ => ?_
  split
  · next h => simp [h]
  · next h => simp [h]

theorem digit_plain {ch : UInt8} (h : isDigit ch = true ∨ ch = 46) :
    isSpace ch = false ∧ ch ∉ [0, 34, 37, 38, 43, 61, 63] := by
  have hall := forall_byte
    (p := fun ch => !(isDigit ch || ch = 46) || (!isSpace ch && ch ∉ [0, 34, 37, 38, 43, 61, 63]))
    (by decide +kernel) ch
  rcases h with h | h <;> simpa [h] using hall

/-- A value of digits and dots is cut nowhere and reads like no name. -/
theorem cutParams_digits {value : Bytes} (h : ∀ ch ∈ value, isDigit ch = true ∨ ch = 46) :
    cutParams value = value ∧ 0 ∉ value ∧ 61 ∉ value := by
  have hbyte : ∀ {ch : UInt8}, ch ∈ [0, 34, 37, 38, 43, 61, 63] → ch ∉ value :=
    fun hch hmem => (digit_plain (h _ hmem)).2 hch
  exact ⟨cutParams_plain (hbyte (by decide)) (hbyte (by decide)), hbyte (by decide),
    hbyte (by decide)⟩

/-- What is scanned from the parameters of a link. -/
theorem scanned_linkParams (hquad : ∀ ch ∈ dotquad, isDigit ch = true ∨ ch = 46)
    (hport : port < 2 ^ 16) (value : Bytes) : scanned (linkParams dotquad port value) =
      ⟨(dotquad :: places (ascii "addr=") (cutParams value)).getLast?,
        (port :: (places (ascii "port=") (cutParams value)).filterMap scanShort).getLast?.getD 0,
        (cString (cutParams value) :: places (ascii "key=") (cutParams value)).getLast?⟩ := by
  obtain ⟨hcut, hnul, hequals⟩ := cutParams_digits hquad
  obtain ⟨hcut', hnul', hequals'⟩ :=
    cutParams_digits (fun ch hch => Or.inl (isDigit_printDecimal port ch hch))
  have hown : ∀ {stem : Bytes} {value : Bytes}, cutParams value = value → 0 ∉ value → 61 ∉ value →
      ∀ name, paramTexts stem (name, value) = if stem <:+ name then [value] else [] := by
    intro stem value hcut hnul hequals name
    rw [paramTexts, hcut, cString_of_nul hnul, places_none hequals, List.append_nil]
  have hkey : ∀ stem, paramTexts stem (ascii "key", value) =
      (if stem <:+ ascii "key" then [cString (cutParams value)] else []) ++
        places (stem ++ [61]) (cutParams value) := fun _ => rfl
  unfold scanned linkParams
  simp only [List.flatMap_cons, List.flatMap_nil, List.append_nil, hown hcut hnul hequals,
    hown hcut' hnul' hequals', hkey]
  rw [if_pos (show ascii "addr" <:+ ascii "addr" by decide),
    if_neg (show ¬ascii "addr" <:+ ascii "port" by decide),
    if_neg (show ¬ascii "addr" <:+ ascii "key" by decide),
    if_neg (show ¬ascii "port" <:+ ascii "addr" by decide),
    if_pos (show ascii "port" <:+ ascii "port" by decide),
    if_neg (show ¬ascii "port" <:+ ascii "key" by decide),
    if_neg (show ¬ascii "key" <:+ ascii "addr" by decide),
    if_neg (show ¬ascii "key" <:+ ascii "port" by decide),
    if_pos (show ascii "key" <:+ ascii "key" by decide)]
  simp only [List.nil_append, List.singleton_append, List.filterMap_cons,
    scanShort_printDecimal hport]
  rfl

theorem hrefKey_leading (key : Bytes) : hrefKey key <+: key := List.takeWhile_prefix _

/-- A key without such bytes comes back as it is. -/
theorem plain_key (hnul : 0 ∉ key) (h : ∀ ch ∈ key, ch ∉ [34, 37, 38, 43, 63]) :
    hrefKey key = key ∧ decodedTarget key = key ∧ cutParams key = key := by
  have hbyte : ∀ {ch : UInt8}, ch ∈ [34, 37, 38, 43, 63] → ch ∉ key :=
    fun hch hmem => h _ hmem hch
  refine ⟨?_, decodedTarget_plain hnul (hbyte (by decide)) (hbyte (by decide)),
    cutParams_plain (hbyte (by decide)) (hbyte (by decide))⟩
  rw [hrefKey, List.takeWhile_eq_self_iff]
  intro ch hch
  simp only [ne_eq, decide_eq_true_eq]
  exact fun heq => hbyte (by decide) (heq ▸ hch)

/-- Without a NUL behind it, a text was not cut. -/
theorem cutParams_self {text : Bytes} (h : 0 ∉ cutParams text) :
    cutParams text = text ∧ 38 ∉ text ∧ 63 ∉ text := by
  have hbyte : ∀ ch ∈ text, (ch = 63 || ch = 38) = false := by
    intro ch hch
    by_contra hsep
    rw [Bool.not_eq_false] at hsep
    exact h (List.mem_map.mpr ⟨ch, hch, if_pos hsep⟩)
  have hamp : 38 ∉ text := fun hmem => absurd (hbyte _ hmem) (by decide)
  have hquery : 63 ∉ text := fun hmem => absurd (hbyte _ hmem) (by decide)
  exact ⟨cutParams_plain hquery hamp, hamp, hquery⟩

/-- A key that comes back whole has lost no byte on the way. -/
theorem key_whole (hnul : 0 ∉ key)
    (h : cString (cutParams (decodedTarget (hrefKey key))) = key) :
    ∀ ch ∈ key, ch ∉ [34, 37, 38, 43, 63] := by
  have hhref := hrefKey_leading key
  have hdecoded := decodedTarget_leading (hrefKey key)
  have hcut : cString (cutParams (decodedTarget (hrefKey key))) <+:
      cutParams (decodedTarget (hrefKey key)) := List.takeWhile_prefix _
  -- no step makes the text longer
  have hlen : key.length ≤ (decodedTarget (hrefKey key)).length := by
    have hle := hcut.length_le
    rwa [h, cutParams, List.length_map] at hle
  have hdecode := (uriDecode_length (hrefKey key)).1
  have hwhole : hrefKey key = key :=
    hhref.eq_of_length_le ((hlen.trans hdecoded.length_le).trans hdecode)
  rw [hwhole] at hdecoded hcut hlen hdecode h
  have hself : decodedTarget key = uriDecode key :=
    hdecoded.eq_of_length_le (hdecode.trans hlen)
  rw [h, hself] at hcut
  have huncut : key = cutParams (uriDecode key) := by
    apply hcut.eq_of_length_le
    rwa [cutParams, List.length_map]
  obtain ⟨hcutself, hamp, hquery⟩ := cutParams_self (huncut ▸ hnul)
  rw [hcutself] at huncut
  obtain ⟨hescape, hplus⟩ := uriDecode_eq_self.mp huncut.symm
  rw [← huncut] at hamp hquery
  have hquote : 34 ∉ key := by
    intro hmem
    rw [← hwhole] at hmem
    simpa using List.mem_takeWhile_imp hmem
  intro ch hch hmem
  simp only [List.mem_cons, List.not_mem_nil, or_false] at hmem
  rcases hmem with rfl | rfl | rfl | rfl | rfl
  · exact hquote hch
  · exact hescape hch
  · exact hamp hch
  · exact hplus hch
  · exact hquery hch

/-- The key is read back exactly if it is plain and does not read like the parameter. -/
theorem key_read (hnul : 0 ∉ key) :
    (cString (cutParams (decodedTarget (hrefKey key))) ::
      places (ascii "key=") (cutParams (decodedTarget (hrefKey key)))).getLast? = some key ↔
    (∀ ch ∈ key, ch ∉ [34, 37, 38, 43, 63]) ∧ strstr key (ascii "key=") = false := by
  rw [← places_eq_nil]
  constructor
  · intro h
    cases hplaces : places (ascii "key=") (cutParams (decodedTarget (hrefKey key))) with
    | nil =>
      rw [hplaces, List.getLast?_singleton, Option.some.injEq] at h
      have hplain := key_whole hnul h
      obtain ⟨hhref, hdecoded, hcut⟩ := plain_key hnul hplain
      rw [hhref, hdecoded, hcut] at hplaces
      exact ⟨hplain, hplaces⟩
    | cons first rest =>
      -- what is read inside the key is shorter than the key
      rw [hplaces, List.getLast?_cons_cons, ← hplaces] at h
      have hlen := places_length key (List.mem_of_getLast? h)
      have hdecode := (uriDecode_length (hrefKey key)).1
      have hname : (ascii "key=").length = 4 := by decide
      rw [cutParams, List.length_map] at hlen
      have := (decodedTarget_leading (hrefKey key)).length_le
      have := (hrefKey_leading key).length_le
      omega
  · rintro ⟨hplain, hplaces⟩
    obtain ⟨hhref, hdecoded, hcut⟩ := plain_key hnul hplain
    rw [hhref, hdecoded, hcut, hplaces, cString_of_nul hnul]
    rfl

theorem linkParams_names (dotquad : Bytes) (port : Nat) (key : Bytes) :
    ∀ param ∈ linkParams dotquad port key, PlainName param.1 := by
  have hplain : ∀ name ∈ [ascii "addr", ascii "port", ascii "key"], PlainName name := by
    decide +kernel
  intro param hparam
  exact hplain param.1 (List.mem_map_of_mem (f := Prod.fst) hparam)

end

/-- The target of a link, without its slash. -/
def linkTarget (dotquad : Bytes) (port : Nat) (key : Bytes) : Bytes :=
  ascii "top-clients-ops" ++ 63 :: queryText (linkParams dotquad port (hrefKey key))

section

variable {dotquad key : Bytes} {port : Nat}

theorem hrefKey_append (key tail : Bytes) :
    ∃ more, key ++ 34 :: tail = hrefKey key ++ 34 :: more := by
  induction key with
  | nil => exact ⟨tail, rfl⟩
  | cons ch key ih =>
    by_cases hch : ch = 34
    · subst hch
      exact ⟨key ++ 34 :: tail, rfl⟩
    · obtain ⟨more, h⟩ := ih
      refine ⟨more, ?_⟩
      rw [hrefKey, List.takeWhile_cons_of_pos (by simpa using hch), List.cons_append, h]
      rfl

theorem linkTarget_eq (dotquad : Bytes) (port : Nat) (key : Bytes) :
    47 :: linkTarget dotquad port key = ascii "/top-clients-ops" ++ ascii "?addr=" ++ dotquad ++
      ascii "&port=" ++ printDecimal port ++ ascii "&key=" ++ hrefKey key := by
  rw [linkTarget, linkParams, queryText_cons_cons, queryText_cons_cons, queryText_singleton]
  simp [ascii]

theorem linkTarget_noQuote (hquad : ∀ ch ∈ dotquad, isDigit ch = true ∨ ch = 46) :
    34 ∉ 47 :: linkTarget dotquad port key := by
  have hdotquad : 34 ∉ dotquad := fun hmem => (digit_plain (hquad _ hmem)).2 (by decide)
  have hport : 34 ∉ printDecimal port := fun hmem =>
    absurd (isDigit_printDecimal port _ hmem) (by decide)
  have hkey : 34 ∉ hrefKey key := by
    intro hmem
    simpa using List.mem_takeWhile_imp hmem
  have htexts : 34 ∉ ascii "/top-clients-ops" ∧ 34 ∉ ascii "?addr=" ∧ 34 ∉ ascii "&port=" ∧
      34 ∉ ascii "&key=" := by decide
  rw [linkTarget_eq]
  simp only [List.mem_append, not_or]
  exact ⟨⟨⟨⟨⟨⟨htexts.1, htexts.2.1⟩, hdotquad⟩, htexts.2.2.1⟩, hport⟩, htexts.2.2.2⟩, hkey⟩

/-- The attribute ends at the first quote of the key. -/
theorem hrefOf_keyHref (hquad : ∀ ch ∈ dotquad, isDigit ch = true ∨ ch = 46)
    (hfits : dotquad.length + (printDecimal port).length + key.length < 900) :
    hrefOf (keyHref (ascii "/top-clients-ops") dotquad port key) =
      some (47 :: linkTarget dotquad port key) := by
  obtain ⟨more, hmore⟩ := hrefKey_append key (ascii ">")
  have htag : keyHref (ascii "/top-clients-ops") dotquad port key =
      ascii "<a href=" ++ 34 :: (47 :: linkTarget dotquad port key ++ 34 :: more) := by
    have hlen : (ascii "<a href=\"" ++ ascii "/top-clients-ops" ++ ascii "?addr=" ++ dotquad ++
        ascii "&port=" ++ printDecimal port ++ ascii "&key=" ++ key ++ ascii "\">").length ≤
        lineSz - 1 := by
      simp only [List.length_append, lineSz]
      have htexts : (ascii "<a href=\"").length + (ascii "/top-clients-ops").length +
          (ascii "?addr=").length + (ascii "&port=").length + (ascii "&key=").length +
          (ascii "\">").length = 44 := by decide
      omega
    rw [keyHref, List.take_of_length_le hlen, linkTarget_eq]
    simp only [List.append_assoc]
    rw [← hmore]
    simp [ascii]
  have hquote : 34 ∉ ascii "<a href=" := by decide
  unfold hrefOf
  rw [htag, strchr_append hquote]
  dsimp only [Option.bind_eq_bind, Option.bind_some]
  rw [strchr_append (linkTarget_noQuote hquad)]
  rfl

theorem queryText_link (dotquad : Bytes) (port : Nat) (value : Bytes) :
    queryText (linkParams dotquad port value) = (ascii "addr=" ++ dotquad ++ ascii "&port=" ++
      printDecimal port ++ ascii "&key=") ++ value := by
  rw [linkParams, queryText_cons_cons, queryText_cons_cons, queryText_singleton]
  simp [ascii]

/-- Only the key of a link is changed by the decoding. -/
theorem decoded_link (hquad : ∀ ch ∈ dotquad, isDigit ch = true ∨ ch = 46) (value : Bytes) :
    decodedTarget (queryText (linkParams dotquad port value)) =
      queryText (linkParams dotquad port (decodedTarget value)) := by
  have hfront : ∀ ch ∈ ascii "addr=" ++ dotquad ++ ascii "&port=" ++ printDecimal port ++
      ascii "&key=", ch ∉ [0, 37, 43] := by
    have htexts : (∀ ch ∈ ascii "addr=", ch ∉ [0, 37, 43]) ∧
        (∀ ch ∈ ascii "&port=", ch ∉ [0, 37, 43]) ∧ ∀ ch ∈ ascii "&key=", ch ∉ [0, 37, 43] := by
      decide +kernel
    have hdigits : ∀ ch, isDigit ch = true ∨ ch = 46 → ch ∉ [0, 37, 43] := by
      intro ch hch hmem
      apply (digit_plain hch).2
      simp only [List.mem_cons, List.not_mem_nil, or_false] at hmem
      rcases hmem with rfl | rfl | rfl <;> decide
    intro ch hch
    simp only [List.mem_append] at hch
    rcases hch with (((hch | hch) | hch) | hch) | hch
    · exact htexts.1 ch hch
    · exact hdigits ch (hquad ch hch)
    · exact htexts.2.1 ch hch
    · exact hdigits ch (Or.inl (isDigit_printDecimal port ch hch))
    · exact htexts.2.2 ch hch
  rw [queryText_link, queryText_link]
  apply decodedTarget_append
  · exact fun hmem => hfront _ hmem (by decide)
  · exact fun hmem => hfront _ hmem (by decide)
  · exact fun hmem => hfront _ hmem (by decide)

theorem dottedQuad_length (a b c d : UInt8) : (dottedQuad a b c d).length ≤ 15 := by
  have hbyte : ∀ n : UInt8, (printDecimal n.toNat).length ≤ 3 :=
    fun n => printDecimal_length (n.toNat_lt.trans (by decide)) (by decide)
  have ha := hbyte a
  have hb := hbyte b
  have hc := hbyte c
  have hd := hbyte d
  simp only [dottedQuad, List.length_append, List.length_cons]
  omega

theorem link_bytes (hquad : ∀ ch ∈ dotquad, isDigit ch = true ∨ ch = 46)
    (hkey : ∀ ch ∈ key, 32 < ch ∧ ch ≠ 127) :
    ∀ ch ∈ queryText (linkParams dotquad port (hrefKey key)), isSpace ch = false ∧ ch ≠ 0 := by
  have hdigits : ∀ ch, isDigit ch = true ∨ ch = 46 → isSpace ch = false ∧ ch ≠ 0 := by
    intro ch hch
    obtain ⟨hspace, hmem⟩ := digit_plain hch
    refine ⟨hspace, ?_⟩
    rintro rfl
    exact hmem (by decide)
  have hprinted : ∀ ch : UInt8, 32 < ch → isSpace ch = false ∧ ch ≠ 0 := by
    intro ch hch
    have hall := forall_byte (p := fun ch => !(32 < ch) || (!isSpace ch && ch ≠ 0))
      (by decide +kernel) ch
    simpa [hch] using hall
  apply queryText_bytes (linkParams_names _ _ _)
  intro param hparam ch hch
  simp only [linkParams, List.mem_cons, List.not_mem_nil, or_false] at hparam
  rcases hparam with rfl | rfl | rfl
  · exact hdigits ch (hquad ch hch)
  · exact hdigits ch (Or.inl (isDigit_printDecimal port ch hch))
  · exact hprinted ch (hkey ch ((hrefKey_leading key).mem hch)).1

theorem linkTarget_length (dotquad : Bytes) (port : Nat) (key : Bytes) :
    (linkTarget dotquad port key).length ≤
      32 + dotquad.length + (printDecimal port).length + key.length := by
  have hlen := congrArg List.length (linkTarget_eq dotquad port key)
  have htexts : (ascii "/top-clients-ops").length + (ascii "?addr=").length +
      (ascii "&port=").length + (ascii "&key=").length = 33 := by decide
  have hkey := (hrefKey_leading key).length_le
  simp only [List.length_cons, List.length_append] at hlen
  omega

/-- What is left of the scan of a link. -/
theorem linkSafe_iff (hnul : 0 ∉ key) :
    ((dotquad :: places (ascii "addr=") (cutParams (decodedTarget (hrefKey key)))).getLast? =
        some dotquad ∧
      (port :: (places (ascii "port=")
        (cutParams (decodedTarget (hrefKey key)))).filterMap scanShort).getLast?.getD 0 = port ∧
      (cString (cutParams (decodedTarget (hrefKey key))) ::
        places (ascii "key=") (cutParams (decodedTarget (hrefKey key)))).getLast? = some key) ↔
    LinkSafe dotquad port key := by
  have hlast : ∀ {α : Type} (own : α) (others : List α),
      (own :: others).getLast? = some own ↔
        ∀ other, others.getLast? = some other → other = own := by
    intro α own others
    rw [List.getLast?_cons]
    cases others.getLast? <;> simp
  have hgetD : ∀ (own : Nat) (others : List Nat), (own :: others).getLast?.getD 0 = own ↔
      (own :: others).getLast? = some own := by
    intro own others
    rw [List.getLast?_cons]
    simp
  rw [key_read hnul, hgetD, hlast, hlast]
  constructor
  · rintro ⟨haddr, hport, hplain, hkey⟩
    obtain ⟨hhref, hdecoded, hcut⟩ := plain_key hnul hplain
    rw [hhref, hdecoded, hcut] at haddr hport
    exact ⟨hplain, hkey, haddr, hport⟩
  · rintro ⟨hplain, hkey, haddr, hport⟩
    obtain ⟨hhref, hdecoded, hcut⟩ := plain_key hnul hplain
    rw [hhref, hdecoded, hcut]
    exact ⟨haddr, hport, hplain, hkey⟩

end

/-- A link leads back to its key exactly if the key is safe in it. -/
theorem topKeysLink_iff (bep : Backend) (key : MemcacheKey) (a b c d : UInt8) (port : UInt16) :
    (∃ href, hrefOf (keyHref (ascii "/top-clients-ops") (dottedQuad a b c d) port.toNat key.text) =
        some href ∧
      reporterArgs bep ((ascii "GET " ++ href ++ ascii " HTTP/1.1\r\n").take (maxReqSz - 1)) =
        some (ascii "top-clients-ops",
          ⟨some (dottedQuad a b c d), port.toNat, some key.text⟩)) ↔
      LinkSafe (dottedQuad a b c d) port.toNat key.text := by
  have hquad := dottedQuad_bytes a b c d
  have hquadlen := dottedQuad_length a b c d
  have hportlen : (printDecimal port.toNat).length ≤ 5 :=
    printDecimal_length (port.toNat_lt.trans (by decide)) (by decide)
  have hkeylen := key.length
  have hnul : 0 ∉ key.text := fun hmem => absurd (key.bytes 0 hmem).1 (by decide)
  have hline : ascii "GET " ++ 47 :: linkTarget (dottedQuad a b c d) port.toNat key.text ++
      ascii " HTTP/1.1\r\n" = requestLine (ascii "GET")
        (linkTarget (dottedQuad a b c d) port.toNat key.text) := by
    simp [requestLine, ascii]
  have hbytes : ∀ ch ∈ queryText (linkParams (dottedQuad a b c d) port.toNat (hrefKey key.text)),
      isSpace ch = false ∧ ch ≠ 0 := link_bytes hquad key.bytes
  have hfits := linkTarget_length (dottedQuad a b c d) port.toNat key.text
  rw [hrefOf_keyHref hquad (by omega)]
  simp only [Option.some.injEq, exists_eq_left']
  rw [hline, linkTarget, reporterArgs_query (by decide) (by decide) (linkParams_names _ _ _) hbytes
    (by rw [linkTarget] at hfits; omega) (decoded_link hquad _), if_neg (by decide),
    scanned_linkParams hquad port.toNat_lt, Option.some.injEq, Prod.mk.injEq, and_iff_right rfl,
    ReporterParams.mk.injEq]
  exact linkSafe_iff hnul

/-- A key with a plus sign. -/
def plusKey : MemcacheKey where
  text := ascii "a+b"
  nonempty := by decide
  length := by decide
  bytes := by decide +kernel

/-- The plus sign comes back as a blank. -/
theorem topKeysLink_fails : ¬∀ (bep : Backend) (key : MemcacheKey) (a b c d : UInt8)
    (port : UInt16), 1 ≤ port →
    ∃ href, hrefOf (keyHref (ascii "/top-clients-ops") (dottedQuad a b c d) port.toNat key.text) =
        some href ∧
      reporterArgs bep ((ascii "GET " ++ href ++ ascii " HTTP/1.1\r\n").take (maxReqSz - 1)) =
        some (ascii "top-clients-ops",
          ⟨some (dottedQuad a b c d), port.toNat, some key.text⟩) := by
  intro h
  obtain ⟨href, hhref, hargs⟩ := h sampleWorld.bep plusKey 10 0 0 1 11211 (by decide)
  have hlink : hrefOf (keyHref (ascii "/top-clients-ops") (dottedQuad 10 0 0 1)
      (11211 : UInt16).toNat plusKey.text) =
      some (ascii "/top-clients-ops?addr=10.0.0.1&port=11211&key=a+b") := by
    decide +kernel
  rw [hlink, Option.some.injEq] at hhref
  subst hhref
  exact absurd hargs (by decide +kernel)

end StatsProxy

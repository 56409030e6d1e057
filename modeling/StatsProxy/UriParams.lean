import StatsProxy.Dispatch

/-! The parameters of a reporter request, from the encoded target to what
`reporterCallback` scans. The scan looks for a name at every place of the decoded
target, and the last place that reads like the name is the one that counts. -/
namespace StatsProxy
open CString Interaction Program

/-- The text behind a name, up to its NUL. -/
def placeAt (name c : Bytes) : Option Bytes :=
  if name.isPrefixOf c then some (cString (c.drop name.length)) else none

/-- The texts behind all places of a text that read like the name. -/
def places (name text : Bytes) : List Bytes := text.tails.filterMap (placeAt name)

/-- The places of one parameter: its value up to the first separator, if its name ends
like this one, and those inside its value. -/
def paramTexts (name : Bytes) (param : Bytes × Bytes) : List Bytes :=
  (if name <:+ param.1 then [cString (cutParams param.2)] else []) ++
    places (name ++ [61]) (cutParams param.2)

def paramText (param : Bytes × Bytes) : Bytes := param.1 ++ 61 :: param.2

def queryText (params : List (Bytes × Bytes)) : Bytes := [38].intercalate (params.map paramText)

/-- A name that means nothing to the request line, to the decoding and to the scan. -/
def PlainName (name : Bytes) : Prop :=
  ∀ ch ∈ name, isSpace ch = false ∧ ch ∉ [0, 37, 38, 43, 61, 63]

instance (name : Bytes) : Decidable (PlainName name) :=
  inferInstanceAs (Decidable (∀ ch ∈ name, _ ∧ _))

/-- The parameters of a request, each name at most once. -/
structure Query where
  params : List (Bytes × Bytes)
  nodup : (params.map Prod.fst).Nodup
  names : ∀ param ∈ params, PlainName param.1
  values : ∀ param ∈ params, 0 ∉ param.2

def Query.encoded (q : Query) : Bytes :=
  queryText (q.params.map fun param => (param.1, uriEncode param.2))

/-- The number that a decimal numeral stands for. -/
def numeral (text : Bytes) : Option Nat :=
  if !text.isEmpty && text.all isDigit then some (decimalValue text) else none

/-- The number for the port. There is none if its value is no numeral; a port that is not given
is 0. -/
def portNumber (params : List (Bytes × Bytes)) : Option Nat :=
  (params.lookup (ascii "port")).elim (some 0) numeral

/-- The parameters are what the request means. -/
structure Query.Meant (q : Query) (p : ReporterParams) : Prop where
  addr : p.addr = q.params.lookup (ascii "addr")
  port : portNumber q.params = some p.port
  key : p.key = q.params.lookup (ascii "key")

def requestLine (method target : Bytes) : Bytes :=
  method ++ ascii " /" ++ target ++ ascii " HTTP/1.1\r\n"

/-- The uri and the parameters that a request gives to `reporterUri`. -/
def reporterArgs (bep : Backend) (servRequest : Bytes) : Option (Bytes × ReporterParams) :=
  let decodedUri := decodedTarget (requestTarget servRequest)
  if badMethod (scanRequest servRequest).1 then none
  else match findCallback bep (baseUri (requestTarget servRequest)) with
    | some .reporter => some (cString (cutParams decodedUri), scanParams decodedUri)
    | _ => none

/-- The last place that reads like a name is followed by the parameter's own value. The port is
a number that fits, and the last one behind its name. -/
structure Unambiguous (params : List (Bytes × Bytes)) : Prop where
  addr : (params.flatMap (paramTexts (ascii "addr"))).getLast? = params.lookup (ascii "addr")
  fits : ∃ n < 2 ^ 16, portNumber params = some n
  port : ∀ n ∈ portNumber params,
    ((params.flatMap (paramTexts (ascii "port"))).filterMap scanShort).getLast?.getD 0 = n
  key : (params.flatMap (paramTexts (ascii "key"))).getLast? = params.lookup (ascii "key")

section

variable {name text front back : Bytes}

theorem handleRequest_reporter {bep : Backend} {servRequest uri : Bytes} {p : ReporterParams}
    (h : reporterArgs bep servRequest = some (uri, p)) :
    handleRequest bep servRequest = (do reporterUri uri p; return true) := by
  unfold reporterArgs at h
  dsimp only at h
  split at h
  · contradiction
  · next hmethod =>
    split at h
    · next hcb =>
      cases h
      unfold handleRequest
      dsimp only
      rw [if_neg hmethod, ← requestTarget, hcb]
      rfl
    · contradiction

theorem placeAt_some {c rest : Bytes} (h : placeAt name c = some rest) : name <+: c := by
  unfold placeAt at h
  split at h
  · next hleading => exact List.isPrefixOf_iff_prefix.mp hleading
  · contradiction

theorem placeAt_length {c rest : Bytes} (h : placeAt name c = some rest) :
    rest.length + name.length ≤ c.length := by
  have hlen := (placeAt_some h).length_le
  unfold placeAt at h
  split at h
  · cases h
    have hleading : (cString (c.drop name.length)).length ≤ (c.drop name.length).length :=
      (List.takeWhile_prefix _).length_le
    rw [List.length_drop] at hleading
    omega
  · contradiction

/-- A text behind a name is shorter by the name. -/
theorem places_length :
    ∀ rest ∈ places name text, rest.length + name.length ≤ text.length := by
  intro rest hrest
  obtain ⟨c, hc, hplace⟩ := List.mem_filterMap.mp hrest
  exact (placeAt_length hplace).trans ((List.mem_tails _ _).mp hc).length_le

/-- The three names start differently, so that at most one is read at a place. -/
theorem scanParam_placeAt (p : ReporterParams) (c : Bytes) : scanParam p c =
    ⟨(placeAt (ascii "addr=") c).or p.addr,
      ((placeAt (ascii "port=") c).bind scanShort).getD p.port,
      (placeAt (ascii "key=") c).or p.key⟩ := by
  have hone : ∀ {name : Bytes} (other : Bytes), name.head? ≠ other.head? → name ≠ [] →
      other ≠ [] → name.isPrefixOf c = true → other.isPrefixOf c = false := by
    intro name other hheads hname hother h
    obtain ⟨rest, rfl⟩ := List.isPrefixOf_iff_prefix.mp h
    cases name with
    | nil => contradiction
    | cons a name =>
      cases other with
      | nil => contradiction
      | cons b other =>
        have hne : b ≠ a := fun heq => hheads (heq ▸ rfl)
        simp [List.isPrefixOf, hne]
  unfold scanParam placeAt
  by_cases haddr : (ascii "addr=").isPrefixOf c = true
  · have hport := hone (ascii "port=") (by decide) (by decide) (by decide) haddr
    have hkey := hone (ascii "key=") (by decide) (by decide) (by decide) haddr
    simp only [haddr, hport, hkey, if_true]
    rfl
  · by_cases hport : (ascii "port=").isPrefixOf c = true
    · have hkey := hone (ascii "key=") (by decide) (by decide) (by decide) hport
      simp only [haddr, hport, hkey, if_true]
      rfl
    · by_cases hkey : (ascii "key=").isPrefixOf c = true
      · simp only [haddr, hport, hkey, if_true]
        rfl
      · simp only [haddr, hport, hkey]
        rfl

theorem foldl_scanParam (suffixes : List Bytes) (p : ReporterParams) :
    suffixes.foldl scanParam p =
      ⟨(suffixes.filterMap (placeAt (ascii "addr="))).getLast?.or p.addr,
        ((suffixes.filterMap (placeAt (ascii "port="))).filterMap scanShort).getLast?.getD p.port,
        (suffixes.filterMap (placeAt (ascii "key="))).getLast?.or p.key⟩ := by
  have hlast : ∀ (name c : Bytes) (suffixes : List Bytes) (old : Option Bytes),
      (suffixes.filterMap (placeAt name)).getLast?.or ((placeAt name c).or old) =
        ((c :: suffixes).filterMap (placeAt name)).getLast?.or old := by
    intro name c suffixes old
    rw [List.filterMap_cons]
    cases placeAt name c with
    | none => rfl
    | some rest => simp [List.getLast?_cons]
  induction suffixes generalizing p with
  | nil => rfl
  | cons c suffixes ih =>
    rw [List.foldl_cons, ih, scanParam_placeAt, hlast, hlast]
    congr 1
    rw [List.filterMap_cons]
    cases placeAt (ascii "port=") c with
    | none => rfl
    | some rest =>
      rw [Option.bind_some, List.filterMap_cons]
      cases scanShort rest with
      | none => rfl
      | some n =>
        rw [List.getLast?_cons]
        rfl

/-- The last place counts; for the port the last one with a number. -/
theorem scanParams_places (uri : Bytes) : scanParams uri =
    ⟨(places (ascii "addr=") (cutParams uri)).getLast?,
      ((places (ascii "port=") (cutParams uri)).filterMap scanShort).getLast?.getD 0,
      (places (ascii "key=") (cutParams uri)).getLast?⟩ := by
  rw [scanParams, foldl_scanParam, Option.or_none, Option.or_none]
  rfl

theorem placeAt_nul (hname : 0 ∉ name) (front back : Bytes) :
    placeAt name (front ++ 0 :: back) = placeAt name front := by
  have hleading : name <+: front ++ 0 :: back ↔ name <+: front := by
    constructor
    · intro h
      rcases List.prefix_or_prefix_of_prefix h (List.prefix_append front _) with h' | ⟨rest, rfl⟩
      · exact h'
      · rw [List.prefix_append_right_inj] at h
        cases rest with
        | nil => simp
        | cons ch rest =>
          obtain ⟨rfl, -⟩ := List.cons_prefix_cons.mp h
          exact absurd (by simp) hname
    · exact fun h => h.trans (List.prefix_append _ _)
  unfold placeAt
  by_cases h : name <+: front
  · rw [if_pos (List.isPrefixOf_iff_prefix.mpr h),
      if_pos (List.isPrefixOf_iff_prefix.mpr (hleading.mpr h))]
    obtain ⟨rest, rfl⟩ := h
    rw [List.append_assoc, List.drop_left, List.drop_left, cString_nul]
  · rw [if_neg fun h' => h (List.isPrefixOf_iff_prefix.mp h'),
      if_neg fun h' => h (hleading.mp (List.isPrefixOf_iff_prefix.mp h'))]

theorem places_cons (name : Bytes) (ch : UInt8) (text : Bytes) :
    places name (ch :: text) = (placeAt name (ch :: text)).toList ++ places name text := by
  rw [places, List.tails_cons, List.filterMap_cons]
  cases placeAt name (ch :: text) <;> rfl

theorem places_nil (hname : name ≠ []) : places name [] = [] := by
  cases name with
  | nil => contradiction
  | cons ch name => rfl

/-- No place reaches over a NUL. -/
theorem places_nul (hname : 0 ∉ name) (hne : name ≠ []) (front back : Bytes) :
    places name (front ++ 0 :: back) = places name front ++ places name back := by
  induction front with
  | nil =>
    have h := placeAt_nul hname [] back
    have hnil : placeAt name [] = none := by
      cases name with
      | nil => contradiction
      | cons ch name => rfl
    rw [List.nil_append] at h ⊢
    rw [places_cons, h, hnil, places_nil hne]
    rfl
  | cons ch front ih =>
    rw [List.cons_append, places_cons, ih, places_cons, ← List.cons_append,
      placeAt_nul hname, List.append_assoc]

/-- The places of a parameter whose name has no `=`. -/
theorem places_param {stem value : Bytes} (hstem : 61 ∉ stem) (hne : stem ≠ [])
    (hname : 61 ∉ name) : places (stem ++ [61]) (name ++ 61 :: value) =
      (if stem <:+ name then [cString value] else []) ++ places (stem ++ [61]) value := by
  have hplace : ∀ {name : Bytes}, 61 ∉ name → placeAt (stem ++ [61]) (name ++ 61 :: value) =
      if stem = name then some (cString value) else none := by
    intro name hname
    unfold placeAt
    by_cases heq : stem = name
    · subst heq
      have hleading : stem ++ [61] <+: stem ++ 61 :: value := ⟨value, by simp⟩
      rw [if_pos (List.isPrefixOf_iff_prefix.mpr hleading), if_pos rfl]
      simp
    · rw [if_neg heq, if_neg]
      intro h
      obtain ⟨rest, h⟩ := List.isPrefixOf_iff_prefix.mp h
      have hsplit := strchr_append hname value
      rw [← h, List.append_assoc, List.singleton_append, strchr_append hstem] at hsplit
      simp only [Option.some.injEq, Prod.mk.injEq] at hsplit
      exact heq hsplit.1
  induction name with
  | nil =>
    have hnone : placeAt (stem ++ [61]) (61 :: value) = none := by
      have h := @hplace [] (by simp)
      rwa [List.nil_append, if_neg hne] at h
    rw [List.nil_append, places_cons, hnone, if_neg (by simpa using hne)]
    rfl
  | cons ch name ih =>
    rw [List.mem_cons, not_or] at hname
    have hsuffix : stem <:+ ch :: name ↔ stem = ch :: name ∨ stem <:+ name :=
      List.suffix_cons_iff
    rw [List.cons_append, places_cons, ih hname.2, ← List.cons_append,
      hplace (by simp [hname.1, hname.2])]
    by_cases heq : stem = ch :: name
    · have hlonger : ¬stem <:+ name := by
        intro h
        have hlen := h.length_le
        rw [heq, List.length_cons] at hlen
        omega
      rw [if_pos heq, if_neg hlonger, if_pos (hsuffix.mpr (Or.inl heq))]
      rfl
    · by_cases hname' : stem <:+ name
      · rw [if_neg heq, if_pos hname', if_pos (hsuffix.mpr (Or.inr hname'))]
        rfl
      · rw [if_neg heq, if_neg hname', if_neg fun h => (hsuffix.mp h).elim heq hname']
        rfl

theorem places_none (h : 61 ∉ text) (stem : Bytes) : places (stem ++ [61]) text = [] := by
  unfold places
  rw [List.filterMap_eq_nil_iff]
  intro c hc
  cases hplace : placeAt (stem ++ [61]) c with
  | none => rfl
  | some rest =>
    have hleading := placeAt_some hplace
    have hmem : 61 ∈ text := ((List.mem_tails _ _).mp hc).mem (hleading.mem (by simp))
    exact absurd hmem h

theorem PlainName.noByte (h : PlainName name) {ch : UInt8} (hch : ch ∈ [0, 37, 38, 43, 61, 63]) :
    ch ∉ name :=
  fun hmem => (h ch hmem).2 hch

theorem PlainName.cut (h : PlainName name) : cutParams name = name :=
  cutParams_plain (h.noByte (by decide)) (h.noByte (by decide))

theorem queryText_cons_cons (param next : Bytes × Bytes) (params : List (Bytes × Bytes)) :
    queryText (param :: next :: params) =
      param.1 ++ 61 :: (param.2 ++ 38 :: queryText (next :: params)) := by
  simp [queryText, paramText, List.intercalate_cons_cons]

theorem queryText_singleton (param : Bytes × Bytes) :
    queryText [param] = param.1 ++ 61 :: param.2 := by
  simp [queryText, paramText]

/-- The places of a decoded query are those of its parameters. -/
theorem places_queryText {stem : Bytes} {params : List (Bytes × Bytes)} (hstem : PlainName stem)
    (hne : stem ≠ []) (hnames : ∀ param ∈ params, PlainName param.1) :
    places (stem ++ [61]) (cutParams (queryText params)) = params.flatMap (paramTexts stem) := by
  have hequals : 61 ∉ stem := hstem.noByte (by decide)
  induction params with
  | nil => exact places_nil (by simp)
  | cons param params ih =>
    have hname := hnames param List.mem_cons_self
    rw [List.flatMap_cons]
    cases params with
    | nil =>
      rw [queryText_singleton, cutParams_append, cutParams_cons, hname.cut]
      rw [if_neg (by decide), places_param hequals hne (hname.noByte (by decide))]
      simp [paramTexts]
    | cons next params =>
      have hnul : 0 ∉ stem ++ [61] := by
        simpa using hstem.noByte (by decide)
      rw [queryText_cons_cons, cutParams_append, cutParams_cons, cutParams_append,
        cutParams_cons, hname.cut, if_neg (by decide), if_pos (by decide), ← List.cons_append,
        ← List.append_assoc, places_nul hnul (by simp),
        places_param hequals hne (hname.noByte (by decide)),
        ih fun p hp => hnames p (List.mem_cons_of_mem param hp)]
      rfl

theorem uriDecode_queryText {params : List (Bytes × Bytes)}
    (hnames : ∀ param ∈ params, PlainName param.1) :
    uriDecode (queryText (params.map fun param => (param.1, uriEncode param.2))) =
      queryText params := by
  have hname : ∀ {name : Bytes} (rest : Bytes), PlainName name →
      uriDecode (name ++ 61 :: rest) = name ++ 61 :: uriDecode rest := by
    intro name rest h
    rw [uriDecode_append (h.noByte (by decide)), map_decodePlain.mpr (h.noByte (by decide)),
      uriDecode_cons (by decide)]
    rfl
  induction params with
  | nil => rfl
  | cons param params ih =>
    have hparam := hnames param List.mem_cons_self
    cases params with
    | nil =>
      have hvalue := uriDecode_uriEncode param.2 []
      rw [List.append_nil, uriDecode, List.append_nil] at hvalue
      rw [List.map_singleton, queryText_singleton, queryText_singleton, hname _ hparam, hvalue]
    | cons next params =>
      have hrest := ih fun p hp => hnames p (List.mem_cons_of_mem param hp)
      rw [List.map_cons] at hrest
      rw [List.map_cons, List.map_cons, queryText_cons_cons, queryText_cons_cons,
        hname _ hparam, uriDecode_uriEncode, uriDecode_cons (by decide), hrest]
      rfl

theorem mem_queryText {ch : UInt8} {params : List (Bytes × Bytes)} (h : ch ∈ queryText params) :
    ch = 61 ∨ ch = 38 ∨ ∃ param ∈ params, ch ∈ param.1 ∨ ch ∈ param.2 := by
  induction params with
  | nil => contradiction
  | cons param params ih =>
    cases params with
    | nil =>
      rw [queryText_singleton, List.mem_append, List.mem_cons] at h
      rcases h with h | rfl | h
      · exact Or.inr (Or.inr ⟨param, List.mem_cons_self, Or.inl h⟩)
      · exact Or.inl rfl
      · exact Or.inr (Or.inr ⟨param, List.mem_cons_self, Or.inr h⟩)
    | cons next params =>
      rw [queryText_cons_cons] at h
      simp only [List.mem_append, List.mem_cons] at h
      rcases h with h | rfl | h | rfl | h
      · exact Or.inr (Or.inr ⟨param, List.mem_cons_self, Or.inl h⟩)
      · exact Or.inl rfl
      · exact Or.inr (Or.inr ⟨param, List.mem_cons_self, Or.inr h⟩)
      · exact Or.inr (Or.inl rfl)
      · rcases ih h with h | h | ⟨p, hp, h⟩
        · exact Or.inl h
        · exact Or.inr (Or.inl h)
        · exact Or.inr (Or.inr ⟨p, List.mem_cons_of_mem param hp, h⟩)

/-- The parameters that are scanned from a decoded query. -/
def scanned (params : List (Bytes × Bytes)) : ReporterParams :=
  ⟨(params.flatMap (paramTexts (ascii "addr"))).getLast?,
    ((params.flatMap (paramTexts (ascii "port"))).filterMap scanShort).getLast?.getD 0,
    (params.flatMap (paramTexts (ascii "key"))).getLast?⟩

theorem scanParams_query {path : Bytes} {params : List (Bytes × Bytes)} (hpath : 61 ∉ path)
    (hnames : ∀ param ∈ params, PlainName param.1) :
    scanParams (path ++ 63 :: queryText params) = scanned params := by
  have hcut : 61 ∉ cutParams path := by
    intro hmem
    obtain ⟨ch, hch, heq⟩ := List.mem_map.mp hmem
    split at heq
    · contradiction
    · exact hpath (heq ▸ hch)
  have hplaces : ∀ {stem : Bytes}, PlainName stem → stem ≠ [] →
      places (stem ++ [61]) (cutParams (path ++ 63 :: queryText params)) =
        params.flatMap (paramTexts stem) := by
    intro stem hstem hne
    have hnul : 0 ∉ stem ++ [61] := by simpa using hstem.noByte (by decide)
    rw [cutParams_append, cutParams_cons, if_pos (by decide), places_nul hnul (by simp),
      places_none hcut, places_queryText hstem hne hnames]
    rfl
  have hplain : ∀ stem ∈ [ascii "addr", ascii "port", ascii "key"], PlainName stem := by
    decide +kernel
  rw [scanParams_places]
  unfold scanned
  rw [← hplaces (hplain (ascii "addr") (by decide)) (by decide),
    ← hplaces (hplain (ascii "port") (by decide)) (by decide),
    ← hplaces (hplain (ascii "key") (by decide)) (by decide)]
  rfl

/-- What the scan of a method relies on. -/
theorem method_plain {method : Bytes} (h : badMethod method = false) :
    method ≠ [] ∧ (∀ ch ∈ method, isSpace ch = false) ∧ 0 ∉ method ∧ method.length ≤ 5 := by
  have hall : ∀ m ∈ [ascii "GET", ascii "POST", ascii "stats"],
      m ≠ [] ∧ (∀ ch ∈ m, isSpace ch = false) ∧ 0 ∉ m ∧ m.length ≤ 5 := by
    decide +kernel
  apply hall
  simpa only [badMethod, decide_eq_false_iff_not, not_not] using h

theorem scanRequest_line {method target : Bytes} (hmethod : badMethod method = false)
    (htarget : ∀ ch ∈ target, isSpace ch = false ∧ ch ≠ 0) (hfits : target.length < 1000) :
    scanRequest (requestLine method target) = (method, 47 :: target) := by
  obtain ⟨hne, hspace, hnul, hlen⟩ := method_plain hmethod
  have hline : requestLine method target =
      method ++ 32 :: (47 :: target ++ ascii " HTTP/1.1\r\n") := by
    simp [requestLine, ascii]
  have hclean : 0 ∉ requestLine method target := by
    have htarget' : 0 ∉ target := fun hmem => (htarget 0 hmem).2 rfl
    have hversion : 0 ∉ ascii " HTTP/1.1\r\n" := by decide
    simp only [hline, List.mem_append, List.mem_cons, not_or]
    exact ⟨hnul, by decide, ⟨by decide, htarget'⟩, hversion⟩
  have huri : ∀ ch ∈ 47 :: target, isSpace ch = false := by
    rw [List.forall_mem_cons]
    exact ⟨by decide, fun ch hch => (htarget ch hch).1⟩
  rw [scanRequest, cString_of_nul hclean, hline,
    scanString_append hne hspace (by simp [isSpace]) (hlen.trans (by decide))]
  dsimp only
  rw [scanString_blank,
    scanString_append (List.cons_ne_nil _ _) huri (by decide +kernel) (by simpa)]
  rfl

/-- A target that fits into the buffer of the uri is in a line that is read whole. -/
theorem requestLine_take {method target : Bytes} (hmethod : badMethod method = false)
    (hfits : target.length < 1000) :
    (requestLine method target).take (maxReqSz - 1) = requestLine method target := by
  obtain ⟨-, -, -, hlen⟩ := method_plain hmethod
  have hslash : (ascii " /").length = 2 := by decide
  have hversion : (ascii " HTTP/1.1\r\n").length = 11 := by decide
  apply List.take_of_length_le
  simp only [requestLine, List.length_append, hslash, hversion, maxReqSz]
  omega

theorem branchUris_plain : ∀ path ∈ branchUris, PlainName path := by
  decide +kernel

theorem branchUris_registered : ∀ path ∈ branchUris, path ≠ ascii "top-clients-keys" →
    (path, Callback.reporter) ∈ systemUris := by
  decide +kernel

theorem scanRequest_query {method path query : Bytes} (hmethod : badMethod method = false)
    (hpath : path ∈ branchUris) (hquery : ∀ ch ∈ query, isSpace ch = false ∧ ch ≠ 0)
    (hfits : (path ++ 63 :: query).length < 1000) :
    scanRequest ((requestLine method (path ++ 63 :: query)).take (maxReqSz - 1)) =
      (method, 47 :: (path ++ 63 :: query)) := by
  have hplain := branchUris_plain path hpath
  rw [requestLine_take hmethod hfits]
  apply scanRequest_line hmethod _ hfits
  intro ch hch
  rcases List.mem_append.mp hch with hch | hch
  · exact ⟨(hplain ch hch).1, fun heq => hplain.noByte (by decide) (heq ▸ hch)⟩
  · rcases List.mem_cons.mp hch with rfl | hch
    · decide
    · exact hquery ch hch

/-- The parameters of a registered path are scanned. -/
theorem reporterArgs_query {bep : Backend} {method path query : Bytes}
    {params : List (Bytes × Bytes)} (hmethod : badMethod method = false)
    (hpath : path ∈ branchUris) (hnames : ∀ param ∈ params, PlainName param.1)
    (hquery : ∀ ch ∈ query, isSpace ch = false ∧ ch ≠ 0)
    (hfits : (path ++ 63 :: query).length < 1000)
    (hdecoded : decodedTarget query = queryText params) :
    reporterArgs bep ((requestLine method (path ++ 63 :: query)).take (maxReqSz - 1)) =
      if path = ascii "top-clients-keys" then none else some (path, scanned params) := by
  have hplain := branchUris_plain path hpath
  have hnul : 0 ∉ path := hplain.noByte (by decide)
  have huri : cString (cutParams (path ++ 63 :: queryText params)) = path := by
    rw [cutParams_append, hplain.cut, cutParams_cons, if_pos (by decide), cString_append_nul hnul]
  have htarget : requestTarget ((requestLine method (path ++ 63 :: query)).take (maxReqSz - 1)) =
      path ++ 63 :: query := by
    rw [requestTarget, scanRequest_query hmethod hpath hquery hfits]
    rfl
  unfold reporterArgs
  dsimp only
  rw [scanRequest_query hmethod hpath hquery hfits, htarget, hmethod, if_neg (by decide),
    baseUri_params (hplain.noByte (by decide)), decodedTarget_params hnul
      (hplain.noByte (by decide)), map_decodePlain.mpr (hplain.noByte (by decide)), hdecoded,
    huri, scanParams_query (hplain.noByte (by decide)) hnames]
  split
  · next hcb =>
    have hregistered : (path, Callback.reporter) ∈ systemUris :=
      (findCallback_cases hcb).resolve_right fun h => nomatch h.1
    rw [if_neg fun heq => absurd (heq ▸ hregistered) (by decide +kernel)]
  · next hcb =>
    by_cases hregistered : path = ascii "top-clients-keys"
    · rw [if_pos hregistered]
    · exact absurd (findCallback_system (branchUris_registered path hpath hregistered)) hcb

/-- What may stand in a target as it is. -/
theorem queryText_bytes {params : List (Bytes × Bytes)}
    (hnames : ∀ param ∈ params, PlainName param.1)
    (hvalues : ∀ param ∈ params, ∀ ch ∈ param.2, isSpace ch = false ∧ ch ≠ 0) :
    ∀ ch ∈ queryText params, isSpace ch = false ∧ ch ≠ 0 := by
  intro ch hch
  rcases mem_queryText hch with rfl | rfl | ⟨param, hparam, hch⟩
  · decide
  · decide
  · rcases hch with hch | hch
    · have hname := hnames param hparam
      exact ⟨(hname ch hch).1, fun heq => hname.noByte (by decide) (heq ▸ hch)⟩
    · exact hvalues param hparam ch hch

theorem Query.encoded_bytes (q : Query) : ∀ ch ∈ q.encoded, isSpace ch = false ∧ ch ≠ 0 := by
  apply queryText_bytes
  · intro param hparam
    obtain ⟨p, hp, rfl⟩ := List.mem_map.mp hparam
    exact q.names p hp
  · intro param hparam
    obtain ⟨p, hp, rfl⟩ := List.mem_map.mp hparam
    exact uriEncode_bytes p.2

theorem Query.decoded (q : Query) : decodedTarget q.encoded = queryText q.params := by
  rw [decodedTarget, Query.encoded, uriDecode_queryText q.names]
  apply cString_of_nul
  intro hmem
  rcases mem_queryText hmem with h | h | ⟨param, hparam, hch⟩
  · exact absurd h (by decide)
  · exact absurd h (by decide)
  · rcases hch with hch | hch
    · exact (q.names param hparam).noByte (by decide) hch
    · exact q.values param hparam hch

theorem scanned_port (params : List (Bytes × Bytes)) : (scanned params).port < 2 ^ 16 := by
  unfold scanned
  dsimp only
  cases hlast : ((params.flatMap (paramTexts (ascii "port"))).filterMap scanShort).getLast? with
  | none => decide
  | some n =>
    obtain ⟨text, -, htext⟩ := List.mem_filterMap.mp (List.mem_of_getLast? hlast)
    exact scanShort_lt htext

theorem scanned_meant (q : Query) : q.Meant (scanned q.params) ↔ Unambiguous q.params := by
  constructor
  · rintro ⟨haddr, hport, hkey⟩
    refine ⟨haddr, ⟨_, scanned_port q.params, hport⟩, ?_, hkey⟩
    intro n hn
    exact Option.some.inj (hport.symm.trans hn)
  · rintro ⟨haddr, ⟨n, -, hn⟩, hport, hkey⟩
    exact ⟨haddr, hn.trans (congrArg some (hport n hn).symm), hkey⟩

end

/-- The parameters come through exactly if the path is registered, the port is a number that
fits, and the last place of the decoded parameters that reads like a name is followed by the
value of that name. -/
theorem reporterArgs_iff (bep : Backend) (q : Query) {method path : Bytes}
    (hmethod : badMethod method = false) (hpath : path ∈ branchUris)
    (hfits : (path ++ 63 :: q.encoded).length < 1000) :
    (∃ p, reporterArgs bep ((requestLine method (path ++ 63 :: q.encoded)).take (maxReqSz - 1)) =
      some (path, p) ∧ q.Meant p) ↔
        path ≠ ascii "top-clients-keys" ∧ Unambiguous q.params := by
  rw [reporterArgs_query hmethod hpath q.names q.encoded_bytes hfits q.decoded]
  by_cases hregistered : path = ascii "top-clients-keys"
  · rw [if_pos hregistered]
    exact iff_of_false (fun ⟨_, hnone, _⟩ => nomatch hnone) fun h => h.1 hregistered
  · rw [if_neg hregistered, and_iff_right hregistered, ← scanned_meant]
    constructor
    · rintro ⟨p, hp, hmeant⟩
      rw [Option.some.injEq, Prod.mk.injEq] at hp
      rw [hp.2]
      exact hmeant
    · exact fun hmeant => ⟨scanned q.params, rfl, hmeant⟩

/-- The key holds text that reads like the address. -/
def ampersandQuery : Query where
  params := [(ascii "addr", ascii "10.0.0.1"), (ascii "port", ascii "11211"),
    (ascii "key", ascii "a&addr=x")]
  nodup := by decide
  names := by decide +kernel
  values := by decide

def plainQuery : Query where
  params := [(ascii "port", ascii "11211"), (ascii "key", ascii "a b%"),
    (ascii "addr", ascii "10.0.0.1")]
  nodup := by decide
  names := by decide +kernel
  values := by decide

theorem unambiguous_plain : Unambiguous plainQuery.params where
  addr := by decide +kernel
  fits := ⟨11211, by decide, by decide +kernel⟩
  port := by decide +kernel
  key := by decide +kernel

theorem reporterArgs_plain :
    ∃ p, reporterArgs sampleWorld.bep ((requestLine (ascii "GET")
      (ascii "top-clients-ops" ++ 63 :: plainQuery.encoded)).take (maxReqSz - 1)) =
      some (ascii "top-clients-ops", p) ∧ plainQuery.Meant p :=
  (reporterArgs_iff sampleWorld.bep plainQuery (by decide) (by decide) (by decide +kernel)).mpr
    ⟨by decide, unambiguous_plain⟩

/-- The text in the key is taken for the address. -/
theorem reporterArgs_fails : ¬∀ (bep : Backend) (q : Query) (path : Bytes), path ∈ branchUris →
    (path ++ 63 :: q.encoded).length < 1000 → portNumber q.params = some 11211 →
    ∃ p, reporterArgs bep
      ((requestLine (ascii "GET") (path ++ 63 :: q.encoded)).take (maxReqSz - 1)) =
        some (path, p) ∧ q.Meant p := by
  intro h
  obtain ⟨p, hp, hmeant⟩ := h sampleWorld.bep ampersandQuery (ascii "top-clients-ops") (by decide)
    (by decide +kernel) (by decide +kernel)
  have hargs : (reporterArgs sampleWorld.bep ((requestLine (ascii "GET")
      (ascii "top-clients-ops" ++ 63 :: ampersandQuery.encoded)).take (maxReqSz - 1))).map
        (·.2.addr) = some (some (ascii "x")) := by
    decide +kernel
  rw [hp] at hargs
  have haddr := hmeant.addr.symm.trans (Option.some.inj hargs)
  exact absurd haddr (by decide)

end StatsProxy

import StatsProxy.Library.Markup
import StatsProxy.Library.Rendering
import StatsProxy.McrRows
import StatsProxy.ReporterSetting
import StatsProxy.TopKeysLink

/-! The links of a page. The ports in those to the reporter are printed as signed numbers, and
read back as the ports they are. -/
namespace StatsProxy
open CString Interaction Program Markup

/-- `%d` -/
def printInt (x : Int) : Bytes :=
  if x < 0 then 45 :: printDecimal x.natAbs else printDecimal x.natAbs

/-- `%hd` -/
def printShort (port : Nat) : Bytes := printInt (toInt16 port)

/-- `%s` -/
def printString (text : Option Bytes) : Bytes := text.getD (ascii "(null)")

def anchor (href label : Bytes) : Bytes :=
  ascii "<a href=\"" ++ (href ++ (ascii "\">" ++ (label ++ ascii "</a>")))

def logo : Bytes :=
  ascii "<img border=\"0\" src=\"logo.png\" alt=\"Logo\" align=\"absmiddle\"/>"

/-- What stands above the line. -/
def serviceTitle (timeBuf : Bytes) (settings : LocalSettings) (vipLabel : Bool) : Bytes :=
  anchor (ascii "http://" ++ printString settings.backhost) logo ++
    if vipLabel then
      ascii "&nbsp;&nbsp;Memcache Information for <b>" ++ (printString settings.backhost ++
        (ascii ":" ++ (printDecimal settings.backport ++ (ascii "</b> <font size=\"-1\">(proxy " ++
          (printString settings.fronthost ++ (ascii ":" ++ (printDecimal settings.frontport ++
            (ascii ")</font> " ++ (timeBuf ++ ascii "<br>")))))))))
    else ascii "&nbsp;&nbsp;<b>Memcache Reporter</b> " ++ timeBuf

def linkPort (path : String) (quad : Bytes) (port : Nat) : Bytes :=
  ascii path ++ (ascii "?addr=" ++ (quad ++ (ascii "&port=" ++ printShort port)))

def reporterLinks (quad : Bytes) (port : Nat) : Bytes :=
  ascii "<br>Memcache Reporter stats: [<i>top clients by: </i><b>" ++
    (anchor (linkPort "top-clients-ops" quad port ++ ascii "&key=ops") (ascii "ops") ++
    (ascii " " ++ (anchor (linkPort "top-keys-select" quad port) (ascii "keys") ++
    (ascii "</b>]&nbsp;&nbsp; [<i>top keys by: </i><b>" ++
    (anchor (linkPort "top-keys-gets" quad port) (ascii "gets") ++
    (ascii "  " ++ (anchor (linkPort "top-keys-sets" quad port) (ascii "sets") ++
    (ascii "  " ++ (anchor (linkPort "top-keys-all" quad port) (ascii "all") ++
    ascii "</b>]&nbsp;&nbsp; ")))))))))

def settingsLink : Bytes :=
  ascii "[<i>settings: </i>" ++ (anchor (ascii "mcr-config") (ascii "config") ++
    ascii " \n]&nbsp;&nbsp; ")

/-- What stands below the links. -/
def serviceFoot (settings : LocalSettings) : Bytes :=
  ascii "<br><br><i>[polling interval: " ++ (printInt settings.pollfreqMs ++ (ascii "ms, " ++
    (ascii "webpage refresh interval: " ++ (printInt settings.refreshfreqMs ++ (ascii "ms, " ++
    (ascii "connect/read/write timeout: " ++ (printInt settings.connectMs ++ (ascii "/" ++
    (printInt settings.readMs ++ (ascii "/" ++ (printInt settings.writeMs ++
    (ascii "ms]</i><br>\n" ++ ascii "<hr>\r\n"))))))))))))

def uriLink (entry : UriEntry) : Bytes :=
  ascii "<b>" ++ (anchor entry.uri entry.uri ++ ascii "</b> ")

/-- The links to the reporter, if there is one. -/
def writeReporterLinks (ns : NameService) (settings : LocalSettings) : Bytes :=
  if settings.reporter = some (ascii "off") then []
  else reporterLinks (ns.inetNtoa settings.backaddr) settings.backport ++
    if settings.reporter = some (ascii "modify") then settingsLink else []

/-- `timeBuf` is the time as `ctime_r` prints it, without its newline. -/
def writeHtmlServiceInfo (ns : NameService) (timeBuf : Bytes) (bep : Backend) (vipLabel : Bool) :
    Bytes :=
  serviceTitle timeBuf bep.settings vipLabel ++ (ascii "<hr>Raw stats: \r\n" ++
    (ascii "<b>" ++ (anchor (ascii "/") (ascii "basic") ++ (ascii "</b> " ++
      (bep.uris.flatMap uriLink ++
        (writeReporterLinks ns bep.settings ++ serviceFoot bep.settings))))))

def hrefStart : Bytes := ascii "href=\""

/-- The links of a page. -/
def hrefs (page : Bytes) : List Bytes := between hrefStart 34 page

/-- A text that is printed into a page. -/
structure Field (text : Bytes) : Prop where
  noQuote : 34 ∉ text
  noEquals : 61 ∉ text

/-- A part of a page that may follow a field. -/
structure Follows (part : Bytes) : Prop where
  first : part.head?.all (· ∉ ascii "href=") = true
  ne : part ≠ []
  apart : Apart hrefStart part

instance (part : Bytes) : Decidable (Follows part) :=
  decidable_of_iff
    (part.head?.all (· ∉ ascii "href=") = true ∧ part ≠ [] ∧ Apart hrefStart part)
    ⟨fun ⟨first, ne, apart⟩ => ⟨first, ne, apart⟩, fun h => ⟨h.first, h.ne, h.apart⟩⟩

section

variable {text part href label rest : Bytes}

theorem apart_follows (h : 61 ∉ text) (hpart : Follows part) : Apart hrefStart (text ++ part) := by
  cases part with
  | nil => exact absurd rfl hpart.ne
  | cons ch part =>
    have hfirst : ch ∉ ascii "href" ++ [61] := of_decide_eq_true hpart.first
    have hbyte : Apart (ascii "href" ++ 61 :: [34]) (text ++ [ch]) := apart_field h hfirst
    have happart : Apart hrefStart (text ++ [ch] ++ part) := hbyte.append hpart.apart.tail
    rwa [List.append_assoc] at happart

theorem hrefs_part (h : Apart hrefStart part) : hrefs (part ++ rest) = hrefs rest :=
  between_apart h

theorem hrefs_field (h : 61 ∉ text) (hpart : Follows part) :
    hrefs (text ++ (part ++ rest)) = hrefs rest := by
  rw [← List.append_assoc]
  exact between_apart (apart_follows h hpart)

theorem hrefs_anchor (hquote : 34 ∉ href) (hhref : Apart hrefStart (href ++ [34]))
    (hlabel : Apart hrefStart (label ++ ascii "</a>")) :
    hrefs (anchor href label ++ rest) = href :: hrefs rest := by
  have hsplit : anchor href label ++ rest = ascii "<a " ++ (hrefStart ++ (href ++
      34 :: (ascii ">" ++ ((label ++ ascii "</a>") ++ rest)))) := by
    simp [anchor, hrefStart, ascii]
  rw [hsplit, hrefs_part (by decide)]
  refine (between_value (by decide) hhref hquote (by decide)).trans ?_
  exact congrArg (href :: ·) ((hrefs_part (by decide)).trans (hrefs_part hlabel))

theorem printInt_bytes (x : Int) : ∀ ch ∈ printInt x, isDigit ch = true ∨ ch = 45 := by
  intro ch hch
  unfold printInt at hch
  split at hch
  · rcases List.mem_cons.mp hch with rfl | hch
    · exact Or.inr rfl
    · exact Or.inl (isDigit_printDecimal _ ch hch)
  · exact Or.inl (isDigit_printDecimal _ ch hch)

theorem field_printInt (x : Int) : Field (printInt x) := by
  constructor <;>
    exact fun hmem => absurd (printInt_bytes x _ hmem) (by decide)

theorem field_printDecimal (n : Nat) : Field (printDecimal n) := by
  constructor <;>
    exact fun hmem => absurd (isDigit_printDecimal n _ hmem) (by decide)

theorem field_digits {quad : Bytes} (h : ∀ ch ∈ quad, isDigit ch = true ∨ ch = 46) :
    Field quad := by
  constructor <;> exact fun hmem => (digit_plain (h _ hmem)).2 (by decide)

/-- The link to a host. -/
theorem hrefs_host {host : Bytes} (h : Field host) :
    hrefs (anchor (ascii "http://" ++ host) logo ++ rest) =
      (ascii "http://" ++ host) :: hrefs rest := by
  apply hrefs_anchor
  · rw [List.mem_append, not_or]
    exact ⟨by decide, h.noQuote⟩
  · have hhttp : Apart hrefStart (ascii "http://") := by decide
    rw [List.append_assoc]
    exact hhttp.append (apart_follows h.noEquals (by decide))
  · decide

theorem hrefs_serviceTitle {timeBuf : Bytes} {settings : LocalSettings} (htime : Field timeBuf)
    (hback : Field (printString settings.backhost))
    (hfront : Field (printString settings.fronthost)) (vipLabel : Bool) :
    hrefs (serviceTitle timeBuf settings vipLabel ++ (ascii "<hr>Raw stats: \r\n" ++ rest)) =
      (ascii "http://" ++ printString settings.backhost) :: hrefs rest := by
  rw [serviceTitle, List.append_assoc, hrefs_host hback]
  congr 1
  cases vipLabel with
  | true =>
    rw [if_pos rfl]
    simp only [List.append_assoc]
    rw [hrefs_part (by decide), hrefs_field hback.noEquals (by decide),
      hrefs_field (field_printDecimal _).noEquals (by decide),
      hrefs_field hfront.noEquals (by decide),
      hrefs_field (field_printDecimal _).noEquals (by decide),
      hrefs_field htime.noEquals (by decide), hrefs_part (by decide)]
  | false =>
    rw [if_neg Bool.false_ne_true, List.append_assoc, hrefs_part (by decide),
      hrefs_field htime.noEquals (by decide)]

theorem hrefs_uriLink {uri : Bytes} (h : Field uri) :
    hrefs (ascii "<b>" ++ (anchor uri uri ++ ascii "</b> ") ++ rest) = uri :: hrefs rest := by
  rw [List.append_assoc, List.append_assoc, hrefs_part (by decide),
    hrefs_anchor h.noQuote (apart_follows h.noEquals (by decide))
      (apart_follows h.noEquals (by decide)), hrefs_part (by decide)]

theorem hrefs_uriLinks {uris : List UriEntry} (h : ∀ entry ∈ uris, Field entry.uri) :
    hrefs (uris.flatMap uriLink ++ rest) = uris.map UriEntry.uri ++ hrefs rest := by
  induction uris with
  | nil => rfl
  | cons entry uris ih =>
    rw [List.forall_mem_cons] at h
    rw [List.flatMap_cons, List.append_assoc, uriLink, hrefs_uriLink h.1, ih h.2]
    rfl

/-- A link to the reporter, with what may stand behind the port. -/
theorem hrefs_linkPort {path : String} {quad tail : Bytes} {port : Nat} (hquad : Field quad)
    (hpath : 34 ∉ ascii path ++ ascii "?addr=" ∧ Apart hrefStart (ascii path ++ ascii "?addr="))
    (htail : 34 ∉ tail ∧ Follows (tail ++ [34]))
    (hlabel : Apart hrefStart (label ++ ascii "</a>")) :
    hrefs (anchor (linkPort path quad port ++ tail) label ++ rest) =
      (linkPort path quad port ++ tail) :: hrefs rest := by
  have hport := field_printInt (toInt16 port)
  apply hrefs_anchor _ _ hlabel
  · simp only [linkPort, List.mem_append, not_or] at hpath ⊢
    exact ⟨⟨hpath.1.1, hpath.1.2, hquad.noQuote, by decide, hport.noQuote⟩, htail.1⟩
  · have hsplit : linkPort path quad port ++ tail ++ [34] = (ascii path ++ ascii "?addr=") ++
        ((quad ++ ascii "&port=") ++ (printShort port ++ (tail ++ [34]))) := by
      simp [linkPort]
    rw [hsplit]
    exact hpath.2.append ((apart_follows hquad.noEquals (by decide)).append
      (apart_follows hport.noEquals htail.2))

theorem hrefs_reporterLinks {quad : Bytes} {port : Nat} (hquad : Field quad) :
    hrefs (reporterLinks quad port ++ rest) =
      [linkPort "top-clients-ops" quad port ++ ascii "&key=ops",
        linkPort "top-keys-select" quad port, linkPort "top-keys-gets" quad port,
        linkPort "top-keys-sets" quad port, linkPort "top-keys-all" quad port] ++ hrefs rest := by
  have hlink : ∀ {path label rest}, (34 ∉ ascii path ++ ascii "?addr=" ∧
      Apart hrefStart (ascii path ++ ascii "?addr=")) → Apart hrefStart (label ++ ascii "</a>") →
      hrefs (anchor (linkPort path quad port) label ++ rest) =
        linkPort path quad port :: hrefs rest := by
    intro path label rest hpath hlabel
    have hanchor : hrefs (anchor (linkPort path quad port ++ []) label ++ rest) = _ :=
      hrefs_linkPort hquad hpath (by decide) hlabel
    rwa [List.append_nil] at hanchor
  unfold reporterLinks
  simp only [List.append_assoc]
  rw [hrefs_part (by decide),
    hrefs_linkPort hquad (by decide) (by decide) (by decide),
    hrefs_part (by decide), hlink (by decide) (by decide),
    hrefs_part (by decide), hlink (by decide) (by decide),
    hrefs_part (by decide), hlink (by decide) (by decide),
    hrefs_part (by decide), hlink (by decide) (by decide),
    hrefs_part (by decide)]
  rfl

theorem hrefs_settingsLink : hrefs (settingsLink ++ rest) = ascii "mcr-config" :: hrefs rest := by
  rw [settingsLink, List.append_assoc, List.append_assoc, hrefs_part (by decide),
    hrefs_anchor (by decide) (by decide) (by decide),
    hrefs_part (by decide)]

theorem hrefs_serviceFoot (settings : LocalSettings) : hrefs (serviceFoot settings) = [] := by
  have hlast : ascii "ms]</i><br>\n" ++ ascii "<hr>\r\n" =
      ascii "ms]</i><br>\n" ++ (ascii "<hr>\r\n" ++ []) := by rw [List.append_nil]
  unfold serviceFoot
  rw [hlast, hrefs_part (by decide),
    hrefs_field (field_printInt _).noEquals (by decide), hrefs_part (by decide),
    hrefs_field (field_printInt _).noEquals (by decide), hrefs_part (by decide),
    hrefs_field (field_printInt _).noEquals (by decide),
    hrefs_field (field_printInt _).noEquals (by decide),
    hrefs_field (field_printInt _).noEquals (by decide), hrefs_part (by decide)]
  rfl

end

/-- The links to the reporter, and what they are to do. -/
def reporterHrefs (settings : LocalSettings) (quad : Bytes) : List (Bytes × ReporterOp) :=
  let port := settings.backport
  if settings.reporter = some (ascii "off") then []
  else
    [(linkPort "top-clients-ops" quad port ++ ascii "&key=ops",
        .topClients (ascii "ops") quad port),
      (linkPort "top-keys-select" quad port, .topKeys (ascii "all") quad port),
      (linkPort "top-keys-gets" quad port, .topKeys (ascii "gets") quad port),
      (linkPort "top-keys-sets" quad port, .topKeys (ascii "sets") quad port),
      (linkPort "top-keys-all" quad port, .topKeys (ascii "all") quad port)] ++
    if settings.reporter = some (ascii "modify") then [(ascii "mcr-config", .instances)] else []

/-- A backend whose names can be printed into a page. -/
structure Printable (ns : NameService) (timeBuf : Bytes) (bep : Backend) : Prop where
  time : Field timeBuf
  backhost : Field (printString bep.settings.backhost)
  fronthost : Field (printString bep.settings.fronthost)
  uris : ∀ entry ∈ bep.uris, Field entry.uri
  quad : ∃ a b c d, ns.inetNtoa bep.settings.backaddr = dottedQuad a b c d
  port : 0 < bep.settings.backport ∧ bep.settings.backport < 2 ^ 16

theorem hrefs_writeReporterLinks {ns : NameService} {settings : LocalSettings} {rest : Bytes}
    (hquad : Field (ns.inetNtoa settings.backaddr)) :
    hrefs (writeReporterLinks ns settings ++ rest) =
      (reporterHrefs settings (ns.inetNtoa settings.backaddr)).map Prod.fst ++ hrefs rest := by
  unfold writeReporterLinks reporterHrefs
  by_cases hoff : settings.reporter = some (ascii "off")
  · rw [if_pos hoff, if_pos hoff]
    rfl
  · rw [if_neg hoff, if_neg hoff, List.append_assoc, hrefs_reporterLinks hquad]
    by_cases hmodify : settings.reporter = some (ascii "modify")
    · rw [if_pos hmodify, if_pos hmodify, hrefs_settingsLink]
      rfl
    · rw [if_neg hmodify, if_neg hmodify]
      rfl

theorem hrefs_writeHtmlServiceInfo {ns : NameService} {timeBuf : Bytes} {bep : Backend}
    (h : Printable ns timeBuf bep) (vipLabel : Bool) :
    hrefs (writeHtmlServiceInfo ns timeBuf bep vipLabel) =
      (ascii "http://" ++ printString bep.settings.backhost) :: ascii "/" ::
        (bep.uris.map UriEntry.uri ++ (reporterHrefs bep.settings
          (ns.inetNtoa bep.settings.backaddr)).map Prod.fst) := by
  have hquad : Field (ns.inetNtoa bep.settings.backaddr) := by
    obtain ⟨a, b, c, d, hquad⟩ := h.quad
    rw [hquad]
    exact field_digits (dottedQuad_bytes a b c d)
  rw [writeHtmlServiceInfo, hrefs_serviceTitle h.time h.backhost h.fronthost,
    hrefs_part (by decide),
    hrefs_anchor (by decide) (by decide) (by decide),
    hrefs_part (by decide), hrefs_uriLinks h.uris, hrefs_writeReporterLinks hquad,
    hrefs_serviceFoot, List.append_nil]

/-- The request of a client that follows a link. -/
def followed (href : Bytes) : Bytes :=
  (requestLine (ascii "GET") (stripSlash href)).take (maxReqSz - 1)

theorem scanShort_negative {n : Nat} (h : n ≤ 2 ^ 15) :
    scanShort (45 :: printDecimal n) = some ((-(n : Int) % 2 ^ 16).toNat) := by
  have htake : (printDecimal n).takeWhile isDigit = printDecimal n :=
    List.takeWhile_eq_self_iff.mpr (isDigit_printDecimal _)
  have hclamp : max (-2 ^ 63) (min (-(n : Int)) (2 ^ 63 - 1)) = -(n : Int) := by omega
  unfold scanShort
  rw [List.dropWhile_cons_of_neg (by decide)]
  simp only [if_true, htake, printDecimal_ne_nil, if_false,
    Scanf.Piece.decimalValue_printDecimal, hclamp]

/-- Every port comes back, also where it is printed as a negative number. -/
theorem scanShort_printShort {port : Nat} (h : port < 2 ^ 16) :
    scanShort (printShort port) = some port := by
  by_cases hlow : port < 2 ^ 15
  · have hsigned : toInt16 port = port := Int.bmod_eq_of_le (by omega) (by omega)
    rw [printShort, hsigned, printInt, if_neg (by omega), Int.natAbs_natCast,
      scanShort_printDecimal h]
  · have hsigned : toInt16 port = (port : Int) - 2 ^ 16 := by
      unfold toInt16 Int.bmod
      dsimp only
      split <;> omega
    have hvalue : (-(((port : Int) - 2 ^ 16).natAbs : Int) % 2 ^ 16).toNat = port := by omega
    rw [printShort, hsigned, printInt, if_pos (by omega), scanShort_negative (by omega), hvalue]

theorem requestOp_eq (bep : Backend) (servRequest : Bytes) : requestOp bep servRequest =
    (reporterArgs bep servRequest).bind fun p => reporterUriOp p.1 p.2 := by
  unfold requestOp reporterArgs
  dsimp only
  rw [requestTarget]
  split
  · rfl
  · cases findCallback bep (baseUri (stripSlash (scanRequest servRequest).2)) with
    | none => rfl
    | some cb => cases cb <;> rfl

/-- A value that is neither changed by the decoding nor cut. -/
theorem paramTexts_plain {stem name value : Bytes} (h : PlainName value) :
    paramTexts stem (name, value) = if stem <:+ name then [value] else [] := by
  rw [paramTexts, h.cut, cString_of_nul (h.noByte (by decide)),
    places_none (h.noByte (by decide)), List.append_nil]

/-- A link to the reporter is read as it is written. -/
theorem reporterArgs_followed {bep : Backend} {path : Bytes} {params : List (Bytes × Bytes)}
    (hpath : path ∈ branchUris) (hregistered : path ≠ ascii "top-clients-keys")
    (hparams : ∀ param ∈ params, PlainName param.1 ∧ PlainName param.2)
    (hfits : (path ++ 63 :: queryText params).length < 1000) :
    reporterArgs bep (followed (path ++ 63 :: queryText params)) = some (path, scanned params) := by
  have hplain := branchUris_plain path hpath
  have hne : path ≠ [] ∧ path.head? ≠ some 47 := by
    have hall : ∀ path ∈ branchUris, path ≠ [] ∧ path.head? ≠ some 47 := by decide
    exact hall path hpath
  have hstrip : stripSlash (path ++ 63 :: queryText params) = path ++ 63 :: queryText params := by
    rw [stripSlash, if_neg]
    rw [List.head?_append_of_ne_nil _ hne.1]
    exact hne.2
  have hbyte : ∀ ch ∈ queryText params, isSpace ch = false ∧ ch ∉ [0, 37, 43] := by
    intro ch hch
    rcases mem_queryText hch with rfl | rfl | ⟨param, hparam, hch⟩
    · decide
    · decide
    · have hparam : isSpace ch = false ∧ ch ∉ [0, 37, 38, 43, 61, 63] := by
        rcases hch with hch | hch
        · exact (hparams param hparam).1 ch hch
        · exact (hparams param hparam).2 ch hch
      refine ⟨hparam.1, fun hmem => hparam.2 ?_⟩
      simp only [List.mem_cons, List.not_mem_nil, or_false] at hmem ⊢
      rcases hmem with h | h | h <;> simp [h]
  have hdecoded : decodedTarget (queryText params) = queryText params := by
    apply decodedTarget_plain
    · exact fun hmem => (hbyte _ hmem).2 (by decide)
    · exact fun hmem => (hbyte _ hmem).2 (by decide)
    · exact fun hmem => (hbyte _ hmem).2 (by decide)
  have hargs : reporterArgs bep ((requestLine (ascii "GET")
      (path ++ 63 :: queryText params)).take (maxReqSz - 1)) = _ := reporterArgs_query
    (by decide) hpath (fun param hparam => (hparams param hparam).1)
    (fun ch hch => ⟨(hbyte ch hch).1, by rintro rfl; exact (hbyte 0 hch).2 (by decide)⟩) hfits
    hdecoded
  rw [if_neg hregistered] at hargs
  rw [followed, hstrip]
  exact hargs

theorem plainName_digits {quad : Bytes} (h : ∀ ch ∈ quad, isDigit ch = true ∨ ch = 46) :
    PlainName quad := by
  intro ch hch
  obtain ⟨hspace, hmem⟩ := digit_plain (h ch hch)
  refine ⟨hspace, fun hbad => hmem ?_⟩
  simp only [List.mem_cons, List.not_mem_nil, or_false] at hbad ⊢
  rcases hbad with h | h | h | h | h | h <;> simp [h]

theorem plainName_printInt (x : Int) : PlainName (printInt x) := by
  intro ch hch
  rcases printInt_bytes x ch hch with hch | rfl
  · have hone : ∀ c ∈ [ch], isDigit c = true ∨ c = 46 := by simp [hch]
    exact plainName_digits hone ch List.mem_cons_self
  · decide

section

variable {quad : Bytes} {port : Nat}

theorem link_query (path quad value : Bytes) :
    path ++ (ascii "?addr=" ++ (quad ++ (ascii "&port=" ++ value))) =
      path ++ 63 :: queryText [(ascii "addr", quad), (ascii "port", value)] := by
  have haddr : ascii "?addr=" = 63 :: (ascii "addr" ++ [61]) := by decide
  have hport : ascii "&port=" = 38 :: (ascii "port" ++ [61]) := by decide
  rw [queryText_cons_cons, queryText_singleton, haddr, hport]
  simp only [List.append_assoc, List.cons_append, List.nil_append]

theorem linkPort_query (path : String) (quad : Bytes) (port : Nat) :
    linkPort path quad port =
      ascii path ++ 63 :: queryText [(ascii "addr", quad), (ascii "port", printShort port)] :=
  link_query _ _ _

theorem queryText_snoc (first second third : Bytes × Bytes) :
    queryText [first, second, third] = queryText [first, second] ++ 38 :: paramText third := by
  rw [queryText_cons_cons, queryText_cons_cons, queryText_cons_cons, queryText_singleton,
    queryText_singleton, paramText]
  simp only [List.append_assoc, List.cons_append]

theorem linkPort_key (path : String) (quad : Bytes) (port : Nat) :
    linkPort path quad port ++ ascii "&key=ops" = ascii path ++ 63 :: queryText
      [(ascii "addr", quad), (ascii "port", printShort port), (ascii "key", ascii "ops")] := by
  have hkey : 38 :: paramText (ascii "key", ascii "ops") = ascii "&key=ops" := by decide
  rw [queryText_snoc, hkey, linkPort_query, List.append_assoc, List.cons_append]

/-- The texts a stem reads of two parameters. -/
theorem paramTexts_link {value : Bytes} (hquad : PlainName quad) (hvalue : PlainName value)
    (more : List (Bytes × Bytes)) (stem : Bytes) :
    ((ascii "addr", quad) :: (ascii "port", value) :: more).flatMap (paramTexts stem) =
      (if stem <:+ ascii "addr" then [quad] else []) ++
        ((if stem <:+ ascii "port" then [value] else []) ++ more.flatMap (paramTexts stem)) := by
  rw [List.flatMap_cons, List.flatMap_cons, paramTexts_plain hquad, paramTexts_plain hvalue]

theorem scanned_link {value : Bytes} (hquad : PlainName quad) (hvalue : PlainName value)
    (hport : scanShort value = some port) (more : List (Bytes × Bytes))
    (hmore : ∀ stem ∈ [ascii "addr", ascii "port"], more.flatMap (paramTexts stem) = []) :
    scanned ((ascii "addr", quad) :: (ascii "port", value) :: more) =
      ⟨some quad, port, (more.flatMap (paramTexts (ascii "key"))).getLast?⟩ := by
  have htexts := paramTexts_link hquad hvalue more
  have haddr := htexts (ascii "addr")
  have hvalues := htexts (ascii "port")
  have hkey := htexts (ascii "key")
  rw [if_pos (by decide), if_neg (by decide), hmore _ (by decide)] at haddr
  rw [if_neg (by decide), if_pos (by decide), hmore _ (by decide)] at hvalues
  rw [if_neg (by decide), if_neg (by decide)] at hkey
  rw [scanned, haddr, hvalues, hkey]
  simp only [List.nil_append, List.append_nil]
  rw [List.filterMap_cons_some hport]
  rfl

theorem printShort_length (port : Nat) : (printShort port).length ≤ 6 := by
  have habs : (toInt16 port).natAbs < 10 ^ 5 := by
    unfold toInt16 Int.bmod
    dsimp only
    split <;> omega
  have hlength := printDecimal_length habs (by decide)
  unfold printShort printInt
  split
  · rw [List.length_cons]
    omega
  · omega

/-- The operation of a link to the reporter. -/
theorem requestOp_link {bep : Backend} {path : String} {value : Bytes}
    (hpath : ascii path ∈ branchUris ∧ ascii path ≠ ascii "top-clients-keys" ∧
      (ascii path).length ≤ 20)
    (hquad : PlainName quad ∧ quad.length ≤ 15) (hvalue : PlainName value ∧ value.length ≤ 6)
    (hscan : scanShort value = some port) {more : List (Bytes × Bytes)}
    (hmore : more = [] ∨ more = [(ascii "key", ascii "ops")]) :
    requestOp bep (followed (ascii path ++ 63 :: queryText
      ((ascii "addr", quad) :: (ascii "port", value) :: more))) =
        reporterUriOp (ascii path) ⟨some quad, port,
          (more.flatMap (paramTexts (ascii "key"))).getLast?⟩ := by
  have hplain : ∀ param ∈ (ascii "addr", quad) :: (ascii "port", value) :: more,
      PlainName param.1 ∧ PlainName param.2 := by
    rw [List.forall_mem_cons, List.forall_mem_cons]
    have haddr : PlainName (ascii "addr") := by decide +kernel
    have hport : PlainName (ascii "port") := by decide +kernel
    refine ⟨⟨haddr, hquad.1⟩, ⟨hport, hvalue.1⟩, ?_⟩
    rcases hmore with rfl | rfl
    · exact List.forall_mem_nil _
    · decide +kernel
  have hfits : (ascii path ++ 63 :: queryText
      ((ascii "addr", quad) :: (ascii "port", value) :: more)).length < 1000 := by
    have hquery : (queryText ((ascii "addr", quad) :: (ascii "port", value) :: more)).length ≤
        quad.length + value.length + 20 := by
      have hnames : (ascii "addr").length = 4 ∧ (ascii "port").length = 4 ∧
          (ascii "key").length = 3 ∧ (ascii "ops").length = 3 := by decide
      rcases hmore with rfl | rfl
      · rw [queryText_cons_cons, queryText_singleton]
        simp only [List.length_append, List.length_cons, hnames]
        omega
      · rw [queryText_cons_cons, queryText_cons_cons, queryText_singleton]
        simp only [List.length_append, List.length_cons, hnames]
        omega
    rw [List.length_append, List.length_cons]
    omega
  rw [requestOp_eq, reporterArgs_followed hpath.1 hpath.2.1 hplain hfits, Option.bind_some,
    scanned_link hquad.1 hvalue.1 hscan more]
  rcases hmore with rfl | rfl
  · intro stem _
    rfl
  · decide

theorem reporterUriOp_keys {uri : Bytes} {key : Option Bytes} (h : uri ∈ topKeysUris)
    (hport : 0 < port) : reporterUriOp uri ⟨some quad, port, key⟩ = some (.topKeys
      (if uri.drop 9 = ascii "select" then ascii "all" else uri.drop 9) quad port) := by
  have hne : uri ≠ ascii "mcr-config" := by
    rintro rfl
    exact absurd h (by decide)
  cases port with
  | zero => exact absurd hport (Nat.lt_irrefl 0)
  | succ port => rw [reporterUriOp, if_neg hne, if_pos h]

theorem reporterUriOp_clients {key : Bytes} (hport : 0 < port) :
    reporterUriOp (ascii "top-clients-ops") ⟨some quad, port, some key⟩ =
      some (.topClients key quad port) := by
  cases port with
  | zero => exact absurd hport (Nat.lt_irrefl 0)
  | succ port =>
    rw [reporterUriOp, if_neg (by decide), if_neg (by decide),
      if_pos (by decide)]

theorem requestOp_settings (bep : Backend) :
    requestOp bep (followed (ascii "mcr-config")) = some .instances := by
  have hscan : scanRequest (followed (ascii "mcr-config")) =
      (ascii "GET", ascii "/mcr-config") := by decide
  have hcb : findCallback bep (ascii "mcr-config") = some .reporter :=
    findCallback_system (by decide)
  have huri : cString (cutParams (cString (uriDecode (ascii "mcr-config")))) =
      ascii "mcr-config" := by decide
  have htarget : stripSlash (ascii "/mcr-config") = ascii "mcr-config" := by decide
  have hbase : baseUri (ascii "mcr-config") = ascii "mcr-config" := by decide
  have hmethod : badMethod (ascii "GET") = false := by decide
  unfold requestOp
  rw [hscan]
  dsimp only
  rw [hmethod, htarget, hbase, hcb, if_neg Bool.false_ne_true]
  dsimp only
  rw [reporterOp, huri, reporterUriOp, if_pos rfl]

/-- Each link to the reporter does what it is there for. -/
theorem requestOp_reporterHrefs (bep : Backend) (settings : LocalSettings)
    (hquad : PlainName quad ∧ quad.length ≤ 15)
    (hport : 0 < settings.backport ∧ settings.backport < 2 ^ 16) :
    ∀ link ∈ reporterHrefs settings quad, requestOp bep (followed link.1) = some link.2 := by
  have hprinted : PlainName (printShort settings.backport) ∧
      (printShort settings.backport).length ≤ 6 := ⟨plainName_printInt _, printShort_length _⟩
  have hscan := scanShort_printShort hport.2
  have hkeys : ∀ {path : String} {op : Bytes}, (ascii path ∈ branchUris ∧
      ascii path ≠ ascii "top-clients-keys" ∧ (ascii path).length ≤ 20) →
      ascii path ∈ topKeysUris ∧ (if (ascii path).drop 9 = ascii "select" then ascii "all"
        else (ascii path).drop 9) = op →
      requestOp bep (followed (linkPort path quad settings.backport)) =
        some (.topKeys op quad settings.backport) := by
    rintro path op hpath ⟨htop, rfl⟩
    rw [linkPort_query, requestOp_link hpath hquad hprinted hscan (Or.inl rfl)]
    exact reporterUriOp_keys htop hport.1
  unfold reporterHrefs
  dsimp only
  split
  · exact List.forall_mem_nil _
  rw [List.forall_mem_append]
  constructor
  · simp only [List.forall_mem_cons]
    refine ⟨?_, hkeys (by decide) (by decide),
      hkeys (by decide) (by decide), hkeys (by decide) (by decide),
      hkeys (by decide) (by decide), List.forall_mem_nil _⟩
    have hkey : ([(ascii "key", ascii "ops")].flatMap (paramTexts (ascii "key"))).getLast? =
        some (ascii "ops") := by decide
    rw [linkPort_key, requestOp_link (by decide) hquad hprinted hscan (Or.inr rfl), hkey]
    exact reporterUriOp_clients hport.1
  · split
    · rw [List.forall_mem_singleton]
      exact requestOp_settings bep
    · exact List.forall_mem_nil _

end

/-- A uri that is a link to itself. -/
structure LinkUri (uri : Bytes) : Prop where
  bytes : ∀ ch ∈ uri, isSpace ch = false ∧ ch ∉ [0, 37, 43, 63]
  noSlash : uri.head? ≠ some 47
  short : uri.length < 1000
  noSystem : ∀ entry ∈ systemUris, entry.1 ≠ uri

theorem requestTarget_followed {uri : Bytes} (h : LinkUri uri) :
    requestTarget (followed uri) = uri := by
  have hbytes : ∀ ch ∈ uri, isSpace ch = false ∧ ch ≠ 0 := by
    intro ch hch
    refine ⟨(h.bytes ch hch).1, ?_⟩
    rintro rfl
    exact (h.bytes 0 hch).2 (by decide)
  have hstrip : stripSlash uri = uri := if_neg h.noSlash
  rw [requestTarget, followed, hstrip, requestLine_take (by decide) h.short,
    scanRequest_line (by decide) hbytes h.short]
  rfl

/-- A link to a uri of the backend shows the stats of the first entry with it. -/
theorem followed_delivers {bep : Backend} {entry : UriEntry} (hentry : entry ∈ bep.uris)
    (h : LinkUri entry.uri) :
    ∃ e, e.uri = entry.uri ∧
      findCallback bep (baseUri (requestTarget (followed entry.uri))) = some .stats ∧
      Delivers bep .httpClient (decodedTarget (requestTarget (followed entry.uri))) e := by
  have hbyte : ∀ {ch : UInt8}, ch ∈ [0, 37, 43, 63] → ch ∉ entry.uri :=
    fun hch hmem => (h.bytes _ hmem).2 hch
  have hsystem : systemUris.find? (·.1 = entry.uri) = none := by
    rw [List.find?_eq_none]
    intro system hmem
    simpa using h.noSystem system hmem
  have hsome : (bep.uris.find? (·.uri = entry.uri)).isSome = true := by
    rw [List.find?_isSome]
    exact ⟨entry, hentry, decide_eq_true rfl⟩
  obtain ⟨e, hfind⟩ := Option.isSome_iff_exists.mp hsome
  have huri : e.uri = entry.uri := by simpa using List.find?_some hfind
  rw [requestTarget_followed h, baseUri_self (hbyte (by decide)),
    decodedTarget_plain (hbyte (by decide)) (hbyte (by decide)) (hbyte (by decide))]
  refine ⟨e, huri, ?_, delivers_of_find hfind⟩
  rw [findCallback_eq, hsystem, hfind]
  rfl

/-- The page of a backend links to its uris and to the reporter, as far as the setting goes; a
client that follows the links gets the stats of each uri that is its own link, and the reporter is
asked about this very backend. -/
theorem serviceInfo_links {ns : NameService} {timeBuf : Bytes} {bep : Backend}
    (h : Printable ns timeBuf bep) (vipLabel : Bool) :
    hrefs (writeHtmlServiceInfo ns timeBuf bep vipLabel) =
      (ascii "http://" ++ printString bep.settings.backhost) :: ascii "/" ::
        (bep.uris.map UriEntry.uri ++ (reporterHrefs bep.settings
          (ns.inetNtoa bep.settings.backaddr)).map Prod.fst) ∧
    (∀ link ∈ reporterHrefs bep.settings (ns.inetNtoa bep.settings.backaddr),
      requestOp bep (followed link.1) = some link.2) ∧
    ∀ entry ∈ bep.uris, LinkUri entry.uri → ∃ e, e.uri = entry.uri ∧
      findCallback bep (baseUri (requestTarget (followed entry.uri))) = some .stats ∧
      Delivers bep .httpClient (decodedTarget (requestTarget (followed entry.uri))) e := by
  refine ⟨hrefs_writeHtmlServiceInfo h vipLabel, ?_, fun entry => followed_delivers⟩
  obtain ⟨a, b, c, d, hquad⟩ := h.quad
  apply requestOp_reporterHrefs bep bep.settings _ h.port
  rw [hquad]
  exact ⟨plainName_digits (dottedQuad_bytes a b c d), dottedQuad_length a b c d⟩

/-- A port that is printed as -25536. -/
def highBackend : Backend :=
  { sampleWorld.bep with
    settings := { sampleSettings with reporter := some (ascii "modify"), backport := 40000 } }

theorem printable_high : Printable sampleNames (ascii "Mon Feb 23 03:33:57 2009") highBackend where
  time := ⟨by decide, by decide⟩
  backhost := ⟨by decide, by decide⟩
  fronthost := ⟨by decide, by decide⟩
  uris := by
    intro entry hentry
    have hall : ∀ entry ∈ highBackend.uris, 34 ∉ entry.uri ∧ 61 ∉ entry.uri := by decide
    exact ⟨(hall entry hentry).1, (hall entry hentry).2⟩
  quad := ⟨0, 0, 0, 0, by decide⟩
  port := ⟨by decide, by decide⟩

theorem serviceInfo_links_high :
    ascii "top-keys-gets?addr=0.0.0.0&port=-25536" ∈ hrefs (writeHtmlServiceInfo sampleNames
      (ascii "Mon Feb 23 03:33:57 2009") highBackend true) ∧
    requestOp highBackend (followed (ascii "top-keys-gets?addr=0.0.0.0&port=-25536")) =
      some (.topKeys (ascii "gets") (ascii "0.0.0.0") 40000) := by
  obtain ⟨hlinks, hops, -⟩ := serviceInfo_links printable_high true
  have hmem : (ascii "top-keys-gets?addr=0.0.0.0&port=-25536",
      ReporterOp.topKeys (ascii "gets") (ascii "0.0.0.0") 40000) ∈
        reporterHrefs highBackend.settings
          (sampleNames.inetNtoa highBackend.settings.backaddr) := by
    have hlink : linkPort "top-keys-gets" (ascii "0.0.0.0") 40000 =
        ascii "top-keys-gets?addr=0.0.0.0&port=-25536" := by decide
    rw [← hlink, reporterHrefs, if_neg (by decide)]
    exact List.mem_append_left _ (.tail _ (.tail _ (.head _)))
  have hop := hops _ hmem
  refine ⟨?_, hop⟩
  rw [hlinks]
  apply List.mem_cons_of_mem
  apply List.mem_cons_of_mem
  apply List.mem_append_right
  exact List.mem_map_of_mem hmem

end StatsProxy

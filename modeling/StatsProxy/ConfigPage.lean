import StatsProxy.ReporterReplies
import StatsProxy.ServicePage

/-! The table of the reporter's configuration page, from the reply of the reporter to the
requests of a client that follows its links. It has the rows with the address of the own
backend only. -/
namespace StatsProxy
open CString Interaction Program Markup

def action (enabled : Bool) : Bytes := if enabled then ascii "disable" else ascii "enable"

/-- The link that `actions` writes, as far as it has room. -/
def actions (entry : McrEntry) : Bytes :=
  (ascii "<a href=\"mcr-" ++ (action entry.enabled ++ (ascii "?addr=" ++ (entry.dotquad ++
    (ascii "&port=" ++ (printDecimal entry.port ++ (ascii "\">" ++ (action entry.enabled ++
      ascii "&nbsp;reporting</a>")))))))).take (lineSz - 1)

def configRow (n : Nat) (entry : McrEntry) : Bytes :=
  ascii "<tr class=\"d" ++ (printDecimal (n % 2) ++ (ascii "\">" ++ (ascii "<td>" ++
    (printDecimal n ++ (ascii "</td><td>" ++ (entry.dotquad ++ (ascii "</td><td>" ++
    (entry.host ++ (ascii "</td><td>" ++ (printDecimal entry.port ++ (ascii "</td><td>" ++
    ((if entry.enabled then ascii "on" else ascii "off") ++ (ascii "</td><td>" ++
    (actions entry ++ (ascii "</td>\n" ++ ascii "</tr>")))))))))))))))

/-- The rows from `n` on. -/
def configRows (own : Bytes) : Nat → List McrEntry → Bytes
  | _, [] => []
  | n, entry :: el =>
    if own = entry.dotquad then configRow (n + 1) entry ++ configRows own (n + 1) el
    else configRows own n el

def configTable (own : Bytes) (el : List McrEntry) : Bytes :=
  ascii "<b>Memcache Reporter Configuration</b><br><br>" ++
    (ascii "<table class=\"config\" width=\"50%\">" ++ (ascii "<tr>" ++
    (ascii "<th>Instance&nbsp;#</th><th>IP&nbsp;Address</th><th>DNS&nbsp;Name</th>" ++
    (ascii "<th>Port</th><th>Reporting</th><th>Actions</th>\n" ++ (ascii "</tr>\r\n" ++
    (configRows own 0 el ++ ascii "</table>"))))))

/-- The link of a row. -/
def actionHref (enabled : Bool) (own : Bytes) (port : Nat) : Bytes :=
  ascii "mcr-" ++ (action enabled ++ (ascii "?addr=" ++ (own ++ (ascii "&port=" ++
    printDecimal port))))

def actionPath (enabled : Bool) : String := if enabled then "mcr-disable" else "mcr-enable"

section

variable {own rest : Bytes} {entry : McrEntry}

theorem actions_anchor (hquad : entry.dotquad.length ≤ 15) (hport : entry.port < 2 ^ 16) :
    actions entry = anchor (actionHref entry.enabled entry.dotquad entry.port)
      (action entry.enabled ++ ascii "&nbsp;reporting") := by
  have hlink : ascii "<a href=\"mcr-" = ascii "<a href=\"" ++ ascii "mcr-" := by decide
  have hend : ascii "&nbsp;reporting</a>" = ascii "&nbsp;reporting" ++ ascii "</a>" := by
    decide
  have hprinted : (printDecimal entry.port).length ≤ 5 :=
    printDecimal_length (hport.trans (by decide)) (by decide)
  have haction : (action entry.enabled).length ≤ 7 := by
    cases entry.enabled <;> decide
  have htexts : (ascii "<a href=\"").length + (ascii "mcr-").length + (ascii "?addr=").length +
      (ascii "&port=").length + (ascii "\">").length + (ascii "&nbsp;reporting").length +
      (ascii "</a>").length = 46 := by decide
  rw [actions, hlink, hend, List.take_of_length_le]
  · simp only [anchor, actionHref, List.append_assoc]
  · have hsize : lineSz - 1 = 1023 := rfl
    simp only [List.length_append]
    omega

/-- A row that can be printed. -/
structure Shown (own : Bytes) (entry : McrEntry) : Prop where
  dotquad : entry.dotquad = own
  host : Field entry.host
  port : entry.port < 2 ^ 16

theorem hrefs_actions (hquad : ∀ ch ∈ own, isDigit ch = true ∨ ch = 46) (hlength : own.length ≤ 15)
    (h : Shown own entry) :
    hrefs (actions entry ++ rest) = actionHref entry.enabled own entry.port :: hrefs rest := by
  obtain ⟨hown, -, hport⟩ := h
  have hfield := field_digits hquad
  have hprinted := field_printDecimal entry.port
  have haction : 34 ∉ action entry.enabled ∧ Apart hrefStart (ascii "mcr-" ++
      (action entry.enabled ++ ascii "?addr=")) ∧ Apart hrefStart (action entry.enabled ++
        ascii "&nbsp;reporting" ++ ascii "</a>") := by
    cases entry.enabled <;> decide
  rw [actions_anchor (hown ▸ hlength) hport, hown]
  apply hrefs_anchor _ _ haction.2.2
  · simp only [actionHref, List.mem_append, not_or]
    exact ⟨by decide, haction.1, by decide, hfield.noQuote, by decide, hprinted.noQuote⟩
  · have hsplit : actionHref entry.enabled own entry.port ++ [34] =
        (ascii "mcr-" ++ (action entry.enabled ++ ascii "?addr=")) ++
          ((own ++ ascii "&port=") ++ (printDecimal entry.port ++ [34])) := by
      simp [actionHref]
    rw [hsplit]
    exact haction.2.1.append ((apart_follows hfield.noEquals (by decide)).append
      (apart_follows hprinted.noEquals (by decide)))

theorem hrefs_configRow (hquad : ∀ ch ∈ own, isDigit ch = true ∨ ch = 46)
    (hlength : own.length ≤ 15) (h : Shown own entry) (n : Nat) :
    hrefs (configRow n entry ++ rest) = actionHref entry.enabled own entry.port :: hrefs rest := by
  have hdigits : ∀ n, 61 ∉ printDecimal n := fun n => (field_printDecimal n).noEquals
  have hon : Apart hrefStart (if entry.enabled then ascii "on" else ascii "off") := by
    cases entry.enabled <;> decide
  have hown : 61 ∉ entry.dotquad := h.dotquad ▸ (field_digits hquad).noEquals
  unfold configRow
  simp only [List.append_assoc]
  rw [hrefs_part (by decide), hrefs_field (hdigits _) (by decide),
    hrefs_part (by decide), hrefs_field (hdigits _) (by decide),
    hrefs_field hown (by decide), hrefs_field h.host.noEquals (by decide),
    hrefs_field (hdigits _) (by decide), hrefs_part hon, hrefs_part (by decide),
    hrefs_actions hquad hlength h, hrefs_part (by decide), hrefs_part (by decide)]

theorem hrefs_configRows (hquad : ∀ ch ∈ own, isDigit ch = true ∨ ch = 46)
    (hlength : own.length ≤ 15) (n : Nat) {el : List McrEntry}
    (h : ∀ entry ∈ el, Field entry.host ∧ entry.port < 2 ^ 16) :
    hrefs (configRows own n el ++ rest) = ((el.filter fun entry => own = entry.dotquad).map
      fun entry => actionHref entry.enabled own entry.port) ++ hrefs rest := by
  induction el generalizing n with
  | nil => rfl
  | cons entry el ih =>
    rw [List.forall_mem_cons] at h
    rw [configRows]
    split
    · rename_i hown
      rw [List.filter_cons_of_pos (by simpa using hown), List.append_assoc,
        hrefs_configRow hquad hlength ⟨hown.symm, h.1.1, h.1.2⟩, ih _ h.2]
      rfl
    · rename_i hown
      rw [List.filter_cons_of_neg (by simpa using hown), ih _ h.2]

theorem hrefs_configTable (hquad : ∀ ch ∈ own, isDigit ch = true ∨ ch = 46)
    (hlength : own.length ≤ 15) {el : List McrEntry}
    (h : ∀ entry ∈ el, Field entry.host ∧ entry.port < 2 ^ 16) :
    hrefs (configTable own el) = (el.filter fun entry => own = entry.dotquad).map
      fun entry => actionHref entry.enabled own entry.port := by
  have hend : hrefs (ascii "</table>") = [] := by decide
  unfold configTable
  rw [hrefs_part (by decide), hrefs_part (by decide),
    hrefs_part (by decide), hrefs_part (by decide),
    hrefs_part (by decide), hrefs_part (by decide),
    hrefs_configRows hquad hlength 0 h, hend, List.append_nil]

/-- The request of a link, which does nothing for the port 0. -/
theorem requestOp_actionHref (bep : Backend) (enabled : Bool) {port : Nat}
    (hquad : ∀ ch ∈ own, isDigit ch = true ∨ ch = 46) (hlength : own.length ≤ 15)
    (hport : port < 2 ^ 16) : requestOp bep (followed (actionHref enabled own port)) =
      if port = 0 then none else some (.instanceOp (!enabled) own port) := by
  have hprinted : PlainName (printDecimal port) ∧ (printDecimal port).length ≤ 6 :=
    ⟨plainName_digits fun ch hch => Or.inl (isDigit_printDecimal port ch hch),
      printDecimal_length (hport.trans (by decide)) (by decide)⟩
  have hpath : ascii "mcr-" ++ action enabled = ascii (actionPath enabled) := by
    cases enabled <;> decide
  have hop : reporterUriOp (ascii (actionPath enabled)) ⟨some own, port, none⟩ =
      if port = 0 then none else some (.instanceOp (!enabled) own port) := by
    have hno : ∀ b : Bool, ascii (actionPath b) ≠ ascii "mcr-config" ∧
        ascii (actionPath b) ∉ topKeysUris ∧
        ascii (actionPath b) ∉ topClientsUris ∧
        ascii (actionPath b) ∈ mcrOpUris ∧
        decide (ascii (actionPath b) = ascii "mcr-enable") = !b := by
      decide
    obtain ⟨hconfig, hkeys, hclients, hops, henable⟩ := hno enabled
    rw [reporterUriOp, if_neg hconfig, if_neg hkeys, if_neg hclients, if_pos hops, henable]
    cases port <;> rfl
  rw [actionHref, ← List.append_assoc, hpath, link_query, ← hop]
  exact requestOp_link (by cases enabled <;> decide) ⟨plainName_digits hquad, hlength⟩
    hprinted (scanShort_printDecimal hport) (Or.inl rfl)

end

section

variable {ns : NameService} {own : LocalSettings} {proxies : List Backend}

/-- Each configured address is printed and read back as it is. -/
def AddressText (ns : NameService) (proxies : List Backend) : Prop :=
  ∀ bep ∈ proxies, ns.inetAddr (ns.inetNtoa bep.settings.backaddr) = some bep.settings.backaddr

/-- Of the rows with the own address, none is added if it is in the list, and else the one of the
first backend that has it. -/
theorem mcrUpdateConfigedInstances_own (htext : AddressText ns proxies)
    (hown : ns.inetAddr (ns.inetNtoa own.backaddr) = some own.backaddr) (el : List McrEntry) :
    (mcrUpdateConfigedInstances ns el proxies).filter
        (fun entry => ns.inetNtoa own.backaddr = entry.dotquad) =
      el.filter (fun entry => ns.inetNtoa own.backaddr = entry.dotquad) ++
        if isInList own.backaddr el then []
        else (proxies.find? (·.settings.backaddr = own.backaddr)).toList.map
          (configedEntry ns) := by
  induction proxies generalizing el with
  | nil =>
    rw [List.find?_nil, Option.toList_none, List.map_nil, ite_self, List.append_nil]
    rfl
  | cons bep proxies ih =>
    obtain ⟨hbep, htext⟩ := List.forall_mem_cons.mp htext
    have hnext := ih htext (addConfiged ns el bep)
    rw [mcrUpdateConfigedInstances, List.foldl_cons, ← mcrUpdateConfigedInstances, hnext]
    by_cases hin : isInList bep.settings.backaddr el = true
    · rw [addConfiged, if_pos hin]
      by_cases hsame : bep.settings.backaddr = own.backaddr
      · rw [hsame] at hin
        rw [if_pos hin, if_pos hin]
      · rw [List.find?_cons_of_neg (by simpa using hsame)]
    · rw [addConfiged, if_neg hin, List.filter_append]
      have hadded : ∀ addr, isInList addr (el ++ [configedEntry ns bep]) =
          (isInList addr el || decide (bep.settings.backaddr = addr)) := by
        intro addr
        simp [isInList, configedEntry]
      rw [hadded]
      by_cases hsame : bep.settings.backaddr = own.backaddr
      · rw [hsame] at hin
        have hrow : ns.inetNtoa own.backaddr = (configedEntry ns bep).dotquad := by
          rw [configedEntry, hsame]
        rw [List.find?_cons_of_pos (by simpa using hsame), if_neg hin,
          List.filter_cons_of_pos (by simpa using hrow)]
        simp [hsame]
      · have hrow : ns.inetNtoa own.backaddr ≠ (configedEntry ns bep).dotquad := by
          intro heq
          have haddr := congrArg ns.inetAddr heq
          rw [hown, configedEntry, hbep, Option.some.injEq] at haddr
          exact hsame haddr.symm
        rw [List.find?_cons_of_neg (by simpa using hsame),
          List.filter_cons_of_neg (by simpa using hrow)]
        simp [hsame]

end

/-- A backend whose configuration page can be printed. -/
structure ConfigPrintable (ns : NameService) (bep : Backend) (proxies : List Backend) : Prop where
  quad : ∃ a b c d, ns.inetNtoa bep.settings.backaddr = dottedQuad a b c d
  listed : bep ∈ proxies
  text : AddressText ns proxies
  labels : ∀ addr, Field (ns.label addr)
  ports : ∀ bep ∈ proxies, bep.settings.backport < 2 ^ 16

/-- The rows of the page: whether a row is enabled, and its port. -/
def configActions (ns : NameService) (settings : LocalSettings) (proxies : List Backend)
    (rows : List InstanceRow) : List (Bool × Nat) :=
  ((rows.filter fun r => ns.inetNtoa settings.backaddr = r.ip.text).map
      fun r => (true, (r.port : Nat))) ++
    if isInList settings.backaddr (rows.map (·.entry ns)) then []
    else (proxies.find? (·.settings.backaddr = settings.backaddr)).toList.map
      fun bep => (false, bep.settings.backport)

section

variable {ns : NameService} {bep : Backend} {proxies : List Backend}

theorem configActions_rows (h : ConfigPrintable ns bep proxies) (rows : List InstanceRow) :
    ((mcrUpdateConfigedInstances ns (rows.map (·.entry ns)) proxies).filter
      fun entry => ns.inetNtoa bep.settings.backaddr = entry.dotquad).map
        (fun entry => (entry.enabled, entry.port)) =
      configActions ns bep.settings proxies rows := by
  have hport : ∀ r : InstanceRow, (r.entry ns).port = r.port :=
    fun r => Nat.mod_eq_of_lt r.port.isLt
  rw [mcrUpdateConfigedInstances_own h.text (h.text bep h.listed), List.map_append, configActions,
    List.filter_map, List.map_map]
  congr 1
  · apply List.map_congr_left
    intro r _
    exact congrArg (Prod.mk true) (hport r)
  · split
    · rfl
    · rw [List.map_map]
      rfl

theorem mem_mcrUpdateConfigedInstances {el : List McrEntry} {entry : McrEntry}
    (h : entry ∈ mcrUpdateConfigedInstances ns el proxies) :
    entry ∈ el ∨ ∃ bep ∈ proxies, entry = configedEntry ns bep := by
  induction proxies generalizing el with
  | nil => exact Or.inl h
  | cons bep proxies ih =>
    rcases ih h with h | ⟨other, hother, rfl⟩
    · unfold addConfiged at h
      split at h
      · exact Or.inl h
      · rcases List.mem_append.mp h with h | h
        · exact Or.inl h
        · exact Or.inr ⟨bep, List.mem_cons_self, List.mem_singleton.mp h⟩
    · exact Or.inr ⟨other, List.mem_cons_of_mem bep hother, rfl⟩

theorem configEntries (h : ConfigPrintable ns bep proxies) (rows : List InstanceRow) :
    ∀ entry ∈ mcrUpdateConfigedInstances ns (rows.map (·.entry ns)) proxies,
      Field entry.host ∧ entry.port < 2 ^ 16 := by
  intro entry hentry
  rcases mem_mcrUpdateConfigedInstances hentry with hentry | ⟨other, hother, rfl⟩
  · obtain ⟨r, -, rfl⟩ := List.mem_map.mp hentry
    exact ⟨h.labels _, Nat.mod_lt _ (by decide)⟩
  · exact ⟨h.labels _, h.ports other hother⟩

end

/-- The table of the configuration page has a link for each reported instance with the address
of the backend, and one for the first backend with this address if it is not reported at all. A
client that follows a link has the reporter stop or start to report this instance. -/
theorem configPage_links {ns : NameService} {bep : Backend} {proxies : List Backend}
    (h : ConfigPrintable ns bep proxies) (rows : List InstanceRow) (ending : ReplyEnd)
    (l : InstanceLocals) :
    hrefs (configTable (ns.inetNtoa bep.settings.backaddr) (mcrUpdateConfigedInstances ns
      (readInstances ns (rows.map (rowLine ·.pieces) ++ ending.read.toList) l []) proxies)) =
        (configActions ns bep.settings proxies rows).map
          (fun a => actionHref a.1 (ns.inetNtoa bep.settings.backaddr) a.2) ∧
    ∀ a ∈ configActions ns bep.settings proxies rows,
      requestOp bep (followed (actionHref a.1 (ns.inetNtoa bep.settings.backaddr) a.2)) =
        if a.2 = 0 then none
        else some (.instanceOp (!a.1) (ns.inetNtoa bep.settings.backaddr) a.2) := by
  obtain ⟨a, b, c, d, hquad⟩ := h.quad
  have hdigits : ∀ ch ∈ ns.inetNtoa bep.settings.backaddr, isDigit ch = true ∨ ch = 46 :=
    hquad ▸ dottedQuad_bytes a b c d
  have hlength : (ns.inetNtoa bep.settings.backaddr).length ≤ 15 :=
    hquad ▸ dottedQuad_length a b c d
  have hactions := configActions_rows h rows
  have hentries := configEntries h rows
  constructor
  · rw [readInstances_rows, List.nil_append, hrefs_configTable hdigits hlength hentries, ← hactions,
      List.map_map]
    rfl
  · intro action haction
    rw [← hactions] at haction
    obtain ⟨entry, hentry, rfl⟩ := List.mem_map.mp haction
    exact requestOp_actionHref bep _ hdigits hlength
      (hentries entry (List.mem_filter.mp hentry).1).2

def localNames : NameService where
  inetAddr host := if host = ascii "127.0.0.1" then some 2130706433 else none
  getHostByName _ := none
  getHostByAddr _ := none
  inetNtoa addr := if addr = 2130706433 then ascii "127.0.0.1" else ascii "0.0.0.0"

theorem configPrintable_local : ConfigPrintable localNames sampleWorld.bep [sampleWorld.bep] where
  quad := ⟨127, 0, 0, 1, by decide⟩
  listed := List.mem_singleton_self _
  text := by
    rw [AddressText, List.forall_mem_singleton]
    decide
  labels := by
    intro addr
    show Field (if addr = 2130706433 then ascii "127.0.0.1" else ascii "0.0.0.0")
    split
    · exact ⟨by decide, by decide⟩
    · exact ⟨by decide, by decide⟩
  ports := by
    rw [List.forall_mem_singleton]
    decide

/-- A reported instance, and one of another host. -/
def localRows : List InstanceRow :=
  [⟨statWord, by decide, ⟨ascii "127.0.0.1", by decide, by decide +kernel, by decide⟩, 11211⟩,
    ⟨statWord, by decide, ⟨ascii "10.0.0.1", by decide, by decide +kernel, by decide⟩, 11211⟩]

/-- The instance of the backend is reported, and can be disabled. -/
theorem configPage_links_local :
    hrefs (configTable (ascii "127.0.0.1") (mcrUpdateConfigedInstances localNames
      (readInstances localNames (localRows.map (rowLine ·.pieces) ++ [endLine]) ⟨[], 0⟩ [])
        [sampleWorld.bep])) = [ascii "mcr-disable?addr=127.0.0.1&port=11211"] ∧
    requestOp sampleWorld.bep (followed (ascii "mcr-disable?addr=127.0.0.1&port=11211")) =
      some (.instanceOp false (ascii "127.0.0.1") 11211) := by
  have hown : localNames.inetNtoa sampleWorld.bep.settings.backaddr = ascii "127.0.0.1" := by
    decide
  have hactions : configActions localNames sampleWorld.bep.settings [sampleWorld.bep] localRows =
      [(true, 11211)] := by decide +kernel
  have hhref : actionHref true (ascii "127.0.0.1") 11211 =
      ascii "mcr-disable?addr=127.0.0.1&port=11211" := by decide
  obtain ⟨hlinks, hops⟩ := configPage_links configPrintable_local localRows (.ended []) ⟨[], 0⟩
  rw [hactions, hown] at hlinks hops
  rw [← hhref]
  have hop := hops (true, 11211) (List.mem_singleton_self _)
  exact ⟨hlinks, hop⟩

end StatsProxy

import StatsProxy.ProxyMappings
import StatsProxy.TokenText

/-! Configurations apart from their text: uris, and proxy mappings with two
addresses, three intervals and a reporter value. Every text of a configuration is
accepted, and gives one backend for each mapping. -/
namespace StatsProxy
open CString

structure Address where
  host : Bytes
  port : Nat
  host_colon : 58 ∉ host
  host_nul : 0 ∉ host
  port_pos : 0 < port
  port_lt : port < 2 ^ 16

/-- An interval whose milliseconds fit an `int`. -/
structure Seconds where
  value : Nat
  pos : 0 < value
  le : value ≤ 2147483

inductive ReporterMode where
  | off | view | modify

def ReporterMode.text : ReporterMode → Bytes
  | .off => ascii "off"
  | .view => ascii "view"
  | .modify => ascii "modify"

structure Mapping where
  front : Address
  back : Address
  timeout : Seconds
  pollInterval : Seconds
  refreshInterval : Seconds
  reporter : ReporterMode

structure Config where
  uris : List Bytes
  mappings : List Mapping
  uris_nul : ∀ uri ∈ uris, 0 ∉ uri

/-- The host, a colon and the port in decimal. -/
def Address.Spelled (a : Address) (text : Bytes) : Prop :=
  ∃ digits, (∀ ch ∈ digits, isDigit ch = true) ∧ decimalValue digits = a.port ∧
    text = a.host ++ 58 :: digits

def Mapping.assignments (m : Mapping) (front back : Bytes) : List Assignment :=
  [.frontEnd front, .backEnd back, .timeout m.timeout.value,
    .pollInterval m.pollInterval.value, .webpageRefreshInterval m.refreshInterval.value,
    .memcacheReporter m.reporter.text]

/-- The statements of a mapping, in any order. -/
def Mapping.Spelled (m : Mapping) (as : List Assignment) : Prop :=
  ∃ front back, m.front.Spelled front ∧ m.back.Spelled back ∧
    as.Perm (m.assignments front back)

/-- A text of the configuration: the uris, then the blocks in order. -/
def Config.Rendered (c : Config) (text : Bytes) : Prop :=
  ∃ blocks, List.Forall₂ Mapping.Spelled c.mappings blocks ∧
    Rendering (configTokens (c.uris.map Statement.uri ++ blocks.map Statement.proxyMapping)) text

def Mapping.Resolvable (lookup : Bytes → Option Nat) (m : Mapping) : Prop :=
  (lookup m.front.host).isSome = true ∧ (lookup m.back.host).isSome = true

/-- The backend has what the mapping says. -/
structure Mapping.Configures (lookup : Bytes → Option Nat) (uris : List Bytes) (m : Mapping)
    (bep : Backend) : Prop where
  fronthost : bep.settings.fronthost = some m.front.host
  frontaddr : lookup m.front.host = some bep.settings.frontaddr
  frontport : bep.settings.frontport = m.front.port
  backhost : bep.settings.backhost = some m.back.host
  backaddr : lookup m.back.host = some bep.settings.backaddr
  backport : bep.settings.backport = m.back.port
  connectMs : bep.settings.connectMs = m.timeout.value * 1000
  readMs : bep.settings.readMs = m.timeout.value * 1000
  writeMs : bep.settings.writeMs = m.timeout.value * 1000
  pollfreqMs : bep.settings.pollfreqMs = m.pollInterval.value * 1000
  refreshfreqMs : bep.settings.refreshfreqMs = m.refreshInterval.value * 1000
  reporter : bep.settings.reporter = some m.reporter.text
  uris : bep.uris.map UriEntry.uri = uris

theorem Address.hostPort {a : Address} {text : Bytes} (h : a.Spelled text) :
    hostPort text = some (a.host, a.port) := by
  obtain ⟨digits, hdigits, hport, rfl⟩ := h
  have hlt := a.port_lt
  have hnul : 0 ∉ a.host ++ 58 :: digits := by
    rw [List.mem_append, List.mem_cons]
    intro hmem
    rcases hmem with hmem | heq | hmem
    · exact a.host_nul hmem
    · contradiction
    · exact isDigit_ne (hdigits 0 hmem) (by decide) rfl
  unfold StatsProxy.hostPort
  rw [cString_of_nul hnul, strchr_append a.host_colon, Option.map_some,
    strtoul_digits hdigits (by omega), hport, toUInt16, Nat.mod_eq_of_lt hlt]

theorem Seconds.milliseconds (n : Seconds) :
    milliseconds n.value = n.value * 1000 := by
  have hle := n.le
  have hmod : n.value * 1000 % 2 ^ 64 = n.value * 1000 := Nat.mod_eq_of_lt (by omega)
  unfold StatsProxy.milliseconds toInt32
  rw [hmod, Int.bmod_eq_of_le (by omega) (by omega)]
  omega

theorem ReporterMode.cString_text (r : ReporterMode) : cString r.text = r.text := by
  cases r <;> decide

theorem ReporterMode.text_mem (r : ReporterMode) : r.text ∈ reporterValues := by
  cases r <;> decide

theorem last_of_perm {key : Assignment → Option α} {as bs : List Assignment} (h : as.Perm bs)
    {v : α} (hkey : bs.filterMap key = [v]) : last key as = some v := by
  have hperm := h.filterMap key
  rw [hkey, List.perm_singleton] at hperm
  rw [last, hperm]
  rfl

section

variable {lookup : Bytes → Option Nat} {s : Settings} {m : Mapping} {as : List Assignment}

/-- The record after the statements of a mapping. -/
theorem Mapping.assignAll (h : m.Spelled as) (l : LocalSettings) :
    assignAll l as = { l with
      fronthost := some m.front.host
      frontport := m.front.port
      backhost := some m.back.host
      backport := m.back.port
      connectMs := m.timeout.value * 1000
      readMs := m.timeout.value * 1000
      writeMs := m.timeout.value * 1000
      pollfreqMs := m.pollInterval.value * 1000
      refreshfreqMs := m.refreshInterval.value * 1000
      reporter := some m.reporter.text } := by
  obtain ⟨front, back, hfront, hback, hperm⟩ := h
  have hf : last Assignment.front as = some (m.front.host, m.front.port) :=
    last_of_perm hperm (by
      simp [Mapping.assignments, List.filterMap_cons, Assignment.front, Address.hostPort hfront])
  have hb : last Assignment.back as = some (m.back.host, m.back.port) :=
    last_of_perm hperm (by
      simp [Mapping.assignments, List.filterMap_cons, Assignment.back, Address.hostPort hback])
  have ht : last Assignment.timeoutMs as = some (m.timeout.value * 1000 : Int) :=
    last_of_perm hperm (by
      simp [Mapping.assignments, List.filterMap_cons, Assignment.timeoutMs, Seconds.milliseconds])
  have hp : last Assignment.pollMs as = some (m.pollInterval.value * 1000 : Int) :=
    last_of_perm hperm (by
      simp [Mapping.assignments, List.filterMap_cons, Assignment.pollMs, Seconds.milliseconds])
  have hr : last Assignment.refreshMs as = some (m.refreshInterval.value * 1000 : Int) :=
    last_of_perm hperm (by
      simp [Mapping.assignments, List.filterMap_cons, Assignment.refreshMs, Seconds.milliseconds])
  have hrep : last Assignment.reporter as = some m.reporter.text :=
    last_of_perm hperm (by
      simp [Mapping.assignments, List.filterMap_cons, Assignment.reporter,
        ReporterMode.cString_text])
  rw [assignAll_eq, hf, hb, ht, hp, hr, hrep]
  rfl

theorem Mapping.accepted (h : m.Spelled as) : as.all Assignment.accepted = true := by
  obtain ⟨front, back, hfront, hback, hperm⟩ := h
  have hpos : ∀ n : Seconds, 0 < StatsProxy.milliseconds n.value := by
    intro n
    have := n.pos
    rw [n.milliseconds]
    omega
  rw [List.all_eq_true]
  intro a ha
  rw [hperm.mem_iff] at ha
  simp only [Mapping.assignments, List.mem_cons, List.not_mem_nil, or_false] at ha
  rcases ha with rfl | rfl | rfl | rfl | rfl | rfl
  · simp [Assignment.accepted, Address.hostPort hfront]
  · simp [Assignment.accepted, Address.hostPort hback]
  · simpa only [Assignment.accepted, decide_eq_true_eq] using hpos m.timeout
  · simpa only [Assignment.accepted, decide_eq_true_eq] using hpos m.pollInterval
  · simpa only [Assignment.accepted, decide_eq_true_eq] using hpos m.refreshInterval
  · simpa only [Assignment.accepted, decide_eq_true_eq, ReporterMode.cString_text] using
      m.reporter.text_mem

theorem localOrGlobal_seconds (n : Seconds) (globalValue : Int) :
    localOrGlobal (n.value * 1000) globalValue = n.value * 1000 := by
  have := n.pos
  exact if_pos (by omega)

/-- One block. -/
theorem Mapping.eval (h : m.Spelled as) (hresolve : m.Resolvable lookup) :
    ∃ s' bep, (Statement.proxyMapping as).eval lookup s = some s' ∧
      s'.globalSettings = s.globalSettings ∧ s'.proxies = s.proxies ++ [bep] ∧
      m.Configures lookup s.globalSettings.uris bep := by
  have hall := Mapping.assignAll h (startBlock s).localSettings
  obtain ⟨frontaddr, hfront⟩ := Option.isSome_iff_exists.mp hresolve.1
  obtain ⟨backaddr, hback⟩ := Option.isSome_iff_exists.mp hresolve.2
  have hbackend : ∃ bep, blockBackend lookup s as = some bep := by
    unfold blockBackend backendNew
    simp [hall, host2addr, hfront, hback]
  obtain ⟨bep, hbep⟩ := hbackend
  have hconfigures : m.Configures lookup s.globalSettings.uris bep := by
    obtain ⟨backaddr, frontaddr, hb, hf, hset, huris⟩ := blockBackend_settings hbep
    simp only [hall, localOrGlobal_seconds] at hb hf hset
    constructor
    case frontaddr =>
      rw [hset]
      exact hf
    case backaddr =>
      rw [hset]
      exact hb
    case reporter =>
      rw [hset]
      rfl
    case uris =>
      rw [huris, List.map_map]
      exact List.map_id _
    all_goals rw [hset]
  have hf : (StatsProxy.assignAll (startBlock s).localSettings as).frontport ≠ 0 := by
    rw [hall]
    exact Nat.ne_of_gt m.front.port_pos
  have hb : (StatsProxy.assignAll (startBlock s).localSettings as).backport ≠ 0 := by
    rw [hall]
    exact Nat.ne_of_gt m.back.port_pos
  have heval := eval_proxyMapping.mpr ⟨Mapping.accepted h, hf, hb, bep, hbep, rfl⟩
  exact ⟨_, bep, heval, rfl, rfl, hconfigures⟩

end

theorem evalStatements_mappings {lookup : Bytes → Option Nat} {s : Settings}
    {mappings : List Mapping} {blocks : List (List Assignment)}
    (h : List.Forall₂ Mapping.Spelled mappings blocks)
    (hresolve : ∀ m ∈ mappings, m.Resolvable lookup) :
    ∃ s' added, evalStatements lookup s (blocks.map Statement.proxyMapping) = some s' ∧
      s'.proxies = s.proxies ++ added ∧
      List.Forall₂ (Mapping.Configures lookup s.globalSettings.uris) mappings added := by
  induction h generalizing s with
  | nil => exact ⟨s, [], rfl, (List.append_nil _).symm, .nil⟩
  | @cons m as mappings blocks hm _ ih =>
    rw [List.forall_mem_cons] at hresolve
    obtain ⟨s1, bep, heval, hglobals, hproxies, hconfigures⟩ := Mapping.eval hm hresolve.1
    obtain ⟨s2, added, hrest, hadded, hall⟩ := @ih s1 hresolve.2
    rw [hglobals] at hall
    use s2, bep :: added
    constructor
    · rw [List.map_cons, evalStatements, heval, Option.bind_some, hrest]
    · constructor
      · rw [hadded, hproxies, List.append_assoc, List.singleton_append]
      · exact .cons hconfigures hall

/-- Words do not meet, and the last token is not a word. -/
def Closed (ts : List Token) : Prop := Separated ts ∧ ∀ t ∈ ts.getLast?, t.isWord = false

theorem Closed.append {ts us : List Token} (ht : Closed ts) (hu : Closed us) :
    Closed (ts ++ us) := by
  constructor
  · apply List.isChain_append.mpr
    apply And.intro ht.1
    apply And.intro hu.1
    intro t hlast u _ hword
    rw [ht.2 t hlast] at hword
    contradiction
  · intro t hlast
    rw [List.getLast?_append] at hlast
    cases h : us.getLast? with
    | none =>
      rw [h] at hlast
      exact ht.2 t hlast
    | some u =>
      rw [h] at hlast
      exact hu.2 t (by rw [h]; exact hlast)

theorem Closed.flatMap {α : Type} {f : α → List Token} (h : ∀ a, Closed (f a)) (as : List α) :
    Closed (as.flatMap f) := by
  induction as with
  | nil => exact ⟨.nil, by intro t ht; contradiction⟩
  | cons a as ih =>
    rw [List.flatMap_cons]
    exact (h a).append ih

theorem closed_assignment (a : Assignment) : Closed a.tokens := by
  simp [Closed, Separated, Assignment.tokens, Token.isWord]

theorem closed_statement (stmt : Statement) : Closed stmt.tokens := by
  cases stmt with
  | uri value => simp [Closed, Separated, Statement.tokens, Token.isWord]
  | proxyMapping as =>
    apply Closed.append
    · apply Closed.append
      · simp [Closed, Separated, Token.isWord]
      · exact Closed.flatMap closed_assignment as
    · simp [Closed, Separated, Token.isWord]

theorem separated_configTokens (stmts : List Statement) : Separated (configTokens stmts) := by
  have hclosed : Closed (configTokens stmts) := by
    apply Closed.append
    · apply Closed.append
      · simp [Closed, Separated, configOpening, Token.isWord]
      · exact Closed.flatMap closed_statement stmts
    · simp [Closed, Separated, Token.isWord]
  exact hclosed.1

/-- Every text of a configuration is accepted, and there is one backend for each
mapping, in order, with what the mapping says. -/
theorem config_roundTrip (lookup : Bytes → Option Nat) (c : Config) (text : Bytes)
    (h : c.Rendered text) (hresolve : ∀ m ∈ c.mappings, m.Resolvable lookup) :
    ∃ s, yyparse lookup (lexFile text) = .returned 0 s ∧
      List.Forall₂ (Mapping.Configures lookup c.uris) c.mappings s.proxies := by
  obtain ⟨blocks, hblocks, htext⟩ := h
  have hdeclared : (c.uris.map Statement.uri).filterMap Statement.declared = c.uris := by
    rw [List.filterMap_map]
    have hsame : c.uris.filterMap (Statement.declared ∘ Statement.uri) = c.uris.filterMap some := by
      apply List.filterMap_congr
      intro uri huri
      simp only [Function.comp_apply, Statement.declared, cString_of_nul (c.uris_nul uri huri)]
    rw [hsame, List.filterMap_some]
  have huris : evalStatements lookup .initial (c.uris.map Statement.uri) =
      some (addUris .initial c.uris) := by
    rw [evalStatements_uris, hdeclared]
    intro stmt hmem
    obtain ⟨uri, -, rfl⟩ := List.mem_map.mp hmem
    rfl
  obtain ⟨s, added, heval, hproxies, hall⟩ :=
    @evalStatements_mappings lookup (addUris .initial c.uris) _ _ hblocks hresolve
  use s
  constructor
  · rw [lexFile_rendering htext (separated_configTokens _)]
    apply yyparse_accepts.mpr
    apply And.intro (by decide)
    rw [evalStatements_append, huris, Option.bind_some, heval]
  · rw [hproxies]
    exact hall

def Address.text (a : Address) : Bytes := a.host ++ 58 :: decimalDigits a.port

def Config.statements (c : Config) : List Statement :=
  c.uris.map Statement.uri ++
    c.mappings.map fun m => .proxyMapping (m.assignments m.front.text m.back.text)

/-- A text of the configuration, with `layout` before every token. -/
def Config.print (layout : Bytes) (c : Config) : Bytes :=
  printTokens layout (configTokens c.statements)

theorem Address.spelled_text (a : Address) : a.Spelled a.text :=
  ⟨decimalDigits a.port, isDigit_decimalDigits _, decimalValue_decimalDigits _, rfl⟩

/-- A configuration whose strings fit the buffer of the scanner has a text. -/
theorem Config.rendered_print {layout : Bytes} (hlayout : Layout layout) {c : Config}
    (hfit : ∀ t ∈ configTokens c.statements, t.Spellable) : c.Rendered (c.print layout) := by
  use c.mappings.map fun m => m.assignments m.front.text m.back.text
  constructor
  · rw [List.forall₂_map_right_iff, List.forall₂_same]
    intro m _
    exact ⟨_, _, m.front.spelled_text, m.back.spelled_text, .refl _⟩
  · have hprint := rendering_printTokens hlayout hfit
    rw [Config.statements] at hprint
    rw [List.map_map]
    exact hprint

def sampleConfig : Config where
  uris := [ascii "items", ascii "sizes"]
  mappings := [{
    front := ⟨ascii "localhost", 8080, by decide, by decide, by decide, by decide⟩
    back := ⟨ascii "cache", 11211, by decide, by decide, by decide, by decide⟩
    timeout := ⟨3, by decide, by decide⟩
    pollInterval := ⟨2147483, by decide, by decide⟩
    refreshInterval := ⟨15, by decide, by decide⟩
    reporter := .view }]
  uris_nul := by decide

theorem roundTrip_sampleConfig :
    ∃ s, yyparse sampleLookup (lexFile (sampleConfig.print (ascii " # next\n"))) = .returned 0 s ∧
      List.Forall₂ (Mapping.Configures sampleLookup sampleConfig.uris) sampleConfig.mappings
        s.proxies := by
  have hlayout : Layout (ascii " # next\n") :=
    .space (by decide) (@Layout.comment (ascii " next") [] (by decide) .nil)
  apply config_roundTrip
  · apply Config.rendered_print hlayout
    decide +kernel
  · intro m _
    exact ⟨rfl, rfl⟩

end StatsProxy

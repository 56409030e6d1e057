import StatsProxy.SettingsGrammar

/-! What a block leaves in the shared record, field by field: the value of the
last statement of that key, or what the record had before the block. From it,
which blocks depend on the blocks before them, and which files that are rejected
still start servers. -/
namespace StatsProxy
open CString

namespace Assignment

def front : Assignment → Option (Bytes × Nat)
  | .frontEnd value => hostPort value
  | _ => none

def back : Assignment → Option (Bytes × Nat)
  | .backEnd value => hostPort value
  | _ => none

def timeoutMs : Assignment → Option Int
  | .timeout value => some (milliseconds value)
  | _ => none

def pollMs : Assignment → Option Int
  | .pollInterval value => some (milliseconds value)
  | _ => none

def refreshMs : Assignment → Option Int
  | .webpageRefreshInterval value => some (milliseconds value)
  | _ => none

def reporter : Assignment → Option Bytes
  | .memcacheReporter value => some (cString value)
  | _ => none

end Assignment

def last (key : Assignment → Option α) (as : List Assignment) : Option α :=
  (as.filterMap key).getLast?

theorem last_snoc (key : Assignment → Option α) (as : List Assignment) (a : Assignment) :
    last key (as ++ [a]) = (key a).or (last key as) := by
  unfold last
  rw [List.filterMap_append]
  cases h : key a <;> simp [h]

theorem last_eq_none {key : Assignment → Option α} {as : List Assignment} :
    last key as = none ↔ ∀ a ∈ as, key a = none := by
  simp [last]

theorem last_eq_some {key : Assignment → Option α} {as : List Assignment} {a : Assignment}
    {v : α} (ha : a ∈ as) (hv : key a = some v) : ∃ v', last key as = some v' := by
  cases h : last key as with
  | some v' => exact ⟨v', rfl⟩
  | none =>
    rw [last_eq_none.mp h a ha] at hv
    contradiction

/-- The record after a list of statements. -/
theorem assignAll_eq (l : LocalSettings) (as : List Assignment) :
    assignAll l as = { l with
      fronthost := ((last Assignment.front as).map Prod.fst).or l.fronthost
      frontport := ((last Assignment.front as).map Prod.snd).getD l.frontport
      backhost := ((last Assignment.back as).map Prod.fst).or l.backhost
      backport := ((last Assignment.back as).map Prod.snd).getD l.backport
      connectMs := (last Assignment.timeoutMs as).getD l.connectMs
      readMs := (last Assignment.timeoutMs as).getD l.readMs
      writeMs := (last Assignment.timeoutMs as).getD l.writeMs
      pollfreqMs := (last Assignment.pollMs as).getD l.pollfreqMs
      refreshfreqMs := (last Assignment.refreshMs as).getD l.refreshfreqMs
      reporter := (last Assignment.reporter as).or l.reporter } := by
  induction as using List.reverseRecOn with
  | nil => rfl
  | append_singleton as a ih =>
    have hstep : assignAll l (as ++ [a]) = a.apply (assignAll l as) := by
      simp [assignAll]
    rw [hstep, ih]
    simp only [last_snoc]
    cases a with
    | frontEnd value =>
      simp only [Assignment.apply, Assignment.front, Assignment.back, Assignment.timeoutMs,
        Assignment.pollMs, Assignment.refreshMs, Assignment.reporter, Option.none_or]
      cases hostPort value <;> simp
    | backEnd value =>
      simp only [Assignment.apply, Assignment.front, Assignment.back, Assignment.timeoutMs,
        Assignment.pollMs, Assignment.refreshMs, Assignment.reporter, Option.none_or]
      cases hostPort value <;> simp
    | timeout value =>
      have hkey : Assignment.timeoutMs (.timeout value) = some (milliseconds value) := rfl
      have happly : ∀ l : LocalSettings,
          (Assignment.timeout value).apply l = l.setTimeout (milliseconds value) := fun _ => rfl
      obtain ⟨ms, hms⟩ : ∃ ms, milliseconds value = ms := ⟨_, rfl⟩
      rw [hkey, happly, hms]
      rfl
    | pollInterval value =>
      have hkey : Assignment.pollMs (.pollInterval value) = some (milliseconds value) := rfl
      have happly : ∀ l : LocalSettings,
          (Assignment.pollInterval value).apply l = l.setPollInterval (milliseconds value) :=
        fun _ => rfl
      obtain ⟨ms, hms⟩ : ∃ ms, milliseconds value = ms := ⟨_, rfl⟩
      rw [hkey, happly, hms]
      rfl
    | webpageRefreshInterval value =>
      have hkey : Assignment.refreshMs (.webpageRefreshInterval value) =
          some (milliseconds value) := rfl
      have happly : ∀ l : LocalSettings,
          (Assignment.webpageRefreshInterval value).apply l =
            l.setRefreshInterval (milliseconds value) := fun _ => rfl
      obtain ⟨ms, hms⟩ : ∃ ms, milliseconds value = ms := ⟨_, rfl⟩
      rw [hkey, happly, hms]
      rfl
    | memcacheReporter value => rfl

/-- The backend that a block adds to settings `s`. -/
def blockBackend (lookup : Bytes → Option Nat) (s : Settings) (as : List Assignment) :
    Option Backend :=
  (backendNew lookup s.globalSettings (assignAll (startBlock s).localSettings as)).map fun bep =>
    { bep with uris := s.globalSettings.uris.map fun uri => ⟨uri, 0, []⟩ }

/-- What a block means. -/
theorem eval_proxyMapping {lookup : Bytes → Option Nat} {s s' : Settings}
    {as : List Assignment} :
    (Statement.proxyMapping as).eval lookup s = some s' ↔
      as.all Assignment.accepted = true ∧
      (assignAll (startBlock s).localSettings as).frontport ≠ 0 ∧
      (assignAll (startBlock s).localSettings as).backport ≠ 0 ∧
      ∃ bep, blockBackend lookup s as = some bep ∧
        s' = { s with
          localSettings := assignAll (startBlock s).localSettings as
          proxies := s.proxies ++ [bep] } := by
  have hadd : ∀ t : Settings, addProxy lookup t =
      (backendNew lookup t.globalSettings t.localSettings).map fun bep =>
        { t with proxies := t.proxies ++
          [{ bep with uris := t.globalSettings.uris.map fun uri => ⟨uri, 0, []⟩ }] } := by
    intro t
    unfold addProxy
    cases backendNew lookup t.globalSettings t.localSettings <;> rfl
  simp only [Statement.eval]
  by_cases has : as.all Assignment.accepted = true
  · rw [if_pos has]
    simp only [has, true_and]
    by_cases hports : (assignAll (startBlock s).localSettings as).frontport = 0 ∨
        (assignAll (startBlock s).localSettings as).backport = 0
    · have hend : endOfBlock lookup (assignBlock (startBlock s) as) =
          .inl (.returned 1 (assignBlock (startBlock s) as)) := if_pos hports
      rw [hend]
      simp only [Sum.getRight?_inl, reduceCtorEq, false_iff]
      rintro ⟨hf, hb, -⟩
      exact hports.elim hf hb
    · have hend : endOfBlock lookup (assignBlock (startBlock s) as) =
          (addProxy lookup (assignBlock (startBlock s) as)).elim
            (.inl (.exited (assignBlock (startBlock s) as))) .inr := by
        apply (if_neg hports).trans
        cases addProxy lookup (assignBlock (startBlock s) as) <;> rfl
      rw [not_or] at hports
      rw [hend, hadd]
      simp only [ne_eq, hports, not_false_eq_true, true_and, blockBackend]
      cases hbep : backendNew lookup s.globalSettings
          (assignAll (startBlock s).localSettings as) with
      | none =>
        have hnone : backendNew lookup (assignBlock (startBlock s) as).globalSettings
            (assignBlock (startBlock s) as).localSettings = none := hbep
        simp [hnone]
      | some bep =>
        have hsome : backendNew lookup (assignBlock (startBlock s) as).globalSettings
            (assignBlock (startBlock s) as).localSettings = some bep := hbep
        simp only [hsome, Option.map_some, Option.elim_some, Sum.getRight?_inr, Option.some.injEq,
          exists_eq_left']
        exact eq_comm
  · rw [if_neg has]
    simp [has]

namespace Statement

/-- The uri that a statement declares. -/
def declared : Statement → Option Bytes
  | .uri value => some (cString value)
  | .proxyMapping _ => none

def assignments : Statement → List Assignment
  | .uri _ => []
  | .proxyMapping as => as

def isMapping : Statement → Bool
  | .uri _ => false
  | .proxyMapping _ => true

end Statement

def addUris (s : Settings) (uris : List Bytes) : Settings :=
  { s with globalSettings := { s.globalSettings with uris := s.globalSettings.uris ++ uris } }

/-- What statements leave to the statements after them. -/
structure Evaluated (s s1 : Settings) (stmts : List Statement) : Prop where
  globals : s1.globalSettings = (addUris s (stmts.filterMap Statement.declared)).globalSettings
  reporter : s1.localSettings.reporter =
    (last Assignment.reporter (stmts.flatMap Statement.assignments)).or s.localSettings.reporter
  proxies : s.proxies <+: s1.proxies
  blocks : s1.proxies.length = s.proxies.length + (stmts.filter Statement.isMapping).length

theorem last_append (key : Assignment → Option α) (front back : List Assignment) :
    last key (front ++ back) = (last key back).or (last key front) := by
  unfold last
  rw [List.filterMap_append, List.getLast?_append]

theorem Evaluated.cons {s s1 s2 : Settings} {stmt : Statement} {stmts : List Statement}
    (h : Evaluated s s1 [stmt]) (hrest : Evaluated s1 s2 stmts) :
    Evaluated s s2 (stmt :: stmts) where
  globals := by
    rw [hrest.globals, addUris, h.globals]
    simp only [addUris, List.append_assoc, List.filterMap_cons, List.filterMap_nil]
    cases stmt.declared <;> simp
  reporter := by
    rw [hrest.reporter, h.reporter]
    simp only [List.flatMap_cons, List.flatMap_nil, List.append_nil, last_append, Option.or_assoc]
  proxies := h.proxies.trans hrest.proxies
  blocks := by
    rw [hrest.blocks, h.blocks]
    simp only [List.filter_cons, List.filter_nil]
    split <;> simp only [List.length_cons, List.length_nil] <;> omega

theorem Statement.eval_evaluated {lookup : Bytes → Option Nat} {s s1 : Settings}
    {stmt : Statement} (h : stmt.eval lookup s = some s1) : Evaluated s s1 [stmt] := by
  cases stmt with
  | uri value =>
    cases h
    exact ⟨rfl, rfl, List.prefix_refl _, rfl⟩
  | proxyMapping as =>
    obtain ⟨-, -, -, bep, -, rfl⟩ := eval_proxyMapping.mp h
    have hnone : [Statement.proxyMapping as].filterMap Statement.declared = [] := rfl
    constructor
    · simp [addUris, hnone]
    · show (assignAll (startBlock s).localSettings as).reporter = _
      rw [assignAll_eq, List.flatMap_cons, List.flatMap_nil, List.append_nil]
      rfl
    · exact List.prefix_append _ _
    · exact List.length_append

theorem evalStatements_evaluated {lookup : Bytes → Option Nat} {s s1 : Settings}
    {stmts : List Statement} (h : evalStatements lookup s stmts = some s1) :
    Evaluated s s1 stmts := by
  induction stmts generalizing s with
  | nil =>
    cases h
    exact ⟨by simp [addUris], rfl, List.prefix_refl _, rfl⟩
  | cons stmt stmts ih =>
    simp only [evalStatements, Option.bind_eq_some_iff] at h
    obtain ⟨s', hstmt, hrest⟩ := h
    exact (Statement.eval_evaluated hstmt).cons (ih hrest)

/-- Statements that declare uris only. -/
theorem evalStatements_uris {lookup : Bytes → Option Nat} {s : Settings}
    {stmts : List Statement} (h : ∀ stmt ∈ stmts, stmt.isMapping = false) :
    evalStatements lookup s stmts = some (addUris s (stmts.filterMap Statement.declared)) := by
  induction stmts generalizing s with
  | nil => simp [evalStatements, addUris]
  | cons stmt stmts ih =>
    rw [List.forall_mem_cons] at h
    cases stmt with
    | proxyMapping as => simp [Statement.isMapping] at h
    | uri value =>
      rw [evalStatements]
      simp only [Statement.eval, Option.bind_some]
      rw [ih h.2]
      simp [addUris, addGlobalUri, Statement.declared]

/-- A rejected block after a block that is whole and valid. -/
def RejectedAfterBlock (lookup : Bytes → Option Nat) (input : List Token × Final) : Prop :=
  ∃ stmts s1 body, input.1 = configOpening ++ statementTokens stmts ++
      ([.keyword .proxyMapping, .punct 123] ++ body) ∧
    evalStatements lookup .initial stmts = some s1 ∧
    RejectedBlock (startBlock s1).localSettings input.2 body ∧
    ∃ stmt ∈ stmts, stmt.isMapping = true

theorem proxies_eq_nil {lookup : Bytes → Option Nat} {stmts : List Statement} {s : Settings}
    (h : evalStatements lookup .initial stmts = some s) :
    s.proxies = [] ↔ ¬∃ stmt ∈ stmts, stmt.isMapping = true := by
  rw [← List.length_eq_zero_iff, (evalStatements_evaluated h).blocks]
  simp [Settings.initial]

theorem RejectedAfterBlock.returned {lookup : Bytes → Option Nat} {input : List Token × Final}
    (h : RejectedAfterBlock lookup input) :
    ∃ s, yyparse lookup input = .returned 1 s ∧ s.proxies ≠ [] := by
  obtain ⟨tokens, final⟩ := input
  obtain ⟨stmts, s1, body, hinput, heval, hrejected, hm⟩ := h
  obtain ⟨s, hbody, hp⟩ := parse_rejected lookup hrejected
  dsimp only at hinput hbody
  refine ⟨s, ?_, ?_⟩
  · rw [hinput, yyparse_opening stmts heval, parse_blockOpen, hbody]
  · rw [hp]
    exact (proxies_eq_nil heval).not.mpr (not_not.mpr hm)

theorem startProxies_eq_nil (s : Settings) : startProxies s = [] ↔ s.proxies = [] := by
  cases hp : s.proxies <;> simp [startProxies, hp]

/-- A file for which `yyparse` does not return 0 starts nothing, unless a valid
block comes before the one that is rejected. -/
theorem main_startsNothing_iff (lookup : Bytes → Option Nat) (file : Bytes)
    (h : ∀ s, yyparse lookup (lexFile file) ≠ .returned 0 s) :
    main lookup file = [] ↔ ¬RejectedAfterBlock lookup (lexFile file) := by
  unfold main
  cases hparse : yyparse lookup (lexFile file) with
  | exited s =>
    apply iff_of_true rfl
    intro hrejected
    obtain ⟨s', hreturn, -⟩ := hrejected.returned
    rw [hparse] at hreturn
    contradiction
  | returned rc s =>
    cases hlex : lexFile file with
    | mk input final =>
    rw [hlex] at hparse h
    simp only [startProxies_eq_nil]
    constructor
    · intro hp hrejected
      obtain ⟨s', hreturn, hne⟩ := hrejected.returned
      rw [hparse] at hreturn
      cases hreturn
      exact hne hp
    · intro hrejected
      obtain ⟨stmts, s1, rest, hinput, heval, hret⟩ := yyparse_returned hparse
      cases hret with
      | accepted hf => exact absurd hparse (h s)
      | rejected body _ hp hb =>
        rw [hp, proxies_eq_nil heval]
        exact fun hm => hrejected ⟨stmts, s1, body, hinput, heval, hb, hm⟩

theorem rejectedFile_returns :
    ∃ s, yyparse sampleLookup (lexFile rejectedFile) = .returned 1 s ∧
      s.proxies.length = 1 := by
  have htokens : lexFile rejectedFile = (configTokens
      [.proxyMapping [.frontEnd (ascii "a:8080"), .backEnd (ascii "b:11211")],
        .proxyMapping [.pollInterval 0]], .eof) := by
    rw [rejectedFile, ascii_ofList]
    decide +kernel
  rw [htokens]
  exact ⟨_, rfl, rfl⟩

theorem rejectedFile_notAccepted (s : Settings) :
    yyparse sampleLookup (lexFile rejectedFile) ≠ .returned 0 s := by
  obtain ⟨s', hs', -⟩ := rejectedFile_returns
  rw [hs']
  simp

/-- Its only block has an interval of 0. -/
def zeroFile : Bytes := ascii
  "memcache-stats-proxy-settings \x7b proxy-mapping \x7b poll-interval = 0; \x7d \x7d"

theorem zeroFile_returns :
    ∃ s, yyparse sampleLookup (lexFile zeroFile) = .returned 1 s ∧ s.proxies = [] := by
  have htokens : lexFile zeroFile = (configTokens [.proxyMapping [.pollInterval 0]], .eof) := by
    rw [zeroFile, ascii_ofList]
    decide +kernel
  rw [htokens]
  exact ⟨_, rfl, rfl⟩

theorem startsNothing_zeroFile : main sampleLookup zeroFile = [] := by
  obtain ⟨s, hs, hnone⟩ := zeroFile_returns
  have hrejected : ∀ s', yyparse sampleLookup (lexFile zeroFile) ≠ .returned 0 s' := by
    intro s' hs'
    cases hs.symm.trans hs'
  apply (main_startsNothing_iff sampleLookup zeroFile hrejected).mpr
  intro hafter
  obtain ⟨s', hs', hproxies⟩ := hafter.returned
  cases hs.symm.trans hs'
  exact hproxies hnone

/-- The first block's servers are started. -/
theorem startsNothing_fails : ¬∀ file,
    (∀ s, yyparse sampleLookup (lexFile file) ≠ .returned 0 s) → main sampleLookup file = [] := by
  intro h
  have hnone := h rejectedFile rejectedFile_notAccepted
  obtain ⟨s, hs, hlen⟩ := rejectedFile_returns
  generalize hinput : lexFile rejectedFile = input at hs
  rw [main, hinput, hs] at hnone
  rw [(startProxies_eq_nil s).mp hnone] at hlen
  cases hlen

/-- The block has its own addresses. -/
def OwnHosts (as : List Assignment) : Prop :=
  (∃ value, .frontEnd value ∈ as) ∧ ∃ value, .backEnd value ∈ as

/-- The block has its own reporter value, or inherits none other than "off". -/
def ReporterSettled (before : List Statement) (as : List Assignment) : Prop :=
  (∃ value, .memcacheReporter value ∈ as) ∨
    ∀ value, last Assignment.reporter (before.flatMap Statement.assignments) = some value →
      value = ascii "off"

/-- The file without the other blocks: the uris before the block, and the block. -/
def aloneStatements (before : List Statement) (as : List Assignment) : List Statement :=
  before.filter (!·.isMapping) ++ [.proxyMapping as]

/-- The backend of a block is the one that the block gives alone. -/
def Independent (lookup : Bytes → Option Nat) (final : Final) (before : List Statement)
    (as : List Assignment) (proxies : List Backend) : Prop :=
  ∃ alone bep bep',
    yyparse lookup (configTokens (aloneStatements before as), final) = .returned 0 alone ∧
    alone.proxies = [bep'] ∧
    proxies[(before.filter Statement.isMapping).length]? = some bep ∧
    bep.settings = bep'.settings

theorem declared_filter (stmts : List Statement) :
    (stmts.filter (!·.isMapping)).filterMap Statement.declared =
      stmts.filterMap Statement.declared := by
  induction stmts with
  | nil => rfl
  | cons stmt stmts ih =>
    cases stmt with
    | uri value => simpa [Statement.isMapping, Statement.declared] using ih
    | proxyMapping as => exact ih

/-- A key is set in a block if a statement of its kind is there. -/
theorem own_iff {key : Assignment → Option α} {as : List Assignment} (kind : Bytes → Assignment)
    (hkind : ∀ a v, key a = some v → ∃ value, a = kind value)
    (hkey : ∀ value, kind value ∈ as → (key (kind value)).isSome = true) :
    (∃ value, kind value ∈ as) ↔ ∃ v, last key as = some v := by
  constructor
  · rintro ⟨value, hm⟩
    obtain ⟨v, hv⟩ := Option.isSome_iff_exists.mp (hkey value hm)
    exact last_eq_some hm hv
  · rintro ⟨v, hv⟩
    obtain ⟨a, hm, ha⟩ := List.mem_filterMap.mp (List.mem_of_getLast? hv)
    obtain ⟨value, rfl⟩ := hkind a v ha
    exact ⟨value, hm⟩

theorem own_front {as : List Assignment} (has : as.all Assignment.accepted = true) :
    (∃ value, .frontEnd value ∈ as) ↔ ∃ p, last Assignment.front as = some p := by
  apply own_iff
  · intro a p hp
    cases a with
    | frontEnd value => exact ⟨value, rfl⟩
    | _ => contradiction
  · exact fun value hm => List.all_eq_true.mp has _ hm

theorem own_back {as : List Assignment} (has : as.all Assignment.accepted = true) :
    (∃ value, .backEnd value ∈ as) ↔ ∃ p, last Assignment.back as = some p := by
  apply own_iff
  · intro a p hp
    cases a with
    | backEnd value => exact ⟨value, rfl⟩
    | _ => contradiction
  · exact fun value hm => List.all_eq_true.mp has _ hm

theorem own_reporter {as : List Assignment} :
    (∃ value, .memcacheReporter value ∈ as) ↔ ∃ v, last Assignment.reporter as = some v := by
  apply own_iff
  · intro a p hp
    cases a with
    | memcacheReporter value => exact ⟨value, rfl⟩
    | _ => contradiction
  · exact fun value hm => rfl

/-- The settings of the backend that a block adds. -/
theorem blockBackend_settings {lookup : Bytes → Option Nat} {s : Settings}
    {as : List Assignment} {bep : Backend} (h : blockBackend lookup s as = some bep) :
    ∃ backaddr frontaddr,
      host2addr lookup (assignAll (startBlock s).localSettings as).backhost = some backaddr ∧
      host2addr lookup (assignAll (startBlock s).localSettings as).fronthost = some frontaddr ∧
      bep.settings = {
        fronthost := (assignAll (startBlock s).localSettings as).fronthost
        frontaddr := frontaddr
        frontport := (assignAll (startBlock s).localSettings as).frontport
        backhost := (assignAll (startBlock s).localSettings as).backhost
        backaddr := backaddr
        backport := (assignAll (startBlock s).localSettings as).backport
        pollfreqMs := localOrGlobal (assignAll (startBlock s).localSettings as).pollfreqMs
          s.globalSettings.pollfreqMs
        refreshfreqMs := localOrGlobal (assignAll (startBlock s).localSettings as).refreshfreqMs
          s.globalSettings.refreshfreqMs
        connectMs := localOrGlobal (assignAll (startBlock s).localSettings as).connectMs
          s.globalSettings.connectMs
        readMs := localOrGlobal (assignAll (startBlock s).localSettings as).readMs
          s.globalSettings.readMs
        writeMs := localOrGlobal (assignAll (startBlock s).localSettings as).writeMs
          s.globalSettings.writeMs
        reporter :=
          some ((assignAll (startBlock s).localSettings as).reporter.getD (ascii "off")) } ∧
      bep.uris = s.globalSettings.uris.map fun uri => ⟨uri, 0, []⟩ := by
  simp only [blockBackend, backendNew, Option.bind_eq_bind, Option.pure_def, Option.map_eq_some_iff,
    Option.bind_eq_some_iff, Option.some.injEq] at h
  obtain ⟨_, ⟨backaddr, hb, frontaddr, hf, rfl⟩, rfl⟩ := h
  exact ⟨backaddr, frontaddr, hb, hf, rfl, rfl⟩

/-- The settings that a block alone starts from. -/
def urisOnly (before : List Statement) : Settings :=
  addUris .initial (before.filterMap Statement.declared)

theorem alone_accepts {lookup : Bytes → Option Nat} {final : Final} {before : List Statement}
    {as : List Assignment} {alone : Settings} :
    yyparse lookup (configTokens (aloneStatements before as), final) = .returned 0 alone ↔
      final ≠ .exited ∧
        (Statement.proxyMapping as).eval lookup (urisOnly before) = some alone := by
  have huris : ∀ stmt ∈ before.filter (!·.isMapping), stmt.isMapping = false := by
    intro stmt hm
    simpa using (List.mem_filter.mp hm).2
  rw [yyparse_accepts, aloneStatements, evalStatements_append, evalStatements_uris huris,
    declared_filter, Option.bind_some]
  change _ ∧ ((Statement.proxyMapping as).eval lookup (urisOnly before)).bind _ = _ ↔ _
  cases (Statement.proxyMapping as).eval lookup (urisOnly before) <;> rfl

/-- A block and what the parser does with it in an accepted file. -/
structure AcceptedBlock (lookup : Bytes → Option Nat) (s : Settings) (as : List Assignment)
    (bep : Backend) : Prop where
  accepted : as.all Assignment.accepted = true
  frontport : (assignAll (startBlock s).localSettings as).frontport ≠ 0
  backport : (assignAll (startBlock s).localSettings as).backport ≠ 0
  backend : blockBackend lookup s as = some bep

theorem accepted_block {lookup : Bytes → Option Nat} {final : Final}
    {before after : List Statement} {as : List Assignment} {s' : Settings}
    (h : yyparse lookup (configTokens (before ++ .proxyMapping as :: after), final) =
      .returned 0 s') :
    final ≠ .exited ∧ ∃ s bep, Evaluated .initial s before ∧ AcceptedBlock lookup s as bep ∧
      s'.proxies[(before.filter Statement.isMapping).length]? = some bep := by
  obtain ⟨hfinal, heval⟩ := yyparse_accepts.mp h
  rw [evalStatements_append, Option.bind_eq_some_iff] at heval
  obtain ⟨s, hbefore, heval⟩ := heval
  rw [evalStatements, Option.bind_eq_some_iff] at heval
  obtain ⟨s2, hblock, hafter⟩ := heval
  obtain ⟨has, hf, hb, bep, hbep, rfl⟩ := eval_proxyMapping.mp hblock
  have hs := evalStatements_evaluated hbefore
  refine ⟨hfinal, s, bep, hs, ⟨has, hf, hb, hbep⟩, ?_⟩
  have hlen : (before.filter Statement.isMapping).length = s.proxies.length := by
    rw [hs.blocks]
    simp [Settings.initial]
  obtain ⟨more, hmore⟩ := (evalStatements_evaluated hafter).proxies
  rw [← hmore, hlen]
  simp

theorem backendNew_congr (lookup : Bytes → Option Nat) (g : GlobalSettings) {l l' : LocalSettings}
    (hfronthost : l.fronthost = l'.fronthost) (hfrontport : l.frontport = l'.frontport)
    (hbackhost : l.backhost = l'.backhost) (hbackport : l.backport = l'.backport)
    (hpoll : l.pollfreqMs = l'.pollfreqMs) (hrefresh : l.refreshfreqMs = l'.refreshfreqMs)
    (hconnect : l.connectMs = l'.connectMs) (hread : l.readMs = l'.readMs)
    (hwrite : l.writeMs = l'.writeMs)
    (hreporter : l.reporter.getD (ascii "off") = l'.reporter.getD (ascii "off")) :
    backendNew lookup g l = backendNew lookup g l' := by
  unfold backendNew
  rw [hfronthost, hfrontport, hbackhost, hbackport, hpoll, hrefresh, hconnect, hread, hwrite,
    hreporter]

section

variable {lookup : Bytes → Option Nat} {s : Settings} {before : List Statement}
variable {as : List Assignment}

/-- What the blocks before leave of the reporter. -/
theorem Evaluated.inherited (h : Evaluated .initial s before) : s.localSettings.reporter =
    last Assignment.reporter (before.flatMap Statement.assignments) := by
  rw [h.reporter]
  exact Option.or_none

/-- Alone, a block needs its own addresses. -/
theorem ownHosts_of_ports (has : as.all Assignment.accepted = true)
    (hf : (assignAll (startBlock (urisOnly before)).localSettings as).frontport ≠ 0)
    (hb : (assignAll (startBlock (urisOnly before)).localSettings as).backport ≠ 0) :
    OwnHosts as := by
  rw [assignAll_eq] at hf hb
  constructor
  · apply (own_front has).mpr
    cases hl : last Assignment.front as with
    | some p => exact ⟨p, rfl⟩
    | none =>
      rw [hl] at hf
      exact absurd rfl hf
  · apply (own_back has).mpr
    cases hl : last Assignment.back as with
    | some p => exact ⟨p, rfl⟩
    | none =>
      rw [hl] at hb
      exact absurd rfl hb

theorem reporterSettled_of_same (hs : Evaluated .initial s before) {bep bep' : Backend}
    (hbep : blockBackend lookup s as = some bep)
    (hbep' : blockBackend lookup (urisOnly before) as = some bep')
    (hsame : bep.settings.reporter = bep'.settings.reporter) : ReporterSettled before as := by
  cases hl : last Assignment.reporter as with
  | some v => exact Or.inl (own_reporter.mpr ⟨v, hl⟩)
  | none =>
    apply Or.inr
    intro value hvalue
    obtain ⟨_, _, _, _, hset, _⟩ := blockBackend_settings hbep
    obtain ⟨_, _, _, _, hset', _⟩ := blockBackend_settings hbep'
    rw [hset, hset'] at hsame
    simp only [assignAll_eq, hl, Option.none_or, startBlock, hs.inherited, hvalue,
      Option.getD_some, Option.some.injEq] at hsame
    exact hsame

/-- With its own addresses and a settled reporter a block gives the backend that
it gives alone. -/
theorem blockBackend_alone (hs : Evaluated .initial s before) {p q : Bytes × Nat}
    (hp : last Assignment.front as = some p) (hq : last Assignment.back as = some q)
    (hsettled : ReporterSettled before as) :
    blockBackend lookup (urisOnly before) as = blockBackend lookup s as := by
  have hglobals : s.globalSettings = (urisOnly before).globalSettings := hs.globals
  have hreporter :
      (assignAll (startBlock (urisOnly before)).localSettings as).reporter.getD (ascii "off") =
        (assignAll (startBlock s).localSettings as).reporter.getD (ascii "off") := by
    simp only [assignAll_eq, startBlock]
    rcases hsettled with hown | hinherit
    · obtain ⟨v, hv⟩ := own_reporter.mp hown
      rw [hv]
      rfl
    · cases hl : last Assignment.reporter as with
      | some v => rfl
      | none =>
        rw [hs.inherited]
        cases hv : last Assignment.reporter (before.flatMap Statement.assignments) with
        | none => rfl
        | some value =>
          rw [hinherit value hv]
          rfl
  rw [blockBackend, blockBackend, hglobals]
  apply congrArg
  apply backendNew_congr
  case hreporter => exact hreporter
  all_goals simp only [assignAll_eq, hp, hq, startBlock, Option.map_some, Option.some_or,
    Option.getD_some]

end

/-- In an accepted file a block gives the backend that it gives alone exactly if
it has its own addresses and its reporter value is settled: nothing of the
record but the intervals is reset between blocks. -/
theorem independent_iff (lookup : Bytes → Option Nat) (file : Bytes) (s' : Settings)
    (h : yyparse lookup (lexFile file) = .returned 0 s') (before after : List Statement)
    (as : List Assignment)
    (hfile : (lexFile file).1 = configTokens (before ++ .proxyMapping as :: after)) :
    Independent lookup (lexFile file).2 before as s'.proxies ↔
      OwnHosts as ∧ ReporterSettled before as := by
  cases hlex : lexFile file with
  | mk input final =>
  rw [hlex] at h hfile
  dsimp only at hfile
  rw [hfile] at h
  obtain ⟨hfinal, s, bep, hs, hblock, hindex⟩ := accepted_block h
  have has := hblock.accepted
  constructor
  · rintro ⟨alone, bep0, bep', hparse, hproxies, hindex0, hsame⟩
    rw [hindex] at hindex0
    cases hindex0
    obtain ⟨-, halone⟩ := alone_accepts.mp hparse
    obtain ⟨-, hf, hb, bep1, hbep1, rfl⟩ := eval_proxyMapping.mp halone
    cases hproxies
    have hrep : bep.settings.reporter = bep'.settings.reporter := congrArg _ hsame
    exact ⟨ownHosts_of_ports has hf hb, reporterSettled_of_same hs hblock.backend hbep1 hrep⟩
  · rintro ⟨⟨hfront, hback⟩, hsettled⟩
    obtain ⟨p, hp⟩ := (own_front has).mp hfront
    obtain ⟨q, hq⟩ := (own_back has).mp hback
    have hsame : blockBackend lookup (urisOnly before) as = some bep := by
      rw [blockBackend_alone hs hp hq hsettled]
      exact hblock.backend
    have hf : (assignAll (startBlock (urisOnly before)).localSettings as).frontport ≠ 0 := by
      have hport := hblock.frontport
      rw [assignAll_eq, hp] at hport ⊢
      exact hport
    have hb : (assignAll (startBlock (urisOnly before)).localSettings as).backport ≠ 0 := by
      have hport := hblock.backport
      rw [assignAll_eq, hq] at hport ⊢
      exact hport
    have heval : (Statement.proxyMapping as).eval lookup (urisOnly before) =
        some { urisOnly before with
          localSettings := assignAll (startBlock (urisOnly before)).localSettings as
          proxies := (urisOnly before).proxies ++ [bep] } :=
      eval_proxyMapping.mpr ⟨has, hf, hb, bep, hsame, rfl⟩
    exact ⟨_, bep, bep, alone_accepts.mpr ⟨hfinal, heval⟩, rfl, hindex, rfl⟩

/-- The third block sets one timeout only. -/
def inheritingFile : Bytes := ascii
  "memcache-stats-proxy-settings \x7b uri \"items\";
     proxy-mapping \x7b
       front-end = \"a:8080\"; back-end = \"b:11211\"; memcache-reporter = \"modify\"; \x7d
     proxy-mapping \x7b
       front-end = \"c:8081\"; back-end = \"d:11212\"; memcache-reporter = \"view\"; \x7d
     proxy-mapping \x7b timeout = 7; \x7d
   \x7d"

def firstBlock : List Assignment :=
  [.frontEnd (ascii "a:8080"), .backEnd (ascii "b:11211"), .memcacheReporter (ascii "modify")]

def secondBlock : List Assignment :=
  [.frontEnd (ascii "c:8081"), .backEnd (ascii "d:11212"), .memcacheReporter (ascii "view")]

theorem inheritingFile_tokens : lexFile inheritingFile =
    (configTokens [.uri (ascii "items"), .proxyMapping firstBlock, .proxyMapping secondBlock,
      .proxyMapping [.timeout 7]], .eof) := by
  rw [inheritingFile, ascii_ofList]
  decide +kernel

theorem inheritingFile_accepted :
    ∃ s, yyparse sampleLookup (lexFile inheritingFile) = .returned 0 s := by
  rw [inheritingFile_tokens]
  exact ⟨_, rfl⟩

/-- The second block has addresses and a reporter of its own. -/
theorem independent_secondBlock : ∃ s : Settings,
    yyparse sampleLookup (lexFile inheritingFile) = .returned 0 s ∧
    Independent sampleLookup .eof [.uri (ascii "items"), .proxyMapping firstBlock] secondBlock
      s.proxies := by
  obtain ⟨s, hs⟩ := inheritingFile_accepted
  have hfile := inheritingFile_tokens
  have hiff := independent_iff sampleLookup inheritingFile s hs
    [.uri (ascii "items"), .proxyMapping firstBlock] [.proxyMapping [.timeout 7]] secondBlock
    (by rw [hfile]; rfl)
  rw [hfile] at hiff
  refine ⟨s, hs, hiff.mpr ⟨⟨?_, ?_⟩, Or.inl ?_⟩⟩
  · exact ⟨_, .head _⟩
  · exact ⟨_, .tail _ (.head _)⟩
  · exact ⟨_, .tail _ (.tail _ (.head _))⟩

/-- The third block is accepted with the addresses and the reporter of the
second; alone it is rejected. -/
theorem independent_fails : ¬∀ (file : Bytes) (s' : Settings),
    yyparse sampleLookup (lexFile file) = .returned 0 s' →
    ∀ before after as, (lexFile file).1 = configTokens (before ++ .proxyMapping as :: after) →
      Independent sampleLookup (lexFile file).2 before as s'.proxies := by
  intro h
  obtain ⟨s, hs⟩ := inheritingFile_accepted
  obtain ⟨alone, -, -, halone, -⟩ := h inheritingFile s hs
    [.uri (ascii "items"), .proxyMapping firstBlock, .proxyMapping secondBlock] [] [.timeout 7]
    (by rw [inheritingFile_tokens]; rfl)
  obtain ⟨-, heval⟩ := alone_accepts.mp halone
  obtain ⟨-, hport, -⟩ := eval_proxyMapping.mp heval
  exact hport rfl

end StatsProxy

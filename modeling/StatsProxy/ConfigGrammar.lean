import StatsProxy.SettingsGrammar

/-! The rules of the grammar, as they stand, and the files that are accepted
although they are not derived from them: `yylex` reports a lexical error, and the
parser takes it for the end of the file. -/
namespace StatsProxy
open CString

inductive Nonterminal where
  | config | statements | statements1 | statement | proxyMappingBlock
  | proxyMappingStatements | proxyMappingStatements1 | proxyMappingStatement
deriving DecidableEq

/-- One constructor for each rule. -/
inductive Derives : Nonterminal → List Token → Prop where
  | config {ts : List Token} (h : Derives .statements ts) :
      Derives .config
        ([.keyword .memcacheStatsProxySettings, .punct 123] ++ ts ++ [.punct 125])
  | noStatements : Derives .statements []
  | statements {ts : List Token} (h : Derives .statements1 ts) : Derives .statements ts
  | firstStatement {ts : List Token} (h : Derives .statement ts) : Derives .statements1 ts
  | nextStatement {ts us : List Token} (h : Derives .statements1 ts) (hu : Derives .statement us) :
      Derives .statements1 (ts ++ us)
  | uri (value : Bytes) : Derives .statement [.keyword .uri, .string value, .punct 59]
  | mapping {ts : List Token} (h : Derives .proxyMappingBlock ts) : Derives .statement ts
  | block {ts : List Token} (h : Derives .proxyMappingStatements ts) :
      Derives .proxyMappingBlock ([.keyword .proxyMapping, .punct 123] ++ ts ++ [.punct 125])
  | noMappingStatements : Derives .proxyMappingStatements []
  | mappingStatements {ts : List Token} (h : Derives .proxyMappingStatements1 ts) :
      Derives .proxyMappingStatements ts
  | firstMappingStatement {ts : List Token} (h : Derives .proxyMappingStatement ts) :
      Derives .proxyMappingStatements1 ts
  | nextMappingStatement {ts us : List Token} (h : Derives .proxyMappingStatements1 ts)
      (hu : Derives .proxyMappingStatement us) : Derives .proxyMappingStatements1 (ts ++ us)
  | frontEnd (value : Bytes) : Derives .proxyMappingStatement
      [.keyword .frontEnd, .punct 61, .string value, .punct 59]
  | backEnd (value : Bytes) : Derives .proxyMappingStatement
      [.keyword .backEnd, .punct 61, .string value, .punct 59]
  | timeout (value : Nat) : Derives .proxyMappingStatement
      [.keyword .timeout, .punct 61, .integer value, .punct 59]
  | pollInterval (value : Nat) : Derives .proxyMappingStatement
      [.keyword .pollInterval, .punct 61, .integer value, .punct 59]
  | webpageRefreshInterval (value : Nat) : Derives .proxyMappingStatement
      [.keyword .webpageRefreshInterval, .punct 61, .integer value, .punct 59]
  | memcacheReporter (value : Bytes) : Derives .proxyMappingStatement
      [.keyword .memcacheReporter, .punct 61, .string value, .punct 59]

/-- The token lists of the statements. -/
def Nonterminal.Spells : Nonterminal → List Token → Prop
  | .config, ts => ∃ stmts, ts = configTokens stmts
  | .statements, ts | .statements1, ts => ∃ stmts, ts = statementTokens stmts
  | .statement, ts => ∃ stmt : Statement, ts = stmt.tokens
  | .proxyMappingBlock, ts => ∃ as, ts = (Statement.proxyMapping as).tokens
  | .proxyMappingStatements, ts | .proxyMappingStatements1, ts => ∃ as, ts = assignmentTokens as
  | .proxyMappingStatement, ts => ∃ a : Assignment, ts = a.tokens

theorem Derives.spells {n : Nonterminal} {ts : List Token} (h : Derives n ts) : n.Spells ts := by
  induction h with
  | config _ ih =>
    obtain ⟨stmts, rfl⟩ := ih
    exact ⟨stmts, rfl⟩
  | noStatements => exact ⟨[], rfl⟩
  | statements _ ih => exact ih
  | firstStatement _ ih =>
    obtain ⟨stmt, rfl⟩ := ih
    exact ⟨[stmt], by simp [statementTokens]⟩
  | nextStatement _ _ ih ihu =>
    obtain ⟨stmts, rfl⟩ := ih
    obtain ⟨stmt, rfl⟩ := ihu
    exact ⟨stmts ++ [stmt], by simp [statementTokens]⟩
  | uri value => exact ⟨.uri value, rfl⟩
  | mapping _ ih =>
    obtain ⟨as, rfl⟩ := ih
    exact ⟨.proxyMapping as, rfl⟩
  | block _ ih =>
    obtain ⟨as, rfl⟩ := ih
    exact ⟨as, rfl⟩
  | noMappingStatements => exact ⟨[], rfl⟩
  | mappingStatements _ ih => exact ih
  | firstMappingStatement _ ih =>
    obtain ⟨a, rfl⟩ := ih
    exact ⟨[a], by simp [assignmentTokens]⟩
  | nextMappingStatement _ _ ih ihu =>
    obtain ⟨as, rfl⟩ := ih
    obtain ⟨a, rfl⟩ := ihu
    exact ⟨as ++ [a], by simp [assignmentTokens]⟩
  | frontEnd value => exact ⟨.frontEnd value, rfl⟩
  | backEnd value => exact ⟨.backEnd value, rfl⟩
  | timeout value => exact ⟨.timeout value, rfl⟩
  | pollInterval value => exact ⟨.pollInterval value, rfl⟩
  | webpageRefreshInterval value => exact ⟨.webpageRefreshInterval value, rfl⟩
  | memcacheReporter value => exact ⟨.memcacheReporter value, rfl⟩

theorem derives_assignment (a : Assignment) : Derives .proxyMappingStatement a.tokens := by
  cases a with
  | frontEnd value => exact .frontEnd value
  | backEnd value => exact .backEnd value
  | timeout value => exact .timeout value
  | pollInterval value => exact .pollInterval value
  | webpageRefreshInterval value => exact .webpageRefreshInterval value
  | memcacheReporter value => exact .memcacheReporter value

theorem derives_assignments1 (as : List Assignment) (hne : as ≠ []) :
    Derives .proxyMappingStatements1 (assignmentTokens as) := by
  induction as using List.reverseRecOn with
  | nil => contradiction
  | append_singleton as a ih =>
    have hlast : assignmentTokens (as ++ [a]) = assignmentTokens as ++ a.tokens := by
      simp [assignmentTokens]
    rw [hlast]
    by_cases has : as = []
    · subst has
      exact .firstMappingStatement (derives_assignment a)
    · exact .nextMappingStatement (ih has) (derives_assignment a)

theorem derives_block (as : List Assignment) :
    Derives .proxyMappingBlock (Statement.proxyMapping as).tokens := by
  apply Derives.block
  by_cases has : as = []
  · subst has
    exact .noMappingStatements
  · exact .mappingStatements (derives_assignments1 as has)

theorem derives_statement (stmt : Statement) : Derives .statement stmt.tokens := by
  cases stmt with
  | uri value => exact .uri value
  | proxyMapping as => exact .mapping (derives_block as)

theorem derives_statements1 (stmts : List Statement) (hne : stmts ≠ []) :
    Derives .statements1 (statementTokens stmts) := by
  induction stmts using List.reverseRecOn with
  | nil => contradiction
  | append_singleton stmts stmt ih =>
    have hlast : statementTokens (stmts ++ [stmt]) = statementTokens stmts ++ stmt.tokens := by
      simp [statementTokens]
    rw [hlast]
    by_cases hstmts : stmts = []
    · subst hstmts
      exact .firstStatement (derives_statement stmt)
    · exact .nextStatement (ih hstmts) (derives_statement stmt)

/-- What is derived from `config` is what the statements spell. -/
theorem derives_config_iff {ts : List Token} :
    Derives .config ts ↔ ∃ stmts, ts = configTokens stmts := by
  constructor
  · exact Derives.spells
  · rintro ⟨stmts, rfl⟩
    apply Derives.config
    by_cases hstmts : stmts = []
    · subst hstmts
      exact .noStatements
    · exact .statements (derives_statements1 stmts hstmts)

/-- The whole file is scanned, and derived from `config`. -/
def InGrammar (file : Bytes) : Prop :=
  (lexFile file).2 = .eof ∧ Derives .config (lexFile file).1

/-- A lexical error right after the closing brace of a configuration. -/
def CutAfterBrace (lookup : Bytes → Option Nat) (file : Bytes) : Prop :=
  (lexFile file).2 = .bad ∧
    ∃ stmts, (lexFile file).1 = configTokens stmts ∧
      (evalStatements lookup .initial stmts).isSome = true

/-- An accepted file is in the grammar and without a lexical error, unless the
error comes after the closing brace. -/
theorem accepted_inGrammar_iff (lookup : Bytes → Option Nat) (file : Bytes) :
    ((∃ s, yyparse lookup (lexFile file) = .returned 0 s) →
      InGrammar file ∧ (lexFile file).2 ≠ .bad) ↔ ¬CutAfterBrace lookup file := by
  constructor
  · rintro h ⟨hbad, stmts, htokens, heval⟩
    obtain ⟨s, hs⟩ := Option.isSome_iff_exists.mp heval
    have haccepted : yyparse lookup (lexFile file) = .returned 0 s := by
      rw [← Prod.mk.eta (p := lexFile file), htokens, hbad]
      exact yyparse_accepts.mpr ⟨nofun, hs⟩
    exact (h ⟨s, haccepted⟩).2 hbad
  · rintro h ⟨s, hs⟩
    have hreturned : yyparse lookup ((lexFile file).1, (lexFile file).2) = .returned 0 s := hs
    obtain ⟨stmts, s1, rest, htokens, heval, hret⟩ := yyparse_returned hreturned
    cases hret with
    | accepted hfinal =>
      have hne : (lexFile file).2 ≠ .bad := by
        intro hbad
        apply h
        exact ⟨hbad, stmts, htokens, by rw [heval]; rfl⟩
      have heof : (lexFile file).2 = .eof := by
        cases hf : (lexFile file).2 with
        | eof => rfl
        | bad => exact absurd hf hne
        | exited => exact absurd hf hfinal
      exact ⟨⟨heof, derives_config_iff.mpr ⟨stmts, htokens⟩⟩, hne⟩

/-- A configuration and then a word that is no keyword. -/
def trailingFile : Bytes := ascii
  "memcache-stats-proxy-settings \x7b uri \"items\"; \x7d proxymapping"

theorem trailingFile_tokens :
    lexFile trailingFile = (configTokens [.uri (ascii "items")], .bad) := by
  rw [trailingFile, ascii_ofList]
  decide +kernel

theorem accepted_trailingFile : ¬∀ file,
    (∃ s, yyparse sampleLookup (lexFile file) = .returned 0 s) →
      InGrammar file ∧ (lexFile file).2 ≠ .bad := by
  intro h
  have haccepted : ∃ s, yyparse sampleLookup (lexFile trailingFile) = .returned 0 s := by
    rw [trailingFile_tokens]
    exact ⟨_, rfl⟩
  apply (h trailingFile haccepted).2
  rw [trailingFile_tokens]

end StatsProxy

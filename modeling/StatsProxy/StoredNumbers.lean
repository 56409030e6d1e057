import StatsProxy.ProxyMappings
import StatsProxy.WrittenNumbers

/-! The numbers of an accepted file and the fields they are stored in. An interval that
is too large for its field wraps around, and a port is what `strtoul` makes of any text. -/
namespace StatsProxy
open CString

namespace Assignment

/-- The statement as the parser sees it. -/
def stored : Assignment → Assignment
  | .timeout value => .timeout (toSizeT value)
  | .pollInterval value => .pollInterval (toSizeT value)
  | .webpageRefreshInterval value => .webpageRefreshInterval (toSizeT value)
  | a => a

end Assignment

def Statement.stored : Statement → Statement
  | .uri value => .uri value
  | .proxyMapping as => .proxyMapping (as.map Assignment.stored)

/-- A port in decimal digits. -/
structure DecimalPort (text : Bytes) (port : Nat) : Prop where
  ne : text ≠ []
  digits : ∀ ch ∈ text, isDigit ch = true
  value : decimalValue text = port
  pos : 1 ≤ port
  le : port ≤ 65535

/-- A `STRING` of the form `host:text`, with what holds of its text. -/
def HostText (p : Bytes → Prop) (value : Bytes) : Prop :=
  ∃ host text, strchr value 58 = some (host, text) ∧ p text

namespace Assignment

/-- The fields of a statement hold the numbers that are written in it. -/
def StoredIn (l : LocalSettings) : Assignment → Prop
  | .frontEnd value => HostText (DecimalPort · l.frontport) value
  | .backEnd value => HostText (DecimalPort · l.backport) value
  | .timeout value =>
    l.connectMs = 1000 * value ∧ l.readMs = 1000 * value ∧ l.writeMs = 1000 * value
  | .pollInterval value => l.pollfreqMs = 1000 * value
  | .webpageRefreshInterval value => l.refreshfreqMs = 1000 * value
  | .memcacheReporter _ => True

/-- The numbers of a statement fit into its fields: an interval has less than 2^31
milliseconds, and a port is a decimal number from 1 to 65535. -/
def Fits : Assignment → Prop
  | .frontEnd value | .backEnd value =>
    HostText (fun text => DecimalPort text (decimalValue text)) value
  | .timeout value | .pollInterval value | .webpageRefreshInterval value => 1000 * value < 2 ^ 31
  | .memcacheReporter _ => True

end Assignment

/-- The parser after some tokens, if it goes on. -/
def parseTokens (lookup : Bytes → Option Nat) : Settings → Position → List Token →
    Option (Position × Settings)
  | s, p, [] => some (p, s)
  | s, p, t :: rest => match parseToken lookup s t p with
    | .inl _ => none
    | .inr (p', s') => parseTokens lookup s' p' rest

/-- After each statement of a proxy mapping its fields hold the numbers written in it. -/
def StoredAtOnce (lookup : Bytes → Option Nat) (file : Bytes) : Prop :=
  ∀ front (a : Assignment) back, writtenFile file = front ++ a.tokens ++ back →
    ∃ s, parseTokens lookup .initial .config ((front ++ a.tokens).map Token.stored) =
        some (.block, s) ∧ a.StoredIn s.localSettings

/-- Each backend has the numbers of the last statements of its proxy mapping. -/
def StoredInBackends (file : Bytes) (proxies : List Backend) : Prop :=
  ∀ before front a back after bep,
    writtenFile file = configTokens (before ++ .proxyMapping (front ++ a :: back) :: after) →
    (∀ b ∈ back, b.keyword ≠ a.keyword) →
    proxies[(before.filter Statement.isMapping).length]? = some bep → a.StoredIn bep.settings

section

variable {lookup : Bytes → Option Nat} {s s' : Settings} {p : Position} {final : Final}

theorem stored_tokens (a : Assignment) : a.tokens.map Token.stored = a.stored.tokens := by
  cases a <;> rfl

theorem stored_keyword (a : Assignment) : a.stored.keyword = a.keyword := by
  cases a <;> rfl

/-- A parse that ends at a token does not accept. -/
theorem parseToken_inl {t : Token} {o : Outcome} (h : parseToken lookup s t p = .inl o) :
    o ≠ .returned 0 s' := by
  have hend : ∀ o, endOfBlock lookup s = .inl o → o ≠ .returned 0 s' := by
    intro o ho hreturned
    rw [hreturned] at ho
    exact absurd (endOfBlock_returned ho).1 (by decide)
  cases p <;> simp only [parseToken] at h
  case block =>
    repeat' split at h
    all_goals first
      | contradiction
      | (cases h; rename_i heq; exact hend _ heq)
      | (cases h; simp)
  all_goals
    repeat' split at h
    all_goals first
      | contradiction
      | (cases h; simp)

/-- An accepting parse goes on after every part of its input. -/
theorem parse_front {front back : List Token}
    (h : parse lookup s p final (front ++ back) = .returned 0 s') :
    ∃ p1 s1, parseTokens lookup s p front = some (p1, s1) ∧
      parse lookup s1 p1 final back = .returned 0 s' := by
  induction front generalizing s p with
  | nil => exact ⟨p, s, rfl, h⟩
  | cons t front ih =>
    rw [List.cons_append, parse] at h
    cases hstep : parseToken lookup s t p with
    | inl o =>
      rw [hstep] at h
      exact absurd h (parseToken_inl hstep)
    | inr next =>
      rw [hstep] at h
      obtain ⟨p1, s1, hfront, hback⟩ := ih h
      refine ⟨p1, s1, ?_, hback⟩
      rw [parseTokens, hstep]
      exact hfront

theorem parseTokens_append {front back : List Token} {p1 : Position} {s1 : Settings}
    (h : parseTokens lookup s p front = some (p1, s1)) :
    parseTokens lookup s p (front ++ back) = parseTokens lookup s1 p1 back := by
  induction front generalizing s p with
  | nil =>
    cases h
    rfl
  | cons t front ih =>
    rw [List.cons_append, parseTokens]
    rw [parseTokens] at h
    cases hstep : parseToken lookup s t p with
    | inl o =>
      rw [hstep] at h
      contradiction
    | inr next =>
      rw [hstep] at h
      exact ih h

/-- The keyword of a statement is read in a block only. -/
theorem parseToken_assigns {k : Keyword} (hk : k.assigns = true) {next : Position × Settings}
    (h : parseToken lookup s (.keyword k) p = .inr next) : p = .block := by
  cases p with
  | block => rfl
  | value k' =>
    simp only [parseToken] at h
    cases k' <;> contradiction
  | _ =>
    simp only [parseToken] at h
    cases k <;> contradiction

/-- In an accepted file a statement is accepted, and its action has run when its tokens
have been read. -/
theorem parse_statementOf {front back : List Token} {a : Assignment}
    (h : parse lookup s p final (front ++ a.tokens ++ back) = .returned 0 s') :
    ∃ s1, parseTokens lookup s p (front ++ a.tokens) =
        some (.block, assignBlock s1 [a]) ∧ a.accepted = true := by
  rw [List.append_assoc] at h
  obtain ⟨p1, s1, hfront, hrest⟩ := parse_front h
  have hblock : p1 = .block := by
    have hk := assigns_keyword a
    simp only [Assignment.tokens, List.cons_append, parse] at hrest
    cases hstep : parseToken lookup s1 (.keyword a.keyword) p1 with
    | inl o =>
      rw [hstep] at hrest
      exact absurd hrest (parseToken_inl hstep)
    | inr next => exact parseToken_assigns hk hstep
  subst hblock
  rw [parse_assignment] at hrest
  split at hrest
  · next ha =>
    refine ⟨s1, ?_, ha⟩
    rw [parseTokens_append hfront]
    simp only [Assignment.tokens, parseTokens, parseToken, Token.assigns, assigns_keyword,
      assignment_value, if_true, ha]
    rfl
  · cases hrest

theorem milliseconds_exact_iff (n : Nat) :
    milliseconds (toSizeT n) = 1000 * n ↔ 1000 * n < 2 ^ 31 := by
  constructor
  · intro h
    unfold milliseconds toInt32 at h
    have hlt := Int.bmod_lt (x := ((toSizeT n * 1000 % 2 ^ 64 : Nat) : Int)) (m := 2 ^ 32)
      (by decide)
    rw [h] at hlt
    omega
  · intro h
    have hvalue : toSizeT n = n := Nat.mod_eq_of_lt (by omega)
    have hproduct : n * 1000 % 2 ^ 64 = 1000 * n := by omega
    unfold milliseconds toInt32
    rw [hvalue, hproduct, Int.bmod_eq_of_le (by omega) (by omega)]
    omega

theorem strchr_front {text host rest : Bytes} {ch : UInt8} (h : strchr text ch = some (host, rest))
    (more : Bytes) : strchr (text ++ more) ch = some (host, rest ++ more) := by
  induction text generalizing host with
  | nil => contradiction
  | cons c text ih =>
    rw [List.cons_append, strchr]
    rw [strchr] at h
    split
    · next hc =>
      rw [if_pos hc] at h
      cases h
      rfl
    · next hc =>
      rw [if_neg hc, Option.map_eq_some_iff] at h
      obtain ⟨p, hp, hpair⟩ := h
      cases hpair
      rw [ih hp]
      rfl

/-- A text of digits is read as its number, if it is a port. -/
theorem hostPort_decimal {value host text : Bytes} {p : Bytes × Nat} {port : Nat}
    (h : hostPort value = some p) (htext : strchr value 58 = some (host, text))
    (hport : DecimalPort text port) : p.2 = port := by
  obtain ⟨q, hq, rfl⟩ := Option.map_eq_some_iff.mp h
  have hsplit := List.takeWhile_append_dropWhile (p := (· ≠ 0)) (l := value)
  rw [← cString] at hsplit
  have hwhole := strchr_front hq (value.dropWhile (· ≠ 0))
  rw [hsplit, htext] at hwhole
  cases hwhole
  -- the text ends before the first NUL, which is no digit
  have hend : value.dropWhile (· ≠ 0) = [] := by
    by_contra hne
    have hnul := List.head_dropWhile_not (fun c : UInt8 => c ≠ 0) hne
    have hdigit := hport.digits _ (List.mem_append_right q.2 (List.head_mem hne))
    simp only [ne_eq, decide_not, Bool.not_eq_false', decide_eq_true_eq] at hnul hdigit
    rw [hnul] at hdigit
    contradiction
  have hsame := hport.value
  have hdigits := hport.digits
  rw [hend, List.append_nil] at hsame hdigits
  have hle := hport.le
  show toUInt16 (strtoul q.2) = port
  rw [strtoul_digits hdigits (by omega), hsame, toUInt16]
  omega

/-- The port that is read is the written one exactly if the text is a port. -/
theorem hostText_iff {value : Bytes} {p : Bytes × Nat} (h : hostPort value = some p) :
    HostText (DecimalPort · p.2) value ↔
      HostText (fun text => DecimalPort text (decimalValue text)) value := by
  constructor
  · rintro ⟨host, text, htext, hport⟩
    exact ⟨host, text, htext, ⟨hport.ne, hport.digits, rfl, hport.value ▸ hport.pos,
      hport.value ▸ hport.le⟩⟩
  · rintro ⟨host, text, htext, hport⟩
    refine ⟨host, text, htext, ?_⟩
    rw [hostPort_decimal h htext hport]
    exact hport

/-- After an action its fields hold what is written exactly if it fits. -/
theorem storedIn_iff {a : Assignment} (ha : a.stored.accepted = true) (l : LocalSettings) :
    a.StoredIn (a.stored.apply l) ↔ a.Fits := by
  cases a with
  | frontEnd value =>
    obtain ⟨p, hp⟩ := Option.isSome_iff_exists.mp ha
    simp only [Assignment.stored, Assignment.apply, hp, Assignment.StoredIn, Assignment.Fits]
    exact hostText_iff hp
  | backEnd value =>
    obtain ⟨p, hp⟩ := Option.isSome_iff_exists.mp ha
    simp only [Assignment.stored, Assignment.apply, hp, Assignment.StoredIn, Assignment.Fits]
    exact hostText_iff hp
  | timeout value =>
    simp only [Assignment.stored, Assignment.apply, LocalSettings.setTimeout, Assignment.StoredIn,
      Assignment.Fits, and_self]
    exact milliseconds_exact_iff value
  | pollInterval value =>
    simp only [Assignment.stored, Assignment.apply, LocalSettings.setPollInterval,
      Assignment.StoredIn, Assignment.Fits]
    exact milliseconds_exact_iff value
  | webpageRefreshInterval value =>
    simp only [Assignment.stored, Assignment.apply, LocalSettings.setRefreshInterval,
      Assignment.StoredIn, Assignment.Fits]
    exact milliseconds_exact_iff value
  | memcacheReporter value => exact Iff.rfl

/-- Statements of other kinds leave the fields of a statement alone. -/
theorem storedIn_assignAll {a : Assignment} {back : List Assignment}
    (hback : ∀ b ∈ back, b.keyword ≠ a.keyword) {l : LocalSettings} (h : a.StoredIn l) :
    a.StoredIn (assignAll l back) := by
  have hlast : ∀ {α : Type} (key : Assignment → Option α),
      (∀ b, b.keyword ≠ a.keyword → key b = none) → last key back = none := by
    intro α key hkey
    exact last_eq_none.mpr fun b hb => hkey b (hback b hb)
  rw [assignAll_eq]
  cases a with
  | frontEnd value =>
    have hnone := hlast Assignment.front fun b hb => by cases b <;> first | rfl | contradiction
    simp only [Assignment.StoredIn, hnone, Option.map_none, Option.getD_none]
    exact h
  | backEnd value =>
    have hnone := hlast Assignment.back fun b hb => by cases b <;> first | rfl | contradiction
    simp only [Assignment.StoredIn, hnone, Option.map_none, Option.getD_none]
    exact h
  | timeout value =>
    have hnone := hlast Assignment.timeoutMs fun b hb => by
      cases b <;> first | rfl | contradiction
    simp only [Assignment.StoredIn, hnone, Option.getD_none]
    exact h
  | pollInterval value =>
    have hnone := hlast Assignment.pollMs fun b hb => by cases b <;> first | rfl | contradiction
    simp only [Assignment.StoredIn, hnone, Option.getD_none]
    exact h
  | webpageRefreshInterval value =>
    have hnone := hlast Assignment.refreshMs fun b hb => by
      cases b <;> first | rfl | contradiction
    simp only [Assignment.StoredIn, hnone, Option.getD_none]
    exact h
  | memcacheReporter value => exact trivial

/-- The backend takes the fields over: an interval that has been set is not zero. -/
theorem storedIn_backend {as : List Assignment} {a : Assignment} {bep : Backend}
    (hbep : blockBackend lookup s as = some bep) (ha : a.stored.accepted = true)
    (h : a.StoredIn (assignAll (startBlock s).localSettings as)) : a.StoredIn bep.settings := by
  obtain ⟨backaddr, frontaddr, -, -, hsettings, -⟩ := blockBackend_settings hbep
  have hlocal : ∀ {x g : Int} {n : Nat}, decide (0 < milliseconds (toSizeT n)) = true →
      x = 1000 * n → localOrGlobal x g = 1000 * n := by
    intro x g n hpos hx
    have hn : n ≠ 0 := by
      rintro rfl
      exact absurd hpos (by decide)
    unfold localOrGlobal
    rw [if_pos (by omega), hx]
  rw [hsettings]
  cases a with
  | timeout value => exact ⟨hlocal ha h.1, hlocal ha h.2.1, hlocal ha h.2.2⟩
  | pollInterval value => exact hlocal ha h
  | webpageRefreshInterval value => exact hlocal ha h
  | _ => exact h

end

theorem configTokens_stored (stmts : List Statement) :
    (configTokens stmts).map Token.stored = configTokens (stmts.map Statement.stored) := by
  have has : ∀ as : List Assignment,
      (assignmentTokens as).map Token.stored = assignmentTokens (as.map Assignment.stored) := by
    intro as
    induction as with
    | nil => rfl
    | cons a as ih =>
      rw [assignmentTokens, List.flatMap_cons, List.map_append, stored_tokens,
        ← assignmentTokens, ih]
      rfl
  have hstmt : ∀ stmt : Statement, stmt.tokens.map Token.stored = stmt.stored.tokens := by
    intro stmt
    cases stmt with
    | uri value => rfl
    | proxyMapping as =>
      rw [Statement.tokens, List.map_append, List.map_append, has]
      rfl
  have hstmts : (statementTokens stmts).map Token.stored =
      statementTokens (stmts.map Statement.stored) := by
    induction stmts with
    | nil => rfl
    | cons stmt stmts ih =>
      rw [statementTokens, List.flatMap_cons, List.map_append, hstmt, ← statementTokens, ih]
      rfl
  rw [configTokens, List.map_append, List.map_append, hstmts]
  rfl

/-- A statement of a block stands in the file. -/
theorem configTokens_assignment (before after : List Statement) (front back : List Assignment)
    (a : Assignment) : ∃ left right,
      configTokens (before ++ .proxyMapping (front ++ a :: back) :: after) =
        left ++ a.tokens ++ right := by
  refine ⟨configOpening ++ statementTokens before ++ [.keyword .proxyMapping, .punct 123] ++
    assignmentTokens front, assignmentTokens back ++ .punct 125 :: statementTokens after ++
      [.punct 125], ?_⟩
  simp [configTokens, statementTokens, assignmentTokens, Statement.tokens]

theorem filter_stored (stmts : List Statement) :
    ((stmts.map Statement.stored).filter Statement.isMapping).length =
      (stmts.filter Statement.isMapping).length := by
  induction stmts with
  | nil => rfl
  | cons stmt stmts ih =>
    cases stmt with
    | uri value => exact ih
    | proxyMapping as => exact congrArg (· + 1) ih

section

variable {lookup : Bytes → Option Nat} {file : Bytes} {s' : Settings}

/-- Each statement of an accepted file is accepted, and its action runs at its end. -/
theorem yyparse_statementOf (h : yyparse lookup (lexFile file) = .returned 0 s')
    {front back : List Token} {a : Assignment}
    (hfile : writtenFile file = front ++ a.tokens ++ back) :
    ∃ s, parseTokens lookup .initial .config ((front ++ a.tokens).map Token.stored) =
      some (.block, assignBlock s [a.stored]) ∧ a.stored.accepted = true := by
  rw [yyparse, lexFile_written, hfile, List.map_append, List.map_append, stored_tokens] at h
  obtain ⟨s, hs, ha⟩ := parse_statementOf h
  rw [List.map_append, stored_tokens]
  exact ⟨s, hs, ha⟩

theorem storedAtOnce_iff (h : yyparse lookup (lexFile file) = .returned 0 s') :
    StoredAtOnce lookup file ↔
      ∀ front (a : Assignment) back, writtenFile file = front ++ a.tokens ++ back → a.Fits := by
  constructor
  · intro hatOnce front a back hfile
    obtain ⟨s, hs, hstored⟩ := hatOnce front a back hfile
    obtain ⟨s1, hs1, ha⟩ := yyparse_statementOf h hfile
    cases hs.symm.trans hs1
    exact (storedIn_iff ha s1.localSettings).mp hstored
  · intro hfits front a back hfile
    obtain ⟨s, hs, ha⟩ := yyparse_statementOf h hfile
    exact ⟨_, hs, (storedIn_iff ha s.localSettings).mpr (hfits front a back hfile)⟩

/-- Numbers that fit stay in their fields up to the backend. -/
theorem storedInBackends_of_fits (h : yyparse lookup (lexFile file) = .returned 0 s')
    (hfits : ∀ front (a : Assignment) back,
      writtenFile file = front ++ a.tokens ++ back → a.Fits) :
    StoredInBackends file s'.proxies := by
  intro before front a back after bep hfile hback hbep
  obtain ⟨left, right, hsplit⟩ := configTokens_assignment before after front back a
  have hthere := hfile.trans hsplit
  obtain ⟨-, -, ha⟩ := yyparse_statementOf h hthere
  have htokens := lexFile_written file
  rw [hfile, configTokens_stored, List.map_append, List.map_cons] at htokens
  have hparse : yyparse lookup (configTokens (before.map Statement.stored ++
      .proxyMapping ((front ++ a :: back).map Assignment.stored) ::
        after.map Statement.stored), (lexFile file).2) = .returned 0 s' := by
    rw [← h, yyparse, yyparse, htokens]
    rfl
  obtain ⟨-, s, bep', -, hblock, hindex⟩ := accepted_block hparse
  rw [filter_stored, hbep] at hindex
  cases hindex
  apply storedIn_backend hblock.backend ha
  rw [List.map_append, List.map_cons, assignAll, List.foldl_append, List.foldl_cons, ← assignAll]
  apply storedIn_assignAll
  · intro b hb
    obtain ⟨b', hb', rfl⟩ := List.mem_map.mp hb
    rw [stored_keyword]
    exact hback b' hb'
  · exact (storedIn_iff ha _).mpr (hfits left a right hthere)

end

/-- The numbers of an accepted file are stored as they are written exactly if they all
fit. -/
theorem numbersStored_iff (lookup : Bytes → Option Nat) (file : Bytes) (s' : Settings)
    (h : yyparse lookup (lexFile file) = .returned 0 s') :
    StoredAtOnce lookup file ∧ StoredInBackends file s'.proxies ↔
      ∀ front (a : Assignment) back, writtenFile file = front ++ a.tokens ++ back → a.Fits := by
  rw [storedAtOnce_iff h]
  exact and_iff_left_of_imp (storedInBackends_of_fits h)

def hexadecimalFile : Bytes := ascii
  "memcache-stats-proxy-settings \x7b
     proxy-mapping \x7b front-end = \"a:8080\"; back-end = \"b:11211\"; timeout = 0x12; \x7d
   \x7d"

theorem numbersStored_hexadecimalFile : ∃ s : Settings,
    (StoredAtOnce sampleLookup hexadecimalFile ∧ StoredInBackends hexadecimalFile s.proxies ↔
      ∀ front (a : Assignment) back,
        writtenFile hexadecimalFile = front ++ a.tokens ++ back → a.Fits) := by
  have hfile : lexFile hexadecimalFile = (configTokens [.proxyMapping
      [.frontEnd (ascii "a:8080"), .backEnd (ascii "b:11211"), .timeout 18]], .eof) := by
    rw [hexadecimalFile, ascii_ofList]
    decide +kernel
  have haccepted : ∃ s, yyparse sampleLookup (lexFile hexadecimalFile) = .returned 0 s := by
    rw [hfile]
    exact ⟨_, rfl⟩
  obtain ⟨s, hs⟩ := haccepted
  exact ⟨s, numbersStored_iff sampleLookup hexadecimalFile s hs⟩

/-- A timeout of about seven weeks. -/
def wrappedFile : Bytes := ascii
  "memcache-stats-proxy-settings \x7b
     proxy-mapping \x7b front-end = \"a:8080\"; back-end = \"b:11211\"; timeout = 4294968; \x7d
   \x7d"

def wrappedStatements : List Statement :=
  [.proxyMapping [.frontEnd (ascii "a:8080"), .backEnd (ascii "b:11211"), .timeout 4294968]]

theorem wrappedFile_accepted :
    ∃ s, yyparse sampleLookup (lexFile wrappedFile) = .returned 0 s := by
  have hfile : lexFile wrappedFile = (configTokens wrappedStatements, .eof) := by
    rw [wrappedFile, ascii_ofList]
    decide +kernel
  rw [hfile]
  exact ⟨_, rfl⟩

/-- It is stored as 704 milliseconds. -/
theorem numbersStored_fails : ¬∀ (file : Bytes) (s' : Settings),
    yyparse sampleLookup (lexFile file) = .returned 0 s' →
      StoredAtOnce sampleLookup file ∧ StoredInBackends file s'.proxies := by
  intro h
  obtain ⟨s', hs'⟩ := wrappedFile_accepted
  have hwritten : writtenFile wrappedFile = configTokens wrappedStatements := by
    rw [wrappedFile, ascii_ofList]
    decide +kernel
  obtain ⟨s, hs, hstored⟩ := (h wrappedFile s' hs').1
    ((configTokens wrappedStatements).take 12) (.timeout 4294968) [.punct 125, .punct 125]
    (by rw [hwritten]; rfl)
  have hms : (parseTokens sampleLookup .initial .config
      (((configTokens wrappedStatements).take 12 ++
        (Assignment.timeout 4294968).tokens).map Token.stored)).map
          (·.2.localSettings.connectMs) = some 704 := by
    decide +kernel
  rw [hs, Option.map_some, Option.some.injEq] at hms
  have hconnect := hstored.1
  rw [hms] at hconnect
  exact absurd hconnect (by decide)

end StatsProxy

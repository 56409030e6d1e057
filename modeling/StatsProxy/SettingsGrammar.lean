import StatsProxy.SettingsParser

/-! The grammar of the settings file with its meaning, rule by rule, and the
automaton against it: what a sequence of statements means is what the parser
does with its tokens, and a file that the parser does not leave by `exit` is a
sequence of statements, whole or cut short in one block. -/
namespace StatsProxy
open CString

inductive Statement where
  | uri (value : Bytes)
  | proxyMapping (assignments : List Assignment)
deriving DecidableEq

def Assignment.tokens (a : Assignment) : List Token :=
  [.keyword a.keyword, .punct 61, a.value, .punct 59]

def assignmentTokens (as : List Assignment) : List Token := as.flatMap Assignment.tokens

def Statement.tokens : Statement → List Token
  | .uri value => [.keyword .uri, .string value, .punct 59]
  | .proxyMapping as =>
    [.keyword .proxyMapping, .punct 123] ++ assignmentTokens as ++ [.punct 125]

def statementTokens (stmts : List Statement) : List Token := stmts.flatMap Statement.tokens

def configOpening : List Token := [.keyword .memcacheStatsProxySettings, .punct 123]

def configTokens (stmts : List Statement) : List Token :=
  configOpening ++ statementTokens stmts ++ [.punct 125]

/-- The stores of a list of statements of a block, in order. -/
def assignAll (l : LocalSettings) (as : List Assignment) : LocalSettings :=
  as.foldl (fun l a => a.apply l) l

def assignBlock (s : Settings) (as : List Assignment) : Settings :=
  { s with localSettings := assignAll s.localSettings as }

/-- A whole statement; `none` if it is rejected or a host cannot be resolved. -/
def Statement.eval (lookup : Bytes → Option Nat) (s : Settings) : Statement → Option Settings
  | .uri value => some (addGlobalUri s (cString value))
  | .proxyMapping as =>
    if as.all Assignment.accepted then (endOfBlock lookup (assignBlock (startBlock s) as)).getRight?
    else none

def evalStatements (lookup : Bytes → Option Nat) : Settings → List Statement → Option Settings
  | s, [] => some s
  | s, stmt :: rest => (stmt.eval lookup s).bind (evalStatements lookup · rest)

theorem evalStatements_append {lookup : Bytes → Option Nat} {s : Settings}
    (front back : List Statement) :
    evalStatements lookup s (front ++ back) =
      (evalStatements lookup s front).bind (evalStatements lookup · back) := by
  induction front generalizing s with
  | nil => rfl
  | cons stmt front ih =>
    simp only [List.cons_append, evalStatements, Option.bind_assoc]
    congr 1
    funext s'
    exact ih

section

variable {lookup : Bytes → Option Nat} {s : Settings} {final : Final}

theorem assigns_keyword (a : Assignment) : a.keyword.assigns = true := by
  cases a <;> rfl

theorem assignment_value (a : Assignment) : assignment a.keyword a.value = some a := by
  cases a <;> rfl

theorem assignment_some {k : Keyword} {t : Token} {a : Assignment}
    (h : assignment k t = some a) : k = a.keyword ∧ t = a.value := by
  unfold assignment at h
  split at h <;> first | contradiction | (cases h; exact ⟨rfl, rfl⟩)

/-- One statement of a block. -/
theorem parse_assignment (a : Assignment) (rest : List Token) :
    parse lookup s .block final (a.tokens ++ rest) =
      if a.accepted then parse lookup (assignBlock s [a]) .block final rest
      else .returned 1 (assignBlock s [a]) := by
  simp only [Assignment.tokens, List.cons_append, List.nil_append, parse, parseToken,
    Token.assigns, assigns_keyword, assignment_value, if_true]
  split
  · rename_i o heq
    split at heq
    · contradiction
    · rename_i ha
      cases heq
      rw [if_neg ha]
      rfl
  · rename_i p' s' heq
    split at heq
    · rename_i ha
      cases heq
      rw [if_pos ha]
      rfl
    · contradiction

theorem parse_assignments (as : List Assignment) (has : as.all Assignment.accepted = true)
    (rest : List Token) :
    parse lookup s .block final (assignmentTokens as ++ rest) =
      parse lookup (assignBlock s as) .block final rest := by
  induction as generalizing s with
  | nil => rfl
  | cons a as ih =>
    rw [List.all_cons, Bool.and_eq_true] at has
    rw [assignmentTokens, List.flatMap_cons, List.append_assoc, parse_assignment, if_pos has.1]
    exact ih has.2

theorem parse_uri (value : Bytes) (rest : List Token) :
    parse lookup s .statements final ((Statement.uri value).tokens ++ rest) =
      parse lookup (addGlobalUri s (cString value)) .statements final rest := by
  simp [Statement.tokens, parse, parseToken]

theorem parse_blockOpen (rest : List Token) :
    parse lookup s .statements final ([.keyword .proxyMapping, .punct 123] ++ rest) =
      parse lookup (startBlock s) .block final rest := by
  simp [parse, parseToken]

/-- The end of a block whose statements have been read. -/
theorem parse_blockEnd {s' : Settings} (h : endOfBlock lookup s = .inr s') (rest : List Token) :
    parse lookup s .block final (.punct 125 :: rest) =
      parse lookup s' .statements final rest := by
  simp [parse, parseToken, Token.assigns, h]

theorem parse_statement {stmt : Statement} {s' : Settings} (h : stmt.eval lookup s = some s')
    (rest : List Token) :
    parse lookup s .statements final (stmt.tokens ++ rest) =
      parse lookup s' .statements final rest := by
  cases stmt with
  | uri value =>
    cases h
    exact parse_uri value rest
  | proxyMapping as =>
    simp only [Statement.eval] at h
    split at h
    · rename_i has
      rw [Statement.tokens, List.append_assoc, List.append_assoc, parse_blockOpen,
        parse_assignments as has, List.singleton_append]
      apply parse_blockEnd
      exact Sum.getRight?_eq_some_iff.mp h
    · contradiction

/-- What statements mean is what the parser does. -/
theorem parse_statements {stmts : List Statement} {s' : Settings}
    (h : evalStatements lookup s stmts = some s') (rest : List Token) :
    parse lookup s .statements final (statementTokens stmts ++ rest) =
      parse lookup s' .statements final rest := by
  induction stmts generalizing s with
  | nil =>
    cases h
    rfl
  | cons stmt stmts ih =>
    simp only [evalStatements, Option.bind_eq_some_iff] at h
    obtain ⟨s1, hstmt, hrest⟩ := h
    rw [statementTokens, List.flatMap_cons, List.append_assoc, parse_statement hstmt]
    exact ih hrest

theorem yyparse_opening (stmts : List Statement) {s1 : Settings}
    (h : evalStatements lookup .initial stmts = some s1) (rest : List Token) :
    yyparse lookup (configOpening ++ statementTokens stmts ++ rest, final) =
      parse lookup s1 .statements final rest := by
  rw [List.append_assoc, ← parse_statements h]
  simp [yyparse, configOpening, parse, parseToken]

theorem parse_rejectedStatements {as : List Assignment}
    (has : as.all Assignment.accepted = false) (rest : List Token) (s' : Settings) :
    parse lookup s .block final (assignmentTokens as ++ rest) ≠ .returned 0 s' := by
  induction as generalizing s with
  | nil => contradiction
  | cons a as ih =>
    rw [assignmentTokens, List.flatMap_cons, List.append_assoc, parse_assignment]
    split
    · rename_i ha
      rw [List.all_cons, ha, Bool.true_and] at has
      exact ih has
    · simp

theorem parse_rejectedStatement {stmt : Statement} (h : stmt.eval lookup s = none)
    (rest : List Token) (s' : Settings) :
    parse lookup s .statements final (stmt.tokens ++ rest) ≠ .returned 0 s' := by
  cases stmt with
  | uri value => contradiction
  | proxyMapping as =>
    rw [Statement.tokens, List.append_assoc, List.append_assoc, parse_blockOpen]
    simp only [Statement.eval] at h
    split at h
    · rename_i has
      rw [parse_assignments as has]
      intro hreturn
      simp only [List.cons_append, List.nil_append, parse, parseToken, Token.assigns] at hreturn
      unfold endOfBlock at h hreturn
      split at h
      · rename_i hports
        simp [hports] at hreturn
      · rename_i hports
        simp only [hports, if_false] at hreturn
        split at h
        · rename_i hadd
          simp [hadd] at hreturn
        · contradiction
    · rename_i has
      exact parse_rejectedStatements (by simpa using has) _ s'

/-- The files that are accepted, and what they mean. -/
theorem yyparse_accepts {stmts : List Statement} {s' : Settings} :
    yyparse lookup (configTokens stmts, final) = .returned 0 s' ↔
      final ≠ .exited ∧ evalStatements lookup .initial stmts = some s' := by
  have hreject : ∀ (stmts : List Statement) (s : Settings) (rest : List Token),
      evalStatements lookup s stmts = none →
      parse lookup s .statements final (statementTokens stmts ++ rest) ≠ .returned 0 s' := by
    intro stmts
    induction stmts with
    | nil =>
      intro s rest h
      simp [evalStatements] at h
    | cons stmt stmts ih =>
      intro s rest h
      rw [statementTokens, List.flatMap_cons, List.append_assoc]
      cases hstmt : stmt.eval lookup s with
      | none => exact parse_rejectedStatement hstmt _ s'
      | some s1 =>
        rw [parse_statement hstmt]
        rw [evalStatements, hstmt] at h
        exact ih s1 rest h
  cases heval : evalStatements lookup .initial stmts with
  | none =>
    have hopen : yyparse lookup (configTokens stmts, final) =
        parse lookup .initial .statements final (statementTokens stmts ++ [.punct 125]) := by
      simp [yyparse, configTokens, configOpening, parse, parseToken]
    rw [hopen]
    exact iff_of_false (hreject stmts .initial [.punct 125] heval) fun h => nomatch h.2
  | some s1 =>
    rw [configTokens, yyparse_opening stmts heval]
    cases final <;> simp [parse, parseToken, parseFinal]

/-! The other direction: what the parser returns tells what it has read. -/

def NoAssignment (input : List Token) : Prop := ∀ t ∈ input.head?, t.assigns = none

/-- The part of a file from the opening brace of a block on, where a statement
aborts or the block ends without a port. -/
inductive RejectedBlock (l : LocalSettings) (final : Final) : List Token → Prop where
  | statement (as : List Assignment) (a : Assignment) (rest : List Token)
      (has : as.all Assignment.accepted = true) (ha : a.accepted = false) :
      RejectedBlock l final (assignmentTokens as ++ (a.tokens ++ rest))
  | ports (as : List Assignment) (rest : List Token)
      (has : as.all Assignment.accepted = true) (hrest : NoAssignment rest)
      (hfinal : rest = [] → final ≠ .exited)
      (hports : (assignAll l as).frontport = 0 ∨ (assignAll l as).backport = 0) :
      RejectedBlock l final (assignmentTokens as ++ rest)

theorem parseFinal_stops {p : Position} {rc : Nat} {s' : Settings}
    (h : parseFinal lookup s p final = .returned rc s') : p = .closed ∨ p = .block := by
  cases final <;> cases p <;> simp_all [parseFinal]

/-- Where only one token goes on, it comes next. -/
theorem parse_expected {p p' : Position} {t : Token} {input : List Token} {s1 s' : Settings}
    {rc : Nat} (h : parse lookup s p final input = .returned rc s')
    (hnext : ∀ c, parseToken lookup s c p = if c = t then .inr (p', s1) else .inl (.exited s))
    (hp : ¬(p = .closed ∨ p = .block)) :
    ∃ rest, input = t :: rest ∧ parse lookup s1 p' final rest = .returned rc s' := by
  cases input with
  | nil => exact absurd (parseFinal_stops h) hp
  | cons c rest =>
    rw [parse, hnext] at h
    by_cases hc : c = t
    · rw [if_pos hc] at h
      exact ⟨rest, by rw [hc], h⟩
    · rw [if_neg hc] at h
      contradiction

theorem parse_equals_returned {k : Keyword} {input : List Token} {rc : Nat} {s' : Settings}
    (h : parse lookup s (.equals k) final input = .returned rc s') :
    ∃ (a : Assignment) (rest : List Token), a.keyword = k ∧
      input = .punct 61 :: a.value :: .punct 59 :: rest := by
  obtain ⟨input, rfl, hvalue⟩ := parse_expected h (fun _ => rfl) (by simp)
  cases input with
  | nil => exact absurd (parseFinal_stops hvalue) (by simp)
  | cons v input =>
    simp only [parse, parseToken] at hvalue
    cases hv : assignment k v with
    | none => simp [hv] at hvalue
    | some a =>
      obtain ⟨rfl, rfl⟩ := assignment_some hv
      simp only [hv] at hvalue
      cases input with
      | nil => exact absurd (parseFinal_stops hvalue) (by simp)
      | cons c rest =>
        by_cases hc : c = .punct 59
        · subst hc
          exact ⟨a, rest, rfl, rfl⟩
        · simp [parse, parseToken, hc] at hvalue

/-- Either a statement aborts, or the statements of the block are read to the
end. -/
theorem parse_block_returned {input : List Token} {rc : Nat} {s' : Settings}
    (h : parse lookup s .block final input = .returned rc s') :
    (∃ (as : List Assignment) (a : Assignment) (rest : List Token),
      input = assignmentTokens as ++ (a.tokens ++ rest) ∧
      as.all Assignment.accepted = true ∧ a.accepted = false ∧ rc = 1 ∧
      s'.proxies = s.proxies) ∨
    ∃ as rest, input = assignmentTokens as ++ rest ∧ as.all Assignment.accepted = true ∧
      NoAssignment rest ∧ parse lookup (assignBlock s as) .block final rest = .returned rc s' := by
  induction hlen : input.length using Nat.strongRecOn generalizing input s with
  | ind n ih =>
    cases input with
    | nil => exact Or.inr ⟨[], [], rfl, rfl, nofun, h⟩
    | cons t tail =>
      cases ht : t.assigns with
      | none => exact Or.inr ⟨[], t :: tail, rfl, rfl, by simpa [NoAssignment] using ht, h⟩
      | some k =>
        have hk : t = .keyword k := by
          cases t with
          | keyword k' =>
            simp only [Token.assigns] at ht
            split at ht <;> simp_all
          | _ => contradiction
        subst hk
        have htail : parse lookup s (.equals k) final tail = .returned rc s' := by
          simpa only [parse, parseToken, ht] using h
        obtain ⟨a, rest, rfl, rfl⟩ := parse_equals_returned htail
        change parse lookup s .block final (a.tokens ++ rest) = _ at h
        rw [parse_assignment] at h
        split at h
        · rename_i ha
          have hshort : rest.length < n := by
            simp only [List.length_cons] at hlen
            omega
          rcases ih _ hshort h rfl with
            ⟨as, b, rest', rfl, has, hb, hrc, hp⟩ | ⟨as, rest', rfl, has, hn, hr⟩
          · exact Or.inl ⟨a :: as, b, rest', rfl, by simp [ha, has], hb, hrc, hp⟩
          · exact Or.inr ⟨a :: as, rest', rfl, by simp [ha, has], hn, hr⟩
        · rename_i ha
          cases h
          exact Or.inl ⟨[], a, rest, rfl, rfl, by simpa using ha, rfl, rfl⟩

theorem endOfBlock_returned {rc : Nat} {s' : Settings}
    (h : endOfBlock lookup s = .inl (.returned rc s')) :
    rc = 1 ∧ s' = s ∧ (s.localSettings.frontport = 0 ∨ s.localSettings.backport = 0) := by
  unfold endOfBlock at h
  split at h
  · rename_i hports
    cases h
    exact ⟨rfl, rfl, hports⟩
  · split at h <;> cases h

/-- A block that the parser does not leave by `exit` is rejected or closed. -/
theorem parse_blockOpen_returned {input : List Token} {rc : Nat} {s' : Settings}
    (h : parse lookup (startBlock s) .block final input = .returned rc s') :
    (rc = 1 ∧ s'.proxies = s.proxies ∧
      RejectedBlock (startBlock s).localSettings final input) ∨
    ∃ as rest s1, input = assignmentTokens as ++ .punct 125 :: rest ∧
      (Statement.proxyMapping as).eval lookup s = some s1 ∧
      parse lookup s1 .statements final rest = .returned rc s' := by
  rcases parse_block_returned h with
    ⟨as, a, rest, rfl, has, ha, hrc, hp⟩ | ⟨as, rest, rfl, has, hn, hr⟩
  · exact Or.inl ⟨hrc, hp, .statement as a rest has ha⟩
  · have hblock : endOfBlock lookup (assignBlock (startBlock s) as) = .inl (.returned rc s') →
        (rest = [] → final ≠ .exited) →
        rc = 1 ∧ s'.proxies = s.proxies ∧
          RejectedBlock (startBlock s).localSettings final (assignmentTokens as ++ rest) := by
      intro hend hfinal
      obtain ⟨hrc, rfl, hports⟩ := endOfBlock_returned hend
      exact ⟨hrc, rfl, .ports as rest has hn hfinal hports⟩
    cases rest with
    | nil =>
      have hfinal : final ≠ .exited := by
        rintro rfl
        contradiction
      cases hend : endOfBlock lookup (assignBlock (startBlock s) as) with
      | inl o =>
        have hp : parseFinal lookup (assignBlock (startBlock s) as) .block final = o := by
          cases final <;> first | exact absurd rfl hfinal | simp only [parseFinal, hend]
        simp only [parse, hp] at hr
        exact Or.inl (hblock (hr ▸ hend) fun _ => hfinal)
      | inr s1 =>
        have hp : parseFinal lookup (assignBlock (startBlock s) as) .block final = .exited s1 := by
          cases final <;> first | exact absurd rfl hfinal | simp only [parseFinal, hend]
        simp only [parse, hp] at hr
        contradiction
    | cons t rest =>
      have ht : t.assigns = none := hn t rfl
      simp only [parse, parseToken, ht] at hr
      cases hend : endOfBlock lookup (assignBlock (startBlock s) as) with
      | inl o =>
        simp only [hend] at hr
        exact Or.inl (hblock (hr ▸ hend) fun hnil => absurd hnil (List.cons_ne_nil t rest))
      | inr s1 =>
        simp only [hend] at hr
        by_cases hclose : t = .punct 125
        · subst hclose
          simp only [if_true] at hr
          refine Or.inr ⟨as, rest, s1, rfl, ?_, hr⟩
          simp [Statement.eval, has, hend]
        · simp [hclose] at hr

/-- How a parse ends that returns, after statements with the meaning `s1`. -/
inductive Returned (lookup : Bytes → Option Nat) (s1 : Settings) (final : Final) :
    List Token → Nat → Settings → Prop where
  | accepted (hf : final ≠ .exited) : Returned lookup s1 final [.punct 125] 0 s1
  | rejected (body : List Token) (s' : Settings) (hp : s'.proxies = s1.proxies)
      (hb : RejectedBlock (startBlock s1).localSettings final body) :
      Returned lookup s1 final ([.keyword .proxyMapping, .punct 123] ++ body) 1 s'

theorem parse_uri_returned {input : List Token} {rc : Nat} {s' : Settings}
    (h : parse lookup s .statements final (.keyword .uri :: input) = .returned rc s') :
    ∃ value rest, input = .string value :: .punct 59 :: rest ∧
      parse lookup (addGlobalUri s (cString value)) .statements final rest = .returned rc s' := by
  simp only [parse, parseToken, if_true] at h
  cases input with
  | nil => exact nomatch parseFinal_stops h
  | cons v input =>
    cases v with
    | string value =>
      change parse lookup s (.uriEnd value) final input = _ at h
      obtain ⟨rest, rfl, hrest⟩ := parse_expected h (fun _ => rfl) (by simp)
      exact ⟨value, rest, rfl, hrest⟩
    | _ => simp [parse, parseToken] at h

theorem parse_mapping_returned {input : List Token} {rc : Nat} {s' : Settings}
    (h : parse lookup s .statements final (.keyword .proxyMapping :: input) = .returned rc s') :
    ∃ body, input = .punct 123 :: body ∧
      parse lookup (startBlock s) .block final body = .returned rc s' := by
  change parse lookup s .mapping final input = _ at h
  exact parse_expected h (fun _ => rfl) (by simp)

theorem parse_close_returned {input : List Token} {rc : Nat} {s' : Settings}
    (h : parse lookup s .statements final (.punct 125 :: input) = .returned rc s') :
    Returned lookup s final (.punct 125 :: input) rc s' := by
  simp only [parse, parseToken, reduceCtorEq, if_false, if_true] at h
  cases input with
  | nil =>
    cases final with
    | exited => contradiction
    | eof =>
      cases h
      exact .accepted nofun
    | bad =>
      cases h
      exact .accepted nofun
  | cons c rest => simp [parse, parseToken] at h

theorem parse_statements_returned {input : List Token} {rc : Nat} {s' : Settings}
    (h : parse lookup s .statements final input = .returned rc s') :
    ∃ stmts s1 rest, input = statementTokens stmts ++ rest ∧
      evalStatements lookup s stmts = some s1 ∧ Returned lookup s1 final rest rc s' := by
  induction hlen : input.length using Nat.strongRecOn generalizing input s with
  | ind n ih =>
    have hnext : ∀ (stmt : Statement) (s1 : Settings) (rest : List Token),
        input = stmt.tokens ++ rest → stmt.tokens ≠ [] → stmt.eval lookup s = some s1 →
        parse lookup s1 .statements final rest = .returned rc s' →
        ∃ stmts s1 rest, input = statementTokens stmts ++ rest ∧
          evalStatements lookup s stmts = some s1 ∧ Returned lookup s1 final rest rc s' := by
      intro stmt s1 rest hinput hne hstmt hrest
      have hshort : rest.length < n := by
        have := List.length_pos_iff.mpr hne
        rw [← hlen, hinput, List.length_append]
        omega
      obtain ⟨stmts, s2, rest', hsplit, hstmts, hret⟩ := ih _ hshort hrest rfl
      have htokens : input = statementTokens (stmt :: stmts) ++ rest' := by
        rw [hinput, hsplit, statementTokens, statementTokens, List.flatMap_cons,
          List.append_assoc]
      have heval : evalStatements lookup s (stmt :: stmts) = some s2 := by
        rw [evalStatements, hstmt]
        exact hstmts
      exact ⟨stmt :: stmts, s2, rest', htokens, heval, hret⟩
    cases input with
    | nil => exact nomatch parseFinal_stops h
    | cons t tail =>
      by_cases huri : t = .keyword .uri
      · subst huri
        obtain ⟨value, rest, rfl, hrest⟩ := parse_uri_returned h
        exact hnext (.uri value) _ rest rfl nofun rfl hrest
      · by_cases hmap : t = .keyword .proxyMapping
        · subst hmap
          obtain ⟨body, rfl, hbody⟩ := parse_mapping_returned h
          rcases parse_blockOpen_returned hbody with ⟨rfl, hp, hb⟩ | ⟨as, rest, s1, rfl, heval, hr⟩
          · exact ⟨[], s, _, rfl, rfl, .rejected body s' hp hb⟩
          · exact hnext (.proxyMapping as) s1 rest (by simp [Statement.tokens]) nofun heval hr
        · by_cases hclose : t = .punct 125
          · subst hclose
            exact ⟨[], s, _, rfl, rfl, parse_close_returned h⟩
          · simp [parse, parseToken, huri, hmap, hclose] at h

/-- A file at which the parser returns: statements that have been read, and then
the closing brace or a block that is rejected. -/
theorem yyparse_returned {input : List Token} {rc : Nat} {s' : Settings}
    (h : yyparse lookup (input, final) = .returned rc s') :
    ∃ stmts s1 rest, input = configOpening ++ statementTokens stmts ++ rest ∧
      evalStatements lookup .initial stmts = some s1 ∧ Returned lookup s1 final rest rc s' := by
  obtain ⟨input, rfl, hopen⟩ := parse_expected h (fun _ => rfl) (by simp)
  obtain ⟨rest, rfl, hstatements⟩ := parse_expected hopen (fun _ => rfl) (by simp)
  obtain ⟨stmts, s1, rest', rfl, hstmts, hret⟩ := parse_statements_returned hstatements
  exact ⟨stmts, s1, rest', rfl, hstmts, hret⟩

theorem parse_rejected (lookup : Bytes → Option Nat) {body : List Token}
    (hb : RejectedBlock s.localSettings final body) :
    ∃ s', parse lookup s .block final body = .returned 1 s' ∧ s'.proxies = s.proxies := by
  cases hb with
  | statement as a rest has ha =>
    rw [parse_assignments as has, parse_assignment, if_neg (by simp [ha])]
    exact ⟨_, rfl, rfl⟩
  | ports as rest has hrest hfinal hports =>
    have hend : endOfBlock lookup (assignBlock s as) =
        .inl (.returned 1 (assignBlock s as)) := if_pos hports
    refine ⟨assignBlock s as, ?_, rfl⟩
    rw [parse_assignments as has]
    cases rest with
    | nil => cases final <;> simp_all [parse, parseFinal]
    | cons t rest =>
      have ht : t.assigns = none := hrest t rfl
      simp [parse, parseToken, ht, hend]

end

end StatsProxy

import StatsProxy.ProxyMappings

/-! Where the uri statements of a file stand. A block's backend gets the uris that
are declared before the block, so a uri declared after a block is missing there. -/
namespace StatsProxy
open CString

/-- For each block the number of uri statements before it. -/
def urisBefore : Nat → List Statement → List Nat
  | _, [] => []
  | n, .uri _ :: rest => urisBefore (n+1) rest
  | n, .proxyMapping _ :: rest => n :: urisBefore n rest

def declaredUris (stmts : List Statement) : List Bytes := stmts.filterMap Statement.declared

@[simp] theorem declaredUris_uri (value : Bytes) (stmts : List Statement) :
    declaredUris (.uri value :: stmts) = cString value :: declaredUris stmts := rfl

@[simp] theorem declaredUris_proxyMapping (as : List Assignment) (stmts : List Statement) :
    declaredUris (.proxyMapping as :: stmts) = declaredUris stmts := rfl

/-- After a block there are only blocks. -/
def UrisFirst (stmts : List Statement) : Prop :=
  stmts.Pairwise fun a b => a.isMapping = true → b.isMapping = true

/-- Uri statements have been moved past blocks: neither the uri statements nor the
blocks have changed their order. -/
structure Moved (stmts stmts' : List Statement) : Prop where
  uris : declaredUris stmts' = declaredUris stmts
  blocks : stmts'.filter Statement.isMapping = stmts.filter Statement.isMapping

def uriEntries (uris : List Bytes) : List UriEntry := uris.map fun uri => ⟨uri, 0, []⟩

/-- What does not depend on the uris. -/
def Backend.bare (bep : Backend) : Backend := { bep with uris := [] }

def Settings.bare (s : Settings) : Settings :=
  { s with
    globalSettings := { s.globalSettings with uris := [] }
    proxies := s.proxies.map Backend.bare }

theorem backend_eq_iff {a b : Backend} : a = b ↔ a.bare = b.bare ∧ a.uris = b.uris := by
  constructor
  · rintro rfl
    exact ⟨rfl, rfl⟩
  · rintro ⟨hbare, huris⟩
    cases a
    cases b
    simp_all [Backend.bare]

section

variable {lookup : Bytes → Option Nat} {s s1 : Settings} {stmts : List Statement}

theorem urisBefore_bounds {n k : Nat} (h : k ∈ urisBefore n stmts) :
    n ≤ k ∧ k ≤ n + (declaredUris stmts).length := by
  induction stmts generalizing n with
  | nil => contradiction
  | cons stmt stmts ih =>
    cases stmt with
    | uri value =>
      have := ih h
      simp only [declaredUris_uri, List.length_cons] at this ⊢
      omega
    | proxyMapping as =>
      simp only [urisBefore, List.mem_cons] at h
      rw [declaredUris_proxyMapping]
      rcases h with rfl | h
      · omega
      · exact ih h

theorem uriEntries_uri (uris : List Bytes) : (uriEntries uris).map UriEntry.uri = uris := by
  simp [uriEntries, Function.comp_def]

theorem blockBackend_uris {as : List Assignment} {bep : Backend}
    (h : blockBackend lookup s as = some bep) : bep.uris = uriEntries s.globalSettings.uris := by
  simp only [blockBackend, Option.map_eq_some_iff] at h
  obtain ⟨bep', -, rfl⟩ := h
  rfl

/-- The uris of the backends that statements add. -/
theorem evalStatements_backendUris (h : evalStatements lookup s stmts = some s1) :
    s1.proxies.map Backend.uris = s.proxies.map Backend.uris ++
      (urisBefore s.globalSettings.uris.length stmts).map fun n =>
        uriEntries ((s.globalSettings.uris ++ declaredUris stmts).take n) := by
  induction stmts generalizing s with
  | nil =>
    cases h
    simp [urisBefore]
  | cons stmt stmts ih =>
    rw [evalStatements, Option.bind_eq_some_iff] at h
    obtain ⟨s2, hstmt, hrest⟩ := h
    cases stmt with
    | uri value =>
      cases hstmt
      rw [ih hrest]
      simp [addGlobalUri, urisBefore]
    | proxyMapping as =>
      obtain ⟨-, -, -, bep, hbep, rfl⟩ := eval_proxyMapping.mp hstmt
      rw [ih hrest]
      simp [urisBefore, blockBackend_uris hbep]

theorem declaredUris_eq_nil : declaredUris stmts = [] ↔ ∀ stmt ∈ stmts, stmt.isMapping = true := by
  unfold declaredUris
  rw [List.filterMap_eq_nil_iff]
  refine forall₂_congr fun stmt _ => ?_
  cases stmt with
  | uri value => exact iff_of_false nofun nofun
  | proxyMapping as => exact iff_of_true rfl rfl

theorem urisFirst_iff (n : Nat) :
    UrisFirst stmts ↔ ∀ k ∈ urisBefore n stmts, k = n + (declaredUris stmts).length := by
  unfold UrisFirst
  induction stmts generalizing n with
  | nil => simp [urisBefore]
  | cons stmt stmts ih =>
    rw [List.pairwise_cons]
    cases stmt with
    | uri value =>
      have hlen : n + (declaredUris (.uri value :: stmts)).length =
          n + 1 + (declaredUris stmts).length := by
        rw [declaredUris_uri, List.length_cons]
        omega
      rw [hlen, ih (n+1)]
      exact and_iff_right fun _ _ h => absurd h (by simp [Statement.isMapping])
    | proxyMapping as =>
      have hall : (∀ b ∈ stmts, (Statement.proxyMapping as).isMapping = true →
          b.isMapping = true) ↔ n = n + (declaredUris stmts).length := by
        rw [Nat.left_eq_add, List.length_eq_zero_iff, declaredUris_eq_nil]
        simp [Statement.isMapping]
      rw [hall, ih n, urisBefore, List.forall_mem_cons, declaredUris_proxyMapping]

theorem blockBackend_bare (lookup : Bytes → Option Nat) (s : Settings) (as : List Assignment) :
    blockBackend lookup s.bare as = (blockBackend lookup s as).map Backend.bare := by
  unfold blockBackend
  rw [Option.map_map]
  rfl

/-- A block adds the same backend whatever the uris are, but for its uris. -/
theorem eval_proxyMapping_bare (lookup : Bytes → Option Nat) (s : Settings)
    (as : List Assignment) :
    (Statement.proxyMapping as).eval lookup s.bare =
      ((Statement.proxyMapping as).eval lookup s).map Settings.bare := by
  ext r
  rw [Option.map_eq_some_iff]
  constructor
  · intro h
    obtain ⟨has, hf, hb, bep, hbep, rfl⟩ := eval_proxyMapping.mp h
    rw [blockBackend_bare, Option.map_eq_some_iff] at hbep
    obtain ⟨bep', hbep', rfl⟩ := hbep
    refine ⟨_, eval_proxyMapping.mpr ⟨has, hf, hb, bep', hbep', rfl⟩, ?_⟩
    simp [Settings.bare]
    rfl
  · rintro ⟨s1, h, rfl⟩
    obtain ⟨has, hf, hb, bep, hbep, rfl⟩ := eval_proxyMapping.mp h
    apply eval_proxyMapping.mpr
    refine ⟨has, hf, hb, bep.bare, ?_, ?_⟩
    · rw [blockBackend_bare, hbep]
      rfl
    · simp [Settings.bare]
      rfl

/-- The blocks alone give the same settings, but for the uris. -/
theorem evalStatements_bare (lookup : Bytes → Option Nat) (s : Settings)
    (stmts : List Statement) :
    (evalStatements lookup s stmts).map Settings.bare =
      evalStatements lookup s.bare (stmts.filter Statement.isMapping) := by
  induction stmts generalizing s with
  | nil => rfl
  | cons stmt stmts ih =>
    cases stmt with
    | uri value => exact ih (addGlobalUri s (cString value))
    | proxyMapping as =>
      rw [List.filter_cons_of_pos (by rfl), evalStatements, evalStatements,
        eval_proxyMapping_bare]
      cases (Statement.proxyMapping as).eval lookup s with
      | none => rfl
      | some s1 => exact ih s1

/-- Moved statements are accepted as well, with the same backends but for the uris. -/
theorem evalStatements_moved {stmts' : List Statement}
    (h : evalStatements lookup s stmts = some s1) (hmoved : Moved stmts stmts') :
    ∃ s1', evalStatements lookup s stmts' = some s1' ∧ s1'.bare = s1.bare := by
  have hbare := evalStatements_bare lookup s stmts'
  rw [hmoved.blocks, ← evalStatements_bare, h] at hbare
  exact Option.map_eq_some_iff.mp hbare

/-- The lengths of the uri lists are the places. -/
theorem map_uriEntries_length {uris : List Bytes} {places : List Nat}
    (h : ∀ n ∈ places, n ≤ uris.length) :
    (places.map fun n => uriEntries (uris.take n)).map List.length = places := by
  conv_rhs => rw [← List.map_id places]
  rw [List.map_map]
  apply List.map_congr_left
  intro n hn
  have hle := h n hn
  simp only [Function.comp_apply, uriEntries, List.length_map, List.length_take, id_eq]
  omega

theorem proxies_eq_of_map {left right : List Backend}
    (hbare : left.map Backend.bare = right.map Backend.bare)
    (huris : left.map Backend.uris = right.map Backend.uris) : left = right := by
  induction left generalizing right with
  | nil =>
    cases right with
    | nil => rfl
    | cons b right => contradiction
  | cons a left ih =>
    cases right with
    | nil => contradiction
    | cons b right =>
      simp only [List.map_cons, List.cons.injEq] at hbare huris
      rw [ih hbare.2 huris.2, backend_eq_iff.mpr ⟨hbare.1, huris.1⟩]

end

section

variable {stmts stmts' : List Statement} {proxies proxies' : List Backend}

/-- A backend that has the uris declared before its block has all of them exactly if
no uri is declared after it. -/
theorem allUris_iff (huris : proxies.map Backend.uris = (urisBefore 0 stmts).map fun n =>
      uriEntries ((declaredUris stmts).take n)) :
    (∀ bep ∈ proxies, (declaredUris stmts).Sublist (bep.uris.map UriEntry.uri)) ↔
      UrisFirst stmts := by
  have hall : (∀ bep ∈ proxies, (declaredUris stmts).Sublist (bep.uris.map UriEntry.uri)) ↔
      ∀ n ∈ urisBefore 0 stmts, (declaredUris stmts).Sublist ((declaredUris stmts).take n) := by
    have := List.forall_mem_map (l := proxies) (f := Backend.uris)
      (P := fun us => (declaredUris stmts).Sublist (us.map UriEntry.uri))
    rw [← this, huris, List.forall_mem_map]
    simp only [uriEntries_uri]
  rw [urisFirst_iff 0, hall]
  refine forall₂_congr fun n hn => ?_
  obtain ⟨-, hle⟩ := urisBefore_bounds hn
  rw [Nat.zero_add] at hle ⊢
  constructor
  · intro hsub
    have hlen := hsub.length_le
    rw [List.length_take] at hlen
    omega
  · rintro rfl
    rw [List.take_length]

/-- Backends that differ in their uris only are the same exactly if as many uris are
declared before each block. -/
theorem sameUris_iff (hdeclared : declaredUris stmts' = declaredUris stmts)
    (huris : proxies.map Backend.uris = (urisBefore 0 stmts).map fun n =>
      uriEntries ((declaredUris stmts).take n))
    (huris' : proxies'.map Backend.uris = (urisBefore 0 stmts').map fun n =>
      uriEntries ((declaredUris stmts').take n))
    (hbare : proxies'.map Backend.bare = proxies.map Backend.bare) :
    proxies' = proxies ↔ urisBefore 0 stmts' = urisBefore 0 stmts := by
  rw [hdeclared] at huris'
  have hle : ∀ n ∈ urisBefore 0 stmts, n ≤ (declaredUris stmts).length := by
    intro n hn
    have := urisBefore_bounds hn
    omega
  have hle' : ∀ n ∈ urisBefore 0 stmts', n ≤ (declaredUris stmts).length := by
    intro n hn
    have := urisBefore_bounds hn
    rw [hdeclared] at this
    omega
  constructor
  · intro hsame
    rw [← map_uriEntries_length hle', ← map_uriEntries_length hle, ← huris', ← huris, hsame]
  · intro hplaces
    apply proxies_eq_of_map hbare
    rw [huris', huris, hplaces]

end

/-- Every backend has every uri exactly if no uri is declared after a block; moving
uri statements leaves the backends as they are exactly if each block keeps the
number of uri statements before it. -/
theorem globalUris_iff (lookup : Bytes → Option Nat) {file file' : Bytes}
    {stmts stmts' : List Statement} {s : Settings}
    (htokens : (lexFile file).1 = configTokens stmts)
    (htokens' : (lexFile file').1 = configTokens stmts')
    (hfinal : (lexFile file').2 = (lexFile file).2) (hmoved : Moved stmts stmts')
    (haccepted : yyparse lookup (lexFile file) = .returned 0 s) :
    ((∀ bep ∈ s.proxies, (declaredUris stmts).Sublist (bep.uris.map UriEntry.uri)) ↔
        UrisFirst stmts) ∧
      ((∃ s', yyparse lookup (lexFile file') = .returned 0 s' ∧ s'.proxies = s.proxies) ↔
        urisBefore 0 stmts' = urisBefore 0 stmts) := by
  have hfile : lexFile file = (configTokens stmts, (lexFile file).2) := by
    rw [← htokens]
  have hfile' : lexFile file' = (configTokens stmts', (lexFile file).2) := by
    rw [← htokens', ← hfinal]
  rw [hfile] at haccepted
  obtain ⟨hexited, heval⟩ := yyparse_accepts.mp haccepted
  have huris : s.proxies.map Backend.uris = (urisBefore 0 stmts).map fun n =>
      uriEntries ((declaredUris stmts).take n) := evalStatements_backendUris heval
  constructor
  · exact allUris_iff huris
  · obtain ⟨s1', heval', hbare⟩ := evalStatements_moved heval hmoved
    have haccepted' : yyparse lookup (lexFile file') = .returned 0 s1' := by
      rw [hfile']
      exact yyparse_accepts.mpr ⟨hexited, heval'⟩
    have hsame : (∃ s', yyparse lookup (lexFile file') = .returned 0 s' ∧
        s'.proxies = s.proxies) ↔ s1'.proxies = s.proxies := by
      simp [haccepted']
    rw [hsame]
    exact sameUris_iff hmoved.uris huris (evalStatements_backendUris heval')
      (congrArg Settings.proxies hbare)

/-- A uri between two blocks. -/
def betweenFile : Bytes := ascii
  "memcache-stats-proxy-settings \x7b
     proxy-mapping \x7b front-end = \"a:8080\"; back-end = \"b:11211\"; \x7d
     uri \"items\";
     proxy-mapping \x7b front-end = \"a:8081\"; back-end = \"c:11211\"; \x7d
   \x7d"

/-- The same with the uri in front. -/
def movedFile : Bytes := ascii
  "memcache-stats-proxy-settings \x7b
     uri \"items\";
     proxy-mapping \x7b front-end = \"a:8080\"; back-end = \"b:11211\"; \x7d
     proxy-mapping \x7b front-end = \"a:8081\"; back-end = \"c:11211\"; \x7d
   \x7d"

def betweenStatements : List Statement :=
  [.proxyMapping [.frontEnd (ascii "a:8080"), .backEnd (ascii "b:11211")],
    .uri (ascii "items"),
    .proxyMapping [.frontEnd (ascii "a:8081"), .backEnd (ascii "c:11211")]]

def movedStatements : List Statement :=
  [.uri (ascii "items"),
    .proxyMapping [.frontEnd (ascii "a:8080"), .backEnd (ascii "b:11211")],
    .proxyMapping [.frontEnd (ascii "a:8081"), .backEnd (ascii "c:11211")]]

theorem betweenFile_tokens : lexFile betweenFile = (configTokens betweenStatements, .eof) := by
  rw [betweenFile, ascii_ofList]
  decide +kernel

theorem movedFile_tokens : lexFile movedFile = (configTokens movedStatements, .eof) := by
  rw [movedFile, ascii_ofList]
  decide +kernel

theorem moved_between : Moved movedStatements betweenStatements where
  uris := by simp [betweenStatements, movedStatements]
  blocks := by simp [betweenStatements, movedStatements, List.filter_cons, Statement.isMapping]

theorem movedFile_accepted :
    ∃ s, yyparse sampleLookup (lexFile movedFile) = .returned 0 s ∧
      s.proxies.map (fun bep => bep.uris.map UriEntry.uri) =
        [[ascii "items"], [ascii "items"]] := by
  rw [movedFile_tokens]
  exact ⟨_, rfl, rfl⟩

theorem betweenFile_accepted :
    ∃ s, yyparse sampleLookup (lexFile betweenFile) = .returned 0 s ∧
      s.proxies.map (fun bep => bep.uris.map UriEntry.uri) = [[], [ascii "items"]] := by
  rw [betweenFile_tokens]
  exact ⟨_, rfl, rfl⟩

theorem globalUris_movedFile : ∃ s, yyparse sampleLookup (lexFile movedFile) = .returned 0 s ∧
    ∀ bep ∈ s.proxies, (declaredUris movedStatements).Sublist (bep.uris.map UriEntry.uri) := by
  obtain ⟨s, hs, -⟩ := movedFile_accepted
  have hiff := globalUris_iff sampleLookup (congrArg Prod.fst movedFile_tokens)
    (congrArg Prod.fst betweenFile_tokens)
    ((congrArg Prod.snd betweenFile_tokens).trans (congrArg Prod.snd movedFile_tokens).symm)
    moved_between hs
  refine ⟨s, hs, hiff.1.mpr ?_⟩
  unfold UrisFirst movedStatements
  decide

/-- The first backend lacks the uri that stands after its block. -/
theorem globalUris_betweenFile : ¬∀ (file : Bytes) (stmts : List Statement) (s : Settings),
    (lexFile file).1 = configTokens stmts → yyparse sampleLookup (lexFile file) = .returned 0 s →
    ∀ bep ∈ s.proxies, (declaredUris stmts).Sublist (bep.uris.map UriEntry.uri) := by
  intro h
  obtain ⟨s, hs, huris⟩ := betweenFile_accepted
  have hall := h betweenFile betweenStatements s (congrArg Prod.fst betweenFile_tokens) hs
  have hmem : [] ∈ s.proxies.map fun bep => bep.uris.map UriEntry.uri := by
    rw [huris]
    exact List.mem_cons_self
  obtain ⟨bep, hbep, hnone⟩ := List.mem_map.mp hmem
  have hsub := (hall bep hbep).length_le
  rw [hnone] at hsub
  exact absurd hsub (by decide)

end StatsProxy

import StatsProxy.McrConfig

/-! The arrays `ip`, `key` and `tcip`, of `TOKSZ` bytes each, that the lines of a reply are
scanned into. The formats of the rows have a width for their token, the one of
`mcr_updateInstances` has none. -/
namespace StatsProxy
open CString Scanf

def tokSz : Nat := 255

/-- Repeated calls of `fgets(line, LINESZ, fp)` on a stream. A piece ends at a newline or
when the array is full. -/
def pieces : Bytes → Bytes → List Bytes
  | piece, [] => if piece = [] then [] else [piece]
  | piece, ch :: stream =>
    if ch = 10 ∨ piece.length + 1 = lineSz - 1 then (piece ++ [ch]) :: pieces [] stream
    else pieces (piece ++ [ch]) stream

/-- The lines of a reply, as the strings they are. -/
def replyLines (stream : Bytes) : List Bytes := (pieces [] stream).map cString

/-- The lines that `mcr_updateInstances` scans. -/
def instanceLines (lines : List Bytes) : List Bytes := lines.takeWhile (!isStop ·)

/-- What `ip` holds after each `sscanf` of `mcr_updateInstances`. -/
def storedIps : List Bytes → InstanceLocals → List Bytes
  | [], _ => []
  | line :: lines, l =>
    if line = endLine ∨ line = errorLine then []
    else
      let scanned := sscanf line instanceFormat instanceArgs { l with ip := [] }
      scanned.2.ip :: storedIps lines scanned.2

/-- The variables after each `sscanf` of the reading of rows. -/
def RowFormat.stored {σ ε : Type} (f : RowFormat σ ε) : List Bytes → σ → List σ
  | [], _ => []
  | line :: lines, l =>
    if isStop line then []
    else if f.skips line then f.stored lines l
    else
      let scanned := f.sscanf line l
      if scanned.1 = 0 then [scanned.2] else scanned.2 :: f.stored lines scanned.2

/-- A token and its NUL have room in an array of `TOKSZ` bytes. -/
def TokFits (token : Bytes) : Prop := token.length + 1 ≤ tokSz

/-- Whatever the variables hold at first, all tokens of a reply fit. -/
structure TokensFit (ns : NameService) (stream : Bytes) : Prop where
  ip : ∀ l, ∀ ip ∈ storedIps (replyLines stream) l, TokFits ip
  key : ∀ l, ∀ s ∈ topKeysRows.stored (replyLines stream) l, TokFits s.key
  tcip : ∀ l, ∀ s ∈ (topClientsRows ns).stored (replyLines stream) l, TokFits s.tcip

/-- A line with `TOKSZ` bytes in a row that are no white space, behind a first word of which
at most 20 bytes count. -/
def LongWord (line : Bytes) : Prop :=
  ∃ blanks first gap word rest, line = blanks ++ (first ++ (gap ++ (word ++ rest))) ∧
    (∀ ch ∈ blanks ++ gap, isSpace ch = true) ∧ (∀ ch ∈ first ++ word, isSpace ch = false) ∧
    first ≠ [] ∧ first.length ≤ 20 ∧ (gap = [] → first.length = 20) ∧ word.length = tokSz

theorem pieces_flatten (piece stream : Bytes) :
    (pieces piece stream).flatten = piece ++ stream := by
  induction stream generalizing piece with
  | nil =>
    rw [pieces]
    split
    · rename_i hpiece
      rw [hpiece]
      rfl
    · rw [List.flatten_singleton, List.append_nil]
  | cons ch stream ih =>
    rw [pieces]
    split
    · rw [List.flatten_cons, ih, List.nil_append, List.append_assoc, List.singleton_append]
    · rw [ih, List.append_assoc, List.singleton_append]

/-- A piece and its NUL have room in `line`. -/
theorem pieces_length {piece : Bytes} (h : piece.length < lineSz - 1) (stream : Bytes) :
    ∀ p ∈ pieces piece stream, p.length + 1 ≤ lineSz := by
  have hsize : lineSz = 1024 := rfl
  induction stream generalizing piece with
  | nil =>
    rw [pieces]
    split
    · exact List.forall_mem_nil _
    · rw [List.forall_mem_singleton]
      omega
  | cons ch stream ih =>
    have hlength : (piece ++ [ch]).length = piece.length + 1 := List.length_append
    rw [pieces]
    split
    · rw [List.forall_mem_cons, hlength]
      exact ⟨by omega, ih (by rw [List.length_nil]; omega)⟩
    · rename_i hgo
      apply ih
      rw [hlength]
      omega

/-- The entries of the instances show what `ip` has held. -/
theorem readInstances_stored (ns : NameService) (lines : List Bytes) (l : InstanceLocals)
    (el : List McrEntry) :
    ((readInstances ns lines l el).map McrEntry.dotquad).Sublist
      (el.map McrEntry.dotquad ++ storedIps lines l) := by
  induction lines generalizing l el with
  | nil => exact List.sublist_append_left _ _
  | cons line lines ih =>
    rw [readInstances, storedIps]
    split
    · exact List.sublist_append_left _ _
    · dsimp only
      split
      · exact (ih _ el).trans ((List.sublist_cons_self _ _).append_left _)
      · have hread := ih (sscanf line instanceFormat instanceArgs { l with ip := [] }).2
          (el ++ [instanceEntry ns (sscanf line instanceFormat instanceArgs { l with ip := [] }).2])
        rw [List.map_append, List.append_assoc] at hread
        exact hread

/-- And the entries of the rows are made from the variables after a scan. -/
theorem RowFormat.readRows_stored {σ ε : Type} (f : RowFormat σ ε) (lines : List Bytes)
    (s : Rows σ ε) :
    (f.readRows lines s).2.entries <+: s.entries ++ (f.stored lines s.locals).map f.entry := by
  induction lines generalizing s with
  | nil => exact List.prefix_append _ _
  | cons line lines ih =>
    rw [RowFormat.readRows, RowFormat.stored]
    have hturn := f.row_turn s line
    generalize f.row s line = r at hturn
    cases hturn with
    | stop err hstop => exact List.prefix_append _ _
    | skip hstop hskip versionStr =>
      rw [hstop, hskip]
      exact ih { s with versionStr }
    | mismatch hstop hskip hzero => exact List.prefix_append _ _
    | data hstop hskip hzero =>
      rw [hstop, hskip]
      dsimp only
      rw [if_neg Bool.false_ne_true, if_neg Bool.false_ne_true, if_neg hzero, List.map_cons]
      have hread := ih (f.added s line)
      rw [RowFormat.added, List.append_assoc] at hread
      exact hread

theorem RowFormat.mem_stored {σ ε : Type} (f : RowFormat σ ε) {lines : List Bytes} {l s : σ}
    (h : s ∈ f.stored lines l) : ∃ line locals, s = (f.sscanf line locals).2 := by
  induction lines generalizing l with
  | nil => cases h
  | cons line lines ih =>
    rw [RowFormat.stored] at h
    split at h
    · cases h
    · split at h
      · exact ih h
      · dsimp only at h
        split at h
        · exact ⟨line, l, List.mem_singleton.mp h⟩
        · rcases List.mem_cons.mp h with h | h
          · exact ⟨line, l, h⟩
          · exact ih h

/-- A token that is stored first, with a width, behind a word that is passed over. -/
theorem RowFormat.stored_length {σ ε : Type} (f : RowFormat σ ε) (token : σ → Bytes)
    {d : Directive} {format : List Directive} {set : Value → σ → σ}
    {args : List (Value → σ → σ)} {width : Nat}
    (hformat : f.format = .string none false :: .space :: d :: format)
    (hargs : f.args = set :: args) (hclear : ∀ l, token (f.clear l) = [])
    (hset : ∀ value l, token (set value l) = value.word)
    (hkeep : ∀ set ∈ args, ∀ value l, token (set value l) = token l)
    (hd : ∀ text value rest, d.matching text = .matched value rest →
      ∃ word, value = some (.text word) ∧ word.length ≤ width)
    {lines : List Bytes} {l s : σ} (h : s ∈ f.stored lines l) : (token s).length ≤ width := by
  obtain ⟨line, locals, rfl⟩ := f.mem_stored h
  rw [RowFormat.sscanf, Scanf.sscanf, hformat, hargs]
  dsimp only
  rw [store_first hset hkeep, hclear, scan_skipped]
  split
  · exact Nat.zero_le width
  · rw [scan_space]
    generalize ((cString line).dropWhile isSpace).dropWhile (!isSpace ·) = text
    have hwidth := scan_width hd format (text.dropWhile isSpace)
    generalize (scan (d :: format) (text.dropWhile isSpace)).1.head? = first at hwidth
    cases first with
    | none => exact Nat.zero_le width
    | some value => exact hwidth value rfl

/-- The keys have a width of 250. -/
theorem stored_key {lines : List Bytes} {l s : TopKeysLocals}
    (h : s ∈ topKeysRows.stored lines l) : s.key.length ≤ 250 := by
  apply topKeysRows.stored_length TopKeysLocals.key rfl rfl (fun _ => rfl) (fun _ _ => rfl) _
    (fun _ _ _ => Directive.matching_string) h
  simp

theorem stored_tcip {ns : NameService} {lines : List Bytes} {l s : TopClientsLocals}
    (h : s ∈ (topClientsRows ns).stored lines l) : s.tcip.length ≤ 250 := by
  apply (topClientsRows ns).stored_length TopClientsLocals.tcip rfl rfl (fun _ => rfl)
    (fun _ _ => rfl) _ (fun _ _ _ => Directive.matching_notIn) h
  simp

/-- What is left of a line behind its first word. -/
def behindFirst (line : Bytes) : Bytes :=
  let body := line.dropWhile isSpace
  body.drop ((body.takeWhile (!isSpace ·)).take 20).length

/-- And the word that comes next. -/
def secondWord (line : Bytes) : Bytes :=
  ((behindFirst line).dropWhile isSpace).takeWhile (!isSpace ·)

theorem sscanf_ip (line : Bytes) (l : InstanceLocals) :
    (sscanf line instanceFormat instanceArgs { l with ip := [] }).2.ip =
      secondWord (cString line) := by
  have hstored : ∀ values, (store instanceArgs values { l with ip := [] }).ip =
      (values.head?.map Value.word).getD [] :=
    fun values => store_first (f := InstanceLocals.ip) (fun _ _ => rfl) (by simp) values _
  have htwice : ∀ text : Bytes, (text.dropWhile isSpace).dropWhile isSpace =
      text.dropWhile isSpace := by
    intro text
    have hplain := List.head_dropWhile_not isSpace (l := text)
    generalize text.dropWhile isSpace = body at hplain ⊢
    cases body with
    | nil => rfl
    | cons ch body =>
      have hch : isSpace ch = false := hplain (List.cons_ne_nil ch body)
      rw [List.dropWhile_cons_of_neg (by simp [hch])]
  rw [Scanf.sscanf]
  dsimp only
  rw [hstored, secondWord, behindFirst]
  generalize cString line = text
  by_cases hbody : text.dropWhile isSpace = []
  · simp [instanceFormat, scan, Directive.matching, hbody]
  · simp only [instanceFormat, scan, Directive.matching, hbody, htwice, Bool.false_eq_true,
      if_false]
    generalize (text.dropWhile isSpace).drop _ = rest
    by_cases hrest : rest.dropWhile isSpace = []
    · rw [if_pos hrest, hrest]
      rfl
    · rw [if_neg hrest]
      rfl

theorem storedIps_eq (lines : List Bytes) (l : InstanceLocals) :
    storedIps lines l = (instanceLines lines).map fun line => secondWord (cString line) := by
  induction lines generalizing l with
  | nil => rfl
  | cons line lines ih =>
    rw [storedIps, instanceLines, List.takeWhile_cons]
    by_cases hstop : line = endLine ∨ line = errorLine
    · have hline : isStop line = true := by simpa [isStop] using hstop
      rw [if_pos hstop, hline]
      rfl
    · have hline : isStop line = false := by simpa [isStop] using hstop
      rw [if_neg hstop, hline]
      dsimp only
      rw [ih, sscanf_ip]
      rfl

theorem cString_replyLines {stream line : Bytes} (h : line ∈ replyLines stream) :
    cString line = line := by
  obtain ⟨piece, -, rfl⟩ := List.mem_map.mp h
  exact cString_of_nul (cString_noNul piece)

/-- What stands behind a first word, whether it is cut off at 20 bytes or ends before. -/
theorem behindFirst_append {blanks first gap rest : Bytes} (hblanks : ∀ ch ∈ blanks, isSpace ch)
    (hfirst : ∀ ch ∈ first, isSpace ch = false) (hne : first ≠ []) (hlength : first.length ≤ 20)
    (hgap : ∀ ch ∈ gap, isSpace ch = true) (hcut : gap = [] → first.length = 20) :
    behindFirst (blanks ++ (first ++ (gap ++ rest))) = gap ++ rest := by
  have hbody : (blanks ++ (first ++ (gap ++ rest))).dropWhile isSpace =
      first ++ (gap ++ rest) := by
    rw [List.dropWhile_append_of_pos hblanks]
    obtain ⟨ch, first, rfl⟩ := List.exists_cons_of_ne_nil hne
    rw [List.cons_append, List.dropWhile_cons_of_neg]
    rw [hfirst ch List.mem_cons_self]
    exact Bool.false_ne_true
  have hword : ((first ++ (gap ++ rest)).takeWhile (!isSpace ·)).take 20 = first := by
    rw [List.takeWhile_append_of_pos (by simpa using hfirst)]
    cases gap with
    | nil => rw [List.take_left' (hcut rfl)]
    | cons ch gap =>
      rw [List.cons_append, List.takeWhile_cons_of_neg (by simp [hgap ch List.mem_cons_self]),
        List.append_nil, List.take_of_length_le hlength]
  rw [behindFirst, hbody, hword, List.drop_left]

theorem exists_behindFirst {line : Bytes} (h : (behindFirst line).dropWhile isSpace ≠ []) :
    ∃ blanks first gap, line = blanks ++ (first ++ (gap ++ (behindFirst line).dropWhile isSpace)) ∧
      (∀ ch ∈ blanks ++ gap, isSpace ch = true) ∧ (∀ ch ∈ first, isSpace ch = false) ∧
      first ≠ [] ∧ first.length ≤ 20 ∧ (gap = [] → first.length = 20) := by
  have hline := List.takeWhile_append_dropWhile (p := isSpace) (l := line)
  have hplain := List.head_dropWhile_not isSpace (l := line)
  unfold behindFirst at h ⊢
  dsimp only at h ⊢
  generalize line.dropWhile isSpace = body at h hline hplain
  have hrun := List.takeWhile_append_dropWhile (p := (!isSpace ·)) (l := body)
  have hspace := List.head_dropWhile_not (!isSpace ·) (l := body)
  have hword : ∀ ch ∈ body.takeWhile (!isSpace ·), isSpace ch = false := by
    intro ch hch
    simpa using List.mem_takeWhile_imp hch
  generalize hr : body.takeWhile (!isSpace ·) = run at h hrun hword
  obtain ⟨after, hafter⟩ := (List.take_prefix 20 run).trans ⟨_, hrun⟩
  have hdrop : body.drop (run.take 20).length = after := by rw [← hafter, List.drop_left]
  rw [hdrop] at h ⊢
  have hgap := List.takeWhile_append_dropWhile (p := isSpace) (l := after)
  refine ⟨line.takeWhile isSpace, run.take 20, after.takeWhile isSpace, ?_, ?_, ?_, ?_,
    List.length_take_le _ _, ?_⟩
  · rw [hgap, hafter, hline]
  · rw [List.forall_mem_append]
    exact ⟨fun ch => List.mem_takeWhile_imp, fun ch => List.mem_takeWhile_imp⟩
  · exact fun ch hch => hword ch (List.mem_of_mem_take hch)
  · intro hnil
    have hnone : run = [] := (List.take_eq_nil_iff.mp hnil).resolve_left (by decide)
    rw [hnil, List.nil_append] at hafter
    cases body with
    | nil =>
      rw [hafter] at h
      exact h rfl
    | cons ch body =>
      have hch : isSpace ch = false := hplain (List.cons_ne_nil ch body)
      rw [List.takeWhile_cons_of_pos (by simp [hch]), hnone] at hr
      cases hr
  · intro hnil
    by_contra hshort
    rw [List.length_take] at hshort
    rw [List.take_of_length_le (by omega)] at hafter
    have hrest := List.append_cancel_left (hafter.trans hrun.symm)
    rw [← hrest] at hspace
    cases after with
    | nil => exact h rfl
    | cons ch after =>
      have hch : (!isSpace ch) = false := hspace (List.cons_ne_nil ch after)
      rw [List.takeWhile_cons_of_pos (by simpa using hch)] at hnil
      cases hnil

theorem longWord_iff (line : Bytes) : LongWord line ↔ tokSz ≤ (secondWord line).length := by
  constructor
  · rintro ⟨blanks, first, gap, word, rest, rfl, hspace, hplain, hne, hlength, hcut, hword⟩
    rw [List.forall_mem_append] at hspace hplain
    rw [secondWord, behindFirst_append hspace.1 hplain.1 hne hlength hspace.2 hcut,
      List.dropWhile_append_of_pos hspace.2]
    have hstart : (word ++ rest).dropWhile isSpace = word ++ rest := by
      cases word with
      | nil => cases hword
      | cons ch word =>
        rw [List.cons_append, List.dropWhile_cons_of_neg]
        rw [hplain.2 ch List.mem_cons_self]
        exact Bool.false_ne_true
    rw [hstart, List.takeWhile_append_of_pos (by simpa using hplain.2), List.length_append, hword]
    exact Nat.le_add_right _ _
  · intro h
    have hne : (behindFirst line).dropWhile isSpace ≠ [] := by
      intro hnil
      rw [secondWord, hnil] at h
      exact absurd h (by decide)
    obtain ⟨blanks, first, gap, hline, hspace, hplain, hparts⟩ := exists_behindFirst hne
    have hword : ∀ ch ∈ (secondWord line).take tokSz, isSpace ch = false := by
      intro ch hch
      simpa using List.mem_takeWhile_imp (List.mem_of_mem_take hch)
    refine ⟨blanks, first, gap, (secondWord line).take tokSz, (secondWord line).drop tokSz ++
      ((behindFirst line).dropWhile isSpace).dropWhile (!isSpace ·), ?_, hspace, ?_, hparts.1,
      hparts.2.1, hparts.2.2, List.length_take_of_le h⟩
    · rw [← List.append_assoc (List.take ..), List.take_append_drop, secondWord,
        List.takeWhile_append_dropWhile]
      exact hline
    · rw [List.forall_mem_append]
      exact ⟨hplain, hword⟩

/-- The tokens of a reply fit exactly if no line that `mcr_updateInstances` scans has a long
word. -/
theorem tokensFit_iff (ns : NameService) (stream : Bytes) :
    TokensFit ns stream ↔ ∀ line ∈ instanceLines (replyLines stream), ¬LongWord line := by
  have hsize : tokSz = 255 := rfl
  have hline : ∀ line ∈ instanceLines (replyLines stream),
      TokFits (secondWord (cString line)) ↔ ¬LongWord line := by
    intro line hmem
    rw [cString_replyLines (List.takeWhile_subset _ hmem), longWord_iff, TokFits]
    omega
  constructor
  · intro h line hmem
    apply (hline line hmem).mp
    apply h.ip ⟨[], 0⟩
    rw [storedIps_eq]
    exact List.mem_map_of_mem hmem
  · intro h
    refine ⟨?_, ?_, ?_⟩
    · intro l ip hip
      rw [storedIps_eq] at hip
      obtain ⟨line, hmem, rfl⟩ := List.mem_map.mp hip
      exact (hline line hmem).mpr (h line hmem)
    · intro l s hs
      have := stored_key hs
      unfold TokFits
      omega
    · intro l s hs
      have := stored_tcip hs
      unfold TokFits
      omega

/-- An address of 300 bytes. -/
def longAddressReply : Bytes :=
  ascii "INSTANCE " ++ List.replicate 300 97 ++ ascii " 11211\r\nEND\r\n"

theorem tokensFit_fails : ¬TokensFit sampleNames longAddressReply := by
  intro h
  have hip := h.ip ⟨[], 0⟩ (List.replicate 300 97) (by decide +kernel)
  exact absurd hip (by unfold TokFits; decide +kernel)

end StatsProxy

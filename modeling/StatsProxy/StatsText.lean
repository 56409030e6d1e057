import StatsProxy.Memcache

/-! The text of a list of stats. The loop of `sp_memcache_stats_add_stats` yields
clean entries whatever a server sends, and it reads back what `rawPrintStats`
prints of such entries. -/
namespace StatsProxy
open CString

/-- What stands between two separators of a line. -/
structure Word (text : Bytes) : Prop where
  ne : text ≠ []
  noNul : 0 ∉ text
  noBlank : 32 ∉ text
  noCr : 13 ∉ text
  noLf : 10 ∉ text

structure StatsEntry.Clean (entry : StatsEntry) : Prop where
  name : Word entry.name
  value : ∃ valueStr, entry.v = .alpha valueStr ∧ Word valueStr

instance (text : Bytes) : Decidable (Word text) :=
  decidable_of_iff (text ≠ [] ∧ 0 ∉ text ∧ 32 ∉ text ∧ 13 ∉ text ∧ 10 ∉ text)
    ⟨fun ⟨ne, noNul, noBlank, noCr, noLf⟩ => ⟨ne, noNul, noBlank, noCr, noLf⟩,
      fun h => ⟨h.ne, h.noNul, h.noBlank, h.noCr, h.noLf⟩⟩

theorem clean_alpha {name valueStr : Bytes} (hname : Word name) (hvalue : Word valueStr) :
    StatsEntry.Clean ⟨name, .alpha valueStr⟩ :=
  ⟨hname, valueStr, rfl, hvalue⟩

/-- The loop of `sp_memcache_stats_add_stats`: its calls of `strtok_r` on the rest
of the input, the list it appends to and the counter it increments. -/
def addStatsLoop (statsInput : Bytes) (stats : List StatsEntry) (numStatsAdded : Nat) :
    List StatsEntry × Nat :=
  match _h : strtokR (ascii "\r\n") statsInput with
  | none => (stats, numStatsAdded)
  | some (res, save) =>
    match spMemcacheStatsParseBasic (rawStat res) with
    | some (name, value) => addStatsLoop save (stats ++ [⟨name, .alpha value⟩]) (numStatsAdded + 1)
    | none => addStatsLoop save stats numStatsAdded
termination_by statsInput.length
decreasing_by all_goals exact strtokR_length _h

def StatsValue.text : StatsValue → Bytes
  | .uint64 value => printDecimal value
  | .alpha valueStr => valueStr

/-- A line of `rawPrintStats`, without its line end. -/
def statLine (entry : StatsEntry) : Bytes :=
  sessionPrefix ++ entry.name ++ ascii " " ++ entry.v.text

/-- The entries of a uri as the telnet view shows them. -/
def rawPrintStats (stats : List StatsEntry) : Bytes :=
  stats.flatMap (fun entry => statLine entry ++ ascii "\r\n") ++ endMarker

/-- The entry of one line, if it has a name and a value. -/
def lineEntry (res : Bytes) : Option StatsEntry :=
  (spMemcacheStatsParseBasic (rawStat res)).map fun p => ⟨p.1, .alpha p.2⟩

theorem addStats_eq_lines (statsInput : Bytes) :
    spMemcacheStatsAddStats statsInput =
      (strtok (ascii "\r\n") (cString statsInput)).filterMap lineEntry := rfl

/-- The tokeniser inside a line, by its calls. -/
theorem parseBasic_eq_strtokR (str : Bytes) :
    spMemcacheStatsParseBasic str = match strtokR (ascii " ") str with
      | none => none
      | some (name, save) => (strtokR (ascii " ") save).map fun p => (name, p.1) := by
  unfold spMemcacheStatsParseBasic
  rw [strtok_eq_strtokR]
  cases strtokR (ascii " ") str with
  | none => rfl
  | some first =>
    dsimp only
    rw [strtok_eq_strtokR]
    cases strtokR (ascii " ") first.2 with
    | none => rfl
    | some second => rfl

/-- Each iteration takes one token, and appends and counts at most one entry. -/
theorem addStatsLoop_eq (statsInput : Bytes) (stats : List StatsEntry) (numStatsAdded : Nat) :
    addStatsLoop statsInput stats numStatsAdded =
      (stats ++ (strtok (ascii "\r\n") statsInput).filterMap lineEntry,
        numStatsAdded + ((strtok (ascii "\r\n") statsInput).filterMap lineEntry).length) := by
  induction statsInput, stats, numStatsAdded using addStatsLoop.induct with
  | case1 statsInput stats numStatsAdded h =>
    rw [addStatsLoop, strtok_eq_strtokR, h]
    simp
  | case2 statsInput stats numStatsAdded res save h name value hparse ih =>
    rw [addStatsLoop, strtok_eq_strtokR, h]
    have hline : lineEntry res = some ⟨name, .alpha value⟩ := by
      rw [lineEntry, hparse]
      rfl
    simp only [hparse, ih, List.filterMap_cons, hline, List.append_assoc, List.cons_append,
      List.nil_append, List.length_cons]
    congr 1
    omega
  | case3 statsInput stats numStatsAdded res save h hparse ih =>
    rw [addStatsLoop, strtok_eq_strtokR, h]
    have hline : lineEntry res = none := by
      rw [lineEntry, hparse]
      rfl
    simp only [hparse, ih, List.filterMap_cons, hline]

theorem Word.blank_free {word : Bytes} (h : Word word) : ∀ ch ∈ word, ch ∉ ascii " " := by
  intro ch hch hblank
  have hspace : ch = 32 := List.mem_singleton.mp hblank
  exact h.noBlank (hspace ▸ hch)

/-- A line end is a CR or an LF. -/
theorem mem_lineEnd {ch : UInt8} : ch ∈ ascii "\r\n" ↔ ch = 13 ∨ ch = 10 := by
  have hlineEnd : ascii "\r\n" = [13, 10] := by decide
  rw [hlineEnd, List.mem_cons, List.mem_singleton]

/-- A text that is made of these lines. -/
structure IsLines (text : Bytes) (lines : List Bytes) : Prop where
  text : text = lines.flatMap (· ++ ascii "\r\n")
  clean : ∀ line ∈ lines, 13 ∉ line ∧ 10 ∉ line

/-- The tokeniser of the lines drops the empty ones. -/
theorem IsLines.strtok {text : Bytes} {lines : List Bytes} (h : IsLines text lines) :
    strtok (ascii "\r\n") text = lines.filter (· ≠ []) := by
  obtain ⟨rfl, hclean⟩ := h
  induction lines with
  | nil => exact strtok_nil _
  | cons line lines ih =>
    rw [List.forall_mem_cons] at hclean
    have hline : ∀ ch ∈ line, ch ∉ ascii "\r\n" := by
      intro ch hch hend
      rcases mem_lineEnd.mp hend with rfl | rfl
      · exact hclean.1.1 hch
      · exact hclean.1.2 hch
    have hcons : (line :: lines).flatMap (· ++ ascii "\r\n") =
        line ++ 13 :: 10 :: lines.flatMap (· ++ ascii "\r\n") := by
      simp [ascii]
    rw [hcons, strtok_append_cons (by decide), strtok_delimiter (by decide), ih hclean.2]
    by_cases hne : line = []
    · rw [hne, strtok_nil]
      simp
    · rw [strtok_word hne hline, List.filter_cons_of_pos (by simpa using hne)]
      rfl

/-- A token of a line without its `STAT ` is a word. -/
theorem word_of_token {statsInput res piece : Bytes}
    (hres : res ∈ strtok (ascii "\r\n") (cString statsInput))
    (hpiece : piece ∈ strtok (ascii " ") (rawStat res)) : Word piece := by
  have hraw : rawStat res ⊆ res := by
    unfold rawStat
    split
    · exact List.drop_subset _ _
    · exact List.Subset.refl _
  obtain ⟨hne, hblank⟩ := strtok_pieces hpiece
  have hsub : piece ⊆ res := List.Subset.trans (strtok_subset hpiece) hraw
  have hline := (strtok_pieces hres).2
  exact
    { ne := hne
      noNul := fun h => cString_noNul statsInput (strtok_subset hres (hsub h))
      noBlank := fun h => hblank 32 h (by decide)
      noCr := fun h => hline 13 (hsub h) (by decide)
      noLf := fun h => hline 10 (hsub h) (by decide) }

theorem addStats_clean {statsInput : Bytes} {entry : StatsEntry}
    (h : entry ∈ spMemcacheStatsAddStats statsInput) : entry.Clean := by
  rw [addStats_eq_lines, List.mem_filterMap] at h
  obtain ⟨res, hres, hentry⟩ := h
  unfold lineEntry spMemcacheStatsParseBasic at hentry
  split at hentry
  · rename_i name value more htokens
    cases hentry
    have hname : name ∈ strtok (ascii " ") (rawStat res) := by
      rw [htokens]
      exact List.mem_cons_self
    have hvalue : value ∈ strtok (ascii " ") (rawStat res) := by
      rw [htokens]
      exact List.mem_cons_of_mem _ List.mem_cons_self
    exact ⟨word_of_token hres hname, value, rfl, word_of_token hres hvalue⟩
  · contradiction

theorem StatsEntry.Clean.text {entry : StatsEntry} (h : entry.Clean) : Word entry.v.text := by
  obtain ⟨valueStr, hv, hvalue⟩ := h.value
  rw [hv]
  exact hvalue

/-- A character that is in no word and not in `STAT ` is not in a line. -/
theorem not_mem_statLine {entry : StatsEntry} {ch : UInt8} (hname : ch ∉ entry.name)
    (hvalue : ch ∉ entry.v.text) (hfixed : ch ∉ sessionPrefix ++ ascii " ") :
    ch ∉ statLine entry := by
  rw [List.mem_append, not_or] at hfixed
  unfold statLine
  simp only [List.mem_append, not_or]
  exact ⟨⟨⟨hfixed.1, hname⟩, hfixed.2⟩, hvalue⟩

theorem statLine_ne (entry : StatsEntry) : statLine entry ≠ [] := by
  intro h
  have hlen := congrArg List.length h
  simp [statLine, sessionPrefix, ascii] at hlen

theorem rawStat_statLine (entry : StatsEntry) :
    rawStat (statLine entry) = entry.name ++ 32 :: entry.v.text := by
  have hsplit : statLine entry = sessionPrefix ++ (entry.name ++ 32 :: entry.v.text) := by
    simp [statLine, ascii]
  unfold rawStat
  rw [hsplit, if_pos (List.isPrefixOf_iff_prefix.mpr (List.prefix_append _ _)), List.drop_left]

/-- A printed line is read back as its entry. -/
theorem lineEntry_statLine {entry : StatsEntry} (h : entry.Clean) :
    lineEntry (statLine entry) = some entry := by
  have htokens : strtok (ascii " ") (entry.name ++ 32 :: entry.v.text) =
      [entry.name, entry.v.text] := by
    rw [strtok_append_cons (by decide), strtok_word h.name.ne h.name.blank_free,
      strtok_word h.text.ne h.text.blank_free]
    rfl
  obtain ⟨valueStr, hv, -⟩ := h.value
  unfold lineEntry spMemcacheStatsParseBasic
  rw [rawStat_statLine, htokens, hv]
  cases entry
  cases hv
  rfl

theorem statLine_clean {entry : StatsEntry} (h : entry.Clean) :
    13 ∉ statLine entry ∧ 10 ∉ statLine entry :=
  ⟨not_mem_statLine h.name.noCr h.text.noCr (by decide),
    not_mem_statLine h.name.noLf h.text.noLf (by decide)⟩

/-- Of a text of lines the parser makes the entries of its lines. -/
theorem IsLines.addStats {text : Bytes} {lines : List Bytes} (h : IsLines text lines)
    (hnul : 0 ∉ text) : spMemcacheStatsAddStats text = lines.filterMap lineEntry := by
  have hempty : lineEntry [] = none := by
    decide
  rw [addStats_eq_lines, cString_of_nul hnul, h.strtok]
  clear h hnul
  induction lines with
  | nil => rfl
  | cons line lines ih =>
    by_cases hne : line = []
    · rw [hne, List.filter_cons_of_neg (by simp), List.filterMap_cons, hempty, ih]
    · rw [List.filter_cons_of_pos (by simpa using hne), List.filterMap_cons, List.filterMap_cons,
        ih]

section

/-! A text with a line for each of some entries, and the terminator. -/
variable {α : Type} {line : α → Bytes} {read : α → StatsEntry} {entries : List α}

theorem isLines_terminated (h : ∀ entry ∈ entries, 13 ∉ line entry ∧ 10 ∉ line entry) :
    IsLines (entries.flatMap (fun entry => line entry ++ ascii "\r\n") ++ endMarker)
      (entries.map line ++ [ascii "END"]) where
  text := by
    have hend : endMarker = ascii "END" ++ ascii "\r\n" := by
      decide
    rw [List.flatMap_append, List.flatMap_map, hend]
    simp
  clean := by
    intro l hl
    rw [List.mem_append, List.mem_map, List.mem_singleton] at hl
    rcases hl with ⟨entry, hentry, rfl⟩ | rfl
    · exact h entry hentry
    · decide

theorem terminated_noNul (h : ∀ entry ∈ entries, 0 ∉ line entry) :
    0 ∉ entries.flatMap (fun entry => line entry ++ ascii "\r\n") ++ endMarker := by
  rw [List.mem_append, List.mem_flatMap, not_or]
  constructor
  · rintro ⟨entry, hentry, hmem⟩
    rcases List.mem_append.mp hmem with hline | hend
    · exact h entry hentry hline
    · exact absurd hend (by decide)
  · decide

/-- The terminator is no entry, so the parser reads the others back. -/
theorem addStats_terminated (hclean : ∀ entry ∈ entries, 13 ∉ line entry ∧ 10 ∉ line entry)
    (hnul : ∀ entry ∈ entries, 0 ∉ line entry)
    (hread : ∀ entry ∈ entries, lineEntry (line entry) = some (read entry)) :
    spMemcacheStatsAddStats
        (entries.flatMap (fun entry => line entry ++ ascii "\r\n") ++ endMarker) =
      entries.map read := by
  have hend : lineEntry (ascii "END") = none := by
    decide
  rw [(isLines_terminated hclean).addStats (terminated_noNul hnul), List.filterMap_append,
    List.filterMap_cons, hend]
  clear hclean hnul
  induction entries with
  | nil => rfl
  | cons entry entries ih =>
    rw [List.forall_mem_cons] at hread
    rw [List.map_cons, List.filterMap_cons, hread.1, List.map_cons, ← ih hread.2]
    rfl

end

/-- The printed text holds the lines of the entries and the terminator, and no
other line. -/
theorem isLines_rawPrintStats {stats : List StatsEntry} (h : ∀ entry ∈ stats, entry.Clean) :
    IsLines (rawPrintStats stats) (stats.map statLine ++ [ascii "END"]) :=
  isLines_terminated fun entry hentry => statLine_clean (h entry hentry)

theorem statLine_noNul {entry : StatsEntry} (h : entry.Clean) : 0 ∉ statLine entry :=
  not_mem_statLine h.name.noNul h.text.noNul (by decide)

theorem rawPrintStats_noNul {stats : List StatsEntry} (h : ∀ entry ∈ stats, entry.Clean) :
    0 ∉ rawPrintStats stats :=
  terminated_noNul fun entry hentry => statLine_noNul (h entry hentry)

/-- The parser reads back what is printed of clean entries. -/
theorem addStats_rawPrintStats {stats : List StatsEntry} (h : ∀ entry ∈ stats, entry.Clean) :
    spMemcacheStatsAddStats (rawPrintStats stats) = stats := by
  have hread : spMemcacheStatsAddStats (rawPrintStats stats) = stats.map id :=
    addStats_terminated (fun entry hentry => statLine_clean (h entry hentry))
      (fun entry hentry => statLine_noNul (h entry hentry))
      (fun entry hentry => lineEntry_statLine (h entry hentry))
  rw [hread, List.map_id]

/-- For every input the loop appends clean entries and counts them, and it inverts
the printer: what is shown of a reply is one line for each entry, and is read back
as these entries. -/
theorem rawPrintStats_inverted :
    (∀ statsInput stats numStatsAdded, 0 ∉ statsInput →
      (∀ entry ∈ spMemcacheStatsAddStats statsInput, entry.Clean) ∧
        addStatsLoop statsInput stats numStatsAdded =
          (stats ++ spMemcacheStatsAddStats statsInput,
            numStatsAdded + (spMemcacheStatsAddStats statsInput).length)) ∧
    (∀ stats : List StatsEntry, (∀ entry ∈ stats, entry.Clean) →
      spMemcacheStatsAddStats (rawPrintStats stats) = stats) ∧
    (∀ statsInput,
      spMemcacheStatsAddStats (rawPrintStats (spMemcacheStatsAddStats statsInput)) =
          spMemcacheStatsAddStats statsInput ∧
        IsLines (rawPrintStats (spMemcacheStatsAddStats statsInput))
          ((spMemcacheStatsAddStats statsInput).map statLine ++ [ascii "END"])) := by
  refine ⟨?_, fun stats => addStats_rawPrintStats, ?_⟩
  · intro statsInput stats numStatsAdded hnul
    refine ⟨fun entry => addStats_clean, ?_⟩
    rw [addStatsLoop_eq, addStats_eq_lines, cString_of_nul hnul]
  · intro statsInput
    have hclean : ∀ entry ∈ spMemcacheStatsAddStats statsInput, entry.Clean :=
      fun entry => addStats_clean
    exact ⟨addStats_rawPrintStats hclean, isLines_rawPrintStats hclean⟩

def hostileInput : Bytes :=
  ascii "\r\n\nSTAT\r\nSTAT \r\n STAT  a  1 2\rEND x\r\nSTAT STAT x\r\nSTAT b 2"

theorem rawPrintStats_inverted_hostile :
    addStatsLoop hostileInput [] 0 = (spMemcacheStatsAddStats hostileInput, 4) ∧
      spMemcacheStatsAddStats (rawPrintStats (spMemcacheStatsAddStats hostileInput)) =
        spMemcacheStatsAddStats hostileInput := by
  obtain ⟨hparse, hprint, -⟩ := rawPrintStats_inverted
  obtain ⟨hclean, hloop⟩ := hparse hostileInput [] 0 (by decide +kernel)
  have hlen : (spMemcacheStatsAddStats hostileInput).length = 4 := by
    decide +kernel
  rw [hlen, List.nil_append, Nat.zero_add] at hloop
  exact ⟨hloop, hprint _ hclean⟩

end StatsProxy

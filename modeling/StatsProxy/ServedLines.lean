import StatsProxy.StatsText

/-! The lines of a server in the telnet view. A value is read up to its first blank. -/
namespace StatsProxy
open CString

/-- What stands behind a name on a line. It may have blanks, but none in front. -/
structure LineValue (text : Bytes) : Prop where
  ne : text ≠ []
  noNul : 0 ∉ text
  noCr : 13 ∉ text
  noLf : 10 ∉ text
  noBlankFirst : text.head? ≠ some 32

instance (text : Bytes) : Decidable (LineValue text) :=
  decidable_of_iff (text ≠ [] ∧ 0 ∉ text ∧ 13 ∉ text ∧ 10 ∉ text ∧ text.head? ≠ some 32)
    ⟨fun ⟨ne, noNul, noCr, noLf, noBlankFirst⟩ => ⟨ne, noNul, noCr, noLf, noBlankFirst⟩,
      fun h => ⟨h.ne, h.noNul, h.noCr, h.noLf, h.noBlankFirst⟩⟩

/-- A stat as a server sends it. -/
structure ServedStat where
  name : Bytes
  value : Bytes
  nameWord : Word name
  valueLine : LineValue value

def ServedStat.line (stat : ServedStat) : Bytes :=
  ascii "STAT " ++ stat.name ++ ascii " " ++ stat.value

/-- The reply of a server with these stats. -/
def servedReply (stats : List ServedStat) : Bytes :=
  stats.flatMap (fun stat => stat.line ++ ascii "\r\n") ++ ascii "END\r\n"

def firstWord (value : Bytes) : Bytes := value.takeWhile (· ≠ 32)

/-- The stat that is kept of a line. -/
def ServedStat.kept (stat : ServedStat) : StatsEntry := ⟨stat.name, .alpha (firstWord stat.value)⟩

theorem firstWord_length (value : Bytes) :
    (firstWord value).length ≤ value.length ∧
      ((firstWord value).length = value.length → 32 ∉ value) := by
  have hleading : firstWord value <+: value := List.takeWhile_prefix _
  refine ⟨hleading.length_le, fun hlen hmem => ?_⟩
  rw [← hleading.eq_of_length hlen] at hmem
  simpa using List.mem_takeWhile_imp hmem

theorem firstWord_eq_self {value : Bytes} (h : 32 ∉ value) : firstWord value = value := by
  apply List.takeWhile_eq_self_iff.mpr
  intro ch hch
  simp only [ne_eq, decide_eq_true_eq]
  exact fun heq => h (heq ▸ hch)

theorem strtok_firstWord {value : Bytes} (h : LineValue value) :
    ∃ more, strtok (ascii " ") value = firstWord value :: more := by
  have hne : firstWord value ≠ [] := by
    have hvalue := h.ne
    have hfirst := h.noBlankFirst
    cases value with
    | nil => contradiction
    | cons ch value =>
      have hch : ch ≠ 32 := fun heq => hfirst (congrArg some heq)
      rw [firstWord, List.takeWhile_cons_of_pos (by simpa using hch)]
      exact List.cons_ne_nil _ _
  have hfree : ∀ ch ∈ firstWord value, ch ∉ ascii " " := by
    intro ch hch hblank
    have hspace : ch = 32 := List.mem_singleton.mp hblank
    rw [hspace] at hch
    simpa using List.mem_takeWhile_imp hch
  have hsplit := List.takeWhile_append_dropWhile (p := (· ≠ 32)) (l := value)
  rw [← firstWord] at hsplit
  cases hrest : value.dropWhile (· ≠ 32) with
  | nil =>
    rw [hrest, List.append_nil] at hsplit
    rw [← hsplit, firstWord_eq_self (fun hmem => hfree 32 hmem (by decide))]
    exact ⟨[], strtok_word hne hfree⟩
  | cons ch rest =>
    have hch : ch = 32 := by
      have hne : value.dropWhile (· ≠ 32) ≠ [] := hrest ▸ List.cons_ne_nil ch rest
      have hhead := List.head_dropWhile_not (fun c : UInt8 => c ≠ 32) hne
      simp only [hrest, List.head_cons] at hhead
      simpa using hhead
    rw [hrest, hch] at hsplit
    refine ⟨strtok (ascii " ") rest, ?_⟩
    conv_lhs => rw [← hsplit]
    rw [strtok_append_cons (by decide), strtok_word hne hfree]
    rfl

theorem ServedStat.line_eq (stat : ServedStat) :
    stat.line = statLine ⟨stat.name, .alpha stat.value⟩ := rfl

/-- A value is read to its first blank only. -/
theorem lineEntry_served (stat : ServedStat) : lineEntry stat.line = some stat.kept := by
  obtain ⟨more, hmore⟩ := strtok_firstWord stat.valueLine
  have htokens : strtok (ascii " ") (stat.name ++ 32 :: stat.value) =
      stat.name :: firstWord stat.value :: more := by
    rw [strtok_append_cons (by decide), strtok_word stat.nameWord.ne stat.nameWord.blank_free,
      hmore]
    rfl
  have hraw : rawStat stat.line = stat.name ++ 32 :: stat.value :=
    rawStat_statLine ⟨stat.name, .alpha stat.value⟩
  unfold lineEntry spMemcacheStatsParseBasic
  rw [hraw, htokens]
  rfl

theorem ServedStat.line_clean (stat : ServedStat) : 13 ∉ stat.line ∧ 10 ∉ stat.line := by
  rw [stat.line_eq]
  exact ⟨not_mem_statLine stat.nameWord.noCr stat.valueLine.noCr (by decide),
    not_mem_statLine stat.nameWord.noLf stat.valueLine.noLf (by decide)⟩

theorem ServedStat.line_noNul (stat : ServedStat) : 0 ∉ stat.line := by
  rw [stat.line_eq]
  exact not_mem_statLine stat.nameWord.noNul stat.valueLine.noNul (by decide)

theorem addStats_served (stats : List ServedStat) :
    spMemcacheStatsAddStats (servedReply stats) = stats.map ServedStat.kept :=
  addStats_terminated (fun stat _ => stat.line_clean) (fun stat _ => stat.line_noNul)
    (fun stat _ => lineEntry_served stat)

/-- What is shown of a line. -/
def ServedStat.shown (stat : ServedStat) : Bytes := statLine stat.kept

theorem shown_length (stat : ServedStat) :
    stat.shown.length ≤ stat.line.length ∧
      (stat.shown.length = stat.line.length → 32 ∉ stat.value) := by
  obtain ⟨hle, heq⟩ := firstWord_length stat.value
  simp only [ServedStat.shown, ServedStat.kept, statLine, ServedStat.line, StatsValue.text,
    sessionPrefix, List.length_append]
  refine ⟨by omega, fun hlen => heq (by omega)⟩

/-- Lines that only become shorter keep the length of the whole text exactly if none
of them changes. -/
theorem shown_lines_length (stats : List ServedStat) :
    (stats.flatMap fun stat => stat.shown ++ ascii "\r\n").length ≤
        (stats.flatMap fun stat => stat.line ++ ascii "\r\n").length ∧
      ((stats.flatMap fun stat => stat.shown ++ ascii "\r\n").length =
          (stats.flatMap fun stat => stat.line ++ ascii "\r\n").length →
        ∀ stat ∈ stats, 32 ∉ stat.value) := by
  induction stats with
  | nil => exact ⟨Nat.le_refl _, fun _ => nofun⟩
  | cons stat stats ih =>
    obtain ⟨hle, heq⟩ := shown_length stat
    simp only [List.flatMap_cons, List.length_append] at ih ⊢
    refine ⟨by omega, fun hlen => ?_⟩
    rw [List.forall_mem_cons]
    exact ⟨heq (by omega), ih.2 (by omega)⟩

/-- The telnet view of a reply is the reply exactly if no value has a blank. -/
theorem rawPrintStats_unchanged_iff (stats : List ServedStat) :
    rawPrintStats (spMemcacheStatsAddStats (servedReply stats)) = servedReply stats ↔
      ∀ stat ∈ stats, 32 ∉ stat.value := by
  have hshown : rawPrintStats (stats.map ServedStat.kept) =
      (stats.flatMap fun stat => stat.shown ++ ascii "\r\n") ++ ascii "END\r\n" := by
    rw [rawPrintStats, List.flatMap_map]
    rfl
  rw [addStats_served, hshown, servedReply, List.append_left_inj]
  constructor
  · intro h
    exact (shown_lines_length stats).2 (congrArg List.length h)
  · intro h
    apply List.flatMap_congr
    intro stat hstat
    rw [ServedStat.shown, ServedStat.kept, firstWord_eq_self (h stat hstat)]
    rfl

/-- The poller's own stat, as another proxy serves it. -/
def lastpollStat : ServedStat where
  name := ascii "lastpoll"
  value := ascii "Fri Mar 20 10:15:30 2009"
  nameWord := by decide
  valueLine := by decide

theorem rawPrintStats_cutsValue :
    ¬∀ stats : List ServedStat,
      rawPrintStats (spMemcacheStatsAddStats (servedReply stats)) = servedReply stats := by
  intro h
  have hcut := h [lastpollStat]
  have hshown : rawPrintStats (spMemcacheStatsAddStats (servedReply [lastpollStat])) =
      ascii "STAT lastpoll Fri\r\nEND\r\n" := by
    decide +kernel
  rw [hshown] at hcut
  exact absurd hcut (by decide)

end StatsProxy

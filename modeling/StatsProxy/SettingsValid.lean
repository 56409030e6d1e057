import StatsProxy.SettingsParser

/-! Every backend that a parse links is valid, whether the parse goes on to
accept the file, to reject it or to exit. The invariant is on the one shared
record, at every position of the parser. -/
namespace StatsProxy
open CString

structure BackendValid (bep : Backend) : Prop where
  fronthost : bep.settings.fronthost ≠ none
  backhost : bep.settings.backhost ≠ none
  frontport : bep.settings.frontport ≠ 0
  backport : bep.settings.backport ≠ 0
  connectMs : 0 < bep.settings.connectMs
  readMs : 0 < bep.settings.readMs
  writeMs : 0 < bep.settings.writeMs
  pollfreqMs : 0 < bep.settings.pollfreqMs
  refreshfreqMs : 0 < bep.settings.refreshfreqMs
  reporter : ∃ value ∈ reporterValues, bep.settings.reporter = some value

/-- The intervals of the shared record inside a block. -/
structure IntervalsValid (l : LocalSettings) : Prop where
  connectMs : 0 < l.connectMs
  readMs : 0 < l.readMs
  writeMs : 0 < l.writeMs
  pollfreqMs : 0 < l.pollfreqMs
  refreshfreqMs : 0 < l.refreshfreqMs

/-- The fields that one block leaves to the next. -/
structure LocalValid (l : LocalSettings) : Prop where
  fronthost : l.frontport ≠ 0 → l.fronthost ≠ none
  backhost : l.backport ≠ 0 → l.backhost ≠ none
  reporter : ∀ value, l.reporter = some value → value ∈ reporterValues

def ProxiesValid (s : Settings) : Prop := ∀ bep ∈ s.proxies, BackendValid bep

structure SettingsValid (s : Settings) : Prop extends LocalValid s.localSettings where
  proxies : ProxiesValid s

/-- Between the braces of a block. -/
def Position.inBlock : Position → Bool
  | .block | .equals _ | .value _ | .semicolon _ => true
  | _ => false

structure ParserValid (s : Settings) (p : Position) : Prop extends SettingsValid s where
  intervals : p.inBlock = true → IntervalsValid s.localSettings

theorem initial_valid : SettingsValid .initial where
  fronthost := fun h => absurd rfl h
  backhost := fun h => absurd rfl h
  reporter := nofun
  proxies := fun _ hm => absurd hm List.not_mem_nil

theorem startBlock_intervals (s : Settings) : IntervalsValid (startBlock s).localSettings := by
  constructor <;>
    simp [startBlock, defaultTimeoutMs, defaultPollFreqMs, defaultWebpageRefreshFreqMs]

theorem LocalValid.apply {l : LocalSettings} (h : LocalValid l) {a : Assignment}
    (ha : a.accepted = true) : LocalValid (a.apply l) := by
  have htimeout : ∀ ms, LocalValid (l.setTimeout ms) := fun ms =>
    ⟨h.fronthost, h.backhost, h.reporter⟩
  have hpoll : ∀ ms, LocalValid (l.setPollInterval ms) := fun ms =>
    ⟨h.fronthost, h.backhost, h.reporter⟩
  have hrefresh : ∀ ms, LocalValid (l.setRefreshInterval ms) := fun ms =>
    ⟨h.fronthost, h.backhost, h.reporter⟩
  cases a with
  | frontEnd value =>
    simp only [Assignment.apply]
    split
    · exact ⟨fun _ => nofun, h.backhost, h.reporter⟩
    · exact h
  | backEnd value =>
    simp only [Assignment.apply]
    split
    · exact ⟨h.fronthost, fun _ => nofun, h.reporter⟩
    · exact h
  | timeout value => exact htimeout (milliseconds value)
  | pollInterval value => exact hpoll (milliseconds value)
  | webpageRefreshInterval value => exact hrefresh (milliseconds value)
  | memcacheReporter value =>
    refine ⟨h.fronthost, h.backhost, fun reporter hr => ?_⟩
    cases hr
    simpa [Assignment.accepted] using ha

theorem IntervalsValid.apply {l : LocalSettings} (h : IntervalsValid l) {a : Assignment}
    (ha : a.accepted = true) : IntervalsValid (a.apply l) := by
  have htimeout : ∀ ms, 0 < ms → IntervalsValid (l.setTimeout ms) := fun ms hms =>
    ⟨hms, hms, hms, h.4, h.5⟩
  have hpoll : ∀ ms, 0 < ms → IntervalsValid (l.setPollInterval ms) := fun ms hms =>
    ⟨h.1, h.2, h.3, hms, h.5⟩
  have hrefresh : ∀ ms, 0 < ms → IntervalsValid (l.setRefreshInterval ms) := fun ms hms =>
    ⟨h.1, h.2, h.3, h.4, hms⟩
  cases a with
  | frontEnd value =>
    simp only [Assignment.apply]
    split
    · exact ⟨h.1, h.2, h.3, h.4, h.5⟩
    · exact h
  | backEnd value =>
    simp only [Assignment.apply]
    split
    · exact ⟨h.1, h.2, h.3, h.4, h.5⟩
    · exact h
  | timeout value => exact htimeout _ (by simpa [Assignment.accepted] using ha)
  | pollInterval value => exact hpoll _ (by simpa [Assignment.accepted] using ha)
  | webpageRefreshInterval value => exact hrefresh _ (by simpa [Assignment.accepted] using ha)
  | memcacheReporter value => exact ⟨h.1, h.2, h.3, h.4, h.5⟩

theorem localOrGlobal_pos {l g : Int} (h : 0 < l) : 0 < localOrGlobal l g := by
  unfold localOrGlobal
  rw [if_pos (by omega)]
  exact h

theorem backendNew_valid {lookup : Bytes → Option Nat} {g : GlobalSettings} {l : LocalSettings}
    {bep : Backend} (hl : LocalValid l) (hi : IntervalsValid l) (hfront : l.frontport ≠ 0)
    (hback : l.backport ≠ 0) (h : backendNew lookup g l = some bep) : BackendValid bep := by
  simp only [backendNew, Option.bind_eq_bind, Option.bind_eq_some_iff, Option.pure_def,
    Option.some.injEq] at h
  obtain ⟨backaddr, -, frontaddr, -, rfl⟩ := h
  constructor
  · exact hl.fronthost hfront
  · exact hl.backhost hback
  · exact hfront
  · exact hback
  · exact localOrGlobal_pos hi.connectMs
  · exact localOrGlobal_pos hi.readMs
  · exact localOrGlobal_pos hi.writeMs
  · exact localOrGlobal_pos hi.pollfreqMs
  · exact localOrGlobal_pos hi.refreshfreqMs
  · cases hr : l.reporter with
    | none => exact ⟨ascii "off", by simp [reporterValues], by simp⟩
    | some value => exact ⟨value, hl.reporter value hr, by simp⟩

/-- A backend's uris do not matter. -/
theorem BackendValid.uris {bep : Backend} (h : BackendValid bep) (uris : List UriEntry) :
    BackendValid { bep with uris } :=
  ⟨h.1, h.2, h.3, h.4, h.5, h.6, h.7, h.8, h.9, h.10⟩

theorem addProxy_valid {lookup : Bytes → Option Nat} {s s' : Settings} (h : SettingsValid s)
    (hi : IntervalsValid s.localSettings) (hfront : s.localSettings.frontport ≠ 0)
    (hback : s.localSettings.backport ≠ 0) (hadd : addProxy lookup s = some s') :
    SettingsValid s' := by
  simp only [addProxy, Option.bind_eq_bind, Option.bind_eq_some_iff, Option.pure_def,
    Option.some.injEq] at hadd
  obtain ⟨bep, hbep, rfl⟩ := hadd
  refine ⟨h.toLocalValid, fun bep' hm => ?_⟩
  rcases List.mem_append.mp hm with hm | hm
  · exact h.proxies bep' hm
  · rw [List.mem_singleton.mp hm]
    exact (backendNew_valid h.toLocalValid hi hfront hback hbep).uris _

theorem endOfBlock_valid (lookup : Bytes → Option Nat) {s : Settings} (h : SettingsValid s)
    (hi : IntervalsValid s.localSettings) :
    (endOfBlock lookup s).elim (ProxiesValid ·.settings) SettingsValid := by
  unfold endOfBlock
  split
  · exact h.proxies
  · rename_i hports
    rw [not_or] at hports
    split
    · exact h.proxies
    · rename_i s' hadd
      exact addProxy_valid h hi hports.1 hports.2 hadd

/-- One token keeps the invariant. -/
theorem parseToken_valid (lookup : Bytes → Option Nat) {s : Settings} {p : Position}
    (h : ParserValid s p) (t : Token) :
    (parseToken lookup s t p).elim (ProxiesValid ·.settings) fun r => ParserValid r.2 r.1 := by
  have hs := h.toSettingsValid
  cases p with
  | config =>
    simp only [parseToken]
    split
    · exact ⟨hs, nofun⟩
    · exact hs.proxies
  | configOpen =>
    simp only [parseToken]
    split
    · exact ⟨hs, nofun⟩
    · exact hs.proxies
  | statements =>
    simp only [parseToken]
    split
    · exact ⟨hs, nofun⟩
    · split
      · exact ⟨hs, nofun⟩
      · split
        · exact ⟨hs, nofun⟩
        · exact hs.proxies
  | uri =>
    simp only [parseToken]
    split
    · exact ⟨hs, nofun⟩
    · exact hs.proxies
  | uriEnd value =>
    simp only [parseToken]
    split
    · exact ⟨⟨hs.toLocalValid, hs.proxies⟩, nofun⟩
    · exact hs.proxies
  | mapping =>
    simp only [parseToken]
    split
    · exact ⟨⟨⟨hs.fronthost, hs.backhost, hs.reporter⟩, hs.proxies⟩,
        fun _ => startBlock_intervals s⟩
    · exact hs.proxies
  | block =>
    simp only [parseToken]
    split
    · exact ⟨hs, fun _ => h.intervals rfl⟩
    · have hend := endOfBlock_valid lookup hs (h.intervals rfl)
      split
      · rename_i o heq
        rw [heq] at hend
        exact hend
      · rename_i s' heq
        rw [heq] at hend
        split
        · exact ⟨hend, nofun⟩
        · exact SettingsValid.proxies hend
  | equals k =>
    simp only [parseToken]
    split
    · exact ⟨hs, fun _ => h.intervals rfl⟩
    · exact hs.proxies
  | value k =>
    simp only [parseToken]
    split
    · exact ⟨hs, fun _ => h.intervals rfl⟩
    · exact hs.proxies
  | semicolon a =>
    simp only [parseToken]
    split
    · split
      · rename_i ha
        exact ⟨⟨hs.apply ha, hs.proxies⟩, fun _ => (h.intervals rfl).apply ha⟩
      · exact hs.proxies
    · exact hs.proxies
  | closed => exact hs.proxies

theorem parseFinal_valid {lookup : Bytes → Option Nat} {s : Settings} {p : Position}
    (h : ParserValid s p) (final : Final) :
    ProxiesValid (parseFinal lookup s p final).settings := by
  have hs := h.toSettingsValid
  unfold parseFinal
  split
  · exact hs.proxies
  · split
    · exact hs.proxies
    · have hend := endOfBlock_valid lookup hs (h.intervals rfl)
      split
      · rename_i o heq
        rw [heq] at hend
        exact hend
      · rename_i s' heq
        rw [heq] at hend
        exact SettingsValid.proxies hend
    · exact hs.proxies

theorem parse_valid {lookup : Bytes → Option Nat} {s : Settings} {p : Position}
    (h : ParserValid s p) (final : Final) (input : List Token) :
    ProxiesValid (parse lookup s p final input).settings := by
  induction input generalizing s p with
  | nil => exact parseFinal_valid h final
  | cons t rest ih =>
    have hstep := parseToken_valid lookup h t
    unfold parse
    split
    · rename_i o heq
      rw [heq] at hstep
      exact hstep
    · rename_i p' s' heq
      rw [heq] at hstep
      exact ih hstep

/-- Every configured backend is valid: also one of a file that is rejected
later. -/
theorem proxies_valid (lookup : Bytes → Option Nat) (file : Bytes) :
    ∀ bep ∈ (yyparse lookup (lexFile file)).settings.proxies, BackendValid bep :=
  have hstart : ParserValid .initial .config := ⟨initial_valid, nofun⟩
  parse_valid hstart _ _

theorem proxies_rejectedFile :
    ∃ bep ∈ (yyparse sampleLookup (lexFile rejectedFile)).settings.proxies, BackendValid bep := by
  have hlen : (yyparse sampleLookup (lexFile rejectedFile)).settings.proxies.length = 1 := by
    rw [rejectedFile, ascii_ofList]
    decide +kernel
  obtain ⟨bep, hbep⟩ := List.length_eq_one_iff.mp hlen
  have hm : bep ∈ (yyparse sampleLookup (lexFile rejectedFile)).settings.proxies := by
    rw [hbep]
    exact List.mem_singleton_self bep
  exact ⟨bep, hm, proxies_valid sampleLookup rejectedFile bep hm⟩

end StatsProxy

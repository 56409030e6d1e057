import StatsProxy.McrRows
import StatsProxy.RunBackend

/-! The list of the reporter's configuration page: the instances the reporter has named,
and after them the configured backends that are not in the list yet. -/
namespace StatsProxy
open CString Interaction Program Scanf

structure McrEntry where
  host : Bytes
  dotquad : Bytes
  addr : Nat
  port : Nat
  enabled : Bool
deriving DecidableEq

def isInList (addr : Nat) (el : List McrEntry) : Bool := el.any (·.addr = addr)

/-- The variables of `mcr_updateInstances` that a line is scanned into. -/
structure InstanceLocals where
  ip : Bytes
  port : Nat

/-- `"%*20s %s %d"` -/
def instanceFormat : List Directive :=
  [.string (some 20) false, .space, .string none true, .space, .integer .int]

def instanceArgs : List (Value → InstanceLocals → InstanceLocals) :=
  [fun v l => { l with ip := v.word }, fun v l => { l with port := toUInt32 v.int }]

def instanceEntry (ns : NameService) (l : InstanceLocals) : McrEntry :=
  let addr := (ns.inetAddr l.ip).getD INADDR_NONE
  ⟨ns.label addr, l.ip, addr, l.port % 2 ^ 16, true⟩

/-- The loop of `mcr_updateInstances` over the lines of a reply. -/
def readInstances (ns : NameService) : List Bytes → InstanceLocals → List McrEntry → List McrEntry
  | [], _, el => el
  | line :: lines, l, el =>
    if line = endLine ∨ line = errorLine then el
    else
      let scanned := sscanf line instanceFormat instanceArgs { l with ip := [] }
      if scanned.1 ≠ 2 then readInstances ns lines scanned.2 el
      else readInstances ns lines scanned.2 (el ++ [instanceEntry ns scanned.2])

def configedEntry (ns : NameService) (bep : Backend) : McrEntry :=
  ⟨ns.label bep.settings.backaddr, ns.inetNtoa bep.settings.backaddr, bep.settings.backaddr,
    bep.settings.backport, false⟩

def addConfiged (ns : NameService) (el : List McrEntry) (bep : Backend) : List McrEntry :=
  if isInList bep.settings.backaddr el then el else el ++ [configedEntry ns bep]

def mcrUpdateConfigedInstances (ns : NameService) (el : List McrEntry)
    (proxies : List Backend) : List McrEntry :=
  proxies.foldl (addConfiged ns) el

def McrEntry.pair (e : McrEntry) : Nat × Nat := (e.addr, e.port)

def Backend.pair (bep : Backend) : Nat × Nat := (bep.settings.backaddr, bep.settings.backport)

/-- The list has each configured backend once, enabled if it was reported, and all that
was reported. -/
structure ConfigListed (reported : List McrEntry) (proxies : List Backend)
    (el : List McrEntry) : Prop where
  once : ∀ bep ∈ proxies, (el.map McrEntry.pair).count bep.pair = 1
  enabled : ∀ bep ∈ proxies, ∀ e ∈ el, e.pair = bep.pair →
    (e.enabled = true ↔ bep.pair ∈ reported.map McrEntry.pair)
  kept : ∀ e ∈ reported, e ∈ el

/-- No two configured backends share an address, except where both are reported or both
are the same. -/
def SeparateHosts (reported : List McrEntry) (proxies : List Backend) : Prop :=
  ∀ bep ∈ proxies, bep.pair ∈ reported.map McrEntry.pair ∨
    (bep.settings.backaddr ∉ reported.map McrEntry.addr ∧
      ∀ other ∈ proxies, other.settings.backaddr = bep.settings.backaddr →
        other.settings.backport = bep.settings.backport)

theorem isInList_iff {addr : Nat} {el : List McrEntry} :
    isInList addr el = true ↔ addr ∈ el.map McrEntry.addr := by
  simp [isInList]

/-- What has been added to the list for some of the backends. -/
structure Added (reported : List McrEntry) (done : List Backend) (added : List McrEntry) :
    Prop where
  fresh : ∀ e ∈ added, e.addr ∉ reported.map McrEntry.addr
  disabled : ∀ e ∈ added, e.enabled = false
  configured : ∀ e ∈ added, ∃ bep ∈ done, e.pair = bep.pair
  nodup : (added.map McrEntry.addr).Nodup
  covers : ∀ bep ∈ done, bep.settings.backaddr ∈ (reported ++ added).map McrEntry.addr

section

variable {reported added : List McrEntry} {done : List Backend}

theorem Added.nil : Added reported [] [] where
  fresh := List.forall_mem_nil _
  disabled := List.forall_mem_nil _
  configured := List.forall_mem_nil _
  nodup := List.nodup_nil
  covers := List.forall_mem_nil _

theorem Added.step (h : Added reported done added) (ns : NameService) (bep : Backend) :
    ∃ more, addConfiged ns (reported ++ added) bep = reported ++ more ∧
      Added reported (done ++ [bep]) more := by
  unfold addConfiged
  split
  · rename_i hin
    rw [isInList_iff] at hin
    refine ⟨added, rfl, h.fresh, h.disabled, ?_, h.nodup, ?_⟩
    · intro e he
      obtain ⟨bep', hbep', hpair⟩ := h.configured e he
      exact ⟨bep', List.mem_append_left _ hbep', hpair⟩
    · rw [List.forall_mem_append, List.forall_mem_singleton]
      exact ⟨h.covers, hin⟩
  · rename_i hin
    rw [isInList_iff, List.map_append, List.mem_append, not_or] at hin
    refine ⟨added ++ [configedEntry ns bep], by rw [List.append_assoc], ?_, ?_, ?_, ?_, ?_⟩
    · rw [List.forall_mem_append, List.forall_mem_singleton]
      exact ⟨h.fresh, hin.1⟩
    · rw [List.forall_mem_append, List.forall_mem_singleton]
      exact ⟨h.disabled, rfl⟩
    · rw [List.forall_mem_append, List.forall_mem_singleton]
      constructor
      · intro e he
        obtain ⟨bep', hbep', hpair⟩ := h.configured e he
        exact ⟨bep', List.mem_append_left _ hbep', hpair⟩
      · exact ⟨bep, List.mem_append_right _ (List.mem_singleton_self bep), rfl⟩
    · rw [List.map_append, List.nodup_append]
      refine ⟨h.nodup, List.nodup_singleton _, ?_⟩
      rintro a ha b hb rfl
      rw [List.map_singleton, List.mem_singleton] at hb
      rw [hb] at ha
      exact hin.2 ha
    · rw [List.forall_mem_append, List.forall_mem_singleton]
      constructor
      · intro bep' hbep'
        rw [← List.append_assoc, List.map_append]
        exact List.mem_append_left _ (h.covers bep' hbep')
      · simp [configedEntry]

/-- The list is what was reported, and what has been added for all backends. -/
theorem mcrUpdateConfigedInstances_added (h : Added reported done added) (ns : NameService)
    (proxies : List Backend) :
    ∃ more, mcrUpdateConfigedInstances ns (reported ++ added) proxies = reported ++ more ∧
      Added reported (done ++ proxies) more := by
  induction proxies generalizing done added with
  | nil => exact ⟨added, rfl, by rwa [List.append_nil]⟩
  | cons bep proxies ih =>
    obtain ⟨next, hnext, hadded⟩ := h.step ns bep
    obtain ⟨more, hmore, hall⟩ := ih hadded
    refine ⟨more, ?_, by rwa [List.append_assoc] at hall⟩
    rw [mcrUpdateConfigedInstances, List.foldl_cons, hnext]
    exact hmore

theorem readInstances_enabled (ns : NameService) (lines : List Bytes) (l : InstanceLocals)
    {el : List McrEntry} (h : ∀ e ∈ el, e.enabled = true) :
    ∀ e ∈ readInstances ns lines l el, e.enabled = true := by
  induction lines generalizing l el with
  | nil => exact h
  | cons line lines ih =>
    rw [readInstances]
    split
    · exact h
    · dsimp only
      split
      · exact ih _ h
      · apply ih
        rw [List.forall_mem_append, List.forall_mem_singleton]
        exact ⟨h, rfl⟩

/-- An added entry is the only one with its address. -/
theorem Added.unique (h : Added reported done added) {e e' : McrEntry} (he : e ∈ added)
    (he' : e' ∈ reported ++ added) (haddr : e'.addr = e.addr) : e' = e := by
  rcases List.mem_append.mp he' with he' | he'
  · exact absurd (List.mem_map_of_mem he') (haddr ▸ h.fresh e he)
  · exact List.inj_on_of_nodup_map h.nodup he' he haddr

/-- A reported instance is in the list as often as it was reported. -/
theorem Added.count_reported (h : Added reported done added) {e : McrEntry} (he : e ∈ reported) :
    ((reported ++ added).map McrEntry.pair).count e.pair =
      (reported.map McrEntry.pair).count e.pair := by
  have hnone : e.pair ∉ added.map McrEntry.pair := by
    intro hmem
    obtain ⟨e', he', hpair⟩ := List.mem_map.mp hmem
    have haddr : e'.addr = e.addr := congrArg Prod.fst hpair
    exact h.fresh e' he' (haddr ▸ List.mem_map_of_mem he)
  rw [List.map_append, List.count_append, List.count_eq_zero_of_not_mem hnone, Nat.add_zero]

/-- And an added one is in the list once. -/
theorem Added.count_added (h : Added reported done added) {e : McrEntry} (he : e ∈ added) :
    ((reported ++ added).map McrEntry.pair).count e.pair = 1 := by
  have hnodup : (added.map McrEntry.pair).Nodup := by
    apply List.Nodup.of_map Prod.fst
    rw [List.map_map]
    exact h.nodup
  have hnone : e.pair ∉ reported.map McrEntry.pair := by
    intro hmem
    obtain ⟨e', he', hpair⟩ := List.mem_map.mp hmem
    have haddr : e'.addr = e.addr := congrArg Prod.fst hpair
    exact h.fresh e he (haddr ▸ List.mem_map_of_mem he')
  rw [List.map_append, List.count_append, List.count_eq_zero_of_not_mem hnone, Nat.zero_add]
  exact List.count_eq_one_of_mem hnodup (List.mem_map_of_mem he)

/-- A listed backend that was not reported has been added. -/
theorem ConfigListed.mem_added {proxies : List Backend}
    (h : ConfigListed reported proxies (reported ++ added)) {bep : Backend}
    (hbep : bep ∈ proxies) (hfresh : bep.pair ∉ reported.map McrEntry.pair) :
    ∃ e ∈ added, e.pair = bep.pair := by
  have hmem := List.count_pos_iff.mp (h.once bep hbep ▸ Nat.one_pos)
  obtain ⟨e, he, hpair⟩ := List.mem_map.mp hmem
  rcases List.mem_append.mp he with he | he
  · exact absurd (hpair ▸ List.mem_map_of_mem he) hfresh
  · exact ⟨e, he, hpair⟩

theorem Added.separate (h : Added reported done added) {proxies : List Backend}
    (hlisted : ConfigListed reported proxies (reported ++ added)) :
    SeparateHosts reported proxies := by
  intro bep hbep
  by_cases hreported : bep.pair ∈ reported.map McrEntry.pair
  · exact Or.inl hreported
  · obtain ⟨e, he, hpair⟩ := hlisted.mem_added hbep hreported
    have haddr : e.addr = bep.settings.backaddr := congrArg Prod.fst hpair
    have hfresh := haddr ▸ h.fresh e he
    refine Or.inr ⟨hfresh, ?_⟩
    intro other hother hsame
    have hother' : other.pair ∉ reported.map McrEntry.pair := by
      intro hmem
      obtain ⟨e', he', hpair'⟩ := List.mem_map.mp hmem
      have haddr' : e'.addr = other.settings.backaddr := congrArg Prod.fst hpair'
      exact hfresh (hsame ▸ haddr' ▸ List.mem_map_of_mem he')
    obtain ⟨e', he', hpair'⟩ := hlisted.mem_added hother hother'
    have haddr' : e'.addr = other.settings.backaddr := congrArg Prod.fst hpair'
    have hunique := h.unique he (List.mem_append_right _ he')
      (haddr'.trans (hsame.trans haddr.symm))
    calc other.settings.backport = e'.port := (congrArg Prod.snd hpair').symm
      _ = e.port := by rw [hunique]
      _ = bep.settings.backport := congrArg Prod.snd hpair

theorem Added.listed {proxies : List Backend} (h : Added reported proxies added)
    (hnodup : (reported.map McrEntry.pair).Nodup) (henabled : ∀ e ∈ reported, e.enabled = true)
    (hseparate : SeparateHosts reported proxies) :
    ConfigListed reported proxies (reported ++ added) := by
  -- a backend that was not reported is the added entry with its address
  have hadded : ∀ bep ∈ proxies, bep.pair ∉ reported.map McrEntry.pair →
      ∃ e ∈ added, e.pair = bep.pair := by
    intro bep hbep hnone
    obtain ⟨hfresh, hport⟩ := (hseparate bep hbep).resolve_left hnone
    have hcovered := h.covers bep hbep
    rw [List.map_append, List.mem_append] at hcovered
    obtain ⟨e, he, haddr⟩ := List.mem_map.mp (hcovered.resolve_left hfresh)
    obtain ⟨other, hother, hpair⟩ := h.configured e he
    have hsame : other.settings.backaddr = bep.settings.backaddr :=
      (congrArg Prod.fst hpair).symm.trans haddr
    refine ⟨e, he, Prod.ext haddr ?_⟩
    exact (congrArg Prod.snd hpair).trans (hport other hother hsame)
  refine ⟨?_, ?_, fun e he => List.mem_append_left _ he⟩
  · intro bep hbep
    by_cases hreported : bep.pair ∈ reported.map McrEntry.pair
    · obtain ⟨e, he, hpair⟩ := List.mem_map.mp hreported
      rw [← hpair, h.count_reported he]
      exact List.count_eq_one_of_mem hnodup (List.mem_map_of_mem he)
    · obtain ⟨e, he, hpair⟩ := hadded bep hbep hreported
      rw [← hpair]
      exact h.count_added he
  · intro bep hbep e he hpair
    rcases List.mem_append.mp he with he | he
    · exact iff_of_true (henabled e he) (hpair ▸ List.mem_map_of_mem he)
    · apply iff_of_false
      · rw [h.disabled e he]
        exact Bool.false_ne_true
      · intro hreported
        obtain ⟨e', he', hpair'⟩ := List.mem_map.mp hreported
        have haddr : e'.addr = e.addr := congrArg Prod.fst (hpair'.trans hpair.symm)
        exact h.fresh e he (haddr ▸ List.mem_map_of_mem he')

end

/-- A run reads the lines that `readInstances` goes through, and none after the one that
it ends at. -/
theorem mcrUpdateInstances_lines {inputs rest : List ClientAnswer} {err : Int}
    {trace : List ClientEvent} (h : mcrUpdateInstances.exec () inputs = .done err trace rest)
    (hsent : .fputs (ascii "show instances\r\n") ∈ trace) :
    err = 0 ∧ ∀ line ∈ (linesRead trace).dropLast, line ≠ endLine ∧ line ≠ errorLine := by
  unfold mcrUpdateInstances at h
  obtain ⟨r, opening, given, asked, hsocket, hasked, rfl⟩ := bind_done h
  have hconnects := within_done (within_clientCall (p := (·.connects = true)) fun _ => rfl) hsocket
  have hopen : .fputs (ascii "show instances\r\n") ∉ opening :=
    fun hmem => absurd (hconnects _ hmem) nofun
  have hread := (List.mem_append.mp hsent).resolve_left hopen
  cases r with
  | error e =>
    cases hasked
    cases hread
  | ok fd =>
    have hlines : linesRead (opening ++ asked) = linesRead asked := by
      rw [linesRead, List.filterMap_append, ← linesRead, linesRead_nil hconnects]
      rfl
    obtain ⟨herr, hbefore⟩ := mcrCommand_done hasked hread
    rw [hlines]
    constructor
    · generalize hfound : List.findSome? _ (linesRead asked) = found at herr
      cases found with
      | none => exact herr
      | some stopped =>
        obtain ⟨line, -, hline⟩ := List.exists_of_findSome?_eq_some hfound
        split at hline
        · cases hline
          exact herr
        · cases hline
    · intro line hline
      have hgoes := hbefore line hline
      split at hgoes
      · cases hgoes
      · rename_i hnot
        exact not_or.mp hnot

/-- The page lists every configured backend once, and enabled exactly if it was reported,
exactly if a backend that was not reported has an address that was not reported, and no
backend with that address has another port. -/
theorem configEntries_listed_iff (ns : NameService) (lines : List Bytes) (l : InstanceLocals)
    (proxies : List Backend)
    (hnodup : ((readInstances ns lines l []).map McrEntry.pair).Nodup) :
    ConfigListed (readInstances ns lines l []) proxies
        (mcrUpdateConfigedInstances ns (readInstances ns lines l []) proxies) ↔
      SeparateHosts (readInstances ns lines l []) proxies := by
  have hstart : Added (readInstances ns lines l []) [] [] := .nil
  obtain ⟨added, hlist, hadded⟩ := mcrUpdateConfigedInstances_added hstart ns proxies
  rw [List.append_nil] at hlist
  rw [hlist]
  constructor
  · exact hadded.separate
  · exact hadded.listed hnodup (readInstances_enabled ns lines l (List.forall_mem_nil _))

def sampleBackend (backaddr backport : Nat) : Backend :=
  ⟨{ sampleSettings with backaddr, backport }, -1, .halted, 0, []⟩

def sampleInstances (reply : List Bytes) : List McrEntry :=
  readInstances sampleNames reply ⟨[], 0⟩ []

/-- One of two backends is reported. -/
def twoHostsReply : List Bytes := [ascii "INSTANCE 127.0.0.1 11211\r\n", endLine]

theorem configEntries_listed_twoHosts :
    ConfigListed (sampleInstances twoHostsReply)
      [sampleBackend 2130706433 11211, sampleBackend 2130706434 11212]
      (mcrUpdateConfigedInstances sampleNames (sampleInstances twoHostsReply)
        [sampleBackend 2130706433 11211, sampleBackend 2130706434 11212]) := by
  apply (configEntries_listed_iff sampleNames twoHostsReply ⟨[], 0⟩ _ (by decide +kernel)).mpr
  unfold SeparateHosts
  decide +kernel

/-- Of two backends on one host only the first is listed. -/
theorem configEntries_missing :
    ((sampleInstances [endLine]).map McrEntry.pair).Nodup ∧
      ¬ConfigListed (sampleInstances [endLine])
        [sampleBackend 2130706433 11211, sampleBackend 2130706433 11212]
        (mcrUpdateConfigedInstances sampleNames (sampleInstances [endLine])
          [sampleBackend 2130706433 11211, sampleBackend 2130706433 11212]) := by
  refine ⟨by decide +kernel, ?_⟩
  intro h
  have honce := h.once (sampleBackend 2130706433 11212) (by simp)
  exact absurd honce (by decide +kernel)

end StatsProxy

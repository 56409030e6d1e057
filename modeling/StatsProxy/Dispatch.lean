import StatsProxy.ClientOutput
import StatsProxy.RunBackend

/-! The two lookups of a request. `findCallback` gets the target without its
parameters and as it was sent; the callback gets it decoded and with them. -/
namespace StatsProxy
open CString Interaction Program

/-- The target of a request line, without its leading slash. -/
def requestTarget (servRequest : Bytes) : Bytes := stripSlash (scanRequest servRequest).2

/-- The uri that a callback gets. -/
def decodedTarget (target : Bytes) : Bytes := cString (uriDecode target)

/-- The uri that a callback compares with its own. -/
def comparedUri (uri : Bytes) : Callback → Bytes
  | .reporter => cString (cutParams uri)
  | .image | .stats => uri

/-- What `statsCallback` reads of the backend as it stands. -/
def Backend.read (bep : Backend) (uri : Bytes) : ClientAnswer :=
  { polling := bep.state = .polling
    stats := ((bep.uris.find? (·.uri = uri)).map UriEntry.stats).getD [] }

def statsOutput (stats : List StatsEntry) : ClientType → Output
  | .memcacheClient => .rawStats stats
  | .httpClient => .htmlStats stats

/-- `statsCallback` finds this entry, and prints its list while the backend polls. -/
structure Delivers (bep : Backend) (type : ClientType) (uri : Bytes) (entry : UriEntry) : Prop where
  finds : bep.uris.find? (·.uri = uri) = some entry
  prints : bep.state = .polling → .print (statsOutput entry.stats type) ∈
    ((statsCallback bep type uri).exec () [bep.read uri]).trace

def ClientEvent.notFound : ClientEvent → Bool
  | .print (.clientError code _) => code = httpNotFound
  | _ => false

/-- No run answers 404. -/
abbrev Found {α : Type} (m : Client α) : Prop := Within (fun e => e.notFound = false) m

/-- The two lookups agree on a target. -/
structure Agrees (bep : Backend) (type : ClientType) (target : Bytes) : Prop where
  entry : findCallback bep (baseUri target) = some .stats →
    ∃ entry, bep.uris.find? (·.uri = baseUri target) = some entry ∧
      Delivers bep type (decodedTarget target) entry
  system : ∀ name cb, (name, cb) ∈ systemUris → baseUri target = name →
    findCallback bep (baseUri target) = some cb ∧ comparedUri (decodedTarget target) cb = name
  found : ∀ cb, findCallback bep (baseUri target) = some cb →
    Found (runCallback bep type (decodedTarget target) cb)

/-- The branches of `reporterCallback`. -/
def branchUris : List Bytes := ascii "mcr-config" :: topKeysUris ++ topClientsUris ++ mcrOpUris

/-- The target is sent as it is decoded: it has no parameters, or an escape takes
their `?` in and the uri comes out again. -/
def SelfDecoding (target : Bytes) : Prop :=
  (63 ∉ target ∧ 37 ∉ target ∧ 43 ∉ target) ∨
    (63 ∈ target ∧ 37 ∈ baseUri target ∧ decodedTarget target = baseUri target)

/-- The callback has its own branch for the target. -/
def Answered (target : Bytes) : Callback → Prop
  | .reporter => baseUri target ∉ [ascii "reporter", ascii "top-keys", ascii "top-clients-key"]
  | .image => 63 ∉ target
  | .stats => SelfDecoding target

section

variable {bep : Backend} {type : ClientType} {uri target : Bytes}

theorem requestTarget_noNul (servRequest : Bytes) : 0 ∉ requestTarget servRequest := by
  have hnul : ∀ {width : Nat} {text word rest : Bytes}, scanString width text = some (word, rest) →
      0 ∉ text → 0 ∉ word ∧ 0 ∉ rest := by
    intro width text word rest h htext
    rw [← not_or, ← List.mem_append, (scanString_word h).1]
    exact fun hmem => htext ((List.dropWhile_suffix _).mem hmem)
  have htarget : 0 ∉ (scanRequest servRequest).2 := by
    unfold scanRequest
    split
    · simp
    · next method rest hscan =>
      have hrest := (hnul hscan (cString_noNul servRequest)).2
      cases h : scanString 1000 rest with
      | none => simp
      | some p => exact (hnul h hrest).1
  unfold requestTarget stripSlash
  split
  · exact fun hmem => htarget (List.mem_of_mem_tail hmem)
  · exact htarget

theorem baseUri_noQuery (target : Bytes) : 63 ∉ baseUri target := by
  intro h
  simpa using List.mem_takeWhile_imp h

theorem baseUri_append (h : 63 ∉ uri) (rest : Bytes) :
    baseUri (uri ++ rest) = uri ++ baseUri rest := by
  unfold baseUri
  apply List.takeWhile_append_of_pos
  intro ch hch
  simp only [ne_eq, decide_eq_true_eq]
  exact fun heq => h (heq ▸ hch)

theorem baseUri_self (h : 63 ∉ target) : baseUri target = target := by
  have happ := baseUri_append h []
  simpa [baseUri] using happ

theorem baseUri_params (h : 63 ∉ uri) (params : Bytes) : baseUri (uri ++ 63 :: params) = uri := by
  rw [baseUri_append h]
  simp [baseUri]

theorem target_params (h : 63 ∈ target) : ∃ params, target = baseUri target ++ 63 :: params := by
  obtain ⟨uri, params, rfl, huri⟩ := List.eq_append_cons_of_mem h
  exact ⟨params, by rw [baseUri_params huri]⟩

theorem cutParams_append (left right : Bytes) :
    cutParams (left ++ right) = cutParams left ++ cutParams right :=
  List.map_append

theorem cutParams_cons (ch : UInt8) (text : Bytes) :
    cutParams (ch :: text) = (if ch = 63 || ch = 38 then 0 else ch) :: cutParams text := rfl

theorem cutParams_plain {text : Bytes} (hquery : 63 ∉ text) (hamp : 38 ∉ text) :
    cutParams text = text := by
  induction text with
  | nil => rfl
  | cons ch text ih =>
    rw [List.mem_cons, not_or] at hquery hamp
    rw [cutParams_cons, ih hquery.2 hamp.2]
    simp [Ne.symm hquery.1, Ne.symm hamp.1]

theorem decodedTarget_leading (target : Bytes) : decodedTarget target <+: uriDecode target :=
  List.takeWhile_prefix _

theorem decodedTarget_plain (hnul : 0 ∉ target) (hescape : 37 ∉ target) (hplus : 43 ∉ target) :
    decodedTarget target = target := by
  rw [decodedTarget, uriDecode_plain hescape hplus, cString_of_nul hnul]

theorem map_decodePlain_noNul (h : 0 ∉ uri) : 0 ∉ uri.map decodePlain := by
  intro hmem
  obtain ⟨ch, hch, hzero⟩ := List.mem_map.mp hmem
  unfold decodePlain at hzero
  split at hzero
  · contradiction
  · exact h (hzero ▸ hch)

theorem decodedTarget_append (hnul : 0 ∉ uri) (hescape : 37 ∉ uri) (hplus : 43 ∉ uri)
    (back : Bytes) : decodedTarget (uri ++ back) = uri ++ decodedTarget back := by
  rw [decodedTarget, uriDecode_append hescape, map_decodePlain.mpr hplus, cString_append hnul]
  rfl

theorem decodedTarget_params (hnul : 0 ∉ uri) (hescape : 37 ∉ uri) (params : Bytes) :
    decodedTarget (uri ++ 63 :: params) = uri.map decodePlain ++ 63 :: decodedTarget params := by
  rw [decodedTarget, uriDecode_append hescape, cString_append (map_decodePlain_noNul hnul),
    uriDecode_cons (by decide)]
  rfl

/-- The decoded target is the uri only where nothing is decoded or cut off, but for
an escape that takes the `?` in. -/
theorem selfDecoding_iff (hnul : 0 ∉ target) :
    decodedTarget target = baseUri target ↔ SelfDecoding target := by
  by_cases hquery : 63 ∈ target
  · have hescape : decodedTarget target = baseUri target → 37 ∈ baseUri target := by
      intro h
      by_contra hplain
      obtain ⟨params, htarget⟩ := target_params hquery
      have hbase : 0 ∉ baseUri target := fun hmem => hnul ((List.takeWhile_prefix _).mem hmem)
      rw [htarget, decodedTarget_params hbase hplain, ← htarget] at h
      apply baseUri_noQuery target
      rw [← h]
      simp
    constructor
    · exact fun h => Or.inr ⟨hquery, hescape h, h⟩
    · rintro (⟨hno, -⟩ | ⟨-, -, h⟩)
      · exact absurd hquery hno
      · exact h
  · rw [baseUri_self hquery]
    constructor
    · intro h
      have hleading := decodedTarget_leading target
      have hself : uriDecode target = target := by
        rw [h] at hleading
        exact (hleading.eq_of_length_le (uriDecode_length target).1).symm
      exact Or.inl ⟨hquery, uriDecode_eq_self.mp hself⟩
    · rintro (⟨-, hescape, hplus⟩ | ⟨hyes, -⟩)
      · exact decodedTarget_plain hnul hescape hplus
      · exact absurd hyes hquery

theorem findCallback_eq (bep : Backend) (uri : Bytes) : findCallback bep uri =
    match systemUris.find? (·.1 = uri) with
    | some (_, cb) => some cb
    | none => (bep.uris.find? (·.uri = uri)).map fun _ => .stats := by
  unfold findCallback
  dsimp only
  rw [List.find?_append, List.find?_map]
  cases systemUris.find? (·.1 = uri) with
  | some entry => rfl
  | none =>
    rw [Option.none_or, Option.map_map]
    rfl

theorem systemUris_stats : ∀ entry ∈ systemUris, entry.2 ≠ .stats := by decide

theorem findCallback_system {name : Bytes} {cb : Callback} (h : (name, cb) ∈ systemUris) :
    findCallback bep name = some cb := by
  have hfind : ∀ entry ∈ systemUris, systemUris.find? (·.1 = entry.1) = some entry := by
    decide
  rw [findCallback_eq, hfind _ h]

theorem findCallback_cases {cb : Callback} (h : findCallback bep uri = some cb) :
    (uri, cb) ∈ systemUris ∨
      (cb = .stats ∧ ∃ entry, bep.uris.find? (·.uri = uri) = some entry) := by
  rw [findCallback_eq] at h
  cases hsystem : systemUris.find? (·.1 = uri) with
  | some entry =>
    rw [hsystem] at h
    cases h
    have hname : entry.1 = uri := by simpa using List.find?_some hsystem
    rw [← hname]
    exact Or.inl (List.mem_of_find?_eq_some hsystem)
  | none =>
    rw [hsystem] at h
    obtain ⟨entry, hentry, hcb⟩ := Option.map_eq_some_iff.mp h
    exact Or.inr ⟨hcb.symm, entry, hentry⟩

theorem found_of_page {α : Type} {m : Client α} (h : Page m) : Found m := by
  refine h.imp fun e he => ?_
  cases e with
  | print o => cases o <;> first | rfl | contradiction
  | _ => rfl

theorem found_emit {e : ClientEvent} (h : e.notFound = false) : Found (emit e : Client Unit) :=
  within_emit h

theorem found_print {o : Output} (h : (ClientEvent.print o).notFound = false) : Found (print o) :=
  found_emit h

/-- A program that answers 404 first. -/
theorem not_found_print {α : Type} (uri : Bytes) (k : Unit → Client α) :
    ¬Found (print (.clientError httpNotFound uri) >>= k) := by
  intro h
  have hmem : .print (.clientError httpNotFound uri) ∈
      ((print (.clientError httpNotFound uri) >>= k).exec () []).trace := by
    rw [bind_exec]
    simp [print, emit, Result.trace_prepend]
  exact absurd (h () [] _ hmem) (by simp [ClientEvent.notFound])

theorem found_endPage (err : Int) (message : Bytes) : Found (endPage err message) :=
  found_of_page (page_endPage err message)

theorem found_reporterPage (refresh : Option Int) : Found (reporterPage refresh) := by
  unfold reporterPage
  apply within_bind (found_print rfl)
  intro _
  apply within_bind (found_print rfl)
  intro _
  apply within_bind
  · cases refresh with
    | none => exact within_pure _
    | some ms => exact found_print rfl
  · intro _
    exact found_print rfl

theorem found_endOperation (err : Int) : Found (endOperation err) := by
  unfold endOperation
  split
  · exact within_bind (found_print rfl) fun _ => found_endPage _ _
  · exact found_print rfl

theorem mem_branchUris : uri ∈ branchUris ↔ uri = ascii "mcr-config" ∨ uri ∈ topKeysUris ∨
    uri ∈ topClientsUris ∨ uri ∈ mcrOpUris := by
  simp only [branchUris, List.cons_append, List.mem_cons, List.mem_append, or_assoc]

/-- A branch of `reporterCallback` does not answer 404, and there is no other. -/
theorem found_reporterUri {p : ReporterParams} : Found (reporterUri uri p) ↔ uri ∈ branchUris := by
  rw [mem_branchUris]
  unfold reporterUri
  split
  · next h =>
    refine iff_of_true ?_ (Or.inl h)
    apply within_bind (found_reporterPage _)
    intro _
    exact within_bind (found_of_page page_config) fun _ => found_endPage _ _
  · next hconfig =>
    split
    · next h =>
      refine iff_of_true ?_ (Or.inr (Or.inl h))
      apply within_bind (found_reporterPage _)
      intro _
      split
      · exact within_bind (found_of_page (page_topKeys _ _ _ _ _)) fun _ => found_endPage _ _
      · exact found_endPage _ _
    · next hkeys =>
      split
      · next h =>
        refine iff_of_true ?_ (Or.inr (Or.inr (Or.inl h)))
        apply within_bind (found_reporterPage _)
        intro _
        split
        · exact within_bind (found_of_page (page_topClients _ _ _ _ _)) fun _ => found_endPage _ _
        · exact found_endPage _ _
      · next hclients =>
        split
        · next h =>
          refine iff_of_true ?_ (Or.inr (Or.inr (Or.inr h)))
          split
          · exact within_bind (found_of_page (page_mcrOp _ _ _)) fun _ => found_endOperation _
          · exact within_bind (found_print rfl) fun _ => found_endPage _ _
        · next hop =>
          refine iff_of_false ?_ (by simp [hconfig, hkeys, hclients, hop])
          intro h
          exact not_found_print uri _ (within_bind h fun _ => within_pure ())

theorem found_reporterCallback :
    Found (reporterCallback uri) ↔ cString (cutParams uri) ∈ branchUris := by
  rw [← found_reporterUri (p := scanParams uri)]
  constructor
  · intro h s inputs e he
    apply h s inputs e
    unfold reporterCallback
    rw [bind_exec]
    cases hr : (reporterUri (cString (cutParams uri)) (scanParams uri)).exec s inputs <;>
      rw [hr] at he <;> simpa [Result.trace, Result.prepend] using he
  · exact fun h => within_bind h fun _ => within_pure _

theorem found_imageCallback : Found (imageCallback uri) ↔ uri = ascii "logo.png" := by
  unfold imageCallback
  split
  · next h =>
    refine iff_of_true ?_ h
    apply within_bind (found_print rfl)
    intro _
    exact within_bind (found_print rfl) fun _ => within_pure _
  · next h =>
    refine iff_of_false ?_ h
    exact not_found_print uri _

theorem find_isSome_iff : (∃ entry, bep.uris.find? (·.uri = uri) = some entry) ↔
    ¬bep.uris.all (·.uri ≠ uri) = true := by
  rw [← Option.isSome_iff_exists, List.find?_isSome]
  simp

theorem found_statsCallback :
    Found (statsCallback bep type uri) ↔ ∃ entry, bep.uris.find? (·.uri = uri) = some entry := by
  rw [find_isSome_iff]
  unfold statsCallback
  split
  · next h =>
    refine iff_of_false ?_ (not_not_intro h)
    exact not_found_print uri _
  · next h =>
    refine iff_of_true ?_ h
    apply within_bind (found_emit rfl)
    intro _
    apply within_bind (found_of_page (page_clientCall fun _ => rfl))
    intro r
    dsimp only
    split
    · apply within_bind
      · apply found_print
        simp [ClientEvent.notFound, httpServUnavail, httpNotFound]
      intro _
      exact within_bind (found_emit rfl) fun _ => within_pure _
    · cases type with
      | memcacheClient =>
        apply within_bind (found_print rfl)
        intro _
        exact within_bind (found_emit rfl) fun _ => within_pure _
      | httpClient =>
        repeat' first
          | exact found_print rfl
          | exact found_emit rfl
          | exact within_pure true
          | apply within_bind
          | intro _

theorem delivers_of_find {entry : UriEntry} (h : bep.uris.find? (·.uri = uri) = some entry) :
    Delivers bep type uri entry where
  finds := h
  prints hpolling := by
    have hread : bep.read uri = { polling := true, stats := entry.stats } := by
      simp [Backend.read, hpolling, h]
    rw [hread, statsCallback, if_neg (find_isSome_iff.mp ⟨entry, h⟩)]
    cases type with
    | memcacheClient => exact .tail _ (.tail _ (.head _))
    | httpClient => exact .tail _ (.tail _ (.tail _ (.tail _ (.tail _ (.tail _ (.head _))))))

theorem systemUris_plain : ∀ entry ∈ systemUris,
    0 ∉ entry.1 ∧ 37 ∉ entry.1 ∧ 43 ∉ entry.1 ∧ 63 ∉ entry.1 ∧ 38 ∉ entry.1 := by
  decide

theorem systemUris_branch : ∀ entry ∈ systemUris, entry.2 = .reporter → (entry.1 ∈ branchUris ↔
    entry.1 ∉ [ascii "reporter", ascii "top-keys", ascii "top-clients-key"]) := by
  decide

theorem systemUris_image : ∀ entry ∈ systemUris, entry.2 = .image → entry.1 = ascii "logo.png" := by
  decide

/-- The target of a system uri decodes to the uri with its decoded parameters. -/
theorem decodedTarget_system {cb : Callback} (h : (baseUri target, cb) ∈ systemUris) :
    63 ∉ target ∧ decodedTarget target = baseUri target ∨
      63 ∈ target ∧ ∃ params, decodedTarget target = baseUri target ++ 63 :: params := by
  obtain ⟨hbase, hescape, hplus, -⟩ := systemUris_plain _ h
  by_cases hquery : 63 ∈ target
  · obtain ⟨params, htarget⟩ := target_params hquery
    refine Or.inr ⟨hquery, decodedTarget params, ?_⟩
    conv_lhs => rw [htarget]
    rw [decodedTarget_params hbase hescape, map_decodePlain.mpr hplus]
  · rw [baseUri_self hquery] at hbase hescape hplus ⊢
    exact Or.inl ⟨hquery, decodedTarget_plain hbase hescape hplus⟩

/-- `reporterCallback` cuts the parameters off again. -/
theorem cutParams_decodedTarget {cb : Callback} (h : (baseUri target, cb) ∈ systemUris) :
    cString (cutParams (decodedTarget target)) = baseUri target := by
  obtain ⟨hbase, -, -, hquery, hamp⟩ := systemUris_plain _ h
  have hkeep := cutParams_plain hquery hamp
  rcases decodedTarget_system h with ⟨-, hdecoded⟩ | ⟨-, params, hdecoded⟩
  · rw [hdecoded, hkeep, cString_of_nul hbase]
  · rw [hdecoded, cutParams_append, hkeep, cutParams_cons, if_pos (by decide),
      cString_append_nul hbase]

/-- `imageCallback` does not. -/
theorem decodedTarget_image {cb : Callback} (h : (baseUri target, cb) ∈ systemUris) :
    decodedTarget target = baseUri target ↔ 63 ∉ target := by
  rcases decodedTarget_system h with ⟨hquery, hdecoded⟩ | ⟨hquery, params, hdecoded⟩
  · exact iff_of_true hdecoded hquery
  · refine iff_of_false ?_ (not_not_intro hquery)
    rw [hdecoded]
    simp

theorem found_system {cb : Callback} (h : (baseUri target, cb) ∈ systemUris) :
    Found (runCallback bep type (decodedTarget target) cb) ↔ Answered target cb := by
  cases cb with
  | reporter =>
    rw [runCallback, found_reporterCallback, cutParams_decodedTarget h]
    exact systemUris_branch _ h rfl
  | image =>
    have hname : baseUri target = ascii "logo.png" := systemUris_image _ h rfl
    rw [runCallback, found_imageCallback, ← hname]
    exact decodedTarget_image h
  | stats => exact absurd rfl (systemUris_stats _ h)

/-- The entry that was found is the one that is delivered exactly if the target
decodes to its uri. -/
theorem delivers_iff {entry : UriEntry} (hnul : 0 ∉ target)
    (hentry : bep.uris.find? (·.uri = baseUri target) = some entry) :
    Delivers bep type (decodedTarget target) entry ↔ SelfDecoding target := by
  have huri : entry.uri = baseUri target := by simpa using List.find?_some hentry
  rw [← selfDecoding_iff hnul]
  constructor
  · intro h
    have hdecoded : entry.uri = decodedTarget target := by simpa using List.find?_some h.finds
    exact hdecoded.symm.trans huri
  · intro h
    apply delivers_of_find
    rw [h, hentry]

end

/-- The two lookups of a target agree exactly if the callback has a branch for it. -/
theorem agrees_iff (bep : Backend) (type : ClientType) (servRequest : Bytes) :
    Agrees bep type (requestTarget servRequest) ↔
      ∀ cb, findCallback bep (baseUri (requestTarget servRequest)) = some cb →
        Answered (requestTarget servRequest) cb := by
  have hnul := requestTarget_noNul servRequest
  generalize requestTarget servRequest = target at hnul ⊢
  constructor
  · intro h cb hcb
    rcases findCallback_cases hcb with hsystem | ⟨rfl, -⟩
    · exact (found_system hsystem).mp (h.found cb hcb)
    · obtain ⟨entry, hentry, hdelivers⟩ := h.entry hcb
      exact (delivers_iff hnul hentry).mp hdelivers
  · intro h
    have hstats : findCallback bep (baseUri target) = some .stats →
        ∃ entry, bep.uris.find? (·.uri = baseUri target) = some entry ∧
          Delivers bep type (decodedTarget target) entry := by
      intro hcb
      rcases findCallback_cases hcb with hsystem | ⟨-, entry, hentry⟩
      · exact absurd rfl (systemUris_stats _ hsystem)
      · exact ⟨entry, hentry, (delivers_iff hnul hentry).mpr (h _ hcb)⟩
    refine ⟨hstats, ?_, ?_⟩
    · rintro name cb hsystem rfl
      have hcb : findCallback bep (baseUri target) = some cb := findCallback_system hsystem
      apply And.intro hcb
      cases cb with
      | reporter => exact cutParams_decodedTarget hsystem
      | image => exact (decodedTarget_image hsystem).mpr (h _ hcb)
      | stats => exact absurd rfl (systemUris_stats _ hsystem)
    · intro cb hcb
      rcases findCallback_cases hcb with hsystem | ⟨rfl, -⟩
      · exact (found_system hsystem).mpr (h cb hcb)
      · obtain ⟨entry, -, hdelivers⟩ := hstats hcb
        exact found_statsCallback.mpr ⟨entry, hdelivers.finds⟩

def queryRequest : Bytes := ascii "GET /items?x HTTP/1.1\r\n"

/-- The uri of an entry is looked up again with the parameter behind it. -/
theorem agrees_fails : ¬∀ bep type servRequest, Agrees bep type (requestTarget servRequest) := by
  intro h
  have hcb : findCallback sampleWorld.bep (baseUri (requestTarget queryRequest)) = some .stats := by
    decide +kernel
  obtain ⟨entry, -, hdelivers⟩ := (h sampleWorld.bep .httpClient queryRequest).entry hcb
  have hnone : sampleWorld.bep.uris.find?
      (·.uri = decodedTarget (requestTarget queryRequest)) = none := by
    decide +kernel
  rw [hdelivers.finds] at hnone
  contradiction

end StatsProxy

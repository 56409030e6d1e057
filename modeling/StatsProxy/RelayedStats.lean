import StatsProxy.MirroredCycle
import StatsProxy.PollerMemory
import StatsProxy.TelnetSession

/-! A proxy that polls another proxy. What the front end of the one prints for the command
of the other is read back as the list it had cached, so that the other has the same. -/
namespace StatsProxy
open CString Interaction Program Poller

section

variable {w : World} {log front : List Event}

/-- What a block publishes stays published. -/
theorem Blocks.published_front (h : Blocks log) (hp : front <+: log)
    (hfree : statsLock.held front = false) {p : Nat × List StatsEntry}
    (hmem : p ∈ publications front) : p ∈ publications log := by
  have hsection : ∀ {before middle : List Event}, Event.unlock ∉ middle →
      front <+: before ++ (.wrlock :: middle ++ [.unlock]) →
      front <+: before ∨ front = before ++ (.wrlock :: middle ++ [.unlock]) := by
    intro before middle hm hp
    rcases List.prefix_or_prefix_of_prefix hp (List.prefix_append before _) with hbefore | hinside
    · exact Or.inl hbefore
    · obtain ⟨part, rfl⟩ := hinside
      obtain ⟨back, hback⟩ := (List.prefix_append_right_inj before).mp hp
      by_cases hpart : part = []
      · rw [hpart, List.append_nil]
        exact Or.inl (List.prefix_refl before)
      · by_cases hnil : back = []
        · rw [← hback, hnil, List.append_nil]
          exact Or.inr rfl
        · rw [held_inside hm hback.symm hpart hnil] at hfree
          contradiction
  induction h with
  | nil => rwa [List.prefix_nil.mp hp] at hmem
  | @outside log h e he ih =>
    rcases List.prefix_concat_iff.mp hp with hsame | hp
    · rwa [hsame] at hmem
    · have hpub : publications (log ++ [e]) = publications log := by
        rw [publications_append]
        cases e <;> first | rfl | cases he
      rw [hpub]
      exact ih hp
  | @state log h s ih =>
    rcases hsection (unlock_state s) hp with hp | hsame
    · have hpub : publications (log ++ stateSection s) = publications log :=
        publications_append log (stateSection s)
      rw [hpub]
      exact ih hp
    · rwa [hsame] at hmem
  | @update log h i n entries ih =>
    obtain ⟨middle, heq, hm⟩ := update_section i n entries
    rw [heq] at hp
    rcases hsection hm hp with hp | hsame
    · rw [publications_update]
      exact List.mem_append_left _ (ih hp)
    · rwa [hsame, ← heq] at hmem

/-- A list that is not empty has been published. -/
theorem Blocks.published (h : Blocks log) (i : Nat) (hi : i < w.bep.uris.length)
    (hw : w.bep.stats i = []) :
    (run w log).bep.stats i = [] ∨ (i, (run w log).bep.stats i) ∈ publications log := by
  induction h with
  | nil => exact Or.inl hw
  | @outside log h e he ih =>
    have hstats : (run w (log ++ [e])).bep.stats i = (run w log).bep.stats i := by
      rw [run_append]
      exact (store_invisible e (Or.inl he) _).2 i
    have hpub : publications (log ++ [e]) = publications log := by
      rw [publications_append]
      cases e <;> first | rfl | cases he
    rwa [hstats, hpub]
  | @state log h s ih =>
    have hstats : (run w (log ++ stateSection s)).bep.stats i = (run w log).bep.stats i := by
      rw [run_append]
      rfl
    have hpub : publications (log ++ stateSection s) = publications log :=
      publications_append log (stateSection s)
    rwa [hstats, hpub]
  | @update log h j n entries ih =>
    rw [publications_update, run_append]
    by_cases hij : j = i
    · subst hij
      rw [stats_update_self _ _ _ _ ((run_length w log).symm ▸ hi)]
      exact Or.inr (List.mem_append_right _ (List.mem_singleton_self _))
    · rw [stats_update_ne _ _ _ hij]
      exact ih.imp_right (List.mem_append_left _)

end

/-- Every list that is cached of a uri other than `health` has clean entries. -/
theorem cached_clean {settings : LocalSettings} {uris : List Bytes} {log : List Event}
    (h : (statsSystem settings uris).Free log) {i : Nat} {uri : Bytes} (huri : uris[i]? = some uri)
    (hne : uri ≠ ascii "health") :
    ∀ entry ∈ (run (World.initial settings uris) log).bep.stats i, entry.Clean := by
  obtain ⟨⟨inputs, hp⟩, hfree⟩ := h
  have hblocks := (runBackend_log (initial_starts settings uris) inputs).blocks
  have hi : i < (World.initial settings uris).bep.uris.length := by
    rw [World.initial, List.length_map]
    exact (List.getElem?_eq_some_iff.mp huri).1
  rcases (hblocks.front hp hfree).published i hi (initial_stats settings uris i) with hnil | hmem
  · rw [hnil]
    exact List.forall_mem_nil _
  · obtain ⟨polls, hof, hpublished⟩ := runBackend_published settings uris inputs
    have hall := hblocks.published_front hp hfree hmem
    rw [hpublished] at hall
    obtain ⟨poll, hpoll, hsame⟩ := List.mem_map.mp hall
    rw [Prod.mk.injEq] at hsame
    obtain ⟨hindex, hentries⟩ := hsame
    intro entry hentry
    rw [← hentries] at hentry
    cases poll with
    | stat j buffers =>
      obtain ⟨buffer, -, hbuffer⟩ := List.mem_flatMap.mp hentry
      exact addStats_clean hbuffer
    | health j pollDelta polltimeBuf livenessVal livenessDelta =>
      have hhealth := hof _ hpoll
      rw [StatsMemory.Poll.Of, show j = i from hindex, huri] at hhealth
      exact absurd (Option.some.inj hhealth) hne

/-- A uri that its command carries over unchanged, and that no page of the front end has. -/
structure RelayedUri (uri : Bytes) : Prop where
  short : uri.length ≤ 55
  noSpace : ∀ ch ∈ uri, isSpace ch = false
  plain : 0 ∉ uri ∧ 37 ∉ uri ∧ 43 ∉ uri ∧ 63 ∉ uri
  noSlash : uri.head? ≠ some 47
  notSystem : ∀ entry ∈ systemUris, entry.1 ≠ uri

/-- The command of a uri is scanned as it was printed. -/
theorem scanRequest_statsCmd {uri : Bytes} (h : RelayedUri uri) :
    scanRequest (statsCmd uri) = (ascii "stats", uri) := by
  have hcmd : statsCmd uri = ascii "stats" ++ 32 :: (uri ++ ascii "\r\n") := by
    have hstart : (ascii "stats ").length = 6 := rfl
    have hend : (ascii "\r\n").length = 2 := rfl
    rw [statsCmd, List.take_of_length_le (by
      rw [List.length_append, List.length_append, hstart, hend, cmdSz]
      have := h.short
      omega)]
    simp [ascii]
  have hnul : 0 ∉ ascii "stats" ++ 32 :: (uri ++ ascii "\r\n") := by
    simp only [List.mem_append, List.mem_cons, not_or]
    exact ⟨by decide, by decide, h.plain.1, by decide⟩
  have hmethod : scanString 15 (ascii "stats" ++ 32 :: (uri ++ ascii "\r\n")) =
      some (ascii "stats", 32 :: (uri ++ ascii "\r\n")) :=
    scanString_append (by decide) (by decide +kernel) (by simp [isSpace]) (by decide)
  have huri : ((scanString 1000 (32 :: (uri ++ ascii "\r\n"))).map Prod.fst).getD [] = uri := by
    rw [scanString_blank]
    by_cases hne : uri = []
    · rw [hne]
      rfl
    · have hscan : scanString 1000 (uri ++ ascii "\r\n") = some (uri, ascii "\r\n") :=
        scanString_append hne h.noSpace (by decide +kernel) (by have := h.short; omega)
      rw [hscan]
      rfl
  rw [scanRequest, hcmd, cString_of_nul hnul, hmethod]
  exact Prod.ext rfl huri

theorem asksFor_statsCmd {bep : Backend} {uri : Bytes} (h : RelayedUri uri)
    (hconfigured : ∃ entry ∈ bep.uris, entry.uri = uri) : AsksFor bep (statsCmd uri) uri := by
  have htarget : requestTarget (statsCmd uri) = uri := by
    rw [requestTarget, scanRequest_statsCmd h]
    exact if_neg h.noSlash
  refine ⟨by rw [scanRequest_statsCmd h], ?_, ?_, hconfigured⟩
  · rw [htarget, baseUri_self h.plain.2.2.2, findCallback_eq]
    have hsystem : systemUris.find? (·.1 = uri) = none := by
      simpa [List.find?_eq_none] using h.notSystem
    obtain ⟨entry, hentry⟩ := find_isSome_iff.mpr (by simpa using hconfigured)
    rw [hsystem]
    simp only [hentry]
    rfl
  · rw [htarget, decodedTarget_plain h.plain.1 h.plain.2.1 h.plain.2.2.1]

/-- What the front end prints for the command of a uri, over the cache as it stands. -/
def relayedText (env : Surroundings) (err : TelnetError) (bep : Backend) (uri : Bytes) : Bytes :=
  (clientView env err (.request (some (statsCmd uri)) ::
    ((handleRequest bep (statsCmd uri)).exec () [bep.read uri]).trace)).text

theorem relayedText_eq (env : Surroundings) (err : TelnetError) {bep : Backend} {uri : Bytes}
    (h : RelayedUri uri) (hconfigured : ∃ entry ∈ bep.uris, entry.uri = uri)
    (hpolling : bep.state = .polling) :
    relayedText env err bep uri = rawPrintStats (bep.stats (bep.uris.findIdx (·.uri == uri))) := by
  have hask := asksFor_statsCmd h hconfigured
  have hread : bep.read uri =
      { polling := true, stats := bep.stats (bep.uris.findIdx (·.uri == uri)) } := by
    have hsame : (fun entry : UriEntry => decide (entry.uri = uri)) = (·.uri == uri) :=
      funext fun entry => Bool.eq_iff_iff.mpr (by simp)
    rw [Backend.read, hpolling, Backend.stats, List.find?_eq_getElem?_findIdx, hsame]
    rfl
  let served : ServedRequest :=
    ⟨statsCmd uri, uri, bep.stats (bep.uris.findIdx (·.uri == uri))⟩
  have hview : served.events.foldl (ClientView.next env err) _ = _ :=
    view_served hask ⟨.memcacheClient, []⟩
  rw [relayedText, handleRequest_asks hask, hread, statsCallback_reads hconfigured, if_pos rfl]
  exact congrArg ClientView.text hview

/-- The proxy that is polled. -/
structure Upstream where
  settings : LocalSettings
  uris : List Bytes
  env : Surroundings
  err : TelnetError

/-- The backend of the upstream proxy after these events of its poller. -/
def Upstream.bep (up : Upstream) (log : List Event) : Backend :=
  (run (World.initial up.settings up.uris) log).bep

/-- What it caches then. -/
def Upstream.cached (up : Upstream) (log : List Event) (uri : Bytes) : List StatsEntry :=
  (up.bep log).stats (up.uris.findIdx (· == uri))

/-- The answers to one poll: the upstream proxy takes the command, serves it at a free moment
of its own poller, and its text is delivered. -/
inductive Relays (up : Upstream) (settings : LocalSettings) (u : UriEntry) :
    List Answer → List StatsEntry → Prop where
  | intro (log : List Event) (start first : Answer) (writes rounds : List Answer)
      (moment : (statsSystem up.settings up.uris).Free log)
      (polling : (up.bep log).state = .polling)
      (name : RelayedUri u.uri) (stat : u.uri ≠ ascii "health") (configured : u.uri ∈ up.uris)
      (taken : Accepts settings.writeMs start.gettimeofday (statsCmd u.uri) writes)
      (whole : WholeReply (relayedText up.env up.err (up.bep log) u.uri))
      (short : (relayedText up.env up.err (up.bep log) u.uri).length < maxStatSz)
      (delivered : DeliversReply settings.readMs first.gettimeofday
        (relayedText up.env up.err (up.bep log) u.uri) rounds) :
      Relays up settings u (start :: (writeAnswers writes ++ first :: roundAnswers rounds))
        (up.cached log u.uri)

/-- The same for the uris of a cycle. -/
inductive RelaysAll (up : Upstream) (settings : LocalSettings) :
    List UriEntry → List Answer → List UriEntry → Prop where
  | nil : RelaysAll up settings [] [] []
  | cons {u : UriEntry} {us us' : List UriEntry} {inputs more : List Answer}
      {stats : List StatsEntry} (now : Answer) (relayed : Relays up settings u inputs stats)
      (rest : RelaysAll up settings us more us') :
      RelaysAll up settings (u :: us) (inputs ++ now :: more) (⟨u.uri, now.time, stats⟩ :: us')

theorem upstream_uris (up : Upstream) (log : List Event) :
    (up.bep log).uris.map UriEntry.uri = up.uris := by
  rw [Upstream.bep, run_uris]
  simp [World.initial, Function.comp_def]

theorem cached_eq (up : Upstream) (log : List Event) (uri : Bytes) :
    (up.bep log).stats ((up.bep log).uris.findIdx (·.uri == uri)) = up.cached log uri := by
  have hindex : (up.bep log).uris.findIdx (·.uri == uri) = up.uris.findIdx (· == uri) := by
    rw [← upstream_uris up log, List.findIdx_map]
    rfl
  rw [hindex, Upstream.cached]

theorem Relays.serves {up : Upstream} {settings : LocalSettings} {u : UriEntry}
    {inputs : List Answer} {stats : List StatsEntry} (h : Relays up settings u inputs stats) :
    Serves settings u inputs stats := by
  obtain ⟨log, start, first, writes, rounds, moment, polling, name, stat, configured, taken,
    whole, short, delivered⟩ := h
  have hfound : ∃ entry ∈ (up.bep log).uris, entry.uri = u.uri := by
    rw [← upstream_uris up log] at configured
    simpa using configured
  have htext := relayedText_eq up.env up.err name hfound polling
  rw [cached_eq] at htext
  have hindex : up.uris[up.uris.findIdx (· == u.uri)]? = some u.uri := by
    have hlt : up.uris.findIdx (· == u.uri) < up.uris.length :=
      List.findIdx_lt_length_of_exists ⟨u.uri, configured, beq_self_eq_true u.uri⟩
    rw [List.getElem?_eq_getElem hlt, Option.some.injEq]
    exact eq_of_beq (List.findIdx_getElem (p := (· == u.uri)))
  have hclean := cached_clean moment hindex stat
  rw [htext] at whole short delivered
  have hread : spMemcacheStatsAddStats (rawPrintStats (up.cached log u.uri)) =
      up.cached log u.uri := addStats_rawPrintStats hclean
  rw [← hread]
  exact .stat start first writes rounds _ stat taken whole short delivered

theorem RelaysAll.serves {up : Upstream} {settings : LocalSettings} {us us' : List UriEntry}
    {inputs : List Answer} (h : RelaysAll up settings us inputs us') :
    ServesAll settings us inputs us' := by
  induction h with
  | nil => exact .nil
  | cons now relayed _ ih => exact .cons now relayed.serves ih

/-- A cycle that polls another proxy caches the very lists that it had cached when it served
the commands. -/
theorem pollCycle_relays {up : Upstream} {settings : LocalSettings} {uris : List Bytes} {w : World}
    {start connected stop : Answer} {refused inputs : List Answer} {us' : List UriEntry}
    (hne : uris ≠ []) (hw : CycleStart settings uris w) (htries : refused.length < 6)
    (hrefuses : ∀ a ∈ refused, a.Refuses) (hconnects : connected.Connects)
    (hrelays : RelaysAll up settings w.bep.uris inputs us') :
    ∃ trace, (pollCycle ()).exec w
        (start :: (connectAnswers refused connected ++ (inputs ++ [stop]))) =
          .done (.inl ()) trace [] ∧
      CycleStart settings uris (run w trace) ∧ (run w trace).bep.uris = us' ∧
      (run w trace).bep.state = .polling := by
  obtain ⟨⟨hfd, hopened⟩, hsettings, huris⟩ := hw.starts
  have hus : w.bep.uris ≠ [] := fun hnil => hne (by rw [← huris, hnil]; rfl)
  have hserves : ServesCycle w.bep.settings w.bep.uris _ us' :=
    .intro start connected stop refused htries hrefuses hconnects (hsettings ▸ hrelays.serves)
  obtain ⟨lastError, hcycle⟩ := returns_pollCycle hfd hopened hus hserves
  obtain ⟨trace, hexec, hrun⟩ := hcycle []
  rw [List.append_nil] at hexec
  exact ⟨trace, hexec, .next hw hexec, by rw [hrun], by rw [hrun]⟩

/-- The stats of a server that has been polled twice for `items`. -/
def sampleUpstream : Upstream :=
  ⟨sampleSettings, sampleUris, telnetSurroundings, ⟨sampleSettings, 0, []⟩⟩

def relayedReply : Bytes := ascii "STAT pid 7\r\nEND\r\n"

theorem relayedText_items : relayedText sampleUpstream.env sampleUpstream.err
    (sampleUpstream.bep (servedTrace 27)) (ascii "items") = relayedReply := by
  decide +kernel

theorem relays_items : Relays sampleUpstream sampleSettings ⟨ascii "items", 0, []⟩
    (prompt :: (writeAnswers [{ write := .ok 13 }] ++
      prompt :: roundAnswers [{ read := .ok relayedReply }]))
    (sampleUpstream.cached (servedTrace 27) (ascii "items")) := by
  have hreply : WholeReply (ascii "STAT pid 7\r\n" ++ endMarker) :=
    wholeReply_append (by decide) (by decide) (by decide)
  have hname : RelayedUri (ascii "items") :=
    ⟨by decide, by decide +kernel, by decide, by decide, by decide +kernel⟩
  refine .intro (servedTrace 27) prompt prompt [{ write := .ok 13 }]
    [{ read := .ok relayedReply }] (servedTrace_free 27 (by decide +kernel)) (by decide +kernel)
    hname (by decide) (List.mem_cons_self ..) ⟨by decide, 13, rfl, by decide, rfl⟩ ?_ ?_ ?_
  · rw [relayedText_items]
    exact hreply
  · rw [relayedText_items]
    decide
  · rw [relayedText_items]
    exact ⟨by decide +kernel, by decide +kernel, by decide +kernel⟩

theorem pollCycle_relays_items :
    ∃ trace, (pollCycle ()).exec
        (run (World.initial sampleSettings [ascii "items"]) (stateSection .halted))
        (prompt :: (connectAnswers [] prompt ++
          ((prompt :: (writeAnswers [{ write := .ok 13 }] ++
            prompt :: roundAnswers [{ read := .ok relayedReply }])) ++ { time := 7 } :: [] ++
              [prompt]))) = .done (.inl ()) trace [] ∧
      CycleStart sampleSettings [ascii "items"]
        (run (run (World.initial sampleSettings [ascii "items"]) (stateSection .halted)) trace) ∧
      (run (run (World.initial sampleSettings [ascii "items"]) (stateSection .halted))
        trace).bep.uris =
        [⟨ascii "items", 7, sampleUpstream.cached (servedTrace 27) (ascii "items")⟩] ∧
      (run (run (World.initial sampleSettings [ascii "items"]) (stateSection .halted))
        trace).bep.state = .polling :=
  pollCycle_relays (List.cons_ne_nil _ _) .first (by decide) nofun
    ⟨⟨3, rfl⟩, rfl, Or.inl rfl, rfl⟩ (.cons { time := 7 } relays_items .nil)

end StatsProxy

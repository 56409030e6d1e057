import StatsProxy.CallEvents
import StatsProxy.GlobalUris

/-! The command of a configured uri, which is printed into a buffer of fixed size. -/
namespace StatsProxy
open CString Interaction Program Poller

/-- A call hands one command to `spMemcacheWrite`: the line of the uri. -/
def OneStatsLine (uri : Bytes) (log : List Event) : Prop :=
  13 ∉ uri ∧ 10 ∉ uri ∧
    ∃ more, log = .command (ascii "stats " ++ uri ++ ascii "\r\n") :: more ∧
      ∀ cmd, .command cmd ∉ more

theorem notCommand_of_ofRead {e : Event} (h : e.ofRead = true) : e.notCommand = true := by
  cases e <;> first | rfl | contradiction

theorem notCommand_of_ofPublish {i : Nat} {entries : List StatsEntry} {e : Event}
    (h : e.ofPublish i entries) : e.notCommand = true := by
  cases e <;> first | rfl | contradiction

/-- What `getStat` does after its command. -/
theorem within_getStatRest (i : Nat) (uri : Bytes) :
    Within (·.notCommand = true) (writeCommand (statsCmd uri) >>= statReply i) := by
  apply within_bind
  · exact (within_writeCommand _).imp fun _ h => h.2
  · intro err
    unfold statReply
    split
    · apply within_bind
      · exact within_spMemcacheReadReplies.imp fun _ => notCommand_of_ofRead
      · exact fun r => (within_publish i r.2).imp fun _ => notCommand_of_ofPublish
    · exact within_pure _

theorem write_bind (cmd : Bytes) (k : Nat → Poller α) : spMemcacheWrite cmd >>= k =
    emit (.command cmd) >>= fun _ => writeCommand cmd >>= k := by
  have hwrite : spMemcacheWrite cmd = emit (.command cmd) >>= fun _ => writeCommand cmd := rfl
  rw [hwrite, bind_bind]

/-- Every run of `getStat`, finished or not, starts with its command and has no other. -/
theorem getStat_trace (i : Nat) (uri : Bytes) (w : World) (inputs : List Answer) :
    ∃ more, ((getStat i uri).exec w inputs).trace = .command (statsCmd uri) :: more ∧
      ∀ e ∈ more, e.notCommand = true := by
  refine ⟨_, ?_, within_getStatRest i uri (Machine.after w (.command (statsCmd uri))) inputs⟩
  rw [getStat_eq, write_bind]
  exact Result.trace_prepend [Event.command (statsCmd uri)] _

/-- The printed command is that of a text exactly if the text fits into the buffer and
is a C string. -/
theorem statsCmd_eq_iff (value : Bytes) :
    statsCmd (cString value) = ascii "stats " ++ value ++ ascii "\r\n" ↔
      value.length ≤ 55 ∧ 0 ∉ value := by
  have hstring : (cString value).length ≤ value.length :=
    (List.takeWhile_prefix (· ≠ 0) (l := value)).length_le
  have hstart : (ascii "stats ").length = 6 := rfl
  have hend : (ascii "\r\n").length = 2 := rfl
  unfold statsCmd cmdSz
  constructor
  · intro h
    have hlen := congrArg List.length h
    rw [List.length_take, List.length_append, List.length_append, List.length_append,
      List.length_append, hstart, hend] at hlen
    have hfit : value.length ≤ 55 := by omega
    rw [List.take_of_length_le (by
      rw [List.length_append, List.length_append, hstart, hend]
      omega)] at h
    refine ⟨hfit, ?_⟩
    rw [← List.append_cancel_left (List.append_cancel_right h)]
    exact cString_noNul value
  · rintro ⟨hlen, hnul⟩
    rw [cString_of_nul hnul]
    apply List.take_of_length_le
    rw [List.length_append, List.length_append, hstart, hend]
    omega

theorem oneStatsLine_iff (i : Nat) (value : Bytes) (w : World) (inputs : List Answer) :
    OneStatsLine value ((getStat i (cString value)).exec w inputs).trace ↔
      value.length ≤ 55 ∧ ∀ ch ∈ value, ch ≠ 0 ∧ ch ≠ 13 ∧ ch ≠ 10 := by
  obtain ⟨more, htrace, hmore⟩ := getStat_trace i (cString value) w inputs
  have hnone : ∀ cmd, Event.command cmd ∉ more := by
    intro cmd hcmd
    exact absurd (hmore _ hcmd) nofun
  have hcommand : (∃ more', Event.command (statsCmd (cString value)) :: more =
      .command (ascii "stats " ++ value ++ ascii "\r\n") :: more' ∧
        ∀ cmd, Event.command cmd ∉ more') ↔ value.length ≤ 55 ∧ 0 ∉ value := by
    rw [← statsCmd_eq_iff]
    constructor
    · rintro ⟨more', hsame, -⟩
      rw [List.cons.injEq, Event.command.injEq] at hsame
      exact hsame.1
    · intro hsame
      exact ⟨more, by rw [hsame], hnone⟩
  unfold OneStatsLine
  rw [htrace, hcommand]
  constructor
  · rintro ⟨hcr, hlf, hlen, hnul⟩
    refine ⟨hlen, fun ch hch => ⟨?_, ?_, ?_⟩⟩
    · exact fun heq => hnul (heq ▸ hch)
    · exact fun heq => hcr (heq ▸ hch)
    · exact fun heq => hlf (heq ▸ hch)
  · rintro ⟨hlen, hvalue⟩
    refine ⟨fun hcr => (hvalue _ hcr).2.1 rfl, fun hlf => (hvalue _ hlf).2.2 rfl, hlen, ?_⟩
    exact fun hnul => (hvalue _ hnul).1 rfl

/-- A uri that is declared before a block is an entry of its backend. -/
theorem uri_configured {lookup : Bytes → Option Nat} {final : Final} {s' : Settings}
    {before after : List Statement} {as : List Assignment} {value : Bytes} {bep : Backend}
    (h : yyparse lookup (configTokens (before ++ .proxyMapping as :: after), final) =
      .returned 0 s') (hvalue : .uri value ∈ before)
    (hbep : s'.proxies[(before.filter Statement.isMapping).length]? = some bep) :
    ∃ i, (cString value, i) ∈ (bep.uris.map UriEntry.uri).zipIdx := by
  obtain ⟨-, s, bep', hs, hblock, hindex⟩ := accepted_block h
  rw [hbep] at hindex
  cases hindex
  have hmem : cString value ∈ bep.uris.map UriEntry.uri := by
    rw [blockBackend_uris hblock.backend, uriEntries_uri, hs.globals]
    apply List.mem_append_right
    exact List.mem_filterMap.mpr ⟨.uri value, hvalue, rfl⟩
  obtain ⟨i, hi⟩ := List.mem_iff_getElem?.mp hmem
  exact ⟨i, List.mk_mem_zipIdx_iff_getElem?.mpr hi⟩

/-- A backend polls each uri that is declared before its block, and sends one complete
line for it exactly if the uri has at most 55 bytes and no NUL, CR or LF. -/
theorem getStat_oneLine_iff (lookup : Bytes → Option Nat) (file : Bytes) (s' : Settings)
    (h : yyparse lookup (lexFile file) = .returned 0 s') (before after : List Statement)
    (as : List Assignment) (value : Bytes) (bep : Backend)
    (hfile : (lexFile file).1 = configTokens (before ++ .proxyMapping as :: after))
    (hvalue : .uri value ∈ before)
    (hbep : s'.proxies[(before.filter Statement.isMapping).length]? = some bep) :
    (∃ i, (cString value, i) ∈ (bep.uris.map UriEntry.uri).zipIdx) ∧
      ∀ i w inputs, OneStatsLine value ((getStat i (cString value)).exec w inputs).trace ↔
        value.length ≤ 55 ∧ ∀ ch ∈ value, ch ≠ 0 ∧ ch ≠ 13 ∧ ch ≠ 10 := by
  constructor
  · have hparse : yyparse lookup (configTokens (before ++ .proxyMapping as :: after),
        (lexFile file).2) = .returned 0 s' := by
      rw [← hfile]
      exact h
    exact uri_configured hparse hvalue hbep
  · intro i w inputs
    exact oneStatsLine_iff i value w inputs

theorem getStat_oneLine_items :
    OneStatsLine (ascii "items") ((getStat 0 (ascii "items")).exec sampleWorld []).trace := by
  obtain ⟨s, hs⟩ := inheritingFile_accepted
  have hfile : (lexFile inheritingFile).1 =
      configTokens ([.uri (ascii "items")] ++ .proxyMapping firstBlock ::
        [.proxyMapping secondBlock, .proxyMapping [.timeout 7]]) := by
    rw [inheritingFile_tokens]
    rfl
  have hparse := hs
  rw [← Prod.mk.eta (p := lexFile inheritingFile), hfile] at hparse
  obtain ⟨-, _, bep, -, -, hbep⟩ := accepted_block hparse
  exact ((getStat_oneLine_iff sampleLookup inheritingFile s hs _ _ _ _ bep hfile
    List.mem_cons_self hbep).2 0 sampleWorld []).mpr (by decide +kernel)

/-- A uri of 56 letters. -/
def longUri : Bytes := List.replicate 56 97

def longUriFile : Bytes :=
  ascii "memcache-stats-proxy-settings \x7b uri \"" ++ longUri ++ ascii "\";
     proxy-mapping \x7b front-end = \"a:8080\"; back-end = \"b:11211\"; \x7d
   \x7d"

theorem longUriFile_tokens : lexFile longUriFile = (configTokens [.uri longUri,
    .proxyMapping [.frontEnd (ascii "a:8080"), .backEnd (ascii "b:11211")]], .eof) := by
  rw [longUriFile, ascii_ofList, ascii_ofList]
  decide +kernel

/-- Its command has no line end. -/
theorem getStat_cutsCommand : ¬∀ (file : Bytes) (s' : Settings),
    yyparse sampleLookup (lexFile file) = .returned 0 s' →
    ∀ before after as value, (lexFile file).1 = configTokens (before ++ .proxyMapping as :: after) →
      .uri value ∈ before → ∀ i w inputs,
        OneStatsLine value ((getStat i (cString value)).exec w inputs).trace := by
  intro h
  have haccepted : ∃ s, yyparse sampleLookup (lexFile longUriFile) = .returned 0 s := by
    rw [longUriFile_tokens]
    exact ⟨_, rfl⟩
  obtain ⟨s, hs⟩ := haccepted
  have hline := h longUriFile s hs [.uri longUri] []
    [.frontEnd (ascii "a:8080"), .backEnd (ascii "b:11211")] longUri
    (by rw [longUriFile_tokens]; rfl) List.mem_cons_self 0 sampleWorld []
  have hlen := ((oneStatsLine_iff 0 longUri sampleWorld []).mp hline).1
  exact absurd hlen (by decide)

end StatsProxy

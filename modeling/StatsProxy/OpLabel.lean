import StatsProxy.ReporterSetting
import StatsProxy.UriParams

/-! The label of a top-clients page. It is printed into an array of `LINESZ` bytes without a
check; what keeps it short is how the key has come out of the request line. -/
namespace StatsProxy
open CString Interaction Program

/-- What `write_html_mcr_top_clients` prints into `opLabel`. -/
def opLabel (key : Bytes) : Bytes :=
  if key = ascii "ops" then ascii " by ops"
  else ascii "for key <i><font size =\"-2\">" ++ key ++ ascii "</font></i>"

/-- The program of a page of the top clients. -/
def topClientsPage (addr : Bytes) (port : Nat) (key : Bytes) : Client Unit := do
  reporterPage (some mcrRefresh)
  let err ← writeHtmlMcrTopClients addr port key tcTime tcNum
  endPage err (ascii ("Error: could not get top clients for %s:%hd" ++ pleaseCheck))

/-- The markup takes 39 bytes and the NUL one. -/
theorem opLabel_length {key : Bytes} (h : key.length ≤ 984) :
    (opLabel key).length + 1 ≤ lineSz := by
  have hops : (ascii " by ops").length = 7 := by decide
  have hfront : (ascii "for key <i><font size =\"-2\">").length = 28 := by decide
  have hback : (ascii "</font></i>").length = 11 := by decide
  have hsize : lineSz = 1024 := rfl
  unfold opLabel
  split
  · omega
  · rw [List.length_append, List.length_append]
    omega

theorem requestTarget_length (servRequest : Bytes) : (requestTarget servRequest).length ≤ 1000 := by
  have huri : (scanRequest servRequest).2.length ≤ 1000 := by
    unfold scanRequest
    split
    · exact Nat.zero_le 1000
    · next method rest hscan =>
      cases h : scanString 1000 rest with
      | none => exact Nat.zero_le 1000
      | some p => exact scanString_length h
  unfold requestTarget stripSlash
  split
  · rw [List.length_tail]
    omega
  · exact huri

theorem decodedTarget_length (target : Bytes) : (decodedTarget target).length ≤ target.length :=
  (decodedTarget_leading target).length_le.trans (uriDecode_length target).1

/-- A key stands behind the uri that its page is found by, a separator and its name. -/
theorem key_length {decodedUri key : Bytes} (hequals : 61 ∉ cString (cutParams decodedUri))
    (h : (scanParams decodedUri).key = some key) :
    (cString (cutParams decodedUri)).length + key.length + 5 ≤ decodedUri.length := by
  have hlength : (cutParams decodedUri).length = decodedUri.length := List.length_map _
  have hname : (ascii "key=").length = 4 := by decide
  rw [scanParams_places] at h
  have hkey := List.mem_of_getLast? h
  rw [← hlength]
  rcases cString_split (cutParams decodedUri) with hwhole | ⟨back, hsplit⟩
  · rw [hwhole] at hequals
    have hnone : places (ascii "key=") (cutParams decodedUri) = [] :=
      places_none hequals (ascii "key")
    rw [hnone] at hkey
    cases hkey
  · have hnone : places (ascii "key=") (cString (cutParams decodedUri)) = [] :=
      places_none hequals (ascii "key")
    rw [hsplit, places_nul (by decide) (by decide), hnone, List.nil_append] at hkey
    have hrest := places_length key hkey
    have hcut := congrArg List.length hsplit
    rw [List.length_append, List.length_cons] at hcut
    omega

/-- A request with an operation goes to the reporter's callback. -/
theorem requestOp_some {bep : Backend} {servRequest : Bytes} {op : ReporterOp}
    (h : requestOp bep servRequest = some op) :
    reporterArgs bep servRequest =
        some (cString (cutParams (decodedTarget (requestTarget servRequest))),
          scanParams (decodedTarget (requestTarget servRequest))) ∧
      reporterUriOp (cString (cutParams (decodedTarget (requestTarget servRequest))))
        (scanParams (decodedTarget (requestTarget servRequest))) = some op := by
  unfold requestOp at h
  dsimp only at h
  unfold reporterArgs
  dsimp only
  split at h
  · cases h
  · rename_i hmethod
    rw [if_neg hmethod]
    rw [← requestTarget] at h
    generalize findCallback bep (baseUri (requestTarget servRequest)) = cb at h ⊢
    cases cb with
    | none => cases h
    | some cb => cases cb with
      | reporter => exact ⟨rfl, h⟩
      | image => cases h
      | stats => cases h

theorem reporterUriOp_topClients {uri key addr : Bytes} {p : ReporterParams} {port : Nat}
    (h : reporterUriOp uri p = some (.topClients key addr port)) :
    uri ∈ topClientsUris ∧ p.key = some key ∧
      reporterUri uri p = topClientsPage addr port key := by
  unfold reporterUriOp at h
  unfold reporterUri
  split at h
  · cases h
  · rename_i hconfig
    split at h
    · split at h <;> cases h
    · rename_i hkeys
      split at h
      · rename_i hclients
        rw [if_neg hconfig, if_neg hkeys, if_pos hclients]
        obtain ⟨paddr, pport, pkey⟩ := p
        cases paddr with
        | none => cases h
        | some addr => cases pport with
          | zero => cases h
          | succ port => cases pkey with
            | none => cases h
            | some key =>
              cases h
              exact ⟨hclients, rfl, rfl⟩
      · split at h
        · split at h <;> cases h
        · cases h

/-- The label fits for every request line whose handling comes to the page of the top
clients. -/
theorem opLabel_fits {bep : Backend} {servRequest key addr : Bytes} {port : Nat}
    (h : requestOp bep servRequest = some (.topClients key addr port)) :
    handleRequest bep servRequest = (do topClientsPage addr port key; return true) ∧
      (opLabel key).length + 1 ≤ lineSz := by
  obtain ⟨hargs, hop⟩ := requestOp_some h
  obtain ⟨huri, hkey, hpage⟩ := reporterUriOp_topClients hop
  constructor
  · rw [handleRequest_reporter hargs, hpage]
  · have hequals : ∀ uri ∈ topClientsUris, 61 ∉ uri := by decide +kernel
    have hbase : ∀ uri ∈ topClientsUris, 15 ≤ uri.length := by decide +kernel
    have hbehind := key_length (hequals _ huri) hkey
    have hfront := hbase _ huri
    have hdecoded := decodedTarget_length (requestTarget servRequest)
    have htarget := requestTarget_length servRequest
    apply opLabel_length
    omega

/-- A page of the clients of one key. -/
def clientsRequest : Bytes :=
  ascii "GET /top-clients-ops?addr=10.0.0.1&port=11211&key=user%3A1 HTTP/1.1\r\n"

theorem opLabel_fits_sample :
    handleRequest sampleWorld.bep clientsRequest = (do
        topClientsPage (ascii "10.0.0.1") 11211 (ascii "user:1")
        return true) ∧
      (opLabel (ascii "user:1")).length + 1 ≤ lineSz :=
  opLabel_fits (by rfl)

end StatsProxy

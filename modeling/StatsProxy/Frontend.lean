import StatsProxy.McrWeb
import StatsProxy.UriStrings

/-! The frontend threads of a backend: one request line, the callback it is
dispatched to, and the operation on the reporter that a callback runs. -/
namespace StatsProxy
open CString Interaction Program

inductive ClientType where
  | memcacheClient | httpClient
deriving DecidableEq

inductive Callback where
  | reporter | image | stats
deriving DecidableEq

def httpMoveTemp : Nat := 302
def httpBadRequest : Nat := 400
def httpNotFound : Nat := 404
def httpServUnavail : Nat := 503

/-- The callbacks that `addSystemUris` registers. -/
def systemUris : List (Bytes × Callback) :=
  [(ascii "reporter", .reporter), (ascii "top-keys", .reporter),
    (ascii "top-keys-gets", .reporter), (ascii "top-keys-sets", .reporter),
    (ascii "top-keys-all", .reporter), (ascii "top-keys-select", .reporter),
    (ascii "top-clients-key", .reporter), (ascii "top-clients-ops", .reporter),
    (ascii "mcr-config", .reporter), (ascii "mcr-enable", .reporter),
    (ascii "mcr-disable", .reporter), (ascii "logo.png", .image)]

/-- System uris first, then the uris of the backend. -/
def findCallback (bep : Backend) (uri : Bytes) : Option Callback :=
  let backendUris := bep.uris.map fun entry => (entry.uri, Callback.stats)
  ((systemUris ++ backendUris).find? (·.1 = uri)).map Prod.snd

def maxReqSz : Nat := 1024

/-- `sscanf(servRequest, "%15s %1000s", method, uri)` into cleared buffers. -/
def scanRequest (servRequest : Bytes) : Bytes × Bytes :=
  match scanString 15 (cString servRequest) with
  | none => ([], [])
  | some (method, rest) => (method, ((scanString 1000 rest).map Prod.fst).getD [])

def badMethod (method : Bytes) : Bool := method ∉ [ascii "GET", ascii "POST", ascii "stats"]

def clientType (method : Bytes) : ClientType :=
  if method = ascii "stats" then .memcacheClient else .httpClient

def stripSlash (uri : Bytes) : Bytes := if uri.head? = some 47 then uri.tail else uri

/-- The target without its parameters. -/
def baseUri (uri : Bytes) : Bytes := uri.takeWhile (· ≠ 63)

/-- The parameters that `reporterCallback` finds, with the port it scans. -/
structure ReporterParams where
  addr : Option Bytes
  port : Nat
  key : Option Bytes
deriving DecidableEq

/-- One position of the scan over the uri, whose `?` and `&` are now NUL. -/
def scanParam (p : ReporterParams) (c : Bytes) : ReporterParams :=
  if (ascii "addr=").isPrefixOf c then { p with addr := some (cString (c.drop 5)) }
  else if (ascii "port=").isPrefixOf c then
    { p with port := (scanShort (cString (c.drop 5))).getD p.port }
  else if (ascii "key=").isPrefixOf c then { p with key := some (cString (c.drop 4)) }
  else p

def cutParams (uri : Bytes) : Bytes := uri.map fun ch => if ch = 63 || ch = 38 then 0 else ch

def scanParams (uri : Bytes) : ReporterParams :=
  (cutParams uri).tails.foldl scanParam ⟨none, 0, none⟩

def tkTime : Nat := 60
def tkNum : Nat := 100
def tcTime : Nat := 60
def tcNum : Nat := 20
def mcrRefresh : Int := 60 * 1000

def topKeysUris : List Bytes :=
  [ascii "top-keys-gets", ascii "top-keys-sets", ascii "top-keys-all", ascii "top-keys-select"]

def topClientsUris : List Bytes := [ascii "top-clients-ops", ascii "top-clients-keys"]

def mcrOpUris : List Bytes := [ascii "mcr-enable", ascii "mcr-disable"]

def pageRefresh : Option Int → Client Unit
  | some ms => print (.pageRefresh ms)
  | none => return ()

def errorText (err : Int) (message : Bytes) : Client Unit :=
  if err ≠ 0 then print (.text message) else return ()

/-- The start of a page of the reporter. -/
def reporterPage (refresh : Option Int) : Client Unit := do
  print (.httpHeader (ascii "text/html"))
  print .htmlBody
  pageRefresh refresh
  print (.serviceInfo false)

/-- The end of a page, after an error text if the operation failed. -/
def endPage (err : Int) (message : Bytes) : Client Unit := do
  errorText err message
  print .endHtmlBody

/-- The answer of `mcr-enable` and `mcr-disable`. -/
def endOperation (err : Int) : Client Unit :=
  if err ≠ 0 then do
    print (.httpHeader (ascii "text/html"))
    endPage err (ascii ("System error setting reporter params -" ++
      "please check logs for more information"))
  else print (.redirect httpMoveTemp (ascii "/mcr-config"))

def pleaseCheck : String := " - please check reporting is enabled or  try later"

/-- The branches of `reporterCallback`. -/
def reporterUri (uri : Bytes) (p : ReporterParams) : Client Unit :=
  if uri = ascii "mcr-config" then do
    reporterPage none
    let err ← writeHtmlMcrConfig
    endPage err (ascii ("Error: could not get memcache reporter configuration" ++
      " - please check logs for more information"))
  else if uri ∈ topKeysUris then do
    reporterPage (some mcrRefresh)
    match p.addr, p.port with
    | some addr, port+1 =>
      let err ← writeHtmlMcrTopKeys addr (port + 1) (uri.drop 9) tkTime tkNum
      endPage err (ascii ("Error: could not get top keys for %s:%hd" ++ pleaseCheck))
    | _, _ => endPage 1 (ascii "Error: addr or port parameter not specified")
  else if uri ∈ topClientsUris then do
    reporterPage (some mcrRefresh)
    match p.addr, p.port, p.key with
    | some addr, port+1, some key =>
      let err ← writeHtmlMcrTopClients addr (port + 1) key tcTime tcNum
      endPage err (ascii ("Error: could not get top clients for %s:%hd" ++ pleaseCheck))
    | _, _, _ => endPage 1 (ascii "Error: addr+port+key parameters not specified")
  else if uri ∈ mcrOpUris then
    match p.addr, p.port with
    | some addr, port+1 => do
      let err ←
        mcrOp (if uri = ascii "mcr-enable" then ascii "add" else ascii "del") addr (port + 1)
      endOperation err
    | _, _ => do
      print (.httpHeader (ascii "text/html"))
      endPage 1 (ascii "Error: addr+port+key parameters not specified")
  else print (.clientError httpNotFound uri)

/-- The callback of the reporter uris, over the decoded uri. -/
def reporterCallback (decodedUri : Bytes) : Client Bool := do
  reporterUri (cString (cutParams decodedUri)) (scanParams decodedUri)
  return true

/-- What a request reads under the read lock: whether the poller is polling, and
the list of the uri. -/
def readCached : Client (Bool × List StatsEntry) :=
  clientCall (fun a => (a.polling, a.stats)) fun r => .cached r.1 r.2

def statsCallback (bep : Backend) (type : ClientType) (uri : Bytes) : Client Bool := do
  if bep.uris.all (·.uri ≠ uri) then
    print (.clientError httpNotFound uri)
    return true
  else
    emit .rdlock
    let (polling, stats) ← readCached
    if !polling then
      print (.clientError httpServUnavail uri)
      emit .unlock
      return true
    else match type with
      | .memcacheClient =>
        print (.rawStats stats)
        emit .unlock
        return false
      | .httpClient =>
        print (.httpHeader (ascii "text/html"))
        print .htmlBody
        print (.pageRefresh bep.settings.refreshfreqMs)
        print (.serviceInfo true)
        print (.htmlStats stats)
        print .endHtmlBody
        emit .unlock
        return true

def imageCallback (uri : Bytes) : Client Bool :=
  if uri = ascii "logo.png" then do
    print (.httpHeader (ascii "image/png"))
    print .image
    return true
  else do
    print (.clientError httpNotFound uri)
    return true

/-- A callback over the decoded uri, which ends at its first NUL. -/
def runCallback (bep : Backend) (type : ClientType) (uri : Bytes) : Callback → Client Bool
  | .reporter => reporterCallback uri
  | .image => imageCallback uri
  | .stats => statsCallback bep type uri

/-- One request line. The result tells whether the thread is done. -/
def handleRequest (bep : Backend) (servRequest : Bytes) : Client Bool := do
  let (method, uri) := scanRequest servRequest
  if badMethod method then
    print (.clientError httpBadRequest uri)
    return true
  else
    let uriStr := stripSlash uri
    match findCallback bep (baseUri uriStr) with
    | none =>
      print (.clientError httpNotFound (baseUri uriStr))
      return true
    | some cb => runCallback bep (clientType method) (cString (uriDecode uriStr)) cb

def fgetsRequest : Client (Option Bytes) :=
  clientCall (fun a => a.request.map (·.take (maxReqSz - 1))) .request

/-- The loop over the request lines of a connection. -/
def handleFrontendRequest (bep : Backend) : Client Unit :=
  loop (fun _ => do
    match ← fgetsRequest with
    | none => return .inr ()
    | some servRequest => return if ← handleRequest bep servRequest then .inr () else .inl ()) ()

end StatsProxy

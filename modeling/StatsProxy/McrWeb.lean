import StatsProxy.Backend

/-! The client of the reporter daemon. A frontend thread is a program whose
events are the calls on its connection to the reporter and the parts of the page
it prints. The rows of a reply go to the page only and are left out. -/
namespace StatsProxy
open CString Interaction Program

inductive Output where
  | httpHeader (mimeType : Bytes)
  | htmlBody
  | pageRefresh (ms : Int)
  | serviceInfo (vipLabel : Bool)
  /-- A text by its format. -/
  | text (format : Bytes)
  | report
  | endHtmlBody
  | image
  | rawStats (stats : List StatsEntry)
  | htmlStats (stats : List StatsEntry)
  | clientError (httpCode : Nat) (uri : Bytes)
  | redirect (httpCode : Nat) (uri : Bytes)
deriving DecidableEq

inductive ClientEvent where
  | request (line : Option Bytes)
  | host2addr (r : Option Nat)
  | socket (r : SysResult Nat)
  | connect (r : SysResult Unit)
  | fdopen (opened : Bool)
  | fputs (text : Bytes)
  | fgets (line : Option Bytes)
  | fclose (fd : Int)
  | close (fd : Int)
  | rdlock
  | cached (polling : Bool) (stats : List StatsEntry)
  | unlock
  | print (o : Output)
  /-- A null stream is used. -/
  | crash
deriving DecidableEq

/-- The environment's answer to the next call, whichever it is. -/
structure ClientAnswer where
  request : Option Bytes := none
  host2addr : Option Nat := some 2130706433
  socket : SysResult Nat := .ok 5
  connect : SysResult Unit := .ok ()
  fdopen : Bool := true
  /-- A line, and whether the end of the stream was met in it. -/
  fgets : Option (Bytes × Bool) := none
  polling : Bool := true
  stats : List StatsEntry := []

instance : Machine Unit ClientEvent where
  after _ _ := ()

abbrev Client := Program Unit ClientEvent ClientAnswer

def print (o : Output) : Client Unit := emit (.print o)

/-- A call that is recorded with its outcome. -/
def clientCall (outcome : ClientAnswer → α) (event : α → ClientEvent) : Client α := do
  let a ← ask
  emit (event (outcome a))
  return outcome a

theorem wp_clientCall {I : Unit × List ClientEvent → Prop} {outcome : ClientAnswer → α}
    {event : α → ClientEvent} {Q : α → Unit × List ClientEvent → Prop}
    {x : Unit × List ClientEvent} (hI : I x) (h : ∀ r, Q r (Machine.after x (event r))) :
    wp I (clientCall outcome event) Q x :=
  wp_bind (wp_ask hI fun _ => wp_bind (wp_emit (wp_pure (h _))))

def lineSz : Nat := 1024

def fgetsLine : Client (Option (Bytes × Bool)) :=
  clientCall (fun a => a.fgets.map fun r => (r.1.take (lineSz - 1), r.2))
    fun r => .fgets (r.map Prod.fst)

/-- What `mcr_connectRemote` returns and stores: `fd`, and whether `fp` is set. -/
structure McrStream where
  err : Int
  fd : Int
  opened : Bool

def mcrConnectRemote : Client McrStream := do
  match ← clientCall ClientAnswer.socket .socket with
  | .error _ => return ⟨-1, -1, false⟩
  | .ok fd => match ← clientCall ClientAnswer.connect .connect with
    | .error _ => return ⟨-1, fd, false⟩
    | .ok () =>
      -- err is 0 also where fdopen fails
      let opened ← clientCall ClientAnswer.fdopen .fdopen
      return ⟨0, fd, opened⟩

def closeStream (c : McrStream) : Client Unit :=
  if c.opened then emit (.fclose c.fd) else return ()

def closeDescriptor (c : McrStream) : Client Unit :=
  if 0 ≤ c.fd then emit (.close c.fd) else return ()

/-- The `bail` label that the four operations share. -/
def mcrBail (c : McrStream) (err : Int) : Client Int := do
  closeStream c
  closeDescriptor c
  return err

/-- Connects, writes a command and reads the reply; a null stream crashes. -/
def mcrCommand (cmd : Bytes) (reply : Client Int) : Client Int := do
  let c ← mcrConnectRemote
  if c.err ≠ 0 then mcrBail c c.err
  else if c.opened then
    emit (.fputs cmd)
    let err ← reply
    mcrBail c err
  else
    emit .crash
    halt

/-- One line of a reply; `stop` tells where the reading ends, and with which error. -/
def replyStep (stop : Bytes → Option Int) (_ : Unit) : Client (Unit ⊕ Int) := do
  match ← fgetsLine with
  | none => return .inr 0
  | some (line, eof) => match stop (cString line) with
    | some err => return .inr err
    | none => return if eof then .inr 0 else .inl ()

def readReply (stop : Bytes → Option Int) : Client Int := loop (replyStep stop) ()

def endLine : Bytes := ascii "END\r\n"
def errorLine : Bytes := ascii "ERROR\r\n"

/-- The first socket is lost. -/
def mcrUpdateInstances : Client Int := do
  match ← clientCall ClientAnswer.socket .socket with
  | .error _ => return -1
  | .ok _ => mcrCommand (ascii "show instances\r\n") <| readReply fun line =>
    if line = endLine ∨ line = errorLine then some 0 else none

def topKeysCmd (op dotquad : Bytes) (port mcrtime nkeys : Nat) : Bytes :=
  ascii "top-keys " ++ op ++ ascii " " ++ dotquad ++ ascii " " ++ printDecimal port ++
    ascii " " ++ printDecimal mcrtime ++ ascii " " ++ printDecimal nkeys ++ ascii "\r\n"

/-- The first directive of the row format, `%*s`, assigns nothing, and the second
never mismatches: `sscanf` does not return 0. -/
def mcrUpdateTopKeys (op dotquad : Bytes) (port mcrtime nkeys : Nat) : Client Int :=
  mcrCommand (topKeysCmd op dotquad port mcrtime nkeys) <| readReply fun line =>
    if line = endLine then some 0 else if line = errorLine then some (-1) else none

def topClientsCmd (key dotquad : Bytes) (port mcrtime nclnts : Nat) : Bytes :=
  ascii "top-clnts " ++ key ++ ascii " " ++ dotquad ++ ascii " " ++ printDecimal port ++
    ascii " " ++ printDecimal mcrtime ++
    (if key = ascii "ops" then ascii " " ++ printDecimal nclnts else []) ++ ascii "\r\n"

/-- `%250[^ :]` mismatches on a colon. -/
def topClientMismatch (line : Bytes) : Bool :=
  (((line.dropWhile isSpace).dropWhile (!isSpace ·)).dropWhile isSpace).head? = some 58

def mcrUpdateTopClients (dotquad : Bytes) (port : Nat) (key : Bytes) (mcrtime nclnts : Nat) :
    Client Int :=
  mcrCommand (topClientsCmd key dotquad port mcrtime nclnts) <| readReply fun line =>
    if line = endLine then some 0
    else if line = errorLine then some (-1)
    else if (ascii "STAT version").isPrefixOf line ∨ (ascii "STAT client").isPrefixOf line then none
    else if topClientMismatch line then some (-1)
    else none

def instanceCmd (op addr : Bytes) (port : Nat) : Bytes :=
  if op = ascii "del-all" then ascii "dell-all\n"
  else op ++ ascii " " ++ addr ++ ascii " " ++ printDecimal port ++ ascii "\r\n"

def mcrInstanceOp (op addr : Bytes) (port : Nat) : Client Int :=
  mcrCommand (instanceCmd op addr port) do
    match ← fgetsLine with
    | none => return -1
    | some (line, _) => return if cString line = endLine then 0 else -1

/-- The static record is cleared first, so that the lookup is always made. -/
def mcrGetAddr : Client Int := do
  match ← clientCall ClientAnswer.host2addr .host2addr with
  | some _ => return 0
  | none => return 2

/-- Looks up the reporter for `op`. -/
def withReporter (op : Client Int) : Client Int := do
  let err ← mcrGetAddr
  if err ≠ 0 then
    print (.text (ascii "<b>Error: did not find reporter host %s</b>"))
    return err
  else op

/-- The page of an operation that succeeds. -/
def reportPage (op : Client Int) : Client Int := do
  let err ← op
  if err ≠ 0 then return err
  else
    print .report
    return 0

def mcrOp (op addr : Bytes) (port : Nat) : Client Int := withReporter (mcrInstanceOp op addr port)

def writeHtmlMcrTopClients (dotquad : Bytes) (port : Nat) (key : Bytes) (mcrtime nclnts : Nat) :
    Client Int :=
  withReporter (reportPage (mcrUpdateTopClients dotquad port key mcrtime nclnts))

def writeHtmlMcrTopKeys (dotquad : Bytes) (port : Nat) (op : Bytes) (mcrtime nkeys : Nat) :
    Client Int :=
  withReporter (reportPage (mcrUpdateTopKeys (if op = ascii "select" then ascii "all" else op)
    dotquad port mcrtime nkeys))

def writeHtmlMcrConfig : Client Int := withReporter (reportPage mcrUpdateInstances)

end StatsProxy

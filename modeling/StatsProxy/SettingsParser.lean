import StatsProxy.Backend
import StatsProxy.Yylex

/-! The settings and the parser that fills them. `yyparse` is the automaton of
the grammar over the tokens of `yylex`: an action runs when its rule is reduced,
default reductions do not look ahead, and a code of 0 or less is the end of the
input. Error texts are left out. -/
namespace StatsProxy
open CString

structure GlobalSettings where
  pollfreqMs : Int
  refreshfreqMs : Int
  connectMs : Int
  readMs : Int
  writeMs : Int
  uris : List Bytes
deriving DecidableEq

structure Settings where
  globalSettings : GlobalSettings
  localSettings : LocalSettings
  proxies : List Backend
deriving DecidableEq

/-- The record that `main` clears. -/
def Settings.initial : Settings :=
  ⟨⟨0, 0, 0, 0, 0, []⟩, ⟨none, 0, 0, none, 0, 0, 0, 0, 0, 0, 0, none⟩, []⟩

def defaultTimeoutMs : Int := 10000
def defaultPollFreqMs : Int := 5000
def defaultWebpageRefreshFreqMs : Int := 15000

/-- The conversion of a `size_t` to an `int`. -/
def toInt32 (x : Nat) : Int := (x : Int).bmod (2 ^ 32)

def toUInt16 (x : Nat) : Nat := x % 2 ^ 16

def localOrGlobal (localValue globalValue : Int) : Int :=
  if localValue ≠ 0 then localValue else globalValue

/-- `lookup` stands for `inet_addr` and `gethostbyname`. -/
def host2addr (lookup : Bytes → Option Nat) (host : Option Bytes) : Option Nat :=
  host.bind lookup

def backendNew (lookup : Bytes → Option Nat) (globalSettings : GlobalSettings)
    (localSettings : LocalSettings) : Option Backend := do
  let backaddr ← host2addr lookup localSettings.backhost
  let frontaddr ← host2addr lookup localSettings.fronthost
  return {
    settings := {
      fronthost := localSettings.fronthost
      frontaddr := frontaddr
      frontport := localSettings.frontport
      backhost := localSettings.backhost
      backaddr := backaddr
      backport := localSettings.backport
      pollfreqMs := localOrGlobal localSettings.pollfreqMs globalSettings.pollfreqMs
      refreshfreqMs := localOrGlobal localSettings.refreshfreqMs globalSettings.refreshfreqMs
      connectMs := localOrGlobal localSettings.connectMs globalSettings.connectMs
      readMs := localOrGlobal localSettings.readMs globalSettings.readMs
      writeMs := localOrGlobal localSettings.writeMs globalSettings.writeMs
      reporter := some (localSettings.reporter.getD (ascii "off")) }
    fd := -1
    state := .halted
    lastError := 0
    uris := [] }

def addGlobalUri (s : Settings) (uri : Bytes) : Settings :=
  { s with globalSettings := { s.globalSettings with uris := s.globalSettings.uris ++ [uri] } }

/-- `none` where the source exits. There are no local uris. -/
def addProxy (lookup : Bytes → Option Nat) (s : Settings) : Option Settings := do
  let bep ← backendNew lookup s.globalSettings s.localSettings
  let uris := s.globalSettings.uris.map fun uri => ⟨uri, 0, []⟩
  return { s with proxies := s.proxies ++ [{ bep with uris }] }

/-- A statement of a proxy mapping, with its `STRING` or `INTEGER`. -/
inductive Assignment where
  | frontEnd (value : Bytes)
  | backEnd (value : Bytes)
  | timeout (value : Nat)
  | pollInterval (value : Nat)
  | webpageRefreshInterval (value : Nat)
  | memcacheReporter (value : Bytes)
deriving DecidableEq

/-- Seconds in a `size_t`, times 1000, stored in an `int`. -/
def milliseconds (value : Nat) : Int := toInt32 (value * 1000 % 2 ^ 64)

/-- The host and the port of a `STRING`; `none` without a colon. -/
def hostPort (value : Bytes) : Option (Bytes × Nat) :=
  (strchr (cString value) 58).map fun p => (p.1, toUInt16 (strtoul p.2))

def reporterValues : List Bytes := [ascii "off", ascii "view", ascii "modify"]

def LocalSettings.setTimeout (l : LocalSettings) (ms : Int) : LocalSettings :=
  { l with connectMs := ms, readMs := ms, writeMs := ms }

def LocalSettings.setPollInterval (l : LocalSettings) (ms : Int) : LocalSettings :=
  { l with pollfreqMs := ms }

def LocalSettings.setRefreshInterval (l : LocalSettings) (ms : Int) : LocalSettings :=
  { l with refreshfreqMs := ms }

namespace Assignment

/-- The stores of the action, also where it aborts after them. -/
def apply (l : LocalSettings) : Assignment → LocalSettings
  | .frontEnd value => match hostPort value with
    | some (fronthost, frontport) => { l with fronthost := some fronthost, frontport }
    | none => l
  | .backEnd value => match hostPort value with
    | some (backhost, backport) => { l with backhost := some backhost, backport }
    | none => l
  | .timeout value => l.setTimeout (milliseconds value)
  | .pollInterval value => l.setPollInterval (milliseconds value)
  | .webpageRefreshInterval value => l.setRefreshInterval (milliseconds value)
  | .memcacheReporter value => { l with reporter := some (cString value) }

/-- Where this fails the action runs `YYABORT`. -/
def accepted : Assignment → Bool
  | .frontEnd value | .backEnd value => (hostPort value).isSome
  | .timeout value | .pollInterval value | .webpageRefreshInterval value =>
    0 < milliseconds value
  | .memcacheReporter value => cString value ∈ reporterValues

def keyword : Assignment → Keyword
  | .frontEnd _ => .frontEnd
  | .backEnd _ => .backEnd
  | .timeout _ => .timeout
  | .pollInterval _ => .pollInterval
  | .webpageRefreshInterval _ => .webpageRefreshInterval
  | .memcacheReporter _ => .memcacheReporter

def value : Assignment → Token
  | .frontEnd value | .backEnd value | .memcacheReporter value => .string value
  | .timeout value | .pollInterval value | .webpageRefreshInterval value => .integer value

end Assignment

def Keyword.assigns : Keyword → Bool
  | .frontEnd | .backEnd | .timeout | .pollInterval | .webpageRefreshInterval
  | .memcacheReporter => true
  | _ => false

/-- The keyword of a statement of a proxy mapping. -/
def Token.assigns : Token → Option Keyword
  | .keyword k => if k.assigns then some k else none
  | _ => none

def assignment : Keyword → Token → Option Assignment
  | .frontEnd, .string value => some (.frontEnd value)
  | .backEnd, .string value => some (.backEnd value)
  | .timeout, .integer value => some (.timeout value)
  | .pollInterval, .integer value => some (.pollInterval value)
  | .webpageRefreshInterval, .integer value => some (.webpageRefreshInterval value)
  | .memcacheReporter, .string value => some (.memcacheReporter value)
  | _, _ => none

/-- The first action of a proxy mapping. -/
def startBlock (s : Settings) : Settings :=
  { s with localSettings := { s.localSettings with
      connectMs := defaultTimeoutMs
      readMs := defaultTimeoutMs
      writeMs := defaultTimeoutMs
      pollfreqMs := defaultPollFreqMs
      refreshfreqMs := defaultWebpageRefreshFreqMs } }

inductive Outcome where
  | returned (rc : Nat) (settings : Settings)
  | exited (settings : Settings)
deriving DecidableEq

def Outcome.settings : Outcome → Settings
  | .returned _ s | .exited s => s

/-- The last action of a proxy mapping: `YYERROR`, the exit of `addProxy`, or
one backend more. -/
def endOfBlock (lookup : Bytes → Option Nat) (s : Settings) : Outcome ⊕ Settings :=
  if s.localSettings.frontport = 0 ∨ s.localSettings.backport = 0 then .inl (.returned 1 s)
  else match addProxy lookup s with
    | none => .inl (.exited s)
    | some s' => .inr s'

/-- Where the parser stands, by what it has shifted last. -/
inductive Position where
  | config
  | configOpen
  | statements
  | uri
  | uriEnd (value : Bytes)
  | mapping
  | block
  | equals (k : Keyword)
  | value (k : Keyword)
  | semicolon (a : Assignment)
  | closed
deriving DecidableEq

/-- One token. On a token that the grammar does not allow `yyerror` exits; in a
block any such token has already been taken as the end of the statements. -/
def parseToken (lookup : Bytes → Option Nat) (s : Settings) (t : Token) :
    Position → Outcome ⊕ Position × Settings
  | .config =>
    if t = .keyword .memcacheStatsProxySettings then .inr (.configOpen, s) else .inl (.exited s)
  | .configOpen => if t = .punct 123 then .inr (.statements, s) else .inl (.exited s)
  | .statements =>
    if t = .keyword .uri then .inr (.uri, s)
    else if t = .keyword .proxyMapping then .inr (.mapping, s)
    else if t = .punct 125 then .inr (.closed, s)
    else .inl (.exited s)
  | .uri => match t with
    | .string value => .inr (.uriEnd value, s)
    | _ => .inl (.exited s)
  | .uriEnd value =>
    if t = .punct 59 then .inr (.statements, addGlobalUri s (cString value)) else .inl (.exited s)
  | .mapping => if t = .punct 123 then .inr (.block, startBlock s) else .inl (.exited s)
  | .block => match t.assigns with
    | some k => .inr (.equals k, s)
    | none => match endOfBlock lookup s with
      | .inl o => .inl o
      | .inr s' => if t = .punct 125 then .inr (.statements, s') else .inl (.exited s')
  | .equals k => if t = .punct 61 then .inr (.value k, s) else .inl (.exited s)
  | .value k => match assignment k t with
    | some a => .inr (.semicolon a, s)
    | none => .inl (.exited s)
  | .semicolon a =>
    let s' := { s with localSettings := a.apply s.localSettings }
    if t = .punct 59 then
      if a.accepted then .inr (.block, s') else .inl (.returned 1 s')
    else .inl (.exited s)
  | .closed => .inl (.exited s)

/-- The end of the input, unless `yylex` itself exits. -/
def parseFinal (lookup : Bytes → Option Nat) (s : Settings) (p : Position) : Final → Outcome
  | .exited => .exited s
  | _ => match p with
    | .closed => .returned 0 s
    | .block => match endOfBlock lookup s with
      | .inl o => o
      | .inr s' => .exited s'
    | _ => .exited s

def parse (lookup : Bytes → Option Nat) (s : Settings) (p : Position) (final : Final) :
    List Token → Outcome
  | [] => parseFinal lookup s p final
  | t :: rest => match parseToken lookup s t p with
    | .inl o => o
    | .inr (p', s') => parse lookup s' p' final rest

def yyparse (lookup : Bytes → Option Nat) (input : List Token × Final) : Outcome :=
  parse lookup .initial .config input.2 input.1

inductive Server where
  | backend (bep : Backend)
  | frontend (bep : Backend)
deriving DecidableEq

def startProxies (s : Settings) : List Server :=
  s.proxies.flatMap fun bep => [.backend bep, .frontend bep]

/-- The servers that `main` starts. A return value of 1 only prints a message. -/
def main (lookup : Bytes → Option Nat) (file : Bytes) : List Server :=
  match yyparse lookup (lexFile file) with
  | .returned _ s => startProxies s
  | .exited _ => []

def sampleLookup : Bytes → Option Nat := fun _ => some 2130706433

/-- A valid block, and then one with an interval of 0. -/
def rejectedFile : Bytes := ascii
  "memcache-stats-proxy-settings \x7b
     proxy-mapping \x7b front-end = \"a:8080\"; back-end = \"b:11211\"; \x7d
     proxy-mapping \x7b poll-interval = 0; \x7d
   \x7d"

end StatsProxy

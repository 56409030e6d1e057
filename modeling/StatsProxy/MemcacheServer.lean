import StatsProxy.RunBackend

/-! The memcached server behind a poller's descriptor. A log of the poller tells
which commands the server has received whole and which bytes of its replies are
still to be read; each of these bytes carries the number of the command that it
answers. -/
namespace StatsProxy
open CString

def storageCommands : List Bytes :=
  [ascii "set", ascii "add", ascii "replace", ascii "append", ascii "prepend", ascii "cas"]

/-- The length of what follows the line of a command: the data of a storage
command, with its line end. -/
def dataLength (line : Bytes) : Nat :=
  match strtok (ascii " \r") line with
  | name :: _ :: _ :: _ :: bytes :: _ =>
    if name ∈ storageCommands then decimalValue (bytes.takeWhile isDigit) + 2 else 0
  | _ => 0

/-- The bytes received since the last command are a whole command. -/
def commandComplete (text : Bytes) : Bool :=
  match strchr text 10 with
  | none => false
  | some (line, data) => data.length = dataLength line

/-- The connection as the server and the current call see it. -/
structure Wire where
  /-- The server has closed the connection. -/
  gone : Bool
  /-- What the server has of a command that is not complete. -/
  received : Bytes
  /-- The complete commands, on all connections. -/
  commands : List Bytes
  /-- The reply bytes to be read, with the number of their command. -/
  pending : List (Nat × UInt8)
  /-- The command that the last call of `spMemcacheWrite` sends. -/
  command : Bytes
  /-- The number of commands that were complete when that call began. -/
  started : Nat
  /-- A write of that call has failed with `EWOULDBLOCK`. -/
  blocked : Bool
  /-- The buffer of `spMemcacheRead`, and the stats found in buffers before it. -/
  buffer : Bytes
  valid : Nat
  /-- What has been read since that call began. -/
  taken : List (Nat × UInt8)
deriving DecidableEq

namespace Wire

def start : Wire := ⟨false, [], [], [], [], 0, false, [], 0, []⟩

/-- One byte arrives at the server; `reply` has the reply to each command. -/
def feed (reply : Nat → Bytes) (w : Wire) (ch : UInt8) : Wire :=
  if w.gone then w
  else if commandComplete (w.received ++ [ch]) then
    { w with
      received := []
      commands := w.commands ++ [w.received ++ [ch]]
      pending := w.pending ++ (reply w.commands.length).map (w.commands.length, ·) }
  else { w with received := w.received ++ [ch] }

/-- A connection that has just been opened, or is closed. -/
def reset (w : Wire) : Wire := { w with gone := false, received := [], pending := [] }

def call (w : Wire) (cmd : Bytes) : Wire :=
  { w with command := cmd, started := w.commands.length, blocked := false, buffer := [], valid := 0,
           taken := [] }

def block (w : Wire) : Wire := { w with blocked := true }

def close (w : Wire) : Wire := { w with gone := true, pending := [] }

/-- Data is read into a buffer with room for `len` bytes. -/
def deliver (w : Wire) (len : Nat) (data : Bytes) : Wire :=
  { w with
    pending := w.pending.drop data.length
    taken := w.taken ++ w.pending.take data.length
    buffer := if data.length = len then [] else w.buffer ++ data
    valid := if data.length = len then
        w.valid + (spMemcacheStatsAddStats (w.buffer ++ data)).length
      else w.valid }

def after (reply : Nat → Bytes) (w : Wire) : Event → Wire
  | .socket (.ok _) | .close _ => w.reset
  | .command cmd => w.call cmd
  | .write offered (.ok n) => (offered.take n).foldl (feed reply) w
  | .write _ (.error e) => if e = EAGAIN then w.block else w
  | .read len (.ok data) => if data = [] then w.close else w.deliver len data
  | _ => w

/-- Only pending reply bytes are delivered, in order. -/
def answers (w : Wire) : Event → Bool
  | .read _ (.ok data) =>
    data = [] || (!w.gone && data.isPrefixOf (w.pending.map Prod.snd))
  | _ => true

/-- `spMemcacheRead` or `spMemcacheReadReplies` stops reading after this data,
and leaves the connection open. -/
def stops (w : Wire) (len : Nat) (data : Bytes) : Bool :=
  let buffer := w.buffer ++ data
  !strstr (cString buffer) statCmdError &&
    (strstr (cString buffer) endMarker ||
      (data.length = len && (w.command = livenessCmd ||
        w.valid + (spMemcacheStatsAddStats buffer).length = 0)))

/-- A command is one line or the health check, is not completed after an
`EWOULDBLOCK`, no read leaves the array without a NUL, and no reply byte is left when the
reading stops. -/
def inStep (w : Wire) : Event → Bool
  | .command cmd => cmd = livenessCmd || 10 ∉ cmd.dropLast
  | .write offered (.ok n) => !w.blocked || n < offered.length
  | .read len (.ok data) => data = [] ||
    (Terminated (w.buffer ++ data) && (!w.stops len data || data.length = w.pending.length))
  | _ => true

/-- Between two calls nothing is to be read or to be completed. -/
def Idle (w : Wire) : Prop := w.pending = [] ∧ (w.gone = true ∨ w.received = [])

/-- What has been taken and what is pending answer the command of this call. -/
def Tagged (w : Wire) : Prop :=
  ∀ p ∈ w.taken ++ w.pending, p.1 = w.started ∧ w.commands[w.started]? = some w.command

/-- While a reply is read: the command is complete, or there is no reply. -/
def Reading (w : Wire) : Prop :=
  (w.gone = true → w.pending = []) ∧
    (w.gone = true ∨ w.received = [] ∨ (w.taken = [] ∧ w.pending = []))

end Wire

/-- The wire after a log. -/
def wire (reply : Nat → Bytes) (log : List Event) : Wire :=
  log.foldl (Wire.after reply) Wire.start

theorem wire_snoc (reply : Nat → Bytes) (log : List Event) (e : Event) :
    wire reply (log ++ [e]) = (wire reply log).after reply e := by
  rw [wire, List.foldl_append]
  rfl

/-- No proper part of the command is a command. -/
def Framed (cmd : Bytes) : Prop :=
  ∀ front back, cmd = front ++ back → back ≠ [] → commandComplete front = false

theorem strchr_eq_none {text : Bytes} {ch : UInt8} (h : ch ∉ text) : strchr text ch = none := by
  induction text with
  | nil => rfl
  | cons c text ih =>
    rw [List.mem_cons, not_or] at h
    rw [strchr, if_neg (Ne.symm h.1), ih h.2]
    rfl

theorem framed_line {cmd : Bytes} (h : 10 ∉ cmd.dropLast) : Framed cmd := by
  intro front back hsplit hback
  obtain ⟨back, last, rfl⟩ := (List.eq_nil_or_concat' back).resolve_left hback
  rw [hsplit, ← List.append_assoc, List.dropLast_concat, List.mem_append, not_or] at h
  unfold commandComplete
  rw [strchr_eq_none h.1]

theorem framed_livenessCmd : Framed livenessCmd := by
  intro front back hsplit hback
  have hfront : front = livenessCmd.take front.length := by
    rw [hsplit, List.take_left']
    rfl
  have hlen : front.length < livenessCmd.length := by
    rw [hsplit, List.length_append]
    have := List.length_pos_iff.mpr hback
    omega
  have hall : ∀ n < livenessCmd.length, commandComplete (livenessCmd.take n) = false := by
    decide +kernel
  rw [hfront]
  exact hall _ hlen

namespace Wire

variable {reply : Nat → Bytes} {w : Wire}

theorem feed_gone (h : w.gone = true) (chunk : Bytes) : chunk.foldl (feed reply) w = w := by
  induction chunk with
  | nil => rfl
  | cons ch chunk ih =>
    rw [List.foldl_cons, feed, if_pos h]
    exact ih

/-- A part of a command. -/
theorem feed_part (h : w.gone = false) {chunk : Bytes}
    (hpart : ∀ front, front <+: chunk → commandComplete (w.received ++ front) = false) :
    chunk.foldl (feed reply) w = { w with received := w.received ++ chunk } := by
  induction chunk using List.reverseRecOn with
  | nil => simp
  | append_singleton chunk ch ih =>
    have hfront : ∀ front, front <+: chunk → commandComplete (w.received ++ front) = false :=
      fun front h => hpart front (h.trans (List.prefix_append _ _))
    rw [List.foldl_append, ih hfront]
    have hlast := hpart (chunk ++ [ch]) (List.prefix_refl _)
    simp [feed, h, hlast]

/-- The rest of a command, and the reply to it if the command is complete. -/
theorem feed_rest {cmd rest : Bytes} (hcmd : Framed cmd) (hrest : w.received ++ rest = cmd)
    (hne : rest ≠ []) (h : w.gone = false) :
    rest.foldl (feed reply) w =
      if commandComplete cmd then
        { w with
          received := []
          commands := w.commands ++ [cmd]
          pending := w.pending ++ (reply w.commands.length).map (w.commands.length, ·) }
      else { w with received := cmd } := by
  obtain ⟨chunk, ch, rfl⟩ := (List.eq_nil_or_concat' rest).resolve_left hne
  have hpart : ∀ front, front <+: chunk → commandComplete (w.received ++ front) = false := by
    rintro front ⟨back, rfl⟩
    apply hcmd (w.received ++ front) (back ++ [ch]) _ (by simp)
    rw [← hrest]
    simp
  rw [List.foldl_append, feed_part h hpart, ← hrest]
  simp only [List.foldl_cons, List.foldl_nil, feed, h, Bool.false_eq_true, if_false,
    List.append_assoc]

end Wire
end StatsProxy

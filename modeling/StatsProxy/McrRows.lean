import StatsProxy.Library.Scanf
import StatsProxy.ClientOutput
import StatsProxy.SharedStatics

/-! The rows of a top-keys or top-clients reply. The variables a line is scanned into
live as long as the reading, and a line is turned down only when `sscanf` returns 0. -/
namespace StatsProxy
open CString Interaction Program Scanf

def toInt16 (x : Int) : Int := x.bmod (2 ^ 16)

structure TkEntry where
  key : Bytes
  keylen : Int
  gets : Nat
  sets : Nat
  all : Nat
  bytes : Nat
  bytesRead : Nat
  bytesWritten : Nat
deriving DecidableEq

structure TcEntry where
  host : Bytes
  dotquad : Bytes
  addr : Nat
  port : Nat
  count : Nat
deriving DecidableEq

/-- The variables of `mcr_updateTopKeys` that a line is scanned into. -/
structure TopKeysLocals where
  key : Bytes
  keylen : Int
  mgets : Nat
  sets : Nat
  all : Nat
  bytes : Nat
  bytesRead : Nat
  bytesWritten : Nat

structure TopClientsLocals where
  tcip : Bytes
  tcport : Nat
  count : Nat

/-- How the lines of a reply are read into variables `σ` and made into entries. -/
structure RowFormat (σ ε : Type) where
  /-- What the declarations initialise. -/
  initial : σ → Prop
  header : Bytes
  format : List Directive
  args : List (Value → σ → σ)
  /-- The `memset` before each line. -/
  clear : σ → σ
  entry : σ → ε

structure Rows (σ ε : Type) where
  entries : List ε
  versionStr : Option Bytes
  locals : σ

section

variable {σ ε : Type} (f : RowFormat σ ε)

def RowFormat.sscanf (line : Bytes) (locals : σ) : Int × σ :=
  Scanf.sscanf line f.format f.args (f.clear locals)

/-- One turn of the loop, and the result of the call if it is the last one. -/
def RowFormat.row (s : Rows σ ε) (line : Bytes) : Rows σ ε × Option Int :=
  if line = endLine then (s, some 0)
  else if line = errorLine then (s, some (-1))
  else if (ascii "STAT version").isPrefixOf line then ({ s with versionStr := some line }, none)
  else if f.header.isPrefixOf line then (s, none)
  else
    let scanned := f.sscanf line s.locals
    if scanned.1 = 0 then ({ s with locals := scanned.2 }, some (-1))
    else ({ s with entries := s.entries ++ [f.entry scanned.2], locals := scanned.2 }, none)

def RowFormat.readRows : List Bytes → Rows σ ε → Int × Rows σ ε
  | [], s => (0, s)
  | line :: lines, s => match f.row s line with
    | (s, some err) => (err, s)
    | (s, none) => readRows lines s

end

/-- `"%*s %250s %d %*s %lu %lu %lu %lumb(%lumb/%lumb)"` -/
def topKeysFormat : List Directive :=
  [.string none false, .space, .string (some 250) true, .space, .integer .int, .space,
    .string none false, .space, .integer .ulong, .space, .integer .ulong, .space,
    .integer .ulong, .space, .integer .ulong, .literal 109, .literal 98, .literal 40,
    .integer .ulong, .literal 109, .literal 98, .literal 47, .integer .ulong, .literal 109,
    .literal 98, .literal 41]

def topKeysArgs : List (Value → TopKeysLocals → TopKeysLocals) :=
  [fun v l => { l with key := v.word }, fun v l => { l with keylen := v.int },
    fun v l => { l with mgets := v.int.toNat }, fun v l => { l with sets := v.int.toNat },
    fun v l => { l with all := v.int.toNat }, fun v l => { l with bytes := v.int.toNat },
    fun v l => { l with bytesRead := v.int.toNat },
    fun v l => { l with bytesWritten := v.int.toNat }]

def topKeysRows : RowFormat TopKeysLocals TkEntry where
  initial l := l.bytesWritten = 0
  header := ascii "STAT key key-length"
  format := topKeysFormat
  args := topKeysArgs
  clear l := { l with key := [] }
  entry l := ⟨l.key, toInt16 l.keylen, l.mgets, l.sets, l.all, l.bytes, l.bytesRead,
    l.bytesWritten⟩

/-- `"%*s %250[^ :]:%hu %lu"` -/
def topClientsFormat : List Directive :=
  [.string none false, .space, .notIn [32, 58] 250, .literal 58, .integer .ushort, .space,
    .integer .ulong]

def topClientsArgs : List (Value → TopClientsLocals → TopClientsLocals) :=
  [fun v l => { l with tcip := v.word }, fun v l => { l with tcport := v.int.toNat },
    fun v l => { l with count := v.int.toNat }]

def topClientsRows (ns : NameService) : RowFormat TopClientsLocals TcEntry where
  initial l := l.count = 0
  header := ascii "STAT client"
  format := topClientsFormat
  args := topClientsArgs
  clear l := { l with tcip := [] }
  entry l :=
    let addr := (ns.inetAddr l.tcip).getD INADDR_NONE
    ⟨ns.label addr, ns.inetNtoa addr, addr, l.tcport, l.count⟩

section

variable {σ ε : Type} (f : RowFormat σ ε)

def isStop (line : Bytes) : Bool := line = endLine || line = errorLine

def RowFormat.skips (line : Bytes) : Bool :=
  (ascii "STAT version").isPrefixOf line || f.header.isPrefixOf line

/-- A line that is scanned. -/
def RowFormat.isData (line : Bytes) : Bool := !isStop line && !f.skips line

/-- The data lines of a reply, in order. -/
def RowFormat.dataLines : List Bytes → List Bytes
  | [] => []
  | line :: lines =>
    if isStop line then []
    else if f.skips line then dataLines lines
    else line :: dataLines lines

/-- The line supplies all fields. -/
def RowFormat.Complete (line : Bytes) : Prop :=
  (scan f.format (cString line)).1.length = f.args.length

/-- The entries of a reply that is read with these variables. -/
def RowFormat.entries (reply : List Bytes) (locals : σ) : List ε :=
  (f.readRows reply ⟨[], none, locals⟩).2.entries

/-- Two runs that build an entry from this line as their `k`-th build the same. -/
def RowFormat.Separate (line : Bytes) : Prop :=
  ∀ reply reply' locals locals' (k : Nat) e e', f.initial locals → f.initial locals' →
    (f.dataLines reply)[k]? = some line → (f.dataLines reply')[k]? = some line →
    (f.entries reply locals)[k]? = some e → (f.entries reply' locals')[k]? = some e' → e = e'

/-- Where the line does not supply all fields no entry is built from it. -/
def RowFormat.Rejects (line : Bytes) : Prop :=
  ¬f.Complete line → ∀ reply locals (k : Nat), f.initial locals →
    (f.dataLines reply)[k]? = some line → (f.entries reply locals)[k]? = none

/-- After a line an entry has been made of. -/
def RowFormat.added (s : Rows σ ε) (line : Bytes) : Rows σ ε :=
  { s with
    entries := s.entries ++ [f.entry (f.sscanf line s.locals).2]
    locals := (f.sscanf line s.locals).2 }

/-- What one turn of the loop can do. -/
inductive RowFormat.Turn (s : Rows σ ε) (line : Bytes) : Rows σ ε × Option Int → Prop
  | stop (err : Int) (hstop : isStop line = true) : Turn s line (s, some err)
  | skip (hstop : isStop line = false) (hskip : f.skips line = true) (versionStr : Option Bytes) :
      Turn s line ({ s with versionStr }, none)
  | mismatch (hstop : isStop line = false) (hskip : f.skips line = false)
      (hzero : (f.sscanf line s.locals).1 = 0) :
      Turn s line ({ s with locals := (f.sscanf line s.locals).2 }, some (-1))
  | data (hstop : isStop line = false) (hskip : f.skips line = false)
      (hzero : (f.sscanf line s.locals).1 ≠ 0) :
      Turn s line (f.added s line, none)

theorem RowFormat.row_turn (s : Rows σ ε) (line : Bytes) : f.Turn s line (f.row s line) := by
  unfold RowFormat.row
  split
  · rename_i hend
    exact .stop 0 (by simp [isStop, hend])
  · rename_i hend
    split
    · rename_i herror
      exact .stop (-1) (by simp [isStop, herror])
    · rename_i herror
      have hstop : isStop line = false := by simp [isStop, hend, herror]
      split
      · rename_i hversion
        exact .skip hstop (by simp [RowFormat.skips, hversion]) _
      · rename_i hversion
        split
        · rename_i hheader
          exact .skip hstop (by simp [RowFormat.skips, hheader]) s.versionStr
        · rename_i hheader
          have hskip : f.skips line = false := by simp [RowFormat.skips, hversion, hheader]
          dsimp only
          split
          · rename_i hzero
            exact .mismatch hstop hskip hzero
          · rename_i hzero
            exact .data hstop hskip hzero

/-- Where the reading stops, and with which result, does not depend on the variables. -/
theorem RowFormat.row_stop (s : Rows σ ε) (line : Bytes) :
    (f.row s line).2 =
      if line = endLine then some 0
      else if line = errorLine then some (-1)
      else if f.skips line then none
      else if result line f.format = 0 then some (-1)
      else none := by
  unfold RowFormat.row RowFormat.skips
  split
  · rfl
  · split
    · rfl
    · split
      · rename_i hversion
        rw [hversion, Bool.true_or, if_pos rfl]
      · rename_i hversion
        rw [Bool.not_eq_true] at hversion
        rw [hversion, Bool.false_or]
        split
        · rfl
        · show (if result line f.format = 0 then _ else _ : Rows σ ε × Option Int).2 = _
          split <;> rfl

/-- A turn only appends. -/
theorem RowFormat.readRows_entries (reply : List Bytes) (s : Rows σ ε) :
    s.entries <+: (f.readRows reply s).2.entries := by
  induction reply generalizing s with
  | nil => exact List.prefix_refl _
  | cons line reply ih =>
    rw [RowFormat.readRows]
    have hturn := f.row_turn s line
    generalize f.row s line = r at hturn
    cases hturn with
    | stop err hstop => exact List.prefix_refl _
    | skip hstop hskip versionStr => exact ih { s with versionStr }
    | mismatch hstop hskip hzero => exact List.prefix_refl _
    | data hstop hskip hzero => exact (List.prefix_append _ _).trans (ih (f.added s line))

/-- The entry of a data line is made from the variables as the line leaves them. -/
theorem RowFormat.readRows_getElem? {reply : List Bytes} {s : Rows σ ε} {k : Nat} {line : Bytes}
    {e : ε} (hline : (f.dataLines reply)[k]? = some line)
    (he : (f.readRows reply s).2.entries[s.entries.length + k]? = some e) :
    ∃ locals, (f.sscanf line locals).1 ≠ 0 ∧ e = f.entry (f.sscanf line locals).2 := by
  induction reply generalizing s k with
  | nil => cases hline
  | cons first reply ih =>
    rw [RowFormat.readRows] at he
    rw [RowFormat.dataLines] at hline
    have hturn := f.row_turn s first
    generalize f.row s first = r at hturn he
    cases hturn with
    | stop err hstop =>
      rw [if_pos hstop] at hline
      cases hline
    | skip hstop hskip versionStr =>
      rw [hstop, hskip] at hline
      exact ih hline he
    | mismatch hstop hskip hzero =>
      dsimp only at he
      rw [List.getElem?_eq_none (Nat.le_add_right _ _)] at he
      cases he
    | data hstop hskip hzero =>
      rw [hstop, hskip] at hline
      dsimp only at he
      cases k with
      | zero =>
        cases hline
        refine ⟨s.locals, hzero, ?_⟩
        obtain ⟨later, hlater⟩ := f.readRows_entries reply (f.added s line)
        rw [← hlater] at he
        simpa [RowFormat.added] using he.symm
      | succ k =>
        have hlength : (f.added s first).entries.length + k = s.entries.length + (k + 1) := by
          rw [RowFormat.added, List.length_append, List.length_singleton]
          omega
        apply ih (s := f.added s first) hline
        rw [hlength]
        exact he

theorem RowFormat.entries_getElem? {reply : List Bytes} {locals : σ} {k : Nat} {line : Bytes}
    {e : ε} (hline : (f.dataLines reply)[k]? = some line)
    (he : (f.entries reply locals)[k]? = some e) :
    ∃ l, result line f.format ≠ 0 ∧ e = f.entry (f.sscanf line l).2 := by
  apply f.readRows_getElem? (s := ⟨[], none, locals⟩) hline
  rw [List.length_nil, Nat.zero_add]
  exact he

theorem RowFormat.mem_dataLines {reply : List Bytes} {line : Bytes}
    (h : line ∈ f.dataLines reply) : f.isData line = true := by
  induction reply with
  | nil => cases h
  | cons first reply ih =>
    rw [RowFormat.dataLines] at h
    split at h
    · cases h
    · rename_i hstop
      split at h
      · exact ih h
      · rename_i hskip
        rcases List.mem_cons.mp h with rfl | h
        · simp [RowFormat.isData, hstop, hskip]
        · exact ih h

/-- What a line that is scanned does. -/
theorem RowFormat.row_data {line : Bytes} (hdata : f.isData line = true)
    (hresult : result line f.format ≠ 0) (s : Rows σ ε) :
    f.row s line = (f.added s line, none) := by
  simp only [RowFormat.isData, Bool.and_eq_true, Bool.not_eq_true'] at hdata
  have hturn := f.row_turn s line
  generalize f.row s line = r at hturn
  cases hturn with
  | stop err hstop =>
    rw [hdata.1] at hstop
    contradiction
  | skip hstop hskip versionStr =>
    rw [hdata.2] at hskip
    contradiction
  | mismatch hstop hskip hzero => exact absurd hzero hresult
  | data hstop hskip hzero => rfl

theorem RowFormat.dataLines_cons {line : Bytes} (hdata : f.isData line = true)
    (reply : List Bytes) : f.dataLines (line :: reply) = line :: f.dataLines reply := by
  simp only [RowFormat.isData, Bool.and_eq_true, Bool.not_eq_true'] at hdata
  rw [RowFormat.dataLines, hdata.1, hdata.2]
  rfl

end

/-- The last variable that a line is scanned into, which an entry shows, with two
lines that leave 0 and 1 in it. -/
structure RowFormat.Columns (f : RowFormat σ ε) where
  last : σ → Nat
  shown : ε → Nat
  shown_entry : ∀ l, shown (f.entry l) = last l
  last_clear : ∀ l, last (f.clear l) = last l
  last_set : ∀ set ∈ f.args.dropLast, ∀ value l, last (set value l) = last l
  stored : f.format.countP Directive.stored = f.args.length
  whole : ∀ values, values.length = f.args.length → ∀ l l',
    f.entry (store f.args values (f.clear l)) = f.entry (store f.args values (f.clear l'))
  begins : ∃ l, f.initial l
  sample : Bool → Bytes
  sample_data : ∀ b, f.isData (sample b) = true
  sample_result : ∀ b, result (sample b) f.format ≠ 0
  sample_last : ∀ b l, last (f.sscanf (sample b) l).2 = b.toNat

section

variable {f : RowFormat σ ε} (c : f.Columns) {line : Bytes}

include c

/-- A line that is not complete leaves the last variable as it was. -/
theorem RowFormat.Columns.last_sscanf (h : ¬f.Complete line) (l : σ) :
    c.last (f.sscanf line l).2 = c.last l := by
  have hle := scan_length f.format (cString line)
  rw [c.stored] at hle
  have hlt : (scan f.format (cString line)).1.length ≤ f.args.length - 1 := by
    unfold RowFormat.Complete at h
    omega
  calc c.last (f.sscanf line l).2
      = c.last (f.clear l) := by
        apply store_keeps
        intro set hset
        apply c.last_set
        rw [List.dropLast_eq_take]
        exact (List.take_sublist_take_left hlt).subset hset
    _ = c.last l := c.last_clear l

/-- After a sample the entry of a line that is not complete shows the sample's last value. -/
theorem RowFormat.Columns.shown_leaked (hdata : f.isData line = true)
    (hresult : result line f.format ≠ 0) (h : ¬f.Complete line) (b : Bool) (l : σ) :
    ∃ e, (f.entries [c.sample b, line] l)[1]? = some e ∧ c.shown e = b.toNat := by
  refine ⟨f.entry (f.sscanf line (f.sscanf (c.sample b) l).2).2, ?_, ?_⟩
  · rw [RowFormat.entries, RowFormat.readRows, f.row_data (c.sample_data b) (c.sample_result b)]
    dsimp only
    rw [RowFormat.readRows, f.row_data hdata hresult]
    rfl
  · rw [c.shown_entry, c.last_sscanf h, c.sample_last]

/-- Every run builds the same entry from a line exactly if the line is complete, or the
reading fails at it. -/
theorem RowFormat.Columns.separate_iff :
    f.Separate line ↔ (f.isData line = true → f.Complete line ∨ result line f.format = 0) := by
  constructor
  · intro h hdata
    by_contra hnone
    rw [not_or] at hnone
    obtain ⟨l, hl⟩ := c.begins
    obtain ⟨e, he, hshown⟩ := c.shown_leaked hdata hnone.2 hnone.1 false l
    obtain ⟨e', he', hshown'⟩ := c.shown_leaked hdata hnone.2 hnone.1 true l
    have hline : ∀ b, (f.dataLines [c.sample b, line])[1]? = some line := by
      intro b
      rw [f.dataLines_cons (c.sample_data b), f.dataLines_cons hdata]
      rfl
    have hsame := h _ _ l l 1 e e' hl hl (hline false) (hline true) he he'
    rw [hsame, hshown'] at hshown
    contradiction
  · intro h reply reply' locals locals' k e e' _ _ hline hline' he he'
    obtain ⟨l, hne, rfl⟩ := f.entries_getElem? hline he
    obtain ⟨l', -, rfl⟩ := f.entries_getElem? hline' he'
    rcases h (f.mem_dataLines (List.mem_of_getElem? hline)) with hcomplete | hzero
    · exact c.whole _ hcomplete l l'
    · exact absurd hzero hne

theorem RowFormat.Columns.rejects_iff :
    f.Rejects line ↔ (f.isData line = true → f.Complete line ∨ result line f.format = 0) := by
  constructor
  · intro h hdata
    by_contra hnone
    rw [not_or] at hnone
    obtain ⟨l, hl⟩ := c.begins
    have hline : (f.dataLines [line])[0]? = some line := by
      rw [f.dataLines_cons hdata]
      rfl
    have hbuilt := h hnone.1 [line] l 0 hl hline
    rw [RowFormat.entries, RowFormat.readRows, f.row_data hdata hnone.2] at hbuilt
    cases hbuilt
  · intro h hpart reply locals k _ hline
    rw [Option.eq_none_iff_forall_ne_some]
    intro e he
    obtain ⟨l, hne, -⟩ := f.entries_getElem? hline he
    rcases h (f.mem_dataLines (List.mem_of_getElem? hline)) with hcomplete | hzero
    · exact hpart hcomplete
    · exact hne hzero

end

/-- A row whose last number is 0 or 1. -/
def sampleKey (b : Bool) : Bytes :=
  ascii "STAT k 1 x 2 2 2 2mb(2mb/" ++ printDecimal b.toNat ++ ascii "mb)\r\n"

theorem scan_sampleKey (b : Bool) : (scan topKeysFormat (cString (sampleKey b))).1 =
    [.text (ascii "k"), .number 1, .number 2, .number 2, .number 2, .number 2, .number 2,
      .number b.toNat] := by
  cases b <;> decide +kernel

theorem sscanf_sampleKey (b : Bool) (l : TopKeysLocals) :
    (topKeysRows.sscanf (sampleKey b) l).2.bytesWritten = b.toNat := by
  simp only [RowFormat.sscanf, Scanf.sscanf, topKeysRows, scan_sampleKey, topKeysArgs, store,
    Value.int, Int.toNat_natCast]

def topKeysColumns : topKeysRows.Columns where
  last l := l.bytesWritten
  shown e := e.bytesWritten
  shown_entry _ := rfl
  last_clear _ := rfl
  last_set := by simp [topKeysRows, topKeysArgs]
  stored := by decide
  whole := by
    intro values hlen l l'
    match values, hlen with
    | [v1, v2, v3, v4, v5, v6, v7, v8], _ => rfl
  begins := ⟨⟨[], 0, 0, 0, 0, 0, 0, 0⟩, rfl⟩
  sample := sampleKey
  sample_data := by decide +kernel
  sample_result := by decide +kernel
  sample_last := sscanf_sampleKey

def sampleClient (b : Bool) : Bytes :=
  ascii "STAT 10.0.0.1:80 " ++ printDecimal b.toNat ++ ascii "\r\n"

theorem scan_sampleClient (b : Bool) : (scan topClientsFormat (cString (sampleClient b))).1 =
    [.text (ascii "10.0.0.1"), .number 80, .number b.toNat] := by
  cases b <;> decide +kernel

theorem sscanf_sampleClient (ns : NameService) (b : Bool) (l : TopClientsLocals) :
    ((topClientsRows ns).sscanf (sampleClient b) l).2.count = b.toNat := by
  simp only [RowFormat.sscanf, Scanf.sscanf, topClientsRows, scan_sampleClient, topClientsArgs,
    store, Value.int, Int.toNat_natCast]

def topClientsColumns (ns : NameService) : (topClientsRows ns).Columns where
  last l := l.count
  shown e := e.count
  shown_entry _ := rfl
  last_clear _ := rfl
  last_set := by simp [topClientsRows, topClientsArgs]
  stored := by
    show topClientsFormat.countP Directive.stored = topClientsArgs.length
    decide
  whole := by
    intro values hlen l l'
    match values, hlen with
    | [v1, v2, v3], _ => rfl
  begins := ⟨⟨[], 0, 0⟩, rfl⟩
  sample := sampleClient
  sample_data := by
    show ∀ b, (!isStop (sampleClient b) && !((ascii "STAT version").isPrefixOf (sampleClient b) ||
      (ascii "STAT client").isPrefixOf (sampleClient b))) = true
    decide +kernel
  sample_result := by
    show ∀ b, result (sampleClient b) topClientsFormat ≠ 0
    decide +kernel
  sample_last := sscanf_sampleClient ns

/-- A key row is never turned down: its first conversions do not mismatch. -/
theorem result_topKeys (line : Bytes) : result line topKeysRows.format ≠ 0 := by
  rw [ne_eq, result_eq_zero_iff, topKeysRows, topKeysFormat, scan_skipped]
  split
  · exact nofun
  · rw [scan_space]
    intro hscan
    rcases scan_string (some 250) _ _ with hended | hword
    · cases hended.symm.trans hscan
    · exact hword (congrArg Prod.fst hscan)

/-- A client row is turned down exactly if its second word starts with a colon. -/
theorem result_topClients (ns : NameService) (line : Bytes) :
    result line (topClientsRows ns).format = 0 ↔ topClientMismatch (cString line) = true := by
  rw [result_eq_zero_iff, topClientsRows, topClientsFormat, scan_skipped, topClientMismatch]
  split
  · rename_i hempty
    simp [hempty]
  · rw [scan_space, scan_notIn _ (by decide), decide_eq_true_iff]
    constructor
    · rintro ⟨ch, hch, hhead⟩
      have hspace := List.head?_dropWhile_not isSpace
        (((cString line).dropWhile isSpace).dropWhile (!isSpace ·))
      rw [hhead] at hspace
      rcases List.mem_pair.mp hch with rfl | rfl
      · contradiction
      · exact hhead
    · intro hhead
      exact ⟨58, by decide, hhead⟩

/-- The lines of a reply, as the C strings that are compared and scanned. -/
def ClientEvent.lineRead : ClientEvent → Option Bytes
  | .fgets (some line) => some (cString line)
  | _ => none

def linesRead (log : List ClientEvent) : List Bytes := log.filterMap ClientEvent.lineRead

theorem linesRead_fgets (log : List ClientEvent) (line : Bytes) :
    linesRead (log ++ [.fgets (some line)]) = linesRead log ++ [cString line] :=
  List.filterMap_append

/-- Lines that a reading comes to: only the last may stop it, and the first that does
is its result. -/
structure ReadLines (stop : Bytes → Option Int) (err : Int) (lines : List Bytes) : Prop where
  err_eq : err = (lines.findSome? stop).getD 0
  before : ∀ line ∈ lines.dropLast, stop line = none

theorem ReadLines.ended {stop : Bytes → Option Int} {lines : List Bytes}
    (h : ∀ line ∈ lines, stop line = none) : ReadLines stop 0 lines where
  err_eq := by rw [List.findSome?_eq_none_iff.mpr h, Option.getD_none]
  before line hline := h line (List.mem_of_mem_dropLast hline)

theorem ReadLines.stopped {stop : Bytes → Option Int} {lines : List Bytes}
    (h : ∀ line ∈ lines, stop line = none) (line : Bytes) :
    ReadLines stop ((stop line).getD 0) (lines ++ [line]) where
  err_eq := by
    rw [List.findSome?_append, List.findSome?_eq_none_iff.mpr h, List.findSome?_singleton]
    rfl
  before := by
    rw [List.dropLast_concat]
    exact h

/-- A reading of a reply. -/
theorem readReply_done {stop : Bytes → Option Int} {inputs rest : List ClientAnswer} {err : Int}
    {trace : List ClientEvent} (h : (readReply stop).exec () inputs = .done err trace rest) :
    ReadLines stop err (linesRead trace) := by
  have hread : wp (fun _ => True) (readReply stop)
      (fun err y => ReadLines stop err (linesRead y.2)) ((), []) := by
    apply wp_loop (fun _ y => ∀ line ∈ linesRead y.2, stop line = none) (fun _ _ _ => trivial)
    · intro _ y hy
      apply wp_bind
      apply wp_clientCall trivial
      intro r
      cases r with
      | none =>
        apply wp_pure
        show ReadLines stop 0 (linesRead (y.2 ++ [.fgets none]))
        rw [linesRead, List.filterMap_append]
        exact .ended (by simpa [linesRead, ClientEvent.lineRead] using hy)
      | some r =>
        have hlines := linesRead_fgets y.2 r.1
        have hstopped := ReadLines.stopped hy (cString r.1)
        rw [← hlines] at hstopped
        dsimp only [Option.map_some]
        split
        · rename_i err hstop
          apply wp_pure
          rw [hstop] at hstopped
          exact hstopped
        · rename_i hstop
          apply wp_pure
          split
          · show ∀ line ∈ linesRead (y.2 ++ [.fgets (some r.1)]), stop line = none
            rw [hlines, List.forall_mem_append, List.forall_mem_singleton]
            exact ⟨hy, hstop⟩
          · rename_i err heof
            rw [hstop] at hstopped
            split at heof
            · cases heof
              exact hstopped
            · cases heof
    · exact nofun
  have hend := hread inputs
  rw [h] at hend
  rwa [Result.Meets, run_prod, run_log, List.nil_append] at hend

theorem linesRead_nil {log : List ClientEvent} (h : ∀ e ∈ log, e.connects = true) :
    linesRead log = [] := by
  apply List.filterMap_eq_nil_iff.mpr
  intro e he
  have hconnects := h e he
  cases e <;> first | rfl | contradiction

theorem mcrBail_done {c : McrStream} {err err' : Int} {inputs rest : List ClientAnswer}
    {trace : List ClientEvent} (h : (mcrBail c err).exec () inputs = .done err' trace rest) :
    err' = err ∧ ∀ e ∈ trace, e.connects = true := by
  refine ⟨?_, within_done (within_mcrBail c err) h⟩
  unfold mcrBail at h
  obtain ⟨_, _, _, _, -, h, -⟩ := bind_done h
  obtain ⟨_, _, _, _, -, h, -⟩ := bind_done h
  cases h
  rfl

/-- A command that is sent reads its reply. -/
theorem mcrCommand_done {cmd : Bytes} {stop : Bytes → Option Int}
    {inputs rest : List ClientAnswer} {err : Int} {trace : List ClientEvent}
    (h : (mcrCommand cmd (readReply stop)).exec () inputs = .done err trace rest)
    (hsent : .fputs cmd ∈ trace) : ReadLines stop err (linesRead trace) := by
  unfold mcrCommand at h
  obtain ⟨c, opening, given, last, hconnect, hcommand, rfl⟩ := bind_done h
  have hopening := within_done within_mcrConnectRemote hconnect
  split at hcommand
  · have hclosing := (mcrBail_done hcommand).2
    rcases List.mem_append.mp hsent with hsent | hsent
    · exact absurd (hopening _ hsent) nofun
    · exact absurd (hclosing _ hsent) nofun
  · split at hcommand
    · obtain ⟨_, put, given', last', hput, hreply, rfl⟩ := bind_done hcommand
      cases hput
      obtain ⟨err', reads, left, closing, hreads, hbail, rfl⟩ := bind_done hreply
      obtain ⟨rfl, hclosing⟩ := mcrBail_done hbail
      have hlines : linesRead (opening ++ ([.fputs cmd] ++ (reads ++ closing))) =
          linesRead reads := by
        have hopen := linesRead_nil hopening
        have hclose := linesRead_nil hclosing
        unfold linesRead at hopen hclose ⊢
        rw [List.filterMap_append, List.filterMap_append, List.filterMap_append, hclose,
          List.append_nil]
        exact congrArg (· ++ reads.filterMap ClientEvent.lineRead) hopen
      rw [hlines]
      exact readReply_done hreads
    · obtain ⟨_, _, _, _, _, hhalt, -⟩ := bind_done hcommand
      cases hhalt

section

variable {σ ε : Type} {f : RowFormat σ ε} {stop : Bytes → Option Int}

/-- The rows stop where the reading of the reply does. -/
theorem RowFormat.readRows_err (h : ∀ s line, 0 ∉ line → (f.row s line).2 = stop line)
    {lines : List Bytes} (hlines : ∀ line ∈ lines, 0 ∉ line) (s : Rows σ ε) :
    (f.readRows lines s).1 = (lines.findSome? stop).getD 0 := by
  induction lines generalizing s with
  | nil => rfl
  | cons line lines ih =>
    rw [List.forall_mem_cons] at hlines
    rw [RowFormat.readRows, List.findSome?_cons, ← h s line hlines.1]
    cases hrow : f.row s line with
    | mk s' r =>
      cases r with
      | none => exact ih hlines.2 s'
      | some err => rfl

theorem linesRead_noNul {log : List ClientEvent} : ∀ line ∈ linesRead log, 0 ∉ line := by
  intro line hline
  obtain ⟨e, -, he⟩ := List.mem_filterMap.mp hline
  cases e with
  | fgets r =>
    cases r with
    | none => cases he
    | some text =>
      cases he
      exact cString_noNul text
  | _ => cases he

end

/-- A top-keys command returns what its rows return. -/
theorem mcrUpdateTopKeys_rows {op dotquad : Bytes} {port mcrtime nkeys : Nat}
    {inputs rest : List ClientAnswer} {err : Int} {trace : List ClientEvent}
    (h : (mcrUpdateTopKeys op dotquad port mcrtime nkeys).exec () inputs = .done err trace rest)
    (hsent : .fputs (topKeysCmd op dotquad port mcrtime nkeys) ∈ trace)
    (s : Rows TopKeysLocals TkEntry) : (topKeysRows.readRows (linesRead trace) s).1 = err := by
  rw [(mcrCommand_done h hsent).err_eq]
  apply RowFormat.readRows_err _ linesRead_noNul
  intro s line _
  rw [topKeysRows.row_stop, if_neg (result_topKeys line), ite_self]

/-- And so does a top-clients command. -/
theorem mcrUpdateTopClients_rows (ns : NameService) {key dotquad : Bytes}
    {port mcrtime nclnts : Nat} {inputs rest : List ClientAnswer} {err : Int}
    {trace : List ClientEvent}
    (h : (mcrUpdateTopClients dotquad port key mcrtime nclnts).exec () inputs =
      .done err trace rest)
    (hsent : .fputs (topClientsCmd key dotquad port mcrtime nclnts) ∈ trace)
    (s : Rows TopClientsLocals TcEntry) :
    ((topClientsRows ns).readRows (linesRead trace) s).1 = err := by
  rw [(mcrCommand_done h hsent).err_eq]
  apply RowFormat.readRows_err _ linesRead_noNul
  intro s line hnul
  have hskips : (topClientsRows ns).skips line = true ↔
      (ascii "STAT version").isPrefixOf line = true ∨
        (ascii "STAT client").isPrefixOf line = true :=
    Bool.or_eq_true _ _ ▸ Iff.rfl
  have hresult := result_topClients ns line
  rw [cString_of_nul hnul] at hresult
  rw [(topClientsRows ns).row_stop]
  simp only [hskips, hresult]

/-- The k-th entry of a reply is determined by its own line alone, and no entry is built
from a line with missing fields, exactly if a line of top keys is complete, and one of top
clients is complete or has a colon where its address should be. -/
theorem rows_separate_iff (ns : NameService) (line : Bytes) :
    (topKeysRows.Separate line ∧ topKeysRows.Rejects line ↔
      (topKeysRows.isData line = true → topKeysRows.Complete line)) ∧
    ((topClientsRows ns).Separate line ∧ (topClientsRows ns).Rejects line ↔
      ((topClientsRows ns).isData line = true →
        (topClientsRows ns).Complete line ∨ topClientMismatch (cString line) = true)) := by
  constructor
  · rw [topKeysColumns.separate_iff, topKeysColumns.rejects_iff, and_self]
    exact imp_congr_right fun _ => or_iff_left (result_topKeys line)
  · rw [(topClientsColumns ns).separate_iff, (topClientsColumns ns).rejects_iff, and_self]
    exact imp_congr_right fun _ => or_congr_right (result_topClients ns line)

/-- A key alone gets the numbers of the row before it, and an address alone the port and
the count. -/
theorem rows_leak : ¬topKeysRows.Separate (ascii "STAT foo\r\n") ∧
    ¬(topClientsRows sampleNames).Separate (ascii "STAT 10.0.0.1\r\n") := by
  constructor
  · intro h
    have hsame := h [sampleKey false, ascii "STAT foo\r\n"] [sampleKey true, ascii "STAT foo\r\n"]
      ⟨[], 0, 0, 0, 0, 0, 0, 0⟩ ⟨[], 0, 0, 0, 0, 0, 0, 0⟩ 1 ⟨ascii "foo", 1, 2, 2, 2, 2, 2, 0⟩
      ⟨ascii "foo", 1, 2, 2, 2, 2, 2, 1⟩ rfl rfl (by decide +kernel) (by decide +kernel)
      (by decide +kernel) (by decide +kernel)
    exact absurd hsame (by decide)
  · intro h
    have hsame := h [sampleClient false, ascii "STAT 10.0.0.1\r\n"]
      [sampleClient true, ascii "STAT 10.0.0.1\r\n"] ⟨[], 0, 0⟩ ⟨[], 0, 0⟩ 1
      ⟨ascii "0.0.0.0", ascii "0.0.0.0", INADDR_NONE, 80, 0⟩
      ⟨ascii "0.0.0.0", ascii "0.0.0.0", INADDR_NONE, 80, 1⟩ rfl rfl (by decide +kernel)
      (by decide +kernel) (by decide +kernel) (by decide +kernel)
    exact absurd hsame (by decide)

end StatsProxy

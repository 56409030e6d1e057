import StatsProxy.Library.Rendering
import StatsProxy.Library.Returning
import StatsProxy.McrBuffers

/-! The replies of the reporter daemon, written as the formats of the client expect them. What
is written is read back row by row, but for the rows that begin like a header. -/
namespace StatsProxy
open CString Interaction Program Scanf

/-- A word in a line of a reply. -/
structure RowWord where
  text : Bytes
  ne : text ≠ []
  bytes : ∀ ch ∈ text, isSpace ch = false ∧ ch ≠ 0
  short : text.length ≤ 250

/-- A row of a top-keys reply; the column after the length of the key is not read. -/
structure TkRow where
  key : RowWord
  keylen : Fin (2 ^ 15)
  column : RowWord
  gets : Fin (2 ^ 64)
  sets : Fin (2 ^ 64)
  all : Fin (2 ^ 64)
  bytes : Fin (2 ^ 64)
  bytesRead : Fin (2 ^ 64)
  bytesWritten : Fin (2 ^ 64)

def TkRow.pieces (r : TkRow) : List Piece :=
  [.skipped none (ascii "STAT"), .blank, .token (some 250) r.key.text, .blank,
    .number .int r.keylen, .blank, .skipped none r.column.text, .blank, .number .ulong r.gets,
    .blank, .number .ulong r.sets, .blank, .number .ulong r.all, .blank,
    .number .ulong r.bytes, .literal 109, .literal 98, .literal 40, .number .ulong r.bytesRead,
    .literal 109, .literal 98, .literal 47, .number .ulong r.bytesWritten, .literal 109,
    .literal 98, .literal 41]

def TkRow.entry (r : TkRow) : TkEntry :=
  ⟨r.key.text, r.keylen, r.gets, r.sets, r.all, r.bytes, r.bytesRead, r.bytesWritten⟩

/-- A row of a top-clients reply. -/
structure TcRow where
  tcip : RowWord
  noColon : 58 ∉ tcip.text
  tcport : Fin (2 ^ 16)
  count : Fin (2 ^ 64)

def TcRow.pieces (r : TcRow) : List Piece :=
  [.skipped none (ascii "STAT"), .blank, .notIn [32, 58] 250 r.tcip.text, .literal 58,
    .number .ushort r.tcport, .blank, .number .ulong r.count]

def TcRow.entry (ns : NameService) (r : TcRow) : TcEntry :=
  (topClientsRows ns).entry ⟨r.tcip.text, r.tcport, r.count⟩

/-- A line of the reply to `show instances`. -/
structure InstanceRow where
  tag : RowWord
  tagShort : tag.text.length ≤ 20
  ip : RowWord
  port : Fin (2 ^ 16)

def InstanceRow.pieces (r : InstanceRow) : List Piece :=
  [.skipped (some 20) r.tag.text, .blank, .token none r.ip.text, .blank, .number .int r.port]

def InstanceRow.entry (ns : NameService) (r : InstanceRow) : McrEntry :=
  instanceEntry ns ⟨r.ip.text, r.port⟩

/-- The line of a row. -/
def rowLine (ps : List Piece) : Bytes := piecesText ps ++ ascii "\r\n"

theorem tkRow_directives (r : TkRow) : r.pieces.map Piece.directive = topKeysFormat := rfl

theorem tcRow_directives (r : TcRow) : r.pieces.map Piece.directive = topClientsFormat := rfl

theorem instanceRow_directives (r : InstanceRow) :
    r.pieces.map Piece.directive = instanceFormat := rfl

section

variable {ps : List Piece} {rest : Bytes}

theorem RowWord.ends (w : RowWord) : Piece.Ends w.text (piecesText (.blank :: ps) ++ rest).head? :=
  ⟨w.ne, fun ch hch => (w.bytes ch hch).1, by rintro ch ⟨⟩; rfl⟩

theorem RowWord.next (w : RowWord) {p : Piece} (hp : p.text = w.text) :
    ∀ ch ∈ (piecesText (p :: ps) ++ rest).head?, isSpace ch = false :=
  next_piece (hp ▸ w.ne) fun ch hch => (w.bytes ch (hp ▸ hch)).1

def statWord : RowWord := ⟨ascii "STAT", by decide, by decide +kernel, by decide⟩

theorem TkRow.fit (r : TkRow) : Fit (ascii "\r\n") r.pieces := by
  have hulong : ∀ n : Fin (2 ^ 64), (n : Nat) < Piece.limit .ulong := fun n => n.isLt
  have hint : (r.keylen : Nat) < Piece.limit .int := r.keylen.isLt.trans (by decide)
  have hlast : ∀ {ch : UInt8} {ps : List Piece} {rest : Bytes}, isDigit ch = false →
      ∀ c ∈ (piecesText (.literal ch :: ps) ++ rest).head?, isDigit c = false := by
    rintro ch ps rest h c ⟨⟩
    exact h
  have hblank : ∀ {ps : List Piece} {rest : Bytes},
      ∀ c ∈ (piecesText (.blank :: ps) ++ rest).head?, isDigit c = false := by
    rintro ps rest c ⟨⟩
    rfl
  exact ⟨⟨statWord.ends, nofun⟩, r.key.next rfl, ⟨r.key.ends, by rintro n ⟨⟩; exact r.key.short⟩,
    next_number, ⟨hint, hblank⟩, r.column.next rfl, ⟨r.column.ends, nofun⟩, next_number,
    ⟨hulong _, hblank⟩, next_number, ⟨hulong _, hblank⟩, next_number, ⟨hulong _, hblank⟩,
    next_number, ⟨hulong _, hlast rfl⟩, trivial, trivial, trivial, ⟨hulong _, hlast rfl⟩, trivial,
    trivial, trivial, ⟨hulong _, hlast rfl⟩, trivial, trivial, trivial, trivial⟩

theorem TcRow.fit (r : TcRow) : Fit (ascii "\r\n") r.pieces := by
  have hstop : ∀ ch ∈ r.tcip.text, ch ∉ [(32 : UInt8), 58] := by
    intro ch hch hmem
    rcases List.mem_cons.mp hmem with rfl | hmem
    · exact absurd (r.tcip.bytes 32 hch).1 (by decide)
    · rw [List.mem_singleton] at hmem
      exact r.noColon (hmem ▸ hch)
  exact ⟨⟨statWord.ends, nofun⟩, r.tcip.next rfl,
    ⟨r.tcip.ne, r.tcip.short, hstop, by rintro ch ⟨⟩; decide⟩, trivial,
    ⟨r.tcport.isLt, by rintro ch ⟨⟩; rfl⟩, next_number, ⟨r.count.isLt, by rintro ch ⟨⟩; rfl⟩,
    trivial⟩

theorem InstanceRow.fit (r : InstanceRow) : Fit (ascii "\r\n") r.pieces :=
  ⟨⟨r.tag.ends, by rintro n ⟨⟩; exact r.tagShort⟩, r.ip.next rfl, ⟨r.ip.ends, nofun⟩, next_number,
    ⟨r.port.isLt.trans (by decide), by rintro ch ⟨⟩; rfl⟩, trivial⟩

/-- A piece that can stand in a line. -/
def Inline (p : Piece) : Prop := ∀ ch ∈ p.text, ch ≠ 0 ∧ ch ≠ 10

theorem RowWord.inline (w : RowWord) {p : Piece} (hp : p.text = w.text) : Inline p := by
  intro ch hch
  obtain ⟨hspace, hnul⟩ := w.bytes ch (hp ▸ hch)
  refine ⟨hnul, ?_⟩
  rintro rfl
  exact absurd hspace (by decide)

theorem number_inline (type : IntType) (n : Nat) : Inline (.number type n) := by
  intro ch hch
  have hdigit := isDigit_printDecimal n ch hch
  exact ⟨isDigit_ne hdigit (by decide), isDigit_ne hdigit (by decide)⟩

theorem blank_inline : Inline .blank := by
  rintro ch hch
  rw [List.mem_singleton.mp hch]
  decide

theorem literal_inline {c : UInt8} (hc : c ≠ 0 ∧ c ≠ 10) : Inline (.literal c) := by
  rintro ch hch
  rw [List.mem_singleton.mp hch]
  exact hc

theorem TkRow.inline (r : TkRow) : ∀ p ∈ r.pieces, Inline p := by
  simp only [TkRow.pieces, List.forall_mem_cons, number_inline, blank_inline, true_and]
  exact ⟨statWord.inline rfl, r.key.inline rfl, r.column.inline rfl, literal_inline (by decide),
    literal_inline (by decide), literal_inline (by decide), literal_inline (by decide),
    literal_inline (by decide), literal_inline (by decide), literal_inline (by decide),
    literal_inline (by decide), literal_inline (by decide), List.forall_mem_nil _⟩

theorem TcRow.inline (r : TcRow) : ∀ p ∈ r.pieces, Inline p := by
  simp only [TcRow.pieces, List.forall_mem_cons, number_inline, blank_inline, true_and]
  exact ⟨statWord.inline rfl, r.tcip.inline rfl, literal_inline (by decide), List.forall_mem_nil _⟩

theorem InstanceRow.inline (r : InstanceRow) : ∀ p ∈ r.pieces, Inline p := by
  simp only [InstanceRow.pieces, List.forall_mem_cons, number_inline, blank_inline, true_and]
  exact ⟨r.tag.inline rfl, r.ip.inline rfl, List.forall_mem_nil _⟩

theorem TkRow.short (r : TkRow) : (piecesText r.pieces).length ≤ 700 := by
  have hkey := r.key.short
  have hcolumn := r.column.short
  have hstat : (ascii "STAT").length = 4 := rfl
  have hrooms : (r.pieces.map Piece.room).sum ≤ 700 := by
    simp only [TkRow.pieces, List.map_cons, List.map_nil, Piece.room, List.sum_cons,
      List.sum_nil, hstat]
    omega
  exact (piecesText_length r.fit).trans hrooms

theorem TcRow.short (r : TcRow) : (piecesText r.pieces).length ≤ 700 := by
  have hip := r.tcip.short
  have hstat : (ascii "STAT").length = 4 := rfl
  have hrooms : (r.pieces.map Piece.room).sum ≤ 700 := by
    simp only [TcRow.pieces, List.map_cons, List.map_nil, Piece.room, List.sum_cons,
      List.sum_nil, hstat]
    omega
  exact (piecesText_length r.fit).trans hrooms

theorem InstanceRow.short (r : InstanceRow) : (piecesText r.pieces).length ≤ 700 := by
  have htag := r.tag.short
  have hip := r.ip.short
  have hrooms : (r.pieces.map Piece.room).sum ≤ 700 := by
    simp only [InstanceRow.pieces, List.map_cons, List.map_nil, Piece.room, List.sum_cons,
      List.sum_nil]
    omega
  exact (piecesText_length r.fit).trans hrooms

/-- Text that fits into the array `line` together with the end of the line. -/
structure LineText (body : Bytes) : Prop where
  inline : ∀ ch ∈ body, ch ≠ 0 ∧ ch ≠ 10
  length : body.length + 2 ≤ lineSz - 1

theorem lineText_pieces (hinline : ∀ p ∈ ps, Inline p) (hshort : (piecesText ps).length ≤ 700) :
    LineText (piecesText ps) where
  inline := by
    intro ch hch
    obtain ⟨p, hp, hch⟩ := List.mem_flatMap.mp hch
    exact hinline p hp ch hch
  length := by
    have hsize : lineSz = 1024 := rfl
    omega

/-- `fgets` reads up to the newline. -/
theorem pieces_line {piece body : Bytes} (hbody : ∀ ch ∈ body, ch ≠ 10)
    (hlength : piece.length + body.length + 1 ≤ lineSz - 1) (rest : Bytes) :
    pieces piece (body ++ 10 :: rest) = (piece ++ body ++ [10]) :: pieces [] rest := by
  induction body generalizing piece with
  | nil =>
    rw [List.nil_append, pieces, if_pos (.inl rfl), List.append_nil]
  | cons ch body ih =>
    obtain ⟨hch, hbody⟩ := List.forall_mem_cons.mp hbody
    have hroom : piece.length + (body.length + 1) + 1 ≤ lineSz - 1 := hlength
    have hgo : ¬(ch = 10 ∨ piece.length + 1 = lineSz - 1) := by
      rintro (h | h)
      · exact hch h
      · omega
    have hstep : (piece ++ [ch]).length = piece.length + 1 := List.length_append
    rw [List.cons_append, pieces, if_neg hgo, ih hbody (by omega), List.append_assoc piece,
      List.singleton_append]

theorem LineText.noNul {body : Bytes} (h : LineText body) : 0 ∉ body ++ ascii "\r\n" := by
  intro hmem
  rcases List.mem_append.mp hmem with hmem | hmem
  · exact (h.inline 0 hmem).1 rfl
  · exact absurd hmem (by decide)

theorem pieces_text {body : Bytes} (h : LineText body) (rest : Bytes) :
    pieces [] (body ++ ascii "\r\n" ++ rest) = (body ++ ascii "\r\n") :: pieces [] rest := by
  have hinline : ∀ ch ∈ body ++ [13], ch ≠ 10 := by
    rw [List.forall_mem_append, List.forall_mem_singleton]
    exact ⟨fun ch hch => (h.inline ch hch).2, by decide⟩
  have hend : body ++ ascii "\r\n" = body ++ [13] ++ [10] := by
    rw [List.append_assoc]
    rfl
  rw [hend, List.append_assoc (body ++ [13]), List.singleton_append]
  apply pieces_line hinline
  rw [List.length_append]
  exact (Nat.zero_add _).symm ▸ h.length

end

/-- The line the reading keeps as the title. -/
def titled (v : Option Bytes) (line : Bytes) : Option Bytes :=
  if (ascii "STAT version").isPrefixOf line then some line else v

/-- Rows that are written for a format. A hidden row begins like a header. -/
structure RowKind {σ ε : Type} (f : RowFormat σ ε) (ρ : Type) where
  pieces : ρ → List Piece
  entry : ρ → ε
  hidden : ρ → Bool
  directives : ∀ r, (pieces r).map Piece.directive = f.format
  fit : ∀ r, Fit (ascii "\r\n") (pieces r)
  lineText : ∀ r, LineText (piecesText (pieces r))
  start : ∀ r, ascii "STAT" <+: piecesText (pieces r)
  skips : ∀ r, f.skips (rowLine (pieces r)) = hidden r
  valued : ∀ r, (pieces r).filterMap Piece.value ≠ []
  stored : ∀ r l, f.entry (store f.args ((pieces r).filterMap Piece.value) l) = entry r
  headerStart : ascii "STAT" <+: f.header

/-- A line of a reply. -/
inductive ReplyLine (header : Bytes) (ρ : Type) where
  | version (tail : Bytes) (fits : LineText (ascii "STAT version" ++ tail))
  | columns (tail : Bytes) (fits : LineText (header ++ tail))
  | row (r : ρ)

/-- What comes after the lines: the connection ends, or a line that stops the reading. -/
inductive ReplyEnd where
  | cut
  | ended (rest : Bytes)
  | refused (rest : Bytes)

def ReplyEnd.text : ReplyEnd → Bytes
  | .cut => []
  | .ended rest => endLine ++ rest
  | .refused rest => errorLine ++ rest

/-- The result, with the one of a refusal. -/
def ReplyEnd.err (refusal : Int) : ReplyEnd → Int
  | .cut | .ended _ => 0
  | .refused _ => refusal

/-- What the last `fgets` reads. -/
def ReplyEnd.read : ReplyEnd → Option Bytes
  | .cut => none
  | .ended _ => some endLine
  | .refused _ => some errorLine

theorem ReplyEnd.readRows_read {σ ε : Type} {f : RowFormat σ ε} (ending : ReplyEnd)
    (s : Rows σ ε) : f.readRows ending.read.toList s = (ending.err (-1), s) := by
  cases ending with
  | cut => rfl
  | ended rest =>
    rw [ReplyEnd.read, Option.toList_some, RowFormat.readRows, RowFormat.row, if_pos rfl]
    rfl
  | refused rest =>
    rw [ReplyEnd.read, Option.toList_some, RowFormat.readRows, RowFormat.row,
      if_neg (by decide), if_pos rfl]
    rfl

section

variable {σ ε ρ : Type} {f : RowFormat σ ε} (kind : RowKind f ρ)

def ReplyLine.body : ReplyLine f.header ρ → Bytes
  | .version tail _ => ascii "STAT version" ++ tail
  | .columns tail _ => f.header ++ tail
  | .row r => piecesText (kind.pieces r)

def ReplyLine.text (line : ReplyLine f.header ρ) : Bytes := line.body kind ++ ascii "\r\n"

/-- The entry a line is to give. -/
def ReplyLine.shown : ReplyLine f.header ρ → Option ε
  | .version .. | .columns .. => none
  | .row r => if kind.hidden r then none else some (kind.entry r)

theorem ReplyLine.lineText (line : ReplyLine f.header ρ) : LineText (line.body kind) := by
  cases line with
  | version tail fits => exact fits
  | columns tail fits => exact fits
  | row r => exact kind.lineText r

theorem ReplyLine.start (line : ReplyLine f.header ρ) : ascii "STAT" <+: line.body kind := by
  cases line with
  | version tail fits => exact ⟨ascii " version" ++ tail, rfl⟩
  | columns tail fits => exact kind.headerStart.trans (List.prefix_append _ _)
  | row r => exact kind.start r

theorem ReplyLine.noStop (line : ReplyLine f.header ρ) : isStop (line.text kind) = false := by
  obtain ⟨rest, hrest⟩ := line.start kind
  rw [ReplyLine.text, ← hrest]
  rfl

theorem RowFormat.row_skips {s : Rows σ ε} {line : Bytes} (hstop : isStop line = false)
    (hskip : f.skips line = true) :
    f.row s line = ({ s with versionStr := titled s.versionStr line }, none) := by
  simp only [isStop, Bool.or_eq_false_iff, decide_eq_false_iff_not] at hstop
  unfold RowFormat.row titled
  rw [if_neg hstop.1, if_neg hstop.2]
  split
  · rfl
  · rename_i hversion
    have hheader : f.header.isPrefixOf line = true := by
      simpa [RowFormat.skips, hversion] using hskip
    rw [if_pos hheader]

theorem RowFormat.row_added {s : Rows σ ε} {line : Bytes} (hstop : isStop line = false)
    (hskip : f.skips line = false) (hvalues : (f.sscanf line s.locals).1 ≠ 0) :
    f.row s line = (f.added s line, none) := by
  simp only [isStop, Bool.or_eq_false_iff, decide_eq_false_iff_not] at hstop
  simp only [RowFormat.skips, Bool.or_eq_false_iff] at hskip
  unfold RowFormat.row
  rw [if_neg hstop.1, if_neg hstop.2, if_neg (by simp [hskip.1]), if_neg (by simp [hskip.2])]
  dsimp only
  rw [if_neg hvalues]
  rfl

/-- What is scanned from a row. -/
theorem RowKind.sscanf_row (r : ρ) (locals : σ) :
    f.sscanf (rowLine (kind.pieces r)) locals =
      ((((kind.pieces r).filterMap Piece.value).length : Int),
        store f.args ((kind.pieces r).filterMap Piece.value) (f.clear locals)) := by
  have hscan := sscanf_pieces (kind.fit r) (kind.lineText r).noNul f.args (f.clear locals)
  rwa [kind.directives r] at hscan

/-- One turn of the loop on a line of a reply. -/
theorem ReplyLine.row_text (line : ReplyLine f.header ρ) (s : Rows σ ε) :
    ∃ locals, f.row s (line.text kind) = (⟨s.entries ++ (line.shown kind).toList,
      titled s.versionStr (line.text kind), locals⟩, none) := by
  have hstop := line.noStop kind
  have hskipped : ∀ line : ReplyLine f.header ρ, isStop (line.text kind) = false →
      f.skips (line.text kind) = true → line.shown kind = none →
      f.row s (line.text kind) = (⟨s.entries ++ (line.shown kind).toList,
        titled s.versionStr (line.text kind), s.locals⟩, none) := by
    intro line hstop hskip hshown
    rw [RowFormat.row_skips hstop hskip, hshown, Option.toList_none, List.append_nil]
  cases line with
  | version tail fits =>
    refine ⟨s.locals, hskipped _ hstop ?_ rfl⟩
    have hversion : (ascii "STAT version").isPrefixOf
        ((ReplyLine.version tail fits).text kind) = true := by
      rw [List.isPrefixOf_iff_prefix, ReplyLine.text, ReplyLine.body, List.append_assoc]
      exact List.prefix_append _ _
    rw [RowFormat.skips, hversion, Bool.true_or]
  | columns tail fits =>
    refine ⟨s.locals, hskipped _ hstop ?_ rfl⟩
    have hheader : f.header.isPrefixOf ((ReplyLine.columns tail fits).text kind) = true := by
      rw [List.isPrefixOf_iff_prefix, ReplyLine.text, ReplyLine.body, List.append_assoc]
      exact List.prefix_append _ _
    rw [RowFormat.skips, hheader, Bool.or_true]
  | row r =>
    cases hhidden : kind.hidden r with
    | true =>
      refine ⟨s.locals, hskipped _ hstop ((kind.skips r).trans hhidden) ?_⟩
      rw [ReplyLine.shown, if_pos hhidden]
    | false =>
      have hskip : f.skips ((ReplyLine.row r).text kind) = false := (kind.skips r).trans hhidden
      have hscan : f.sscanf ((ReplyLine.row r).text kind) s.locals = _ :=
        kind.sscanf_row r s.locals
      have hvalues : (f.sscanf ((ReplyLine.row r).text kind) s.locals).1 ≠ 0 := by
        have hlength := List.length_pos_iff.mpr (kind.valued r)
        rw [hscan]
        exact Int.natCast_ne_zero.mpr hlength.ne'
      have hversion : ¬(ascii "STAT version").isPrefixOf ((ReplyLine.row r).text kind) = true := by
        intro hversion
        rw [RowFormat.skips, hversion, Bool.true_or] at hskip
        cases hskip
      refine ⟨(f.sscanf ((ReplyLine.row r).text kind) s.locals).2, ?_⟩
      rw [RowFormat.row_added hstop hskip hvalues, RowFormat.added, hscan, kind.stored,
        ReplyLine.shown, hhidden, if_neg Bool.false_ne_true, titled, if_neg hversion]
      rfl

theorem readRows_texts (lines : List (ReplyLine f.header ρ)) (ending : ReplyEnd) (s : Rows σ ε) :
    ∃ locals, f.readRows (lines.map (·.text kind) ++ ending.read.toList) s =
      (ending.err (-1), ⟨s.entries ++ lines.filterMap (·.shown kind),
        (lines.map (·.text kind)).foldl titled s.versionStr, locals⟩) := by
  induction lines generalizing s with
  | nil =>
    refine ⟨s.locals, ?_⟩
    rw [List.filterMap_nil, List.append_nil]
    exact ending.readRows_read s
  | cons line lines ih =>
    obtain ⟨locals, hrow⟩ := line.row_text kind s
    obtain ⟨after, hread⟩ := ih ⟨s.entries ++ (line.shown kind).toList,
      titled s.versionStr (line.text kind), locals⟩
    refine ⟨after, ?_⟩
    rw [List.map_cons, List.cons_append, RowFormat.readRows, hrow]
    dsimp only
    rw [hread, List.append_assoc, List.foldl_cons]
    cases hshown : line.shown kind with
    | none => rw [List.filterMap_cons_none hshown]; rfl
    | some e => rw [List.filterMap_cons_some hshown]; rfl

end

/-- A word begins like the token if it begins like what the token stands in front of. -/
theorem isPrefixOf_token {w token rest : Bytes} {c : UInt8} (hc : c ∉ w) :
    w.isPrefixOf (token ++ c :: rest) = w.isPrefixOf token := by
  induction w generalizing token with
  | nil => rw [List.isPrefixOf_nil_left, List.isPrefixOf_nil_left]
  | cons ch w ih =>
    rw [List.mem_cons, not_or] at hc
    cases token with
    | nil =>
      have hch : (ch == c) = false := by simpa using Ne.symm hc.1
      rw [List.nil_append, List.isPrefixOf_cons_cons, hch]
      rfl
    | cons t token =>
      rw [List.cons_append, List.isPrefixOf_cons_cons, List.isPrefixOf_cons_cons, ih hc.2]

theorem RowWord.noSpace (w : RowWord) : 32 ∉ w.text := by
  intro hmem
  exact absurd (w.bytes 32 hmem).1 (by decide)

/-- The rows of a top-keys reply with the key `version…` are taken for the line of the version. -/
def TkRow.hidden (r : TkRow) : Bool := (ascii "version").isPrefixOf r.key.text

def TcRow.hidden (r : TcRow) : Bool :=
  (ascii "version").isPrefixOf r.tcip.text || (ascii "client").isPrefixOf r.tcip.text

theorem TkRow.line_key (r : TkRow) : ∃ rest, rowLine r.pieces =
    ascii "STAT " ++ (r.key.text ++ 32 :: (printDecimal r.keylen ++ rest)) := by
  simp only [rowLine, TkRow.pieces, piecesText, List.flatMap_cons, Piece.text, List.append_assoc]
  exact ⟨_, rfl⟩

theorem TcRow.line_tcip (r : TcRow) :
    ∃ rest, rowLine r.pieces = ascii "STAT " ++ (r.tcip.text ++ 58 :: rest) := by
  simp only [rowLine, TcRow.pieces, piecesText, List.flatMap_cons, Piece.text, List.append_assoc]
  exact ⟨_, rfl⟩

/-- No row of a top-keys reply names the columns: after the key stands its length. -/
theorem TkRow.noColumns (r : TkRow) :
    (ascii "STAT key key-length").isPrefixOf (rowLine r.pieces) = false := by
  rw [← Bool.not_eq_true, List.isPrefixOf_iff_prefix]
  obtain ⟨tail, hline⟩ := r.line_key
  rintro ⟨rest, hrest⟩
  have hcolumns : ascii "STAT key key-length" ++ rest =
      ascii "STAT " ++ (ascii "key" ++ 32 :: (ascii "key-length" ++ rest)) := rfl
  rw [hline, hcolumns, List.append_cancel_left_eq] at hrest
  have hnext : ∀ text : Bytes, ∀ ch ∈ (32 :: text).head?, decide (ch ≠ 32) = false := by
    rintro text ch ⟨⟩
    rfl
  have hkey : ascii "key" = r.key.text := by
    have htokens := congrArg (List.takeWhile fun ch => decide (ch ≠ 32)) hrest
    rwa [Piece.takeWhile_ended (by decide +kernel) (hnext _), Piece.takeWhile_ended _ (hnext _)]
      at htokens
    intro ch hch
    exact decide_eq_true (ne_of_mem_of_not_mem hch r.key.noSpace)
  rw [hkey, List.append_cancel_left_eq, List.cons.injEq] at hrest
  obtain ⟨ch, digits, hdigits⟩ := List.exists_cons_of_ne_nil (printDecimal_ne_nil r.keylen)
  have hdigit : isDigit ch = true := by
    apply isDigit_printDecimal r.keylen
    rw [hdigits]
    exact List.mem_cons_self
  rw [hdigits] at hrest
  have hfirst : 107 = ch := (List.cons.inj hrest.2).1
  rw [← hfirst] at hdigit
  cases hdigit

theorem TkRow.skips (r : TkRow) : topKeysRows.skips (rowLine r.pieces) = r.hidden := by
  obtain ⟨rest, hline⟩ := r.line_key
  have hcolumns : topKeysRows.header.isPrefixOf (rowLine r.pieces) = false := r.noColumns
  rw [RowFormat.skips, hcolumns, Bool.or_false, hline, TkRow.hidden]
  exact isPrefixOf_token (by decide)

theorem TcRow.skips (ns : NameService) (r : TcRow) :
    (topClientsRows ns).skips (rowLine r.pieces) = r.hidden := by
  obtain ⟨rest, hline⟩ := r.line_tcip
  have hversion : (ascii "STAT version").isPrefixOf (rowLine r.pieces) =
      (ascii "version").isPrefixOf r.tcip.text := by
    rw [hline]
    exact isPrefixOf_token (by decide)
  have hclient : (topClientsRows ns).header.isPrefixOf (rowLine r.pieces) =
      (ascii "client").isPrefixOf r.tcip.text := by
    rw [hline]
    exact isPrefixOf_token (by decide)
  rw [RowFormat.skips, hversion, hclient, TcRow.hidden]

theorem toInt16_keylen (n : Fin (2 ^ 15)) : toInt16 (n : Nat) = (n : Nat) := by
  have hn := n.isLt
  exact Int.bmod_eq_of_le (by omega) (by omega)

def topKeysKind : RowKind topKeysRows TkRow where
  pieces := TkRow.pieces
  entry := TkRow.entry
  hidden := TkRow.hidden
  directives := tkRow_directives
  fit := TkRow.fit
  lineText r := lineText_pieces r.inline r.short
  start _ := ⟨_, rfl⟩
  skips := TkRow.skips
  valued _ := List.cons_ne_nil _ _
  stored r l := by
    show TkEntry.mk _ (toInt16 (r.keylen : Nat)) _ _ _ _ _ _ = _
    rw [toInt16_keylen]
    rfl
  headerStart := ⟨_, rfl⟩

def topClientsKind (ns : NameService) : RowKind (topClientsRows ns) TcRow where
  pieces := TcRow.pieces
  entry := TcRow.entry ns
  hidden := TcRow.hidden
  directives := tcRow_directives
  fit := TcRow.fit
  lineText r := lineText_pieces r.inline r.short
  start _ := ⟨_, rfl⟩
  skips := TcRow.skips ns
  valued _ := List.cons_ne_nil _ _
  stored _ _ := rfl
  headerStart := ⟨_, rfl⟩

def fgetsAnswer (line : Bytes) (eof : Bool) : ClientAnswer := { fgets := some (line, eof) }

/-- The answers to `fgets` on a stream; the end is met in a line that nothing else ends. -/
def streamAnswers (stream : Bytes) : List ClientAnswer :=
  (pieces [] stream).map (fun piece =>
    fgetsAnswer piece (piece.getLast? ≠ some 10 ∧ piece.length < lineSz - 1)) ++ [{ fgets := none }]

/-- The events of a command whose lines are read. -/
def conversation (fd : Nat) (cmd : Bytes) (reads : List (Option Bytes)) : List ClientEvent :=
  [.socket (.ok fd), .connect (.ok ()), .fdopen true, .fputs cmd] ++ reads.map .fgets ++
    [.fclose fd, .close fd]

/-- A connection to the reporter, and what it sends. -/
def reporterAnswers (fd : Nat) (stream : Bytes) : List ClientAnswer :=
  { socket := .ok fd } :: { connect := .ok () } :: { fdopen := true } :: streamAnswers stream

theorem streamAnswers_text {body : Bytes} (h : LineText body) (rest : Bytes) :
    streamAnswers (body ++ ascii "\r\n" ++ rest) =
      fgetsAnswer (body ++ ascii "\r\n") false :: streamAnswers rest := by
  have hlast : (body ++ ascii "\r\n").getLast? = some 10 :=
    List.getLast?_append_of_ne_nil _ (by decide)
  rw [streamAnswers, pieces_text h, List.map_cons, hlast, decide_eq_false (by simp)]
  rfl

section

variable {stop : Bytes → Option Int}

theorem replyStep_text {body : Bytes} (h : LineText body) (rest : List ClientAnswer) :
    (replyStep stop ()).exec () (fgetsAnswer (body ++ ascii "\r\n") false :: rest) =
      .done (match stop (body ++ ascii "\r\n") with
        | some err => .inr err
        | none => .inl ()) [.fgets (some (body ++ ascii "\r\n"))] rest := by
  have htake : (body ++ ascii "\r\n").take (lineSz - 1) = body ++ ascii "\r\n" := by
    apply List.take_of_length_le
    rw [List.length_append]
    exact h.length
  have hfgets : fgetsLine.exec () (fgetsAnswer (body ++ ascii "\r\n") false :: rest) =
      .done (some (body ++ ascii "\r\n", false))
        [.fgets (some (body ++ ascii "\r\n"))] rest := by
    show Result.done (some ((body ++ ascii "\r\n").take (lineSz - 1), false))
      [ClientEvent.fgets (some ((body ++ ascii "\r\n").take (lineSz - 1)))] rest = _
    rw [htake]
  rw [replyStep, bind_exec, hfgets]
  dsimp only
  rw [cString_of_nul h.noNul]
  cases stop (body ++ ascii "\r\n") with
  | none => rfl
  | some err => rfl

theorem replyStep_productive : Productive (replyStep stop) := by
  intro _ s inputs next trace rest h
  exact (asks_ask.bind _).bind _ s inputs _ _ _ h

theorem readReply_line {body : Bytes} {err : Int} (h : LineText body)
    (hstop : stop (body ++ ascii "\r\n") = some err) (rest : List ClientAnswer) :
    (readReply stop).exec () (fgetsAnswer (body ++ ascii "\r\n") false :: rest) =
      .done err [.fgets (some (body ++ ascii "\r\n"))] rest := by
  rw [readReply, loop_unfold replyStep_productive, bind_exec, replyStep_text h, hstop]
  rfl

theorem readReply_end {refusal : Int} (hend : stop endLine = some 0)
    (herror : stop errorLine = some refusal) (ending : ReplyEnd) :
    ∃ rest, (readReply stop).exec () (streamAnswers ending.text) =
      .done (ending.err refusal) [.fgets ending.read] rest := by
  have hendText : LineText (ascii "END") := ⟨by decide +kernel, by decide⟩
  have herrorText : LineText (ascii "ERROR") := ⟨by decide +kernel, by decide⟩
  cases ending with
  | cut =>
    refine ⟨[], ?_⟩
    rw [readReply, loop_unfold replyStep_productive, bind_exec]
    rfl
  | ended rest => exact ⟨_, streamAnswers_text hendText rest ▸ readReply_line hendText hend _⟩
  | refused rest =>
    exact ⟨_, streamAnswers_text herrorText rest ▸ readReply_line herrorText herror _⟩

/-- Lines that do not stop the reading, and then the end. -/
theorem readReply_bodies {refusal : Int} (hend : stop endLine = some 0)
    (herror : stop errorLine = some refusal) (ending : ReplyEnd) {bodies : List Bytes}
    (h : ∀ body ∈ bodies, LineText body ∧ stop (body ++ ascii "\r\n") = none) :
    ∃ rest, (readReply stop).exec ()
        (streamAnswers (bodies.flatMap (· ++ ascii "\r\n") ++ ending.text)) =
      .done (ending.err refusal) ((bodies.map fun body => some (body ++ ascii "\r\n")).map .fgets ++
        [.fgets ending.read]) rest := by
  induction bodies with
  | nil => exact readReply_end hend herror ending
  | cons body bodies ih =>
    rw [List.forall_mem_cons] at h
    obtain ⟨⟨hbody, hstop⟩, h⟩ := h
    obtain ⟨rest, hrest⟩ := ih h
    have hstep : (replyStep stop ()).exec () _ = _ := replyStep_text hbody
      (streamAnswers (bodies.flatMap (· ++ ascii "\r\n") ++ ending.text))
    rw [hstop] at hstep
    refine ⟨rest, ?_⟩
    rw [List.flatMap_cons, List.append_assoc, streamAnswers_text hbody]
    exact (leads_loop replyStep_productive hstep).done hrest

/-- The command on a connection that is made. -/
theorem mcrCommand_bodies {refusal : Int} (hend : stop endLine = some 0)
    (herror : stop errorLine = some refusal) (cmd : Bytes) (fd : Nat) (ending : ReplyEnd)
    {bodies : List Bytes}
    (h : ∀ body ∈ bodies, LineText body ∧ stop (body ++ ascii "\r\n") = none) :
    ∃ rest, (mcrCommand cmd (readReply stop)).exec ()
        (reporterAnswers fd (bodies.flatMap (· ++ ascii "\r\n") ++ ending.text)) =
      .done (ending.err refusal) (conversation fd cmd
        ((bodies.map fun body => some (body ++ ascii "\r\n")) ++ [ending.read])) rest := by
  obtain ⟨rest, hreply⟩ := readReply_bodies hend herror ending h
  have hconnect : mcrConnectRemote.exec ()
      (reporterAnswers fd (bodies.flatMap (· ++ ascii "\r\n") ++ ending.text)) =
      .done ⟨0, fd, true⟩ [.socket (.ok fd), .connect (.ok ()), .fdopen true]
        (streamAnswers (bodies.flatMap (· ++ ascii "\r\n") ++ ending.text)) := rfl
  have hbail : (mcrBail ⟨0, fd, true⟩ (ending.err refusal)).exec () rest =
      .done (ending.err refusal) [.fclose fd, .close fd] rest := by
    have hfd : 0 ≤ (fd : Int) := Int.natCast_nonneg fd
    rw [mcrBail, closeStream, closeDescriptor, if_pos rfl, if_pos hfd]
    rfl
  have hread := (leads_of_done hreply (mcrBail ⟨0, fd, true⟩)).done hbail
  refine ⟨rest, ?_⟩
  rw [mcrCommand, bind_exec, hconnect]
  dsimp only
  rw [if_neg (by decide), if_pos rfl, bind_exec]
  show (((readReply stop >>= mcrBail ⟨0, fd, true⟩).exec () _).prepend [.fputs cmd]).prepend _ = _
  rw [hread, conversation, List.map_append]
  simp [Result.prepend]

end

theorem linesRead_conversation (fd : Nat) (cmd : Bytes) (bodies : List Bytes) (ending : ReplyEnd)
    (h : ∀ body ∈ bodies, LineText body) :
    linesRead (conversation fd cmd
      ((bodies.map fun body => some (body ++ ascii "\r\n")) ++ [ending.read])) =
      bodies.map (· ++ ascii "\r\n") ++ ending.read.toList := by
  have hend : ([ending.read].map ClientEvent.fgets).filterMap ClientEvent.lineRead =
      ending.read.toList := by
    cases ending with
    | cut => rfl
    | ended rest => rfl
    | refused rest => rfl
  have hlines : ((bodies.map fun body => some (body ++ ascii "\r\n")).map
      ClientEvent.fgets).filterMap ClientEvent.lineRead = bodies.map (· ++ ascii "\r\n") := by
    rw [List.map_map, List.filterMap_map, ← List.filterMap_eq_map]
    apply List.filterMap_congr
    intro body hbody
    exact congrArg some (cString_of_nul (h body hbody).noNul)
  rw [linesRead, conversation, List.filterMap_append, List.filterMap_append, List.map_append,
    List.filterMap_append, hend, hlines]
  exact List.append_nil _

section

variable {σ ε ρ : Type} {f : RowFormat σ ε} (kind : RowKind f ρ)

/-- What a connection is read of where these lines come. -/
def RowKind.reads (lines : List (ReplyLine f.header ρ)) (ending : ReplyEnd) :
    List (Option Bytes) :=
  (lines.map fun line => some (line.text kind)) ++ [ending.read]

/-- On a connection that is made, the call writes its command, reads the reply to its end and
closes; the list then has the rows that are to be shown, and the title is the last line of the
version. -/
def RowKind.ReadsBack (m : Client Int) (cmd : Bytes) : Prop :=
  ∀ fd (lines : List (ReplyLine f.header ρ)) ending (s : Rows σ ε), ∃ rest locals,
    m.exec () (reporterAnswers fd (lines.flatMap (·.text kind) ++ ending.text)) =
      .done (ending.err (-1)) (conversation fd cmd (kind.reads lines ending)) rest ∧
    f.readRows (linesRead (conversation fd cmd (kind.reads lines ending))) s =
      (ending.err (-1), ⟨s.entries ++ lines.filterMap (·.shown kind),
        (lines.map (·.text kind)).foldl titled s.versionStr, locals⟩)

theorem RowKind.readsBack {stop : Bytes → Option Int} (cmd : Bytes)
    (h : ∀ s line, 0 ∉ line → (f.row s line).2 = stop line) :
    kind.ReadsBack (mcrCommand cmd (readReply stop)) cmd := by
  intro fd lines ending s
  have hend : stop endLine = some 0 := by
    rw [← h s endLine (by decide), RowFormat.row_stop, if_pos rfl]
  have herror : stop errorLine = some (-1) := by
    rw [← h s errorLine (by decide), RowFormat.row_stop, if_neg (by decide), if_pos rfl]
  have hbodies : ∀ body ∈ lines.map (·.body kind),
      LineText body ∧ stop (body ++ ascii "\r\n") = none := by
    rw [List.forall_mem_map]
    intro line _
    obtain ⟨locals, hrow⟩ := line.row_text kind s
    have htext := line.lineText kind
    exact ⟨htext, (h s _ htext.noNul).symm.trans (congrArg Prod.snd hrow)⟩
  obtain ⟨rest, hexec⟩ := mcrCommand_bodies hend herror cmd fd ending hbodies
  obtain ⟨locals, hread⟩ := readRows_texts kind lines ending s
  have hlines := linesRead_conversation fd cmd (lines.map (·.body kind)) ending
    fun body hbody => (hbodies body hbody).1
  rw [List.flatMap_map, List.map_map] at hexec
  rw [List.map_map, List.map_map] at hlines
  refine ⟨rest, locals, hexec, ?_⟩
  rw [← hread]
  exact congrArg (f.readRows · s) hlines

end

theorem InstanceRow.lineText (r : InstanceRow) : LineText (piecesText r.pieces) :=
  lineText_pieces r.inline r.short

/-- A row has a blank, and the lines that stop the reading have none. -/
theorem InstanceRow.noStop (r : InstanceRow) :
    ¬(rowLine r.pieces = endLine ∨ rowLine r.pieces = errorLine) := by
  have hblank : 32 ∈ rowLine r.pieces := by
    apply List.mem_append_left
    exact List.mem_flatMap.mpr ⟨.blank, .tail _ (.head _), .head _⟩
  rintro (h | h)
  · exact absurd (h ▸ hblank) (by decide)
  · exact absurd (h ▸ hblank) (by decide)

theorem InstanceRow.sscanf_row (r : InstanceRow) (l : InstanceLocals) :
    sscanf (rowLine r.pieces) instanceFormat instanceArgs l = (2, ⟨r.ip.text, r.port⟩) := by
  have hscan := sscanf_pieces r.fit r.lineText.noNul instanceArgs l
  have hport : toUInt32 (r.port : Nat) = (r.port : Nat) := by
    have hlt := r.port.isLt
    unfold toUInt32
    omega
  rw [instanceRow_directives] at hscan
  refine hscan.trans ?_
  show ((2 : Int), InstanceLocals.mk r.ip.text (toUInt32 (r.port : Nat))) = _
  rw [hport]

theorem readInstances_rows (ns : NameService) (rows : List InstanceRow) (ending : ReplyEnd)
    (l : InstanceLocals) (el : List McrEntry) :
    readInstances ns (rows.map (rowLine ·.pieces) ++ ending.read.toList) l el =
      el ++ rows.map (·.entry ns) := by
  induction rows generalizing l el with
  | nil =>
    rw [List.map_nil, List.map_nil, List.append_nil]
    cases ending with
    | cut => rfl
    | ended rest => exact if_pos (.inl rfl)
    | refused rest => exact if_pos (.inr rfl)
  | cons r rows ih =>
    rw [List.map_cons, List.cons_append, readInstances, if_neg r.noStop, r.sscanf_row]
    dsimp only
    rw [if_neg (by decide), ih, List.append_assoc]
    rfl

def instanceReads (rows : List InstanceRow) (ending : ReplyEnd) : List (Option Bytes) :=
  (rows.map fun r => some (rowLine r.pieces)) ++ [ending.read]

/-- The same for the instances. A refusal is no error there, and a first socket is lost. -/
def InstancesReadBack (ns : NameService) (m : Client Int) (cmd : Bytes) : Prop :=
  ∀ lost fd (rows : List InstanceRow) (ending : ReplyEnd) l el, ∃ rest,
    m.exec () ({ socket := .ok lost } ::
        reporterAnswers fd (rows.flatMap (rowLine ·.pieces) ++ ending.text)) =
      .done 0 (.socket (.ok lost) :: conversation fd cmd (instanceReads rows ending)) rest ∧
    readInstances ns (linesRead (conversation fd cmd (instanceReads rows ending))) l el =
      el ++ rows.map (·.entry ns)

theorem mcrUpdateInstances_readBack (ns : NameService) :
    InstancesReadBack ns mcrUpdateInstances (ascii "show instances\r\n") := by
  intro lost fd rows ending l el
  let stop : Bytes → Option Int := fun line =>
    if line = endLine ∨ line = errorLine then some 0 else none
  have hbodies : ∀ body ∈ rows.map fun r => piecesText r.pieces,
      LineText body ∧ stop (body ++ ascii "\r\n") = none := by
    rw [List.forall_mem_map]
    intro r _
    exact ⟨r.lineText, if_neg r.noStop⟩
  have hend : stop endLine = some 0 := if_pos (Or.inl rfl)
  have herror : stop errorLine = some 0 := if_pos (Or.inr rfl)
  obtain ⟨rest, hexec⟩ := mcrCommand_bodies hend herror (ascii "show instances\r\n") fd ending
    hbodies
  have hlines := linesRead_conversation fd (ascii "show instances\r\n")
    (rows.map fun r => piecesText r.pieces) ending fun body hbody => (hbodies body hbody).1
  rw [List.flatMap_map, List.map_map] at hexec
  rw [List.map_map, List.map_map] at hlines
  refine ⟨rest, ?_, ?_⟩
  · have herr : ending.err 0 = 0 := by cases ending <;> rfl
    have hsocket : ∀ inputs : List ClientAnswer,
        (clientCall ClientAnswer.socket .socket).exec () ({ socket := .ok lost } :: inputs) =
          .done (.ok lost) [.socket (.ok lost)] inputs := fun _ => rfl
    rw [herr] at hexec
    rw [mcrUpdateInstances, bind_exec, hsocket]
    exact congrArg (Result.prepend [.socket (.ok lost)]) hexec
  · rw [← readInstances_rows ns rows ending l el]
    exact congrArg (readInstances ns · l el) hlines

/-- The replies of the reporter are read back. -/
theorem reporterReplies_readBack (ns : NameService) (op key dotquad : Bytes)
    (port mcrtime n : Nat) :
    topKeysKind.ReadsBack (mcrUpdateTopKeys op dotquad port mcrtime n)
      (topKeysCmd op dotquad port mcrtime n) ∧
    (topClientsKind ns).ReadsBack (mcrUpdateTopClients dotquad port key mcrtime n)
      (topClientsCmd key dotquad port mcrtime n) ∧
    InstancesReadBack ns mcrUpdateInstances (ascii "show instances\r\n") := by
  refine ⟨?_, ?_, mcrUpdateInstances_readBack ns⟩
  · apply RowKind.readsBack
    intro s line _
    rw [topKeysRows.row_stop, if_neg (result_topKeys line), ite_self]
  · apply RowKind.readsBack
    intro s line hnul
    have hresult := result_topClients ns line
    rw [cString_of_nul hnul] at hresult
    rw [(topClientsRows ns).row_stop]
    simp only [RowFormat.skips, Bool.or_eq_true, hresult]
    rfl

end StatsProxy

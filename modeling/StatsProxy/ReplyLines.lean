import StatsProxy.ReadOutcome

/-! The lines of a reply, and what `spMemcacheRead` takes for one: it searches its
buffer for a text, wherever the text stands. -/
namespace StatsProxy
open CString Interaction Program Poller

/-- A line starts at the start of a text or after a line end. -/
def AtLineStart (front : Bytes) : Prop := front = [] ∨ ascii "\r\n" <:+ front

/-- Some line of the text starts with `word`. -/
def LineStarts (word text : Bytes) : Prop :=
  ∃ front back, text = front ++ word ++ back ∧ AtLineStart front

def errorWords : List Bytes := [ascii "ERROR", ascii "CLIENT_ERROR", ascii "SERVER_ERROR"]

/-- The text has a complete line that is `END`. -/
def EndLine (text : Bytes) : Prop := LineStarts endMarker text

/-- The text has an error line. -/
def ErrorLine (text : Bytes) : Prop := ∃ word ∈ errorWords, LineStarts word text

theorem lineStarts_iff {word text : Bytes} :
    LineStarts word text ↔ word <+: text ∨ ascii "\r\n" ++ word <:+: text := by
  constructor
  · rintro ⟨front, back, rfl, rfl | ⟨start, rfl⟩⟩
    · exact Or.inl ⟨back, rfl⟩
    · exact Or.inr ⟨start, back, by simp⟩
  · rintro (⟨back, rfl⟩ | ⟨start, back, rfl⟩)
    · exact ⟨[], back, rfl, Or.inl rfl⟩
    · exact ⟨start ++ ascii "\r\n", back, by simp, Or.inr (List.suffix_append _ _)⟩

instance (word text : Bytes) : Decidable (LineStarts word text) :=
  decidable_of_iff (word <+: text ∨ strstr text (ascii "\r\n" ++ word) = true)
    (by rw [strstr_iff, lineStarts_iff])

instance (text : Bytes) : Decidable (EndLine text) :=
  inferInstanceAs (Decidable (LineStarts endMarker text))

instance (text : Bytes) : Decidable (ErrorLine text) :=
  inferInstanceAs (Decidable (∃ word ∈ errorWords, LineStarts word text))

/-- The call has set `done`, and not for the end of the stream. -/
def DoneByData (r : ReadLoop) (trace : List Event) : Prop := r.done = true ∧ ¬HitEof trace

/-- The call has cancelled the reply, and no system call has. -/
def CancelledByData (r : ReadLoop) (trace : List Event) : Prop :=
  r.err = ECANCELED.code ∧ ¬SelfCancelled trace

/-- The text stands somewhere before the first NUL. -/
def Occurs (word text : Bytes) : Prop := ∃ front back, text = front ++ word ++ back ∧ 0 ∉ front

/-- Each of the two texts stands in the buffer exactly when there is such a line: none
inside a line only, and no such line behind a NUL only. -/
structure OccursAsLine (buffer : Bytes) : Prop where
  ended : Occurs endMarker buffer ↔ EndLine buffer
  error : Occurs statCmdError buffer ↔ ErrorLine buffer

theorem hasEnd_iff {buffer : Bytes} : hasEnd buffer = true ↔ Occurs endMarker buffer :=
  strstr_cString_iff (by decide)

theorem hasError_iff {buffer : Bytes} : hasError buffer = true ↔ Occurs statCmdError buffer :=
  strstr_cString_iff (by decide)

instance (buffer : Bytes) : Decidable (Occurs endMarker buffer) := decidable_of_iff _ hasEnd_iff

instance (buffer : Bytes) : Decidable (Occurs statCmdError buffer) :=
  decidable_of_iff _ hasError_iff

theorem ReadEnd.doneByData_iff {len : Nat} {sk : SocketState} {fd : Int} {r : ReadLoop}
    {w : World} {trace : List Event} (h : ReadEnd len sk fd r w trace) :
    DoneByData r trace ↔ hasEnd (received trace) = true := by
  rw [← h.data, DoneByData]
  cases h.outcome with
  | full _ hdone _ hplain => simp [hdone, hplain.1]
  | ended _ hdone hmarker _ hhit => simp [hdone, hmarker, hhit]
  | eof _ hdone _ hplain hhit => simp [hplain.1, hhit]
  | cancelled _ hdone _ hhit => simp [hdone, hhit]
  | broken _ hdone _ hplain => simp [hdone, hplain.1]

theorem ReadEnd.cancelledByData_iff {len : Nat} {sk : SocketState} {fd : Int} {r : ReadLoop}
    {w : World} {trace : List Event} (h : ReadEnd len sk fd r w trace) :
    CancelledByData r trace ↔ hasError (received trace) = true := by
  have hne : (0 : Nat) ≠ ECANCELED.code := by decide
  rw [← h.data, CancelledByData]
  cases h.outcome with
  | full herr _ _ hplain => simp [herr, hne, hplain.2]
  | ended herr _ _ hplain => simp [herr, hne, hplain]
  | eof herr _ _ hplain => simp [herr, hne, hplain.2]
  | cancelled herr _ hmarker _ hunbroken => simp [herr, hmarker, hunbroken.not_selfCancelled]
  | broken _ _ _ hplain _ _ hself =>
    rw [hplain.2]
    exact iff_of_false (fun hcancel => hcancel.2 (hself hcancel.1)) Bool.false_ne_true

/-- A call tells the end of a reply and an error by their lines exactly when the texts
stand in its buffer as such lines. -/
theorem spMemcacheRead_byLines_iff (w : World) (len : Nat) (sk : SocketState)
    (inputs rest : List Answer) (r : ReadLoop) (trace : List Event) (hfd : -1 ≤ w.bep.fd)
    (h : (spMemcacheRead len sk false).exec w inputs = .done r trace rest) :
    ((DoneByData r trace ↔ EndLine (received trace)) ∧
      (CancelledByData r trace ↔ ErrorLine (received trace))) ↔
      OccursAsLine (received trace) := by
  have hend := read_done hfd h
  rw [hend.doneByData_iff, hend.cancelledByData_iff, hasEnd_iff, hasError_iff]
  exact ⟨fun hlines => ⟨hlines.1, hlines.2⟩, fun hlines => ⟨hlines.ended, hlines.error⟩⟩

def sampleSocketState : SocketState := ⟨0, 0, 10000, 10000⟩

def sampleRead (inputs : List Answer) : Result Event Answer ReadLoop :=
  (spMemcacheRead maxStatSz sampleSocketState false).exec connectedWorld inputs

/-- A reply in two fragments, the second cut inside the terminator. -/
def wholeReplyAnswers : List Answer :=
  [{ read := .ok (ascii "STAT a 1\r\nEN") }, { time := 0 }, { read := .ok (ascii "D\r\n") },
    { time := 0 }]

theorem spMemcacheRead_byLines_iff_whole :
    ∃ r, (sampleRead wholeReplyAnswers) = .done r (sampleRead wholeReplyAnswers).trace [] ∧
      ((DoneByData r (sampleRead wholeReplyAnswers).trace ↔
          EndLine (received (sampleRead wholeReplyAnswers).trace)) ∧
        (CancelledByData r (sampleRead wholeReplyAnswers).trace ↔
          ErrorLine (received (sampleRead wholeReplyAnswers).trace))) := by
  have hdone : sampleRead wholeReplyAnswers =
      .done ⟨ascii "STAT a 1\r\nEND\r\n", 0, true, ⟨0, 15, 10000, 10000⟩⟩
        (sampleRead wholeReplyAnswers).trace [] := by
    decide +kernel
  refine ⟨_, hdone, (spMemcacheRead_byLines_iff connectedWorld maxStatSz sampleSocketState
    wholeReplyAnswers [] _ _ (by decide) hdone).mpr ⟨?_, ?_⟩⟩
  · decide +kernel
  · decide +kernel

/-- A value that ends in `END`, and a name that contains `ERROR`. -/
def endingValueAnswers : List Answer :=
  [{ read := .ok (ascii "STAT x xEND\r\n") }, { time := 0 }]

def errorNameAnswers : List Answer :=
  [{ read := .ok (ascii "STAT ERRORS 3\r\n") }, { time := 0 }]

/-- The first ends the reply, the second cancels it, and neither is such a line. -/
theorem spMemcacheRead_mistakes :
    (∃ r trace, sampleRead endingValueAnswers = .done r trace [] ∧ DoneByData r trace ∧
      ¬EndLine (received trace)) ∧
    (∃ r trace, sampleRead errorNameAnswers = .done r trace [] ∧ CancelledByData r trace ∧
      ¬ErrorLine (received trace)) := by
  constructor
  · refine ⟨⟨ascii "STAT x xEND\r\n", 0, true, ⟨0, 13, 10000, 10000⟩⟩,
      [.read maxStatSz (.ok (ascii "STAT x xEND\r\n")), .gettimeofday 0],
      by decide +kernel, ⟨rfl, ?_⟩, by decide +kernel⟩
    simp [HitEof, ascii]
  · refine ⟨⟨ascii "STAT ERRORS 3\r\n", ECANCELED.code, false, ⟨0, 0, 10000, 10000⟩⟩,
      [.read maxStatSz (.ok (ascii "STAT ERRORS 3\r\n")), .gettimeofday 0, .close 3, .setFd (-1),
        .setLastError ECANCELED.code], by decide +kernel, ⟨rfl, ?_⟩, by decide +kernel⟩
    simp [SelfCancelled]

end StatsProxy

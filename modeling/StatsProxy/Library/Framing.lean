import Mathlib.Data.List.Infix

/-! Frames in a stream. A frame ends at the next stop, which is not part of it. A reader
that has seen the front of a stream knows the frames that are complete there, and what it
sees later does not change them. -/
namespace StatsProxy.Framing

variable {α : Type} [DecidableEq α] {stop : α} {frame rest seen stream : List α}

/-- The complete frames of a stream, without their stops. -/
def frames (stop : α) : List α → List (List α)
  | [] => []
  | a :: rest =>
    if a = stop then [] :: frames stop rest
    else match frames stop rest with
      | [] => []
      | frame :: more => (a :: frame) :: more

theorem frames_stop (rest : List α) : frames stop (stop :: rest) = [] :: frames stop rest :=
  if_pos rfl

/-- Without a stop no frame is complete. -/
theorem frames_unfinished (h : stop ∉ frame) : frames stop frame = [] := by
  induction frame with
  | nil => rfl
  | cons a frame ih =>
    rw [List.mem_cons, not_or] at h
    rw [frames, if_neg (Ne.symm h.1), ih h.2]

theorem frames_frame (h : stop ∉ frame) (rest : List α) :
    frames stop (frame ++ stop :: rest) = frame :: frames stop rest := by
  induction frame with
  | nil => exact frames_stop rest
  | cons a frame ih =>
    rw [List.mem_cons, not_or] at h
    rw [List.cons_append, frames, if_neg (Ne.symm h.1), ih h.2]

/-- Frames that are sent one after the other are read back. -/
theorem frames_flatMap {sent : List (List α)} (h : ∀ frame ∈ sent, stop ∉ frame)
    (rest : List α) :
    frames stop (sent.flatMap (· ++ [stop]) ++ rest) = sent ++ frames stop rest := by
  induction sent with
  | nil => rfl
  | cons frame sent ih =>
    rw [List.forall_mem_cons] at h
    rw [List.flatMap_cons, List.append_assoc, List.append_assoc, List.singleton_append,
      frames_frame h.1, ih h.2, List.cons_append]

/-- More of the stream only adds frames. -/
theorem frames_front (h : seen <+: stream) : frames stop seen <+: frames stop stream := by
  induction seen generalizing stream with
  | nil => exact List.nil_prefix
  | cons a seen ih =>
    obtain ⟨more, rfl⟩ := h
    have hrest := ih (List.prefix_append seen more)
    rw [List.cons_append, frames, frames]
    split
    · exact List.cons_prefix_cons.mpr ⟨rfl, hrest⟩
    · generalize frames stop (seen ++ more) = all at hrest ⊢
      cases hseen : frames stop seen with
      | nil => exact List.nil_prefix
      | cons frame known =>
        rw [hseen] at hrest
        obtain ⟨later, rfl⟩ := hrest
        exact List.prefix_append ((a :: frame) :: known) later

end StatsProxy.Framing

import SmbDiscover.Lib.Fields

/-!
# Messages on a byte channel

A sender makes one write for every message, and each write accepts some number of
units from the head of its buffer. The receiver sees the accepted units one after
the other. If no write accepts anything before the earlier messages are whole, then
what the receiver has is at every moment a prefix of the messages one after the
other. A receiver of messages that end in a separator has a message when it has its
separator.
-/

namespace ChannelText
variable {α : Type*}

/-- A call that offers a buffer and of which a number of elements is accepted. -/
structure Write (α : Type*) where
  buffer : List α
  accepted : ℕ

namespace Write

def taken (w : Write α) : List α := w.buffer.take w.accepted

def Whole (w : Write α) : Prop := w.buffer.length ≤ w.accepted

/-- The later write takes its turn: it waits for the earlier message to be whole. -/
def InTurn (w later : Write α) : Prop := w.Whole ∨ later.taken = []

theorem taken_of_whole (w : Write α) (h : w.Whole) : w.taken = w.buffer :=
  List.take_of_length_le h

theorem taken_prefix_buffer (w : Write α) : w.taken <+: w.buffer := List.take_prefix _ _

end Write

/-- What the reader gets. -/
def received (ws : List (Write α)) : List α := ws.flatMap Write.taken

def messages (ws : List (Write α)) : List α := ws.flatMap Write.buffer

theorem received_append (ws later : List (Write α)) :
    received (ws ++ later) = received ws ++ received later := List.flatMap_append

theorem received_mono (ws ws' : List (Write α)) (h : ws <+: ws') : received ws <+: received ws' := by
  obtain ⟨later, rfl⟩ := h
  rw [received_append]
  exact List.prefix_append _ _

theorem received_eq_nil (ws : List (Write α)) (h : ∀ w ∈ ws, w.taken = []) : received ws = [] :=
  List.flatMap_eq_nil_iff.mpr h

theorem received_prefix_messages (ws : List (Write α)) (h : ws.Pairwise Write.InTurn) :
    received ws <+: messages ws := by
  induction ws with
  | nil => exact List.prefix_rfl
  | cons w rest ih =>
    rw [List.pairwise_cons] at h
    show w.taken ++ received rest <+: w.buffer ++ messages rest
    by_cases hw : w.Whole
    · rw [Write.taken_of_whole w hw]
      exact (List.prefix_append_right_inj w.buffer).mpr (ih h.2)
    · have hrest : received rest = [] := received_eq_nil rest fun w' hw' =>
        (h.1 w' hw').resolve_left hw
      rw [hrest, List.append_nil]
      exact (Write.taken_prefix_buffer w).trans (List.prefix_append _ _)

theorem received_so_far (ws now : List (Write α)) (h : ws.Pairwise Write.InTurn)
    (hnow : now <+: ws) : received now <+: messages ws :=
  (received_mono now ws hnow).trans (received_prefix_messages ws h)

/-! ### Complete messages -/

section Frames
variable [DecidableEq α]

/-- The pieces that a separator ends; what is behind the last separator is no frame. -/
def frames (sep : α) (s : List α) : List (List α) := (s.splitOn sep).dropLast

theorem frames_of_notMem (sep : α) (x : List α) (h : sep ∉ x) : frames sep x = [] := by
  rw [frames, List.splitOn_eq_singleton h]
  rfl

theorem frames_cut (sep : α) (x rest : List α) (h : sep ∉ x) :
    frames sep (x ++ sep :: rest) = x :: frames sep rest := by
  rw [frames, List.splitOn_append_cons_self_of_not_mem h,
    List.dropLast_cons_of_ne_nil (List.splitOn_ne_nil sep rest), frames]

/-- More units never change the messages that are complete. -/
theorem frames_mono (sep : α) (s t : List α) (h : s <+: t) : frames sep s <+: frames sep t := by
  induction s using ListText.sepInduction sep generalizing t with
  | last x hx =>
    rw [frames_of_notMem sep x hx]
    exact List.nil_prefix
  | step x rest hx ih =>
    obtain ⟨later, rfl⟩ := h
    rw [List.append_assoc, List.cons_append, frames_cut sep x rest hx, frames_cut sep x _ hx]
    exact (List.prefix_cons_inj x).mpr (ih _ (List.prefix_append rest later))

end Frames

end ChannelText

import SmbDiscover.Lib.Framing

/-!
# A buffered stream over a descriptor

A program prints texts through a buffered stream, and also writes to the descriptor
below it, around the stream. A stream with full buffering holds its texts back as long
as they fit; a stream with line buffering passes each line on. What waits in the
buffer at the exit reaches the descriptor unless it is closed by then.
-/

namespace Stdio
open ChannelText
variable {α : Type*}

inductive Op (α : Type*) where
  | print (text : List α)
  | write (w : Write α)
  | close

inductive Buffering where
  | full (capacity : ℕ)
  | line

structure Stream (α : Type*) where
  buffer : List α
  seen : List α
  isOpen : Bool

namespace Stream

def start : Stream α := ⟨[], [], true⟩

def flush (st : Stream α) : Stream α :=
  { st with buffer := [], seen := if st.isOpen then st.seen ++ st.buffer else st.seen }

def step (mode : Buffering) (st : Stream α) : Op α → Stream α
  | .print text =>
    match mode with
    | .full capacity =>
      if (st.buffer ++ text).length ≤ capacity then { st with buffer := st.buffer ++ text }
      else flush { st with buffer := st.buffer ++ text }
    | .line => flush { st with buffer := st.buffer ++ text }
  | .write w => if st.isOpen then { st with seen := st.seen ++ w.taken } else st
  | .close => { st with isOpen := false }

def run (mode : Buffering) (st : Stream α) (ops : List (Op α)) : Stream α := ops.foldl (step mode) st

end Stream

/-- What the descriptor has got when the program exits behind these operations. -/
def seenAtExit (mode : Buffering) (ops : List (Op α)) : List α :=
  (Stream.start.run mode ops).flush.seen

namespace Op

def text : Op α → List α
  | .print text => text
  | _ => []

def isPrint : Op α → Bool
  | .print _ => true
  | _ => false

def isClose : Op α → Bool
  | .close => true
  | _ => false

end Op

def printed (ops : List (Op α)) : List α := ops.flatMap Op.text

def closes (ops : List (Op α)) : Bool := ops.any Op.isClose

/-- The writes before the first close. -/
def direct : List (Op α) → List (Write α)
  | [] => []
  | .print _ :: rest => direct rest
  | .write w :: rest => w :: direct rest
  | .close :: _ => []

/-- Texts and writes before the first close, in the order of the program. -/
def passed : List (Op α) → List α
  | [] => []
  | .print text :: rest => text ++ passed rest
  | .write w :: rest => w.taken ++ passed rest
  | .close :: _ => []

theorem run_cons (mode : Buffering) (op : Op α) (rest : List (Op α)) (st : Stream α) :
    st.run mode (op :: rest) = (st.step mode op).run mode rest := rfl

theorem run_closed (mode : Buffering) (ops : List (Op α)) (st : Stream α) (h : st.isOpen = false) :
    (st.run mode ops).seen = st.seen ∧ (st.run mode ops).isOpen = false := by
  induction ops generalizing st with
  | nil => exact ⟨rfl, h⟩
  | cons op rest ih =>
    have hstep : (st.step mode op).seen = st.seen ∧ (st.step mode op).isOpen = false := by
      cases op with
      | print text =>
        cases mode with
        | full capacity =>
          simp only [Stream.step]
          split
          · exact ⟨rfl, h⟩
          · simp [Stream.flush, h]
        | line => simp [Stream.step, Stream.flush, h]
      | write w => simp [Stream.step, h]
      | close => exact ⟨rfl, rfl⟩
    obtain ⟨hseen, hopen⟩ := ih _ hstep.2
    exact ⟨hseen.trans hstep.1, hopen⟩

theorem run_full (capacity : ℕ) (ops : List (Op α)) (st : Stream α) (hopen : st.isOpen = true)
    (hfit : (st.buffer ++ printed ops).length ≤ capacity) :
    (st.run (.full capacity) ops).seen = st.seen ++ received (direct ops) ∧
      (st.run (.full capacity) ops).isOpen = !closes ops ∧
      (closes ops = false →
        (st.run (.full capacity) ops).buffer = st.buffer ++ printed ops) := by
  induction ops generalizing st with
  | nil =>
    refine ⟨?_, hopen, fun _ => ?_⟩
    · exact (List.append_nil _).symm
    · exact (List.append_nil _).symm
  | cons op rest ih =>
    cases op with
    | print text =>
      have hsplit : st.buffer ++ printed (.print text :: rest) =
          st.buffer ++ text ++ printed rest := by
        rw [List.append_assoc]
        rfl
      rw [hsplit] at hfit ⊢
      have hroom : (st.buffer ++ text).length ≤ capacity := by
        rw [List.length_append] at hfit
        omega
      have hstep : st.step (.full capacity) (.print text) =
          { st with buffer := st.buffer ++ text } := if_pos hroom
      rw [run_cons, hstep]
      exact ih { st with buffer := st.buffer ++ text } hopen hfit
    | write w =>
      have hstep : st.step (.full capacity) (.write w) = { st with seen := st.seen ++ w.taken } :=
        if_pos hopen
      obtain ⟨hseen, hnext⟩ := ih { st with seen := st.seen ++ w.taken } hopen hfit
      rw [List.append_assoc] at hseen
      rw [run_cons, hstep]
      exact ⟨hseen, hnext⟩
    | close =>
      obtain ⟨hseen, hclosed⟩ := run_closed (.full capacity) rest { st with isOpen := false } rfl
      refine ⟨?_, hclosed, ?_⟩
      · rw [direct, received, List.flatMap_nil, List.append_nil]
        exact hseen
      · intro h
        cases h

theorem run_line (ops : List (Op α)) (st : Stream α) (hopen : st.isOpen = true)
    (hempty : st.buffer = []) : (st.run .line ops).flush.seen = st.seen ++ passed ops := by
  induction ops generalizing st with
  | nil => simp [Stream.run, Stream.flush, hopen, hempty, passed]
  | cons op rest ih =>
    cases op with
    | print text =>
      have hnext := ih (st.step .line (.print text)) hopen rfl
      have hseen : (st.step .line (.print text)).seen = st.seen ++ text := by
        simp [Stream.step, Stream.flush, hopen, hempty]
      rw [hseen, List.append_assoc] at hnext
      exact hnext
    | write w =>
      have hstep : st.step .line (.write w) = { st with seen := st.seen ++ w.taken } :=
        if_pos hopen
      have hnext := ih { st with seen := st.seen ++ w.taken } hopen hempty
      rw [List.append_assoc] at hnext
      rw [run_cons, hstep]
      exact hnext
    | close =>
      obtain ⟨hseen, hclosed⟩ := run_closed .line rest { st with isOpen := false } rfl
      have hshut : ((st.step .line .close).run .line rest).isOpen = false := hclosed
      show ((st.step .line .close).run .line rest).flush.seen = st.seen ++ []
      rw [List.append_nil, Stream.flush, hshut]
      exact hseen

/-- With full buffering the texts come behind all writes, and only when the descriptor
is still open. -/
theorem seenAtExit_full (capacity : ℕ) (ops : List (Op α))
    (hfit : (printed ops).length ≤ capacity) :
    seenAtExit (.full capacity) ops =
      received (direct ops) ++ if closes ops then [] else printed ops := by
  obtain ⟨hseen, hopen, hbuffer⟩ := run_full capacity ops Stream.start rfl hfit
  unfold seenAtExit Stream.flush
  rw [hopen, hseen]
  cases hclose : closes ops with
  | true => simp [Stream.start]
  | false =>
    rw [hbuffer hclose]
    simp [Stream.start]

theorem seenAtExit_line (ops : List (Op α)) : seenAtExit .line ops = passed ops :=
  run_line ops Stream.start rfl rfl

theorem passed_of_direct (ops : List (Op α)) (w : Write α) (h : w ∈ direct ops) :
    w.taken ⊆ passed ops := by
  induction ops with
  | nil => cases h
  | cons op rest ih =>
    cases op with
    | print text => exact List.subset_append_of_subset_right _ (ih h)
    | write w' =>
      rcases List.mem_cons.mp h with heq | hrest
      · rw [heq]
        exact List.subset_append_left ..
      · exact List.subset_append_of_subset_right _ (ih hrest)
    | close => cases h

theorem direct_filter (ops : List (Op α)) :
    direct (ops.filter fun op => !op.isPrint) = direct ops := by
  induction ops with
  | nil => rfl
  | cons op rest ih =>
    cases op with
    | print text => exact ih
    | write w => exact congrArg (w :: ·) ih
    | close => rfl

theorem closes_filter (ops : List (Op α)) :
    closes (ops.filter fun op => !op.isPrint) = closes ops := by
  induction ops with
  | nil => rfl
  | cons op rest ih =>
    cases op with
    | print text => exact ih
    | write w => exact ih
    | close => rfl

end Stdio

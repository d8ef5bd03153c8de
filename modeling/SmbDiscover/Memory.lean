import SmbDiscover.Lib.Heap
import SmbDiscover.Lib.CString

/-!
# The memory of cJSON (cJSON.h:36-76, cJSON.c:95-106)

What `cJSON_malloc` gives out. A byte stored behind a block, a pointer read behind an
array, a read of a byte that was never stored, and a use or a second free of a freed
cell are all `none`.
-/

namespace SmbDiscover
open CText

/-! ### Nodes -/

/-- The low byte of `type`, with `unset` for the 0 of a new node. -/
inductive Kind where
  | unset
  | cFalse
  | cTrue
  | cNull
  | number
  | string
  | array
  | object
  deriving DecidableEq

/-- A `cJSON`. `number` is the text that `parse_number` read, in place of the floating
point `valuedouble` and the `valueint` that are computed from it. -/
structure Fields where
  next : Option ℕ
  prev : Option ℕ
  child : Option ℕ
  kind : Kind
  isReference : Bool
  stringIsConst : Bool
  valuestring : Option ℕ
  number : List Byte
  string : Option ℕ

/-- A node behind its `memset`. -/
def Fields.zero : Fields := ⟨none, none, none, .unset, false, false, none, [], none⟩

/-! ### Blocks -/

/-- A block of bytes, of which some are stored, an array of pointers, or a node. -/
inductive Cell where
  | text (block : List (Option Byte))
  | entries (pointers : List (Option ℕ))
  | node (item : Fields)

abbrev Memory := Heap Cell

def storeBytes (block : List (Option Byte)) (off : ℕ) (bs : List Byte) :
    Option (List (Option Byte)) :=
  if off + bs.length ≤ block.length then
    some (block.take off ++ bs.map some ++ block.drop (off + bs.length))
  else none

def loadString : List (Option Byte) → Option (List Byte)
  | [] => none
  | none :: _ => none
  | some b :: rest => if b = 0 then some [] else (loadString rest).map (b :: ·)

def store (h : Memory) (out off : ℕ) (bs : List Byte) : Option Memory :=
  match h.cell out with
  | some (.text block) => (storeBytes block off bs).bind fun block => h.write out (.text block)
  | _ => none

/-- The string at a pointer, as `strlen`, `strcpy` and `memcpy` read it. -/
def load (h : Memory) (ptr : ℕ) : Option (List Byte) :=
  match h.cell ptr with
  | some (.text block) => loadString block
  | _ => none

def setEntry (h : Memory) (entries i : ℕ) (ret : Option ℕ) : Option Memory :=
  match h.cell entries with
  | some (.entries pointers) =>
    if i < pointers.length then h.write entries (.entries (pointers.set i ret)) else none
  | _ => none

def getEntry (h : Memory) (entries i : ℕ) : Option (Option ℕ) :=
  match h.cell entries with
  | some (.entries pointers) => pointers[i]?
  | _ => none

def mallocText (ok : ℕ → Bool) (h : Memory) (size : ℕ) : Option ℕ × Memory :=
  h.malloc ok (.text (List.replicate size none))

/-- `malloc` of an array of pointers, and its `memset`. -/
def mallocEntries (ok : ℕ → Bool) (h : Memory) (numentries : ℕ) : Option ℕ × Memory :=
  h.malloc ok (.entries (List.replicate numentries none))

/-! ### Nodes in memory -/

def newItem (ok : ℕ → Bool) (h : Memory) : Option ℕ × Memory := h.malloc ok (.node .zero)

def getNode (h : Memory) (c : ℕ) : Option Fields :=
  match h.cell c with
  | some (.node item) => some item
  | _ => none

def setNode (h : Memory) (c : ℕ) (g : Fields → Fields) : Option Memory :=
  (getNode h c).bind fun item => h.write c (.node (g item))

/-- A `cJSON_free` behind a check for NULL. -/
def freeIf (h : Memory) : Option ℕ → Option Memory
  | none => some h
  | some ptr => h.free ptr

theorem storeBytes_at (w bs : List Byte) (junk : List (Option Byte)) (hfit : bs.length ≤ junk.length) :
    storeBytes (w.map some ++ junk) w.length bs =
      some ((w ++ bs).map some ++ junk.drop bs.length) := by
  have hlen : (w.map some).length = w.length := List.length_map ..
  unfold storeBytes
  rw [if_pos (by rw [List.length_append, hlen]; omega), List.take_left' hlen, List.map_append,
    ← List.drop_drop, List.drop_left' hlen]

theorem loadString_text (text : List Byte) (junk : List (Option Byte)) (hnul : 0 ∉ text) :
    loadString ((text ++ [0]).map some ++ junk) = some text := by
  induction text with
  | nil => rfl
  | cons b text ih =>
    rw [List.mem_cons, not_or] at hnul
    simp only [List.cons_append, List.map_cons, loadString, if_neg (Ne.symm hnul.1), ih hnul.2,
      Option.map_some]

variable {h h' : Memory} {own : Multiset (ℕ × Cell)} {c : ℕ} {item : Fields}

theorem getNode_spec (owns : h.Owns h' ({(c, .node item)} + own)) : getNode h' c = some item := by
  unfold getNode
  rw [owns.read]

theorem setNode_spec (g : Fields → Fields) (owns : h.Owns h' ({(c, .node item)} + own)) :
    ∃ h'', setNode h' c g = some h'' ∧ h.Owns h'' ({(c, .node (g item))} + own) ∧
      h''.next = h'.next := by
  unfold setNode
  rw [getNode_spec owns]
  exact owns.write (.node (g item))

end SmbDiscover

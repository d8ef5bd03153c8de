import SmbDiscover.PlainPrint

/-!
# Nodes in memory (cJSON.c:45-66, 95-131, 1586-1846)

A node is a `cJSON` cell, its children a doubly linked list that starts at `child`. The
functions follow the source pointer by pointer. A loop over `next` meets at most
`h.next` cells, as many as were given out: one that would run longer is in a cycle and
is `none`, like a pointer that is followed into a cell that is not a live node.
-/

namespace SmbDiscover
open CText

namespace Nodes

/-! ### `cJSON_Delete` -/

/-- The loop of `cJSON_Delete` over `next` (cJSON.c:109-131). -/
def deleteWithin : ℕ → Option ℕ → Memory → Option Memory
  | _, none, h => some h
  | 0, some _, _ => none
  | n + 1, some c, h => do
    let item ← getNode h c
    let h ← if item.isReference then pure h else deleteWithin n item.child h
    let h ← if item.isReference then pure h else freeIf h item.valuestring
    let h ← if item.stringIsConst then pure h else freeIf h item.string
    let h ← h.free c
    deleteWithin n item.next h

def delete (c : Option ℕ) (h : Memory) : Option Memory := deleteWithin h.next c h

/-! ### Reading a list -/

/-- The count of `cJSON_GetArraySize` from one child on. -/
def sizeWithin (h : Memory) : ℕ → Option ℕ → Option ℕ
  | _, none => some 0
  | 0, some _ => none
  | n + 1, some c => do
    let item ← getNode h c
    let i ← sizeWithin h n item.next
    pure (i + 1)

/-- cJSON.c:1588-1598 -/
def getArraySize (array : ℕ) (h : Memory) : Option ℕ := do
  let a ← getNode h array
  sizeWithin h h.next a.child

/-- `while (c && (which > 0))`, from `c` on. -/
def walk (h : Memory) : ℕ → Option ℕ → Option (Option ℕ)
  | 0, c => some c
  | _ + 1, none => some none
  | which + 1, some c => do
    let item ← getNode h c
    walk h which item.next

/-- cJSON.c:1600-1610; a negative index is the first child. -/
def getArrayItem (array : Option ℕ) (item : ℤ) (h : Memory) : Option (Option ℕ) :=
  match array with
  | none => some none
  | some array => do
    let a ← getNode h array
    walk h item.toNat a.child

def tolower (c : Byte) : Byte := if 65 ≤ c.val ∧ c.val ≤ 90 then c + 32 else c

/-- The loop of `cJSON_strcasecmp` over two strings without their terminators. -/
def strcasecmpBytes : List Byte → List Byte → ℤ
  | [], [] => 0
  | [], c2 :: _ => 0 - (tolower c2).val
  | c1 :: _, [] => (tolower c1).val
  | c1 :: s1, c2 :: s2 =>
    if tolower c1 = tolower c2 then strcasecmpBytes s1 s2
    else (tolower c1).val - (tolower c2).val

/-- cJSON.c:43-63; a NULL name equals no string. -/
def strcasecmp : Option (List Byte) → Option (List Byte) → ℤ
  | none, none => 0
  | none, some _ => 1
  | some _, none => 1
  | some s1, some s2 => strcasecmpBytes s1 s2

def loadIf (h : Memory) : Option ℕ → Option (Option (List Byte))
  | none => some none
  | some ptr => (load h ptr).map some

/-- The loop over the members up to the name, with its counter `i`. -/
def findWithin (h : Memory) (string : List Byte) : ℕ → ℕ → Option ℕ → Option (ℕ × Option ℕ)
  | _, i, none => some (i, none)
  | 0, _, some _ => none
  | n + 1, i, some c => do
    let item ← getNode h c
    let name ← loadIf h item.string
    if strcasecmp name (some string) = 0 then pure (i, some c)
    else findWithin h string n (i + 1) item.next

/-- cJSON.c:1612-1620 -/
def getObjectItem (object : Option ℕ) (string : CStr) (h : Memory) : Option (Option ℕ) :=
  match object with
  | none => some none
  | some object => do
    let o ← getNode h object
    let r ← findWithin h string.bytes h.next 0 o.child
    pure r.2

/-! ### Editing a list -/

/-- `while (c->next)` of `cJSON_AddItemToArray`. -/
def lastWithin (h : Memory) : ℕ → ℕ → Option ℕ
  | 0, _ => none
  | n + 1, c => do
    let item ← getNode h c
    match item.next with
    | none => pure c
    | some c => lastWithin h n c

/-- `p->next = next`, skipped for a NULL `p`. -/
def setNext (h : Memory) (p next : Option ℕ) : Option Memory :=
  match p with
  | none => some h
  | some p => setNode h p fun item => { item with next := next }

def setPrev (h : Memory) (p prev : Option ℕ) : Option Memory :=
  match p with
  | none => some h
  | some p => setNode h p fun item => { item with prev := prev }

def setChild (h : Memory) (array : ℕ) (child : Option ℕ) : Option Memory :=
  setNode h array fun item => { item with child := child }

/-- cJSON.c:1628-1632 -/
def suffixObject (prev item : ℕ) (h : Memory) : Option Memory := do
  let h ← setNext h (some prev) (some item)
  setPrev h (some item) (some prev)

/-- cJSON.c:1650-1671 -/
def addItemToArray (array : ℕ) (item : Option ℕ) (h : Memory) : Option Memory := do
  let a ← getNode h array
  match item with
  | none => pure h
  | some item =>
    match a.child with
    | none => setChild h array (some item)
    | some c => do
      let c ← lastWithin h h.next c
      suffixObject c item h

/-- cJSON.c:1673-1688; the name is NULL when its copy fails. -/
def addItemToObject (ok : ℕ → Bool) (object : ℕ) (string : CStr) (item : Option ℕ) (h : Memory) :
    Option Memory :=
  match item with
  | none => some h
  | some item => do
    let i ← getNode h item
    let h ← freeIf h i.string
    let (string, h) ← Plain.strdup ok string.bytes h
    let h ← setNode h item fun i => { i with string := string }
    addItemToArray object (some item) h

/-- cJSON.c:1716-1746 -/
def detachItemFromArray (array : ℕ) (which : ℤ) (h : Memory) : Option (Option ℕ × Memory) := do
  let a ← getNode h array
  match ← walk h which.toNat a.child with
  | none => pure (none, h)
  | some c =>
    let item ← getNode h c
    let h ← setNext h item.prev item.next
    let item ← getNode h c
    let h ← setPrev h item.next item.prev
    let item ← getNode h c
    let a ← getNode h array
    let h ← (if some c = a.child then setChild h array item.next else some h : Option Memory)
    let h ← setNode h c fun item => { item with prev := none, next := none }
    pure (some c, h)

/-- cJSON.c:1748-1751 -/
def deleteItemFromArray (array : ℕ) (which : ℤ) (h : Memory) : Option Memory := do
  let (c, h) ← detachItemFromArray array which h
  delete c h

/-- cJSON.c:1753-1768 -/
def detachItemFromObject (object : ℕ) (string : CStr) (h : Memory) :
    Option (Option ℕ × Memory) := do
  let o ← getNode h object
  match ← findWithin h string.bytes h.next 0 o.child with
  | (i, some _) => detachItemFromArray object i h
  | (_, none) => pure (none, h)

/-- cJSON.c:1770-1773 -/
def deleteItemFromObject (object : ℕ) (string : CStr) (h : Memory) : Option Memory := do
  let (c, h) ← detachItemFromObject object string h
  delete c h

/-- The last `if` of the two functions below: what came before `c` leads to `newitem`. -/
def linkPrev (array c newitem : ℕ) (h : Memory) : Option Memory := do
  let a ← getNode h array
  if some c = a.child then setChild h array (some newitem)
  else do
    let n ← getNode h newitem
    let p ← n.prev
    setNext h (some p) (some newitem)

/-- cJSON.c:1776-1800; behind the last child it is an append. -/
def insertItemInArray (array : ℕ) (which : ℤ) (newitem : ℕ) (h : Memory) : Option Memory := do
  let a ← getNode h array
  match ← walk h which.toNat a.child with
  | none => addItemToArray array (some newitem) h
  | some c =>
    let h ← setNext h (some newitem) (some c)
    let item ← getNode h c
    let h ← setPrev h (some newitem) item.prev
    let h ← setPrev h (some c) (some newitem)
    linkPrev array c newitem h

/-- cJSON.c:1802-1830 -/
def replaceItemInArray (array : ℕ) (which : ℤ) (newitem : ℕ) (h : Memory) : Option Memory := do
  let a ← getNode h array
  match ← walk h which.toNat a.child with
  | none => pure h
  | some c =>
    let item ← getNode h c
    let h ← setNext h (some newitem) item.next
    let item ← getNode h c
    let h ← setPrev h (some newitem) item.prev
    let n ← getNode h newitem
    let h ← setPrev h n.next (some newitem)
    let h ← linkPrev array c newitem h
    let h ← setNode h c fun item => { item with next := none, prev := none }
    delete (some c) h

/-- cJSON.c:1832-1846; the name that `newitem` has is not freed. -/
def replaceItemInObject (ok : ℕ → Bool) (object : ℕ) (string : CStr) (newitem : ℕ) (h : Memory) :
    Option Memory := do
  let o ← getNode h object
  match ← findWithin h string.bytes h.next 0 o.child with
  | (_, none) => pure h
  | (i, some _) =>
    let (string, h) ← Plain.strdup ok string.bytes h
    let h ← setNode h newitem fun n => { n with string := string }
    replaceItemInArray object i newitem h

/-! ### Creating nodes -/

/-- `cJSON_CreateNull`, `CreateTrue`, `CreateFalse`, `CreateBool`, `CreateArray` and
`CreateObject`: one node of the kind. -/
def create (ok : ℕ → Bool) (kind : Kind) (h : Memory) : Option (Option ℕ × Memory) :=
  match newItem ok h with
  | (none, h) => some (none, h)
  | (some c, h) => do
    let h ← setNode h c fun item => { item with kind := kind }
    pure (some c, h)

/-- cJSON.c:1906-1921; the node goes back when the copy of the string fails. -/
def createString (ok : ℕ → Bool) (string : CStr) (h : Memory) : Option (Option ℕ × Memory) :=
  match newItem ok h with
  | (none, h) => some (none, h)
  | (some c, h) => do
    let h ← setNode h c fun item => { item with kind := .string }
    let (valuestring, h) ← Plain.strdup ok string.bytes h
    let h ← setNode h c fun item => { item with valuestring := valuestring }
    match valuestring with
    | some _ => pure (some c, h)
    | none => do
      let h ← delete (some c) h
      pure (none, h)

end Nodes
end SmbDiscover

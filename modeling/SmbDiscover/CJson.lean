import SmbDiscover.Lib.CString

/-!
# cJSON trees (cJSON.c)

The three node types that the utilities build, the two append functions
(`cJSON_AddItemToArray`, `cJSON_AddItemToObject`) on the child list of a node, and
`cJSON_PrintUnformatted`. A NULL item is `none`, which is what `create` gives when the
allocation fails; both append functions ignore it.
-/

namespace SmbDiscover
open CText

/-- The nodes with `type` `cJSON_String`, `cJSON_Array` and `cJSON_Object`. -/
inductive CJson where
  | string (valuestring : CStr)
  | array (child : List CJson)
  | object (child : List (CStr × CJson))

namespace CJson

abbrev Members := List (CStr × CJson)

/-- The append behind the last child (cJSON.c:1650-1671). -/
def addItemToArray {α : Type} (child : List α) : Option α → List α
  | none => child
  | some item => child ++ [item]

/-- cJSON.c:1673-1688: the item is appended under a copy of the name. The copy is taken to
succeed; without it the code appends the item under a NULL name. -/
def addItemToObject (child : Members) (name : CStr) (item : Option CJson) : Members :=
  addItemToArray child (item.map fun i => (name, i))

/-- `cJSON_CreateString`, `cJSON_CreateArray` and `cJSON_CreateObject` (cJSON.c:1906-1944):
NULL when the allocation fails. -/
def create {α : Type} (allocated : Bool) (item : α) : Option α :=
  if allocated then some item else none

/-- The macro of cJSON.h:150. -/
def addStringToObject (allocated : Bool) (child : Members) (name s : CStr) : Members :=
  addItemToObject child name (create allocated (.string s))

/-- No member of the object has this name. -/
def Lacks (child : Members) (name : CStr) : Prop := ∀ m ∈ child, m.1 ≠ name

@[simp] theorem create_true {α : Type} (item : α) : create true item = some item := rfl

@[simp] theorem create_false {α : Type} (item : α) : create false item = none := rfl

@[simp] theorem addItemToArray_some {α : Type} (child : List α) (item : α) :
    addItemToArray child (some item) = child ++ [item] := rfl

@[simp] theorem addItemToArray_none {α : Type} (child : List α) :
    addItemToArray child none = child := rfl

@[simp] theorem addItemToObject_some (child : Members) (name : CStr) (item : CJson) :
    addItemToObject child name (some item) = child ++ [(name, item)] := rfl

@[simp] theorem addItemToObject_none (child : Members) (name : CStr) :
    addItemToObject child name none = child := rfl

@[simp] theorem lacks_nil (name : CStr) : Lacks [] name := by
  intro m hm
  cases hm

@[simp] theorem lacks_append (child : Members) (key name : CStr) (item : CJson) :
    Lacks (child ++ [(key, item)]) name ↔ Lacks child name ∧ key ≠ name := by
  simp only [Lacks, List.forall_mem_append, List.forall_mem_singleton]

theorem lacks_addString (allocated : Bool) (child : Members) (key name s : CStr)
    (h : Lacks child name) (hne : key ≠ name) :
    Lacks (addStringToObject allocated child key s) name := by
  cases allocated with
  | false => exact h
  | true => exact (lacks_append child key name (.string s)).mpr ⟨h, hne⟩

theorem not_lacks_addString (child : Members) (name s : CStr) :
    ¬ Lacks (addStringToObject true child name s) name := by
  intro h
  exact h _ (List.mem_append_right child (List.mem_singleton.mpr rfl)) rfl

/-! ### Printing (cJSON.c:618-760, 1052-1216, 1313-1585) -/

/-- One digit of `%04x` (cJSON.c:750). -/
def hexDigit (n : ℕ) : Byte := if n < 10 then Fin.ofNat 256 (48 + n) else Fin.ofNat 256 (87 + n)

/-- The character behind the backslash for the named cases of the switch (cJSON.c:725-747). -/
def namedEscape : Byte → Option Byte
  | 92 => some 92
  | 34 => some 34
  | 8 => some 98
  | 12 => some 102
  | 10 => some 110
  | 13 => some 114
  | 9 => some 116
  | _ => none

/-- The bytes written for one character (cJSON.c:714-754). -/
def escapeByte (token : Byte) : List Byte :=
  if 31 < token.val ∧ token ≠ 34 ∧ token ≠ 92 then [token]
  else match namedEscape token with
    | some e => [92, e]
    | none => [92, 117, 48, 48, hexDigit (token.val / 16), hexDigit (token.val % 16)]

theorem hexDigit_ne_zero (n : ℕ) (h : n < 16) : hexDigit n ≠ 0 := by
  intro h0
  have hval := congrArg Fin.val h0
  unfold hexDigit at hval
  split at hval
  · simp at hval
    omega
  · simp at hval
    omega

theorem namedEscape_ne_zero (token e : Byte) (h : namedEscape token = some e) : e ≠ 0 := by
  unfold namedEscape at h
  split at h <;> cases h <;> decide

theorem escapeByte_nulFree (token : Byte) (h : token ≠ 0) : ∀ b ∈ escapeByte token, b ≠ 0 := by
  intro b hb
  unfold escapeByte at hb
  split at hb
  · rw [List.mem_singleton.mp hb]
    exact h
  · split at hb
    next e he =>
      simp only [List.mem_cons, List.not_mem_nil, or_false] at hb
      rcases hb with rfl | rfl
      · decide
      · exact namedEscape_ne_zero token b he
    next =>
      have hhi := hexDigit_ne_zero (token.val / 16) (by have := token.isLt; omega)
      have hlo := hexDigit_ne_zero (token.val % 16) (by omega)
      simp only [List.mem_cons, List.not_mem_nil, or_false] at hb
      rcases hb with rfl | rfl | rfl | rfl | rfl | rfl
      · decide
      · decide
      · decide
      · decide
      · exact hhi
      · exact hlo

/-- The text of `print_string_ptr` (cJSON.c:618-760). No escape has a NUL in it. -/
def printString (s : CStr) : CStr :=
  .lit "\"" ++ ⟨s.bytes.flatMap escapeByte, fun b hb => by
    obtain ⟨token, ht, hb⟩ := List.mem_flatMap.mp hb
    exact escapeByte_nulFree token (s.nulFree token ht) b hb⟩ ++ .lit "\""

mutual

/-- `print_value` with `fmt` 0: no white space. The text is a C string by
construction, so it has no interior NUL. -/
def printValue : CJson → CStr
  | .string s => printString s
  | .array child => .lit "[" ++ printElems child ++ .lit "]"
  | .object child => .lit "\x7b" ++ printMembers child ++ .lit "\x7d"

/-- The entries of `print_array` with their commas (cJSON.c:1052-1216). -/
def printElems : List CJson → CStr
  | [] => .empty
  | [item] => printValue item
  | item :: next => printValue item ++ .lit "," ++ printElems next

/-- The entries of `print_object`: name, colon, value (cJSON.c:1313-1585). -/
def printMembers : List (CStr × CJson) → CStr
  | [] => .empty
  | [(name, item)] => printString name ++ .lit ":" ++ printValue item
  | (name, item) :: next =>
    printString name ++ .lit ":" ++ printValue item ++ .lit "," ++ printMembers next

end

example : (printValue (.object [(.lit "a", .array [.string (.lit "b\"")])])) =
    .lit "\x7b\"a\":[\"b\\\"\"]\x7d" := by decide +kernel

/-- cJSON.c:839-842; NULL when an allocation of the printer fails. -/
def printUnformatted (allocated : Bool) (item : CJson) : Option CStr :=
  create allocated (printValue item)

end CJson
end SmbDiscover

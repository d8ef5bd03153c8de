import SmbDiscover.CJson
import SmbDiscover.Lib.Json

/-!
# Texts of cJSON trees (`print_value`, cJSON.c:903-969, 1052-1216, 1313-1585)

`print_value` for both values of `fmt`: the release build sends
`cJSON_PrintUnformatted`, a build with `SMB_DISCO_DEBUG` sends `cJSON_Print`
(smb_discover.c:435-439). `printText` is the text; a number node has no text here,
as `valuedouble` is a floating point number. A decoder gets the printed tree back
from either text.
-/

namespace SmbDiscover
open CText JsonText CJson

/-! ### The text of a value -/

def quoted (s : List Byte) : List Byte := 34 :: (s.flatMap escapeByte ++ [34])

/-- White space that is printed only when `fmt` is set. -/
def gap (fmt : Bool) (s : List Byte) : List Byte := if fmt then s else []

def tabs (depth : ℕ) : List Byte := List.replicate depth 9

mutual

/-- An object without members is the same text as the general case gives, although
`print_object` prints it in a branch of its own. -/
def printText (fmt : Bool) : ℕ → Json → List Byte
  | _, .null => ascii "null"
  | _, .bool false => ascii "false"
  | _, .bool true => ascii "true"
  | _, .num text => text
  | _, .str s => quoted s
  | depth, .arr elems => 91 :: (printEntries fmt (depth + 1) elems ++ [93])
  | depth, .obj members =>
    123 :: (gap fmt [10] ++ printPairs fmt (depth + 1) members ++ gap fmt (tabs depth) ++ [125])

def printEntries (fmt : Bool) (depth : ℕ) : List Json → List Byte
  | [] => []
  | [v] => printText fmt depth v
  | v :: next => printText fmt depth v ++ 44 :: (gap fmt [32] ++ printEntries fmt depth next)

def printPairs (fmt : Bool) (depth : ℕ) : List (List Byte × Json) → List Byte
  | [] => []
  | [(name, v)] => gap fmt (tabs depth) ++ quoted name ++ 58 :: (gap fmt [9] ++
      printText fmt depth v ++ gap fmt [10])
  | (name, v) :: next => gap fmt (tabs depth) ++ quoted name ++ 58 :: (gap fmt [9] ++
      printText fmt depth v ++ 44 :: (gap fmt [10] ++ printPairs fmt depth next))

end

namespace CJson

mutual

/-- The JSON value of a tree that the utilities build. -/
def value : CJson → Json
  | .string valuestring => .str valuestring.bytes
  | .array child => .arr (values child)
  | .object child => .obj (memberValues child)

def values : List CJson → List Json
  | [] => []
  | item :: next => value item :: values next

def memberValues : List (CStr × CJson) → List (List Byte × Json)
  | [] => []
  | (name, item) :: next => (name.bytes, value item) :: memberValues next

end

example : printText true 0 (value (.object [(.lit "a", .array [.string (.lit "b")])])) =
    (CStr.lit "\x7b\n\t\"a\":\t[\"b\"]\n\x7d").bytes := by decide +kernel

theorem values_eq_map (child : List CJson) : values child = child.map value := by
  induction child with
  | nil => rfl
  | cons item next ih => rw [values, ih, List.map_cons]

theorem memberValues_eq_map (child : Members) :
    memberValues child = child.map fun m => (m.1.bytes, value m.2) := by
  induction child with
  | nil => rfl
  | cons m next ih =>
    obtain ⟨name, item⟩ := m
    rw [memberValues, ih, List.map_cons]

end CJson

/-! ### Escapes -/

theorem hexDigit_eq (n : ℕ) (h : n < 16) :
    digitValue 16 (hexDigit n) = some n ∧ hexDigit n ≠ 34 ∧ hexDigit n ≠ 92 := by
  interval_cases n <;> decide

/-- A byte is printed as itself, by a named escape or by its four digits. -/
theorem escapeByte_cases (b : Byte) :
    (Plain b ∧ escapeByte b = [b]) ∨
    (∃ e, simpleEscape e = some b ∧ escapeByte b = [92, e]) ∨
    (b.val < 32 ∧ escapeByte b = [92, 117, 48, 48, hexDigit (b.val / 16), hexDigit (b.val % 16)]) := by
  by_cases hplain : 31 < b.val ∧ b ≠ 34 ∧ b ≠ 92
  · exact Or.inl ⟨hplain, if_pos hplain⟩
  · unfold escapeByte
    rw [if_neg hplain]
    cases hnamed : namedEscape b with
    | some e =>
      refine Or.inr (Or.inl ⟨e, ?_, rfl⟩)
      unfold namedEscape at hnamed
      split at hnamed <;> cases hnamed <;> rfl
    | none =>
      refine Or.inr (Or.inr ⟨?_, rfl⟩)
      have hnot : b ≠ 34 ∧ b ≠ 92 := by
        refine ⟨?_, ?_⟩
        · intro h34
          rw [h34] at hnamed
          cases hnamed
        · intro h92
          rw [h92] at hnamed
          cases hnamed
      have hlow : ¬ 31 < b.val := fun h => hplain ⟨h, hnot⟩
      omega

theorem closeQuote_escape (b : Byte) (t : List Byte) :
    closeQuote (escapeByte b ++ t) =
      (closeQuote t).map fun p => (escapeByte b ++ p.1, p.2) := by
  rcases escapeByte_cases b with ⟨hplain, he⟩ | ⟨e, -, he⟩ | ⟨hlow, he⟩
  · rw [he]
    exact closeQuote_cons b t hplain.2.1 hplain.2.2
  · rw [he]
    rfl
  · obtain ⟨-, hhi34, hhi92⟩ := hexDigit_eq (b.val / 16) (by omega)
    obtain ⟨-, hlo34, hlo92⟩ := hexDigit_eq (b.val % 16) (by omega)
    rw [he]
    simp only [List.cons_append, List.nil_append]
    rw [closeQuote, closeQuote_cons 48 _ (by decide) (by decide),
      closeQuote_cons 48 _ (by decide) (by decide), closeQuote_cons _ _ hhi34 hhi92,
      closeQuote_cons _ _ hlo34 hlo92]
    cases closeQuote t <;> rfl

theorem utf8_low (b : Byte) (h : b.val < 32) : utf8 b.val = [b] := by
  unfold utf8
  rw [if_pos (by omega)]
  simp

theorem unescape_escape (b : Byte) (t : List Byte) :
    unescape (escapeByte b ++ t) = (unescape t).map (b :: ·) := by
  rcases escapeByte_cases b with ⟨hplain, he⟩ | ⟨e, hsimple, he⟩ | ⟨hlow, he⟩
  · rw [he]
    exact unescape_cons b t hplain
  · have hu : e ≠ 117 := by
      intro h117
      rw [h117] at hsimple
      cases hsimple
    rw [he]
    simp only [List.cons_append, List.nil_append]
    rw [unescape, hsimple]
    intro x y z w rest h117 _
    exact hu h117
  · obtain ⟨hhi, -, -⟩ := hexDigit_eq (b.val / 16) (by omega)
    obtain ⟨hlo, -, -⟩ := hexDigit_eq (b.val % 16) (by omega)
    have hzero : digitValue 16 48 = some 0 := by decide
    have hcode : hex4 48 48 (hexDigit (b.val / 16)) (hexDigit (b.val % 16)) = some b.val := by
      simp only [hex4, hzero, hhi, hlo, Option.some.injEq]
      omega
    rw [he]
    simp only [List.cons_append, List.nil_append]
    rw [unescape]
    simp only [hcode]
    rw [if_neg (by omega), if_neg (by omega), utf8_low b hlow]
    rfl

theorem lexString_escaped (s rest : List Byte) :
    lexString (s.flatMap escapeByte ++ 34 :: rest) = some (s, rest) := by
  have hclose : closeQuote (s.flatMap escapeByte ++ 34 :: rest) =
      some (s.flatMap escapeByte, rest) := by
    induction s with
    | nil => rfl
    | cons b s ih =>
      rw [List.flatMap_cons, List.append_assoc, closeQuote_escape, ih]
      rfl
  have hdecode : unescape (s.flatMap escapeByte) = some s := by
    clear hclose
    induction s with
    | nil => rfl
    | cons b s ih =>
      rw [List.flatMap_cons, unescape_escape, ih]
      rfl
  rw [lexString, hclose]
  simp only [hdecode, Option.map_some]

/-! ### White space of the format -/

theorem gap_ws (fmt : Bool) (w : List Byte) (h : ∀ c ∈ w, isWs c = true) :
    ∀ c ∈ gap fmt w, isWs c = true := by
  cases fmt with
  | false => exact fun c hc => absurd hc (List.not_mem_nil)
  | true => exact h

theorem tabs_ws (depth : ℕ) : ∀ c ∈ tabs depth, isWs c = true := by
  intro c hc
  rw [List.eq_of_mem_replicate hc]
  rfl

/-! ### The decoder on printed texts -/

mutual

/-- No number anywhere in the value. -/
def Numberless : Json → Prop
  | .num _ => False
  | .arr elems => NumberlessElems elems
  | .obj members => NumberlessMembers members
  | .null => True
  | .bool _ => True
  | .str _ => True

def NumberlessElems : List Json → Prop
  | [] => True
  | v :: next => Numberless v ∧ NumberlessElems next

def NumberlessMembers : List (List Byte × Json) → Prop
  | [] => True
  | (_, v) :: next => Numberless v ∧ NumberlessMembers next

end

theorem ascii_tokens : ascii "null" = [110, 117, 108, 108] ∧ ascii "true" = [116, 114, 117, 101] ∧
    ascii "false" = [102, 97, 108, 115, 101] := by decide

theorem printText_head (fmt : Bool) (depth : ℕ) (v : Json) (h : Numberless v) :
    ∃ c rest, printText fmt depth v = c :: rest ∧ isWs c = false ∧ c ≠ 93 := by
  obtain ⟨hnull, htrue, hfalse⟩ := ascii_tokens
  cases v with
  | null => exact ⟨110, _, by rw [printText, hnull], rfl, by decide⟩
  | bool b =>
    cases b with
    | false => exact ⟨102, _, by rw [printText, hfalse], rfl, by decide⟩
    | true => exact ⟨116, _, by rw [printText, htrue], rfl, by decide⟩
  | num text => exact absurd h (by simp [Numberless])
  | str s => exact ⟨34, _, by rw [printText, quoted], rfl, by decide⟩
  | arr elems => exact ⟨91, _, by rw [printText], rfl, by decide⟩
  | obj members => exact ⟨123, _, by rw [printText], rfl, by decide⟩

theorem printEntries_cons (fmt : Bool) (depth : ℕ) (v : Json) (next : List Json) :
    printEntries fmt depth (v :: next) = printText fmt depth v ++
      if next = [] then [] else 44 :: (gap fmt [32] ++ printEntries fmt depth next) := by
  cases next with
  | nil => simp [printEntries]
  | cons w next => simp [printEntries]

theorem printPairs_cons (fmt : Bool) (depth : ℕ) (name : List Byte) (v : Json)
    (next : List (List Byte × Json)) :
    printPairs fmt depth ((name, v) :: next) = gap fmt (tabs depth) ++ (quoted name ++
      58 :: (gap fmt [9] ++ (printText fmt depth v ++
        if next = [] then gap fmt [10]
        else 44 :: (gap fmt [10] ++ printPairs fmt depth next)))) := by
  cases next with
  | nil => simp [printPairs]
  | cons w next => simp [printPairs]

theorem quoted_append (s t : List Byte) :
    quoted s ++ t = 34 :: (s.flatMap escapeByte ++ 34 :: t) := by
  simp [quoted]

theorem lexKey_quoted (name rest : List Byte) :
    lexKey (quoted name ++ 58 :: rest) = some (name, rest) := by
  rw [quoted_append, lexKey, skipWs_cons 34 _ rfl]
  simp only [lexString_escaped]
  rw [skipWs_cons 58 _ rfl]
  rfl

def ReadsValue (fmt : Bool) (fuel : ℕ) : Prop :=
  ∀ depth v rest, Numberless v → sizeOf v ≤ fuel →
    parseValue fuel (printText fmt depth v ++ rest) = some (v, rest)

def ReadsElems (fmt : Bool) (fuel : ℕ) : Prop :=
  ∀ depth elems rest, elems ≠ [] → NumberlessElems elems → sizeOf elems ≤ fuel →
    parseElems fuel (printEntries fmt depth elems ++ 93 :: rest) = some (elems, rest)

def ReadsMembers (fmt : Bool) (fuel : ℕ) : Prop :=
  ∀ depth members w rest, members ≠ [] → NumberlessMembers members → sizeOf members ≤ fuel →
    (∀ c ∈ w, isWs c = true) →
    parseMembers fuel (printPairs fmt depth members ++ (w ++ 125 :: rest)) = some (members, rest)

theorem readsElems_succ (fmt : Bool) (fuel : ℕ) (hvalue : ReadsValue fmt fuel)
    (helems : ReadsElems fmt fuel) : ReadsElems fmt (fuel + 1) := by
  intro depth elems rest hne hnum hsize
  cases elems with
  | nil => exact absurd rfl hne
  | cons v next =>
    simp only [List.cons.sizeOf_spec] at hsize
    rw [printEntries_cons, List.append_assoc, parseElems,
      hvalue depth v _ hnum.1 (by omega)]
    by_cases hnext : next = []
    · subst hnext
      rw [if_pos rfl, List.nil_append]
      simp only
      rw [skipWs_cons 93 rest rfl]
      rfl
    · rw [if_neg hnext, List.cons_append, List.append_assoc]
      simp only
      rw [skipWs_cons 44 _ rfl]
      simp only
      rw [parseElems_ws fuel _ _ (gap_ws fmt [32] (byte_ws 32 rfl)),
        helems depth next rest hnext hnum.2 (by omega)]
      rfl

theorem readsMembers_succ (fmt : Bool) (fuel : ℕ) (hvalue : ReadsValue fmt fuel)
    (hmembers : ReadsMembers fmt fuel) : ReadsMembers fmt (fuel + 1) := by
  intro depth members w rest hne hnum hsize hw
  cases members with
  | nil => exact absurd rfl hne
  | cons m next =>
    obtain ⟨name, v⟩ := m
    simp only [List.cons.sizeOf_spec, Prod.mk.sizeOf_spec] at hsize
    rw [printPairs_cons, List.append_assoc,
      parseMembers_ws (fuel + 1) _ _ (gap_ws fmt _ (tabs_ws depth)), List.append_assoc,
      List.cons_append, parseMembers, lexKey_quoted]
    simp only
    rw [List.append_assoc, parseValue_ws fuel _ _ (gap_ws fmt [9] (byte_ws 9 rfl)),
      List.append_assoc, hvalue depth v _ hnum.1 (by omega)]
    by_cases hnext : next = []
    · subst hnext
      rw [if_pos rfl]
      simp only
      rw [skipWs_append _ _ (gap_ws fmt [10] (byte_ws 10 rfl)), skipWs_append w _ hw,
        skipWs_cons 125 rest rfl]
      rfl
    · rw [if_neg hnext, List.cons_append]
      simp only
      rw [skipWs_cons 44 _ rfl]
      simp only
      rw [List.append_assoc, parseMembers_ws fuel _ _ (gap_ws fmt [10] (byte_ws 10 rfl)),
        hmembers depth next w rest hnext hnum.2 (by omega) hw]
      rfl

theorem readsArray (fmt : Bool) (fuel depth : ℕ) (elems : List Json) (rest : List Byte)
    (helems : ReadsElems fmt fuel) (hnum : NumberlessElems elems) (hsize : sizeOf elems ≤ fuel) :
    parseValue (fuel + 1) (printText fmt depth (.arr elems) ++ rest) = some (.arr elems, rest) := by
  rw [printText, List.cons_append, List.append_assoc, parseValue, skipWs_cons 91 _ rfl]
  simp only [List.singleton_append]
  cases elems with
  | nil =>
    rw [printEntries, List.nil_append, skipWs_cons 93 rest rfl]
    rfl
  | cons v next =>
    have hread := helems (depth + 1) (v :: next) rest (by simp) hnum hsize
    obtain ⟨c, tail, hhead, hws, h93⟩ := printText_head fmt (depth + 1) v hnum.1
    rw [printEntries_cons, hhead, List.cons_append, List.cons_append] at hread ⊢
    rw [skipWs_cons c _ hws]
    split
    next heq => exact absurd (List.cons.inj heq).1 h93
    next => rw [hread, Option.map_some]

theorem readsObject (fmt : Bool) (fuel depth : ℕ) (members : List (List Byte × Json))
    (rest : List Byte) (hmembers : ReadsMembers fmt fuel) (hnum : NumberlessMembers members)
    (hsize : sizeOf members ≤ fuel) :
    parseValue (fuel + 1) (printText fmt depth (.obj members) ++ rest) =
      some (.obj members, rest) := by
  have hgap := gap_ws fmt _ (tabs_ws depth)
  rw [printText, List.cons_append, parseValue, skipWs_cons 123 _ rfl]
  simp only [List.append_assoc, List.singleton_append]
  rw [skipWs_append _ _ (gap_ws fmt [10] (byte_ws 10 rfl))]
  cases members with
  | nil =>
    rw [printPairs, List.nil_append, skipWs_append _ _ hgap, skipWs_cons 125 rest rfl]
    rfl
  | cons m next =>
    obtain ⟨name, v⟩ := m
    have hread := hmembers (depth + 1) ((name, v) :: next) _ rest (by simp) hnum hsize hgap
    have htabs := gap_ws fmt _ (tabs_ws (depth + 1))
    rw [printPairs_cons, List.append_assoc, parseMembers_ws fuel _ _ htabs, List.append_assoc,
      quoted_append] at hread
    rw [printPairs_cons, List.append_assoc, skipWs_append _ _ htabs, List.append_assoc,
      quoted_append, skipWs_cons 34 _ rfl]
    simp only
    rw [hread, Option.map_some]

theorem reads_all (fmt : Bool) (fuel : ℕ) :
    ReadsValue fmt fuel ∧ ReadsElems fmt fuel ∧ ReadsMembers fmt fuel := by
  induction fuel with
  | zero =>
    refine ⟨?_, ?_, ?_⟩
    · intro depth v rest _ hsize
      cases v <;> simp at hsize
    · intro depth elems rest hne _ hsize
      cases elems with
      | nil => exact absurd rfl hne
      | cons v next => simp at hsize
    · intro depth members w rest hne _ hsize _
      cases members with
      | nil => exact absurd rfl hne
      | cons m next => simp at hsize
  | succ fuel ih =>
    obtain ⟨hvalue, helems, hmembers⟩ := ih
    refine ⟨?_, readsElems_succ fmt fuel hvalue helems, readsMembers_succ fmt fuel hvalue hmembers⟩
    intro depth v rest hnum hsize
    obtain ⟨hnull, htrue, hfalse⟩ := ascii_tokens
    cases v with
    | null =>
      rw [printText, hnull]
      rfl
    | bool b =>
      cases b with
      | false =>
        rw [printText, hfalse]
        rfl
      | true =>
        rw [printText, htrue]
        rfl
    | num text => exact absurd hnum (by simp [Numberless])
    | str s =>
      rw [printText, quoted_append, parseValue_quote, lexString_escaped]
      rfl
    | arr elems =>
      simp only [Json.arr.sizeOf_spec] at hsize
      exact readsArray fmt fuel depth elems rest helems hnum (by omega)
    | obj members =>
      simp only [Json.obj.sizeOf_spec] at hsize
      exact readsObject fmt fuel depth members rest hmembers hnum (by omega)

/-- A printed value is read back, whatever follows it. -/
theorem parseValue_printText (fmt : Bool) (depth : ℕ) (v : Json) (rest : List Byte)
    (hnum : Numberless v) :
    parseValue (sizeOf v) (printText fmt depth v ++ rest) = some (v, rest) :=
  (reads_all fmt (sizeOf v)).1 depth v rest hnum le_rfl

/-! ### The trees of the utilities -/

namespace CJson

mutual

theorem numberless_value : ∀ item : CJson, Numberless item.value
  | .string _ => trivial
  | .array child => numberless_values child
  | .object child => numberless_memberValues child

theorem numberless_values : ∀ child : List CJson, NumberlessElems (values child)
  | [] => trivial
  | item :: next => ⟨numberless_value item, numberless_values next⟩

theorem numberless_memberValues :
    ∀ child : List (CStr × CJson), NumberlessMembers (memberValues child)
  | [] => trivial
  | (_, item) :: next => ⟨numberless_value item, numberless_memberValues next⟩

end

theorem printString_bytes (s : CStr) : (printString s).bytes = quoted s.bytes := by
  have hquote : (CStr.lit "\"").bytes = [34] := by decide
  simp [printString, quoted, hquote]

theorem lit_brackets : (CStr.lit "[").bytes = [91] ∧ (CStr.lit "]").bytes = [93] ∧
    (CStr.lit "\x7b").bytes = [123] ∧ (CStr.lit "\x7d").bytes = [125] ∧
    (CStr.lit ",").bytes = [44] ∧ (CStr.lit ":").bytes = [58] := by decide

mutual

/-- The text without format is the one that the release build sends. -/
theorem printValue_bytes : ∀ (item : CJson) (depth : ℕ),
    (printValue item).bytes = printText false depth item.value
  | .string s, depth => by rw [printValue, value, printText, printString_bytes]
  | .array child, depth => by
    obtain ⟨hopen, hclose, -⟩ := lit_brackets
    simp only [printValue, value, printText, CStr.bytes_append, hopen, hclose,
      printElems_bytes child (depth + 1), List.cons_append, List.nil_append]
  | .object child, depth => by
    obtain ⟨-, -, hopen, hclose, -⟩ := lit_brackets
    simp [printValue, value, printText, hopen, hclose, printMembers_bytes child (depth + 1), gap]

theorem printElems_bytes : ∀ (child : List CJson) (depth : ℕ),
    (printElems child).bytes = printEntries false depth (values child)
  | [], depth => rfl
  | [item], depth => by
    rw [printElems, values, values, printEntries, printValue_bytes item depth]
  | item :: other :: next, depth => by
    obtain ⟨-, -, -, -, hcomma, -⟩ := lit_brackets
    have hnext := printElems_bytes (other :: next) depth
    rw [values] at hnext
    simp [printElems, values, printEntries, printValue_bytes item depth, hcomma, hnext, gap]

theorem printMembers_bytes : ∀ (child : List (CStr × CJson)) (depth : ℕ),
    (printMembers child).bytes = printPairs false depth (memberValues child)
  | [], depth => rfl
  | [(name, item)], depth => by
    obtain ⟨-, -, -, -, -, hcolon⟩ := lit_brackets
    simp [printMembers, memberValues, printPairs, printValue_bytes item depth, hcolon,
      printString_bytes, gap]
  | (name, item) :: (name', other) :: next, depth => by
    obtain ⟨-, -, -, -, hcomma, hcolon⟩ := lit_brackets
    have hnext := printMembers_bytes ((name', other) :: next) depth
    rw [memberValues] at hnext
    simp [printMembers, memberValues, printPairs, printValue_bytes item depth, hcomma, hcolon,
      printString_bytes, hnext, gap]

end

end CJson

theorem printText_decodes (fmt : Bool) (item : CJson) :
    Decodes (printText fmt 0 item.value) item.value := by
  refine ⟨sizeOf item.value, [], ?_, rfl⟩
  have hparse := parseValue_printText fmt 0 item.value [] (numberless_value item)
  rwa [List.append_nil] at hparse

/-- Either text of a tree is one JSON text, and of that tree. -/
theorem printText_decodes_iff (fmt : Bool) (item : CJson) (v : Json) :
    Decodes (printText fmt 0 item.value) v ↔ v = item.value := by
  refine ⟨fun h => decodes_unique _ _ _ h (printText_decodes fmt item), ?_⟩
  intro h
  rw [h]
  exact printText_decodes fmt item

end SmbDiscover

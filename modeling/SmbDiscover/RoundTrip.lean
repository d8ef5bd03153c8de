import SmbDiscover.Completeness
import SmbDiscover.PlainTree

/-!
# Texts and trees (cJSON.c:788-842, 856-969)

What `cJSON_Parse` builds from a JSON text, and from a text that `cJSON_Print` or
`cJSON_PrintUnformatted` has left in memory.
-/

namespace SmbDiscover
open CText JsonText

/-! ### Printed values -/

mutual

theorem printable_value : ∀ item : Item, Numberless item.value ∧ Parse.nulFree item.value = true
  | .null => ⟨trivial, rfl⟩
  | .bool _ => ⟨trivial, rfl⟩
  | .string valuestring => by
    refine ⟨trivial, ?_⟩
    rw [Item.value, Parse.nulFree, Parse.noNul_iff]
    exact fun hmem => (valuestring.getD .empty).nulFree 0 hmem rfl
  | .array child => printable_values child
  | .object child => printable_memberValues child

theorem printable_values : ∀ child : List Item, NumberlessElems (Item.values child) ∧
    Parse.nulFreeElems (Item.values child) = true
  | [] => ⟨trivial, rfl⟩
  | item :: next => by
    obtain ⟨hnum, hfree⟩ := printable_value item
    obtain ⟨hnums, hfrees⟩ := printable_values next
    refine ⟨⟨hnum, hnums⟩, ?_⟩
    rw [Item.values, Parse.nulFreeElems, hfree, hfrees, Bool.and_self]

theorem printable_memberValues : ∀ child : List (Option CStr × Item),
    NumberlessMembers (Item.memberValues child) ∧
      Parse.nulFreeMembers (Item.memberValues child) = true
  | [] => ⟨trivial, rfl⟩
  | (key, item) :: next => by
    obtain ⟨hnum, hfree⟩ := printable_value item
    obtain ⟨hnums, hfrees⟩ := printable_memberValues next
    refine ⟨⟨hnum, hnums⟩, ?_⟩
    have hkey : 0 ∉ (key.getD .empty).bytes := fun hmem => (key.getD .empty).nulFree 0 hmem rfl
    rw [Item.memberValues, Parse.nulFreeMembers, hfree, hfrees, (Parse.noNul_iff _).mpr hkey]
    rfl

end

theorem printed_decodes (fmt : Bool) (item : Item) :
    Decodes (printText fmt 0 item.value) item.value := by
  refine ⟨sizeOf item.value, [], ?_, rfl⟩
  have hparse := parseValue_printText fmt 0 item.value [] (printable_value item).1
  rwa [List.append_nil] at hparse

namespace Parse
open Nodes

/-! ### Parsing a JSON text -/

theorem decodes_spec (ok : ℕ → Bool) (text : CStr) (v : Json) (returnParseEnd requireNull : Bool)
    (h : Memory) (hshort : text.length + 1 ≤ intMax) (hdecodes : Decodes text.bytes v) :
    ∃ res ep h', parseWithOpts ok (some text) returnParseEnd requireNull h = some (res, ep, h') ∧
      (res = none ↔ nulFree v = false ∨ ¬ Heap.Clean ok h.next h'.next) ∧
      (res = none → h'.cell = h.cell) ∧
      ∀ c, res = some c → ∃ tree, Node.addr tree = c ∧ h.Owns h' (alone tree) ∧ Readable tree ∧
        json tree = some v := by
  obtain ⟨e, haccepted⟩ := decodes_accepted text v requireNull hdecodes
  obtain ⟨res, ep, h', hparse, hnone, hcell, htree, -⟩ :=
    parseWithOpts_spec ok (some text) returnParseEnd requireNull h fun text' heq => by
      cases heq
      exact hshort
  rw [haccepted] at hnone htree
  refine ⟨res, ep, h', hparse, ?_, hcell, ?_⟩
  · rw [hnone]
    cases nulFree v <;> simp
  · intro c hc
    obtain ⟨tree, w, e', haddr, owns, hreadable, hjson, hsome, -⟩ := htree c hc
    refine ⟨tree, haddr, owns, hreadable, ?_⟩
    split_ifs at hsome
    cases hsome
    exact hjson

/-- A text below 2^30 bytes that `cJSON_Print` has left in memory is read back as the same
value. -/
theorem print_parsed (ok : ℕ → Bool) (fmt : Bool) (item : Item) (h : Memory)
    (hshort : 2 * (printText fmt 0 item.value).length + 4 ≤ intMax) :
    ∃ r h₁, Plain.print ok fmt item h = some (r, h₁) ∧ ∀ out, r = some out →
      ∃ text : CStr, load h₁ out = some text.bytes ∧
        ∃ res ep h₂, parse ok (some text) h₁ = some (res, ep, h₂) ∧
          (res = none ↔ ∃ k, h₁.next ≤ k ∧ k < h₂.next ∧ ok k = false) ∧
          (res = none → h₂.cell = h₁.cell) ∧
          ∀ c, res = some c → ∃ tree, Node.addr tree = c ∧ h₁.Owns h₂ (alone tree) ∧
            Readable tree ∧ json tree = some item.value := by
  obtain ⟨r, h₁, hprint, hprints⟩ := Plain.printValue_spec ok fmt item 0 h hshort
  refine ⟨r, h₁, hprint, ?_⟩
  rintro out rfl
  obtain ⟨-, junk, adds⟩ := hprints
  have hzero := Plain.zero_notMem_value fmt item 0
  refine ⟨⟨printText fmt 0 item.value, fun b hb h0 => hzero (h0 ▸ hb)⟩,
    Plain.load_spec ⟨out, printText fmt 0 item.value, junk⟩ adds (List.mem_singleton.mpr rfl) hzero,
    ?_⟩
  have hlen : (printText fmt 0 item.value).length + 1 ≤ intMax := by omega
  obtain ⟨res, ep, h₂, hparse, hnone, hcell, htree⟩ := decodes_spec ok
    ⟨printText fmt 0 item.value, fun b hb h0 => hzero (h0 ▸ hb)⟩ item.value false false h₁
    hlen (printed_decodes fmt item)
  refine ⟨res, ep, h₂, hparse, ?_, hcell, htree⟩
  rw [hnone, (printable_value item).2]
  simp [Heap.Clean]

theorem member_reread : ∃ r h₁, Plain.print (fun _ => true) true Plain.homeMember Heap.empty =
      some (r, h₁) ∧ ∀ out, r = some out → ∃ text : CStr, load h₁ out = some text.bytes ∧
    ∃ res ep h₂, parse (fun _ => true) (some text) h₁ = some (res, ep, h₂) ∧
      (res = none ↔ ∃ k, h₁.next ≤ k ∧ k < h₂.next ∧ true = false) ∧
      (res = none → h₂.cell = h₁.cell) ∧
      ∀ c, res = some c → ∃ tree, Node.addr tree = c ∧ h₁.Owns h₂ (alone tree) ∧
        Readable tree ∧ json tree = some Plain.homeMember.value :=
  print_parsed (fun _ => true) true Plain.homeMember Heap.empty (by decide +kernel)

end Parse
end SmbDiscover

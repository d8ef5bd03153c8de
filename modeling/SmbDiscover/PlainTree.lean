import SmbDiscover.PlainBlocks

/-!
# Printing trees into fresh blocks (cJSON.c:903-969, 1052-1216, 1313-1585, with `p` NULL)

`print_array` and `print_object` print every child into a block of its own and add up
the size of the whole in an `int`, which is at most twice the length of the text and a
little more. `fail` stops the loop behind the child that failed. An allocation that fails
anywhere leaves nothing behind.
-/

namespace SmbDiscover
open CText JsonText CJson

/-- The nodes that `print_value` prints, numbers left out. -/
inductive Item where
  | null
  | bool (b : Bool)
  | string (valuestring : Option CStr)
  | array (child : List Item)
  | object (child : List (Option CStr × Item))

namespace Item

mutual

def value : Item → Json
  | .null => .null
  | .bool b => .bool b
  | .string valuestring => .str (valuestring.getD .empty).bytes
  | .array child => .arr (values child)
  | .object child => .obj (memberValues child)

def values : List Item → List Json
  | [] => []
  | item :: next => value item :: values next

def memberValues : List (Option CStr × Item) → List (List Byte × Json)
  | [] => []
  | (key, item) :: next => ((key.getD .empty).bytes, value item) :: memberValues next

end

theorem values_eq_map (child : List Item) : values child = child.map value := by
  induction child with
  | nil => rfl
  | cons item next ih => rw [values, List.map_cons, ih]

theorem memberValues_eq_map (child : List (Option CStr × Item)) :
    memberValues child = child.map fun m => ((m.1.getD .empty).bytes, value m.2) := by
  induction child with
  | nil => rfl
  | cons m next ih => rw [memberValues, List.map_cons, ih]

end Item

namespace Plain

/-! ### `print_value` -/

mutual

def printValue (ok : ℕ → Bool) (fmt : Bool) :
    ℕ → Item → Memory → Option (Option ℕ × Memory)
  | _, .null, h => strdup ok (ascii "null") h
  | _, .bool false, h => strdup ok (ascii "false") h
  | _, .bool true, h => strdup ok (ascii "true") h
  | _, .string valuestring, h => printStringPtr ok valuestring h
  | depth, .array child, h =>
    if child.length = 0 then copyText ok 3 [91, 93, 0] h
    else match mallocEntries ok h child.length with
      | (none, h) => some (none, h)
      | (some entries, h) =>
        (collectEntries ok fmt (depth + 1) entries 0 5 child h).bind fun p =>
          finishArray ok fmt entries child.length p.1 p.2.1 p.2.2
  | depth, .object child, h =>
    if child.length = 0 then
      (if fmt then intAdd depth 4 else some 3).bind fun size =>
        copyText ok size (123 :: (gap fmt [10] ++ gap fmt (tabs depth) ++ [125, 0])) h
    else match mallocEntries ok h child.length with
      | (none, h) => some (none, h)
      | (some entries, h) =>
        match mallocEntries ok h child.length with
        | (none, h) => (h.free entries).map fun h => (none, h)
        | (some names, h) =>
          (intAdd 7 (if fmt then depth + 1 else 0)).bind fun len =>
          (collectMembers ok fmt (depth + 1) names entries 0 len child h).bind fun p =>
            finishObject ok fmt (depth + 1) names entries child.length p.1 p.2.1 p.2.2

/-- The loop over the children: the size, `fail` and the memory behind it. -/
def collectEntries (ok : ℕ → Bool) (fmt : Bool) (depth entries : ℕ) :
    ℕ → ℕ → List Item → Memory → Option (ℕ × Bool × Memory)
  | _, len, [], h => some (len, false, h)
  | i, len, item :: next, h =>
    (printValue ok fmt depth item h).bind fun p =>
    (setEntry p.2 entries i p.1).bind fun h =>
      match p.1 with
      | none => some (len, true, h)
      | some ret =>
        (load h ret).bind fun text =>
        (intAdd len (text.length + 2 + if fmt then 1 else 0)).bind fun len =>
          collectEntries ok fmt depth entries (i + 1) len next h

def collectMembers (ok : ℕ → Bool) (fmt : Bool) (depth names entries : ℕ) :
    ℕ → ℕ → List (Option CStr × Item) → Memory → Option (ℕ × Bool × Memory)
  | _, len, [], h => some (len, false, h)
  | i, len, (key, item) :: next, h =>
    (printStringPtr ok key h).bind fun q =>
    (setEntry q.2 names i q.1).bind fun h =>
    (printValue ok fmt depth item h).bind fun p =>
    (setEntry p.2 entries i p.1).bind fun h =>
      match q.1, p.1 with
      | some str, some ret =>
        (load h ret).bind fun text =>
        (load h str).bind fun name =>
        (intAdd len (text.length + name.length + 2 + if fmt then 2 + depth else 0)).bind fun len =>
          collectMembers ok fmt depth names entries (i + 1) len next h
      | _, _ => some (len, true, h)

end

/-! ### No NUL inside a text -/

theorem zero_notMem_quoted (s : CStr) : 0 ∉ quoted s.bytes := by
  rw [← printString_bytes]
  exact (printString s).zero_notMem

theorem zero_notMem_gap (fmt : Bool) (s : List Byte) (hs : 0 ∉ s) : 0 ∉ gap fmt s := by
  cases fmt with
  | false => exact List.not_mem_nil
  | true => exact hs

theorem zero_notMem_tabs (depth : ℕ) : (0 : Byte) ∉ tabs depth := by
  intro hmem
  cases List.eq_of_mem_replicate hmem

mutual

theorem zero_notMem_value (fmt : Bool) :
    ∀ (item : Item) (depth : ℕ), 0 ∉ printText fmt depth item.value
  | .null, _ => by
    rw [Item.value, printText]
    decide
  | .bool false, _ => by
    rw [Item.value, printText]
    decide
  | .bool true, _ => by
    rw [Item.value, printText]
    decide
  | .string valuestring, depth => by
    rw [Item.value, printText]
    exact zero_notMem_quoted _
  | .array child, depth => by
    have hchild := zero_notMem_values fmt child (depth + 1)
    simp [Item.value, printText, hchild]
  | .object child, depth => by
    have hchild := zero_notMem_memberValues fmt child (depth + 1)
    have hten := zero_notMem_gap fmt [10] (by decide)
    have htabs := zero_notMem_gap fmt (tabs depth) (zero_notMem_tabs depth)
    simp [Item.value, printText, hchild, hten, htabs]

theorem zero_notMem_values (fmt : Bool) :
    ∀ (child : List Item) (depth : ℕ), 0 ∉ printEntries fmt depth (Item.values child)
  | [], depth => List.not_mem_nil
  | [item], depth => zero_notMem_value fmt item depth
  | item :: other :: next, depth => by
    have hitem := zero_notMem_value fmt item depth
    have hnext := zero_notMem_values fmt (other :: next) depth
    have hgap := zero_notMem_gap fmt [32] (by decide)
    rw [Item.values] at hnext
    simp [Item.values, printEntries, hitem, hnext, hgap]

theorem zero_notMem_memberValues (fmt : Bool) :
    ∀ (child : List (Option CStr × Item)) (depth : ℕ),
      0 ∉ printPairs fmt depth (Item.memberValues child)
  | [], depth => List.not_mem_nil
  | [(key, item)], depth => by
    have hitem := zero_notMem_value fmt item depth
    have hkey := zero_notMem_quoted (key.getD .empty)
    have htabs := zero_notMem_gap fmt (tabs depth) (zero_notMem_tabs depth)
    have hnine := zero_notMem_gap fmt [9] (by decide)
    have hten := zero_notMem_gap fmt [10] (by decide)
    simp [Item.memberValues, printPairs, hitem, hkey, htabs, hnine, hten]
  | (key, item) :: (key', other) :: next, depth => by
    have hitem := zero_notMem_value fmt item depth
    have hkey := zero_notMem_quoted (key.getD .empty)
    have hnext := zero_notMem_memberValues fmt ((key', other) :: next) depth
    have htabs := zero_notMem_gap fmt (tabs depth) (zero_notMem_tabs depth)
    have hnine := zero_notMem_gap fmt [9] (by decide)
    have hten := zero_notMem_gap fmt [10] (by decide)
    rw [Item.memberValues] at hnext
    simp [Item.memberValues, printPairs, hitem, hkey, hnext, htabs, hnine, hten]

end

/-! ### Sizes that fit an `int` -/

/-- What the loop of `print_array` adds for each child. -/
def entrySizes (fmt : Bool) (depth : ℕ) (elems : List Json) : List ℕ :=
  elems.map fun v => (printText fmt depth v).length + 2 + if fmt then 1 else 0

/-- What the loop of `print_object` adds for each member. -/
def memberSizes (fmt : Bool) (depth : ℕ) (members : List (List Byte × Json)) : List ℕ :=
  members.map fun m => (printText fmt depth m.2).length + (quoted m.1).length + 2 +
    if fmt then 2 + depth else 0

theorem array_sizes (fmt : Bool) (depth : ℕ) (elems : List Json)
    (hshort : 2 * (printText fmt depth (.arr elems)).length + 4 ≤ intMax) :
    5 + (entrySizes fmt (depth + 1) elems).sum ≤ intMax ∧
      ∀ v ∈ elems, 2 * (printText fmt (depth + 1) v).length + 4 ≤ intMax := by
  have hsizes := joinTexts_sizes fmt (elems.map (printText fmt (depth + 1)))
  have hmem := joinTexts_mem fmt (elems.map (printText fmt (depth + 1)))
  rw [joinTexts_entries] at hsizes hmem
  rw [List.map_map] at hsizes
  simp only [printText, List.length_cons, List.length_append, List.length_nil] at hshort
  refine ⟨?_, fun v hv => ?_⟩
  · have hsum : (entrySizes fmt (depth + 1) elems).sum ≤
        2 * (printEntries fmt (depth + 1) elems).length + 3 := hsizes
    omega
  · have hle := hmem _ (List.mem_map_of_mem hv)
    omega

theorem object_sizes (fmt : Bool) (depth : ℕ) (members : List (List Byte × Json))
    (hshort : 2 * (printText fmt depth (.obj members)).length + 4 ≤ intMax) :
    7 + (if fmt then depth + 1 else 0) + (memberSizes fmt (depth + 1) members).sum ≤ intMax ∧
      ∀ m ∈ members, 2 * (printText fmt (depth + 1) m.2).length + 4 ≤ intMax ∧
        (quoted m.1).length + 1 ≤ intMax := by
  have hsizes := joinPairs_sizes fmt (depth + 1)
    (members.map fun m => (quoted m.1, printText fmt (depth + 1) m.2))
  have hmem := joinPairs_mem fmt (depth + 1)
    (members.map fun m => (quoted m.1, printText fmt (depth + 1) m.2))
  rw [joinPairs_members] at hsizes hmem
  rw [List.map_map] at hsizes
  have hten := gap_length fmt [10]
  have htabs := gap_length fmt (tabs depth)
  rw [tabs, List.length_replicate, ← tabs] at htabs
  rw [List.length_singleton] at hten
  simp only [printText, List.length_cons, List.length_append, List.length_nil] at hshort
  refine ⟨?_, fun m hm => ?_⟩
  · have hsum : (memberSizes fmt (depth + 1) members).sum ≤
        (printPairs fmt (depth + 1) members).length + 1 := hsizes
    cases fmt with
    | false =>
      simp only [Bool.false_eq_true, if_false] at *
      omega
    | true =>
      simp only [if_true] at *
      omega
  · have hle := hmem _ (List.mem_map_of_mem hm)
    dsimp only at hle
    omega

/-! ### One induction over the tree -/

theorem set_pre (pre : List (Option ℕ)) (r : Option ℕ) (n : ℕ) :
    (pre ++ List.replicate (n + 1) none).set pre.length r = pre ++ [r] ++ List.replicate n none := by
  rw [List.set_append_right _ _ le_rfl, Nat.sub_self, List.replicate_succ, List.set_cons_zero,
    List.append_assoc, List.singleton_append]

theorem pointers_none (n : ℕ) : pointers (List.replicate n none) = List.replicate n none := by
  rw [pointers, List.map_replicate, Option.map_none]

theorem cells_none (n : ℕ) : cells (List.replicate n none) = [] := by
  induction n with
  | zero => rfl
  | succ n ih => exact ih

theorem finish_prints (ok : ℕ → Bool) (h h₁ h₂ h₃ : Memory) (text : List Byte) (r : Option ℕ)
    (hle : h.next ≤ h₁.next) (hle' : h₁.next ≤ h₂.next) (hstart : Heap.Clean ok h.next h₁.next)
    (hclean : Heap.Clean ok h₁.next h₂.next) (hfinish : Finishes ok h h₂ h₃ text r) :
    Prints ok h h₃ text r := by
  have hboth := (Heap.clean_trans ok _ _ _ hle hle').mpr ⟨hstart, hclean⟩
  have hall := Heap.clean_trans ok h.next h₂.next (h₂.next + 1) (hle.trans hle') (Nat.le_succ _)
  have hone := Heap.clean_one ok h₂.next
  cases r with
  | none =>
    obtain ⟨hok, adds, hnext⟩ := hfinish
    refine ⟨fun hc => ?_, adds⟩
    rw [hnext, hall, hone, hok] at hc
    cases hc.2
  | some out =>
    obtain ⟨hok, hnext, adds⟩ := hfinish
    refine ⟨?_, adds⟩
    rw [hnext, hall, hone]
    exact ⟨hboth, hok⟩

theorem failed_prints (ok : ℕ → Bool) (h h₁ h₂ h₃ : Memory) (text : List Byte)
    (hle : h.next ≤ h₁.next) (hle' : h₁.next ≤ h₂.next)
    (hclean : ¬ Heap.Clean ok h₁.next h₂.next) (adds : h.Adds h₃ []) (hnext : h₃.next = h₂.next) :
    Prints ok h h₃ text none := by
  refine ⟨fun hc => hclean ?_, adds⟩
  rw [hnext] at hc
  exact ((Heap.clean_trans ok _ _ _ hle hle').mp hc).2

/-- What the loop over the children of an array leaves. -/
def CollectsEntries (ok : ℕ → Bool) (fmt : Bool) (depth entries len : ℕ) (child : List Item)
    (pre : List (Option ℕ)) (own : List (ℕ × Cell)) (h₀ h' : Memory)
    (r : ℕ × Bool × Memory) : Prop :=
  ∃ slots : List (Option Slot), slots.length = child.length ∧
    h₀.Adds r.2.2 ((entries, .entries (pre ++ pointers slots)) :: (own ++ cells slots)) ∧
    h'.next ≤ r.2.2.next ∧
    (r.2.1 = true → ¬ Heap.Clean ok h'.next r.2.2.next) ∧
    (r.2.1 = false → Heap.Clean ok h'.next r.2.2.next ∧ ∃ ss : List Slot,
      slots = ss.map some ∧ ss.map Slot.text = (Item.values child).map (printText fmt depth) ∧
      r.1 = len + ((ss.map Slot.text).map fun text =>
        text.length + 2 + if fmt then 1 else 0).sum)

/-- What the loop over the members of an object leaves. -/
def CollectsMembers (ok : ℕ → Bool) (fmt : Bool) (depth names entries len : ℕ)
    (child : List (Option CStr × Item)) (preNames pre : List (Option ℕ)) (own : List (ℕ × Cell))
    (h₀ h' : Memory) (r : ℕ × Bool × Memory) : Prop :=
  ∃ pairs : List (Option Slot × Option Slot), pairs.length = child.length ∧
    h₀.Adds r.2.2 ((names, .entries (preNames ++ pointers (pairs.map Prod.fst))) ::
      (entries, .entries (pre ++ pointers (pairs.map Prod.snd))) :: (own ++ pairCells pairs)) ∧
    h'.next ≤ r.2.2.next ∧
    (r.2.1 = true → ¬ Heap.Clean ok h'.next r.2.2.next) ∧
    (r.2.1 = false → Heap.Clean ok h'.next r.2.2.next ∧ ∃ ps : List (Slot × Slot),
      pairs = ps.map (fun p => (some p.1, some p.2)) ∧
      memberTexts ps = (Item.memberValues child).map
        (fun m => (quoted m.1, printText fmt depth m.2)) ∧
      r.1 = len + ((memberTexts ps).map fun p =>
        p.2.length + p.1.length + 2 + if fmt then 2 + depth else 0).sum)

theorem array_prints (ok : ℕ → Bool) (fmt : Bool) (depth entries : ℕ) (child : List Item)
    (h h₁ h₂ : Memory) (len : ℕ) (fail : Bool) (hnext : h₁.next = h.next + 1)
    (hok : ok h.next = true)
    (hcollect : CollectsEntries ok fmt (depth + 1) entries 5 child [] [] h h₁ (len, fail, h₂)) :
    ∃ r h₃, finishArray ok fmt entries child.length len fail h₂ = some (r, h₃) ∧
      Prints ok h h₃ (printText fmt depth (Item.array child).value) r := by
  obtain ⟨slots, hlen, adds, hle', hfailed, hdone⟩ := hcollect
  dsimp only at adds hle' hfailed hdone
  rw [List.nil_append, List.nil_append] at adds
  rw [← hlen]
  have hstart : Heap.Clean ok h.next h₁.next := by
    rw [hnext]
    exact (Heap.clean_one ok h.next).mpr hok
  cases fail with
  | true =>
    obtain ⟨h₃, hfinish, adds₃, hnext₃⟩ := finishArray_failed ok fmt entries len slots adds
    exact ⟨none, h₃, hfinish,
      failed_prints ok h h₁ h₂ h₃ _ (by omega) hle' (hfailed rfl) adds₃ hnext₃⟩
  | false =>
    obtain ⟨hclean, ss, rfl, htexts, hsize⟩ := hdone rfl
    have hnul : ∀ s ∈ ss, 0 ∉ s.text := by
      intro s hs
      have hmem : s.text ∈ (Item.values child).map (printText fmt (depth + 1)) := by
        rw [← htexts]
        exact List.mem_map_of_mem hs
      obtain ⟨v, hv, hv'⟩ := List.mem_map.mp hmem
      rw [Item.values_eq_map] at hv
      obtain ⟨item, -, rfl⟩ := List.mem_map.mp hv
      rw [← hv']
      exact zero_notMem_value fmt item (depth + 1)
    have hbound := joinTexts_length fmt (ss.map Slot.text)
    rw [cells_some] at adds
    obtain ⟨r, h₃, hfinish, hfinishes⟩ :=
      finishArray_spec ok fmt entries len ss adds hnul (by omega)
    rw [htexts, joinTexts_entries] at hfinishes
    rw [List.length_map]
    refine ⟨r, h₃, hfinish, ?_⟩
    rw [Item.value, printText]
    exact finish_prints ok h h₁ h₂ h₃ _ r (by omega) hle' hstart hclean hfinishes

theorem memberTexts_nul (fmt : Bool) (depth : ℕ) (child : List (Option CStr × Item))
    (ps : List (Slot × Slot)) (h : memberTexts ps = (Item.memberValues child).map
      (fun m => (quoted m.1, printText fmt depth m.2))) :
    ∀ p ∈ ps, 0 ∉ p.1.text ∧ 0 ∉ p.2.text := by
  intro p hp
  have hmem : (p.1.text, p.2.text) ∈ memberTexts ps := List.mem_map_of_mem (f := fun p =>
    (p.1.text, p.2.text)) hp
  rw [h, Item.memberValues_eq_map, List.map_map] at hmem
  obtain ⟨m, -, hm⟩ := List.mem_map.mp hmem
  obtain ⟨hname, htext⟩ := Prod.mk.inj hm
  rw [← hname, ← htext]
  exact ⟨zero_notMem_quoted _, zero_notMem_value fmt m.2 depth⟩

theorem object_prints (ok : ℕ → Bool) (fmt : Bool) (depth names entries : ℕ)
    (child : List (Option CStr × Item)) (h h₁ h₂ : Memory) (len : ℕ) (fail : Bool)
    (hle : h.next ≤ h₁.next) (hstart : Heap.Clean ok h.next h₁.next)
    (hcollect : CollectsMembers ok fmt (depth + 1) names entries
      (7 + if fmt then depth + 1 else 0) child [] [] [] h h₁ (len, fail, h₂)) :
    ∃ r h₃, finishObject ok fmt (depth + 1) names entries child.length len fail h₂ = some (r, h₃) ∧
      Prints ok h h₃ (printText fmt depth (Item.object child).value) r := by
  obtain ⟨pairs, hlen, adds, hle', hfailed, hdone⟩ := hcollect
  dsimp only at adds hle' hfailed hdone
  simp only [List.nil_append] at adds
  rw [← hlen]
  cases fail with
  | true =>
    obtain ⟨h₃, hfinish, adds₃, hnext₃⟩ := freeObject_spec names entries pairs adds
    exact ⟨none, h₃, hfinish, failed_prints ok h h₁ h₂ h₃ _ hle hle' (hfailed rfl) adds₃ hnext₃⟩
  | false =>
    obtain ⟨hclean, ps, rfl, htexts, hsize⟩ := hdone rfl
    have hbound := joinPairs_length fmt (depth + 1) (memberTexts ps)
    have htabs := gap_length fmt (tabs depth)
    have hten := gap_length fmt [10]
    rw [tabs, List.length_replicate, ← tabs] at htabs
    rw [List.length_singleton] at hten
    have hroom : (joinPairs fmt (depth + 1) (memberTexts ps)).length +
        (gap fmt (tabs (depth + 1 - 1))).length + (gap fmt [10]).length + 3 ≤ len := by
      rw [Nat.add_sub_cancel, hsize]
      cases fmt with
      | false =>
        simp only [Bool.false_eq_true, if_false] at *
        omega
      | true =>
        simp only [if_true] at *
        omega
    simp only [pointers, List.map_map, pairCells_some] at adds
    obtain ⟨r, h₃, hfinish, hfinishes⟩ := finishObject_spec ok fmt (depth + 1) names entries len ps
      adds (memberTexts_nul fmt (depth + 1) child ps htexts) hroom
    rw [htexts, joinPairs_members, Nat.add_sub_cancel] at hfinishes
    rw [List.length_map]
    refine ⟨r, h₃, hfinish, ?_⟩
    rw [Item.value, printText]
    exact finish_prints ok h h₁ h₂ h₃ _ r hle hle' hstart hclean hfinishes

theorem collectEntries_step (ok : ℕ → Bool) (fmt : Bool) (depth entries len : ℕ) (item : Item)
    (next : List Item) (pre : List (Option ℕ)) (own : List (ℕ × Cell)) (h₀ h' h₁ : Memory)
    (r : Option ℕ)
    (adds : h₀.Adds h' ((entries, .entries (pre ++ List.replicate (next.length + 1) none)) :: own))
    (hprint : printValue ok fmt depth item h' = some (r, h₁))
    (hprints : Prints ok h' h₁ (printText fmt depth item.value) r)
    (hsize : len + (entrySizes fmt depth (Item.values (item :: next))).sum ≤ intMax)
    (ih : ∀ (len : ℕ) (pre : List (Option ℕ)) (own : List (ℕ × Cell)) (h₀ h' : Memory),
      len + (entrySizes fmt depth (Item.values next)).sum ≤ intMax →
      h₀.Adds h' ((entries, .entries (pre ++ List.replicate next.length none)) :: own) →
      ∃ r, collectEntries ok fmt depth entries pre.length len next h' = some r ∧
        CollectsEntries ok fmt depth entries len next pre own h₀ h' r) :
    ∃ r, collectEntries ok fmt depth entries pre.length len (item :: next) h' = some r ∧
      CollectsEntries ok fmt depth entries len (item :: next) pre own h₀ h' r := by
  obtain ⟨slot, rfl, adds₁, hnone, hsome⟩ := prints_slot ok _ r hprints
  have hle₁ := adds₁.next
  have adds₂ := adds.trans adds₁
  rw [List.cons_append] at adds₂
  obtain ⟨h₂, hset, adds₃, hnext₂⟩ := setEntry_spec [] _ entries pre.length
    (slot.map Slot.addr) adds₂ (by
      rw [List.length_append, List.length_replicate]
      omega)
  rw [set_pre, List.nil_append] at adds₃
  rw [collectEntries, hprint]
  simp only [Option.bind_some, hset]
  cases slot with
  | none =>
    refine ⟨(len, true, h₂), rfl, List.replicate (next.length + 1) none, ?_, ?_, ?_, ?_, ?_⟩
    · rw [List.length_replicate, List.length_cons]
    · rw [pointers_none, cells_none, List.replicate_succ, ← List.singleton_append (x := none),
        ← List.append_assoc pre]
      exact adds₃
    · show h'.next ≤ h₂.next
      omega
    · intro _
      rw [show ((len, true, h₂) : ℕ × Bool × Memory).2.2.next = h₁.next from hnext₂]
      exact hnone rfl
    · intro hfalse
      cases hfalse
  | some s =>
    obtain ⟨htext, hclean₁⟩ := hsome s rfl
    have hload := load_spec s adds₃ (List.mem_cons_of_mem _ (List.mem_append_right _
      (List.mem_singleton.mpr rfl))) (htext ▸ zero_notMem_value fmt item depth)
    have hlen : (pre ++ [Option.map Slot.addr (some s)]).length = pre.length + 1 :=
      List.length_append
    rw [Item.values, entrySizes, List.map_cons, List.sum_cons, ← htext, ← Nat.add_assoc] at hsize
    have hadd := intAdd_of_le (Nat.le_of_add_right_le hsize)
    obtain ⟨r, hrun, slots, hslots, adds₄, hle₄, hfailed, hdone⟩ := ih
      (len + (s.text.length + 2 + if fmt then 1 else 0)) _ _ h₀ h₂ hsize adds₃
    rw [hlen] at hrun
    simp only [Option.map_some, hload, Option.bind_some, hadd]
    refine ⟨r, hrun, some s :: slots, ?_, ?_, ?_, ?_, ?_⟩
    · rw [List.length_cons, List.length_cons, hslots]
    · rw [List.append_assoc, List.append_assoc] at adds₄
      exact adds₄
    · omega
    · intro hfail hclean
      apply hfailed hfail
      rw [Heap.clean_trans ok h'.next h₂.next r.2.2.next (by omega) hle₄] at hclean
      exact hclean.2
    · intro hfail
      obtain ⟨hclean, ss, rfl, htexts, hsize⟩ := hdone hfail
      refine ⟨?_, s :: ss, rfl, ?_, ?_⟩
      · rw [Heap.clean_trans ok h'.next h₂.next r.2.2.next (by omega) hle₄, hnext₂]
        rw [hnext₂] at hclean
        exact ⟨hclean₁, hclean⟩
      · rw [List.map_cons, htexts, htext, Item.values, List.map_cons]
      · rw [hsize, List.map_cons, List.map_cons, List.sum_cons, Nat.add_assoc]

/-- The loop over the members ends at one that was not printed. -/
theorem collectsMembers_stopped (ok : ℕ → Bool) (fmt : Bool) (depth names entries len : ℕ)
    (key : Option CStr) (item : Item) (next : List (Option CStr × Item))
    (preNames pre : List (Option ℕ)) (own : List (ℕ × Cell)) (h₀ h' h₁ : Memory)
    (name entry : Option Slot)
    (adds : h₀.Adds h₁ ((names, .entries (preNames ++ [name.map Slot.addr] ++
        List.replicate next.length none)) ::
      (entries, .entries (pre ++ [entry.map Slot.addr] ++ List.replicate next.length none)) ::
      (own ++ (cells [name] ++ cells [entry]))))
    (hle : h'.next ≤ h₁.next) (hfail : ¬ Heap.Clean ok h'.next h₁.next) :
    CollectsMembers ok fmt depth names entries len ((key, item) :: next) preNames pre own h₀ h'
      (len, true, h₁) := by
  refine ⟨(name, entry) :: List.replicate next.length (none, none), ?_, ?_, hle, fun _ => hfail, ?_⟩
  · rw [List.length_cons, List.length_cons, List.length_replicate]
  · have hempty : pairCells ((name, entry) :: List.replicate next.length (none, none)) =
        cells [name] ++ cells [entry] := by
      have hrest : (List.replicate next.length ((none, none) : Option Slot × Option Slot)).flatMap
          (fun p => cells [p.1] ++ cells [p.2]) = [] := by
        refine List.flatMap_eq_nil_iff.mpr fun p hp => ?_
        rw [List.eq_of_mem_replicate hp]
        rfl
      rw [pairCells, List.flatMap_cons, hrest, List.append_nil]
    have hkeys : pointers (((name, entry) :: List.replicate next.length
        ((none, none) : Option Slot × Option Slot)).map Prod.fst) =
        [name.map Slot.addr] ++ List.replicate next.length none := by
      rw [List.map_cons, List.map_replicate, ← pointers_none]
      rfl
    have hvalues : pointers (((name, entry) :: List.replicate next.length
        ((none, none) : Option Slot × Option Slot)).map Prod.snd) =
        [entry.map Slot.addr] ++ List.replicate next.length none := by
      rw [List.map_cons, List.map_replicate, ← pointers_none]
      rfl
    rw [hempty, hkeys, hvalues, ← List.append_assoc preNames, ← List.append_assoc pre]
    exact adds
  · intro hfalse
    cases hfalse

/-- The loop goes on behind a member that was printed. -/
theorem collectsMembers_cons (ok : ℕ → Bool) (fmt : Bool) (depth names entries len : ℕ)
    (key : Option CStr) (item : Item) (next : List (Option CStr × Item))
    (preNames pre : List (Option ℕ)) (own : List (ℕ × Cell)) (h₀ h' h₁ : Memory)
    (name entry : Slot) (r : ℕ × Bool × Memory) (hname : name.text = quoted (key.getD .empty).bytes)
    (hentry : entry.text = printText fmt depth item.value) (hle : h'.next ≤ h₁.next)
    (hclean : Heap.Clean ok h'.next h₁.next)
    (hrest : CollectsMembers ok fmt depth names entries
      (len + (entry.text.length + name.text.length + 2 + if fmt then 2 + depth else 0)) next
      (preNames ++ [some name.addr]) (pre ++ [some entry.addr])
      (own ++ (cells [some name] ++ cells [some entry])) h₀ h₁ r) :
    CollectsMembers ok fmt depth names entries len ((key, item) :: next) preNames pre own h₀ h'
      r := by
  obtain ⟨pairs, hpairs, adds, hle₁, hfailed, hdone⟩ := hrest
  have htail : Heap.Clean ok h'.next r.2.2.next ↔
      Heap.Clean ok h'.next h₁.next ∧ Heap.Clean ok h₁.next r.2.2.next :=
    Heap.clean_trans ok h'.next h₁.next r.2.2.next hle hle₁
  refine ⟨(some name, some entry) :: pairs, ?_, ?_, hle.trans hle₁, ?_, ?_⟩
  · rw [List.length_cons, List.length_cons, hpairs]
  · simp only [List.append_assoc] at adds
    exact adds
  · intro hfail hall
    exact hfailed hfail (htail.mp hall).2
  · intro hfail
    obtain ⟨hclean₁, ps, rfl, htexts, hsize⟩ := hdone hfail
    refine ⟨htail.mpr ⟨hclean, hclean₁⟩, (name, entry) :: ps, rfl, ?_, ?_⟩
    · rw [Item.memberValues, List.map_cons, ← htexts, ← hname, ← hentry]
      rfl
    · rw [hsize, memberTexts, memberTexts, List.map_cons, List.map_cons, List.sum_cons,
        Nat.add_assoc]

theorem collectMembers_step (ok : ℕ → Bool) (fmt : Bool) (depth names entries len : ℕ)
    (key : Option CStr) (item : Item) (next : List (Option CStr × Item))
    (preNames pre : List (Option ℕ)) (own : List (ℕ × Cell)) (h₀ h' : Memory)
    (hsame : preNames.length = pre.length)
    (adds : h₀.Adds h' ((names, .entries (preNames ++ List.replicate (next.length + 1) none)) ::
      (entries, .entries (pre ++ List.replicate (next.length + 1) none)) :: own))
    (hshort : (quoted (key.getD .empty).bytes).length + 1 ≤ intMax)
    (hsize : len + (memberSizes fmt depth (Item.memberValues ((key, item) :: next))).sum ≤ intMax)
    (hvalue : ∀ h, ∃ r h₁, printValue ok fmt depth item h = some (r, h₁) ∧
      Prints ok h h₁ (printText fmt depth item.value) r)
    (ih : ∀ (len : ℕ) (preNames pre : List (Option ℕ)) (own : List (ℕ × Cell)) (h₀ h' : Memory),
      preNames.length = pre.length →
      len + (memberSizes fmt depth (Item.memberValues next)).sum ≤ intMax →
      h₀.Adds h' ((names, .entries (preNames ++ List.replicate next.length none)) ::
        (entries, .entries (pre ++ List.replicate next.length none)) :: own) →
      ∃ r, collectMembers ok fmt depth names entries pre.length len next h' = some r ∧
        CollectsMembers ok fmt depth names entries len next preNames pre own h₀ h' r) :
    ∃ r, collectMembers ok fmt depth names entries pre.length len ((key, item) :: next) h' =
        some r ∧
      CollectsMembers ok fmt depth names entries len ((key, item) :: next) preNames pre own
        h₀ h' r := by
  obtain ⟨rn, h₁, hkey, hprintsKey⟩ := printStringPtr_spec ok key h' hshort
  obtain ⟨name, rfl, adds₁, hnoneKey, hsomeKey⟩ := prints_slot ok _ rn hprintsKey
  have hle₁ := adds₁.next
  have adds₂ := adds.trans adds₁
  simp only [List.cons_append] at adds₂
  obtain ⟨h₂, hset, adds₃, hnext₂⟩ := setEntry_spec [] _ names preNames.length
    (name.map Slot.addr) adds₂ (by
      rw [List.length_append, List.length_replicate]
      omega)
  rw [set_pre, List.nil_append] at adds₃
  obtain ⟨re, h₃, hprint, hprints⟩ := hvalue h₂
  obtain ⟨entry, rfl, adds₄, hnone, hsome⟩ := prints_slot ok _ re hprints
  have hle₄ := adds₄.next
  have adds₅ := adds₃.trans adds₄
  simp only [List.cons_append] at adds₅
  obtain ⟨h₄, hset₄, adds₆, hnext₄⟩ := setEntry_spec [_] _ entries pre.length
    (entry.map Slot.addr) adds₅ (by
      rw [List.length_append, List.length_replicate]
      omega)
  rw [set_pre, List.singleton_append, List.append_assoc own] at adds₆
  rw [collectMembers, hkey]
  simp only [Option.bind_some, ← hsame, hset, hprint]
  rw [hsame, hset₄]
  simp only [Option.bind_some]
  have hle : h'.next ≤ h₄.next := by omega
  have hsplit : Heap.Clean ok h'.next h₄.next ↔
      Heap.Clean ok h'.next h₁.next ∧ Heap.Clean ok h₂.next h₃.next := by
    rw [hnext₄, hnext₂, Heap.clean_trans ok h'.next h₁.next h₃.next hle₁ (by omega)]
  cases name with
  | none => exact ⟨(len, true, h₄), rfl, collectsMembers_stopped ok fmt depth names entries len key
      item next preNames pre own h₀ h' h₄ none entry adds₆ hle fun hclean =>
        hnoneKey rfl (hsplit.mp hclean).1⟩
  | some sn =>
    cases entry with
    | none => exact ⟨(len, true, h₄), rfl, collectsMembers_stopped ok fmt depth names entries len key
        item next preNames pre own h₀ h' h₄ (some sn) none adds₆ hle fun hclean =>
          hnone rfl (hsplit.mp hclean).2⟩
    | some se =>
      obtain ⟨htextKey, hcleanKey⟩ := hsomeKey sn rfl
      obtain ⟨htext, hclean₁⟩ := hsome se rfl
      have hloadKey := load_spec sn adds₆ (by simp [cells]) (htextKey ▸ zero_notMem_quoted _)
      have hload := load_spec se adds₆ (by simp [cells])
        (htext ▸ zero_notMem_value fmt item depth)
      have hlen : (pre ++ [Option.map Slot.addr (some se)]).length = pre.length + 1 :=
        List.length_append
      rw [Item.memberValues, memberSizes, List.map_cons, List.sum_cons, ← htextKey, ← htext,
        ← Nat.add_assoc] at hsize
      have hadd := intAdd_of_le (Nat.le_of_add_right_le hsize)
      obtain ⟨r, hrun, hcollects⟩ := ih _ _ _ _ h₀ h₄
        (by rw [List.length_append, List.length_append, hsame]; rfl) hsize adds₆
      rw [hlen] at hrun
      simp only [Option.map_some, hload, hloadKey, Option.bind_some, hadd]
      exact ⟨r, hrun, collectsMembers_cons ok fmt depth names entries len key item next preNames pre
        own h₀ h' h₄ sn se r htextKey htext hle (hsplit.mpr ⟨hcleanKey, hclean₁⟩) hcollects⟩

/-- The first allocation of `print_array` and `print_object` fails. -/
theorem pointers_failed (ok : ℕ → Bool) (h : Memory) (numentries : ℕ) (text : List Byte)
    (hok : ok h.next = false) :
    ∃ h', mallocEntries ok h numentries = (none, h') ∧ Prints ok h h' text none := by
  obtain ⟨h', hmalloc, adds, hnext⟩ :=
    Heap.malloc_failed ok h (.entries (List.replicate numentries none)) hok
  refine ⟨h', hmalloc, fun hclean => ?_, adds⟩
  rw [hnext, Heap.clean_one, hok] at hclean
  cases hclean

/-- The second allocation of `print_object` fails, and the first block is given back. -/
theorem names_failed (ok : ℕ → Bool) (h h₁ : Memory) (entries numentries : ℕ) (text : List Byte)
    (cell : Cell) (adds : h.Adds h₁ [(entries, cell)]) (hnext : h₁.next = h.next + 1)
    (hok : ok h₁.next = false) :
    ∃ h₂ h', mallocEntries ok h₁ numentries = (none, h₂) ∧ h₂.free entries = some h' ∧
      Prints ok h h' text none := by
  obtain ⟨h₂, hmalloc, adds₂, hnext₂⟩ :=
    Heap.malloc_failed ok h₁ (.entries (List.replicate numentries none)) hok
  obtain ⟨h', hfree, adds', hnext'⟩ := (adds.trans adds₂).free
  refine ⟨h₂, h', hmalloc, hfree, fun hclean => ?_, adds'⟩
  have htrue := hclean h₁.next (by omega) (by omega)
  rw [hok] at htrue
  cases htrue

/-- An object without members is printed in one block of its own. -/
theorem emptyObject_spec (ok : ℕ → Bool) (fmt : Bool) (depth : ℕ) (h : Memory)
    (hshort : 2 * (printText fmt depth (.obj [])).length + 4 ≤ intMax) :
    ∃ r h', ((if fmt then intAdd depth 4 else some 3).bind fun size =>
        copyText ok size (123 :: (gap fmt [10] ++ gap fmt (tabs depth) ++ [125, 0])) h) =
          some (r, h') ∧ Prints ok h h' (printText fmt depth (.obj [])) r := by
  have htext : printText fmt depth (.obj []) =
      123 :: (gap fmt [10] ++ gap fmt (tabs depth) ++ [125]) := by
    simp [printText, printPairs]
  have htabs := gap_length fmt (tabs depth)
  have hten := gap_length fmt [10]
  rw [tabs, List.length_replicate, ← tabs] at htabs
  rw [List.length_singleton] at hten
  have hlen : (printText fmt depth (.obj [])).length = if fmt then depth + 3 else 2 := by
    rw [htext]
    simp only [List.length_cons, List.length_append, List.length_nil, htabs, hten]
    split <;> omega
  have hint : (if fmt then intAdd depth 4 else some 3) = some (if fmt then depth + 4 else 3) := by
    cases fmt with
    | false => rfl
    | true =>
      rw [hlen, if_pos rfl] at hshort
      exact intAdd_of_le (by omega)
  have hfit : (printText fmt depth (.obj [])).length < if fmt then depth + 4 else 3 := by
    rw [hlen]
    split <;> omega
  rw [hint, Option.bind_some]
  have hcopy := copyText_spec ok _ (printText fmt depth (.obj [])) h hfit
  have hstored : printText fmt depth (.obj []) ++ [0] =
      123 :: (gap fmt [10] ++ gap fmt (tabs depth) ++ [125, 0]) := by simp [htext]
  rwa [hstored] at hcopy

mutual

theorem printValue_spec (ok : ℕ → Bool) (fmt : Bool) : ∀ (item : Item) (depth : ℕ) (h : Memory),
    2 * (printText fmt depth item.value).length + 4 ≤ intMax →
    ∃ r h', printValue ok fmt depth item h = some (r, h') ∧
      Prints ok h h' (printText fmt depth item.value) r
  | .null, depth, h, _ => copyText_spec ok _ (ascii "null") h (Nat.lt_succ_self _)
  | .bool false, depth, h, _ => copyText_spec ok _ (ascii "false") h (Nat.lt_succ_self _)
  | .bool true, depth, h, _ => copyText_spec ok _ (ascii "true") h (Nat.lt_succ_self _)
  | .string valuestring, depth, h, hshort => by
    rw [Item.value, printText] at hshort
    rw [printValue, Item.value, printText]
    exact printStringPtr_spec ok valuestring h (by omega)
  | .array child, depth, h, hshort => by
    obtain ⟨hsize, hshorts⟩ := array_sizes fmt depth (Item.values child) hshort
    rw [printValue]
    by_cases hlen : child.length = 0
    · rw [List.length_eq_zero_iff.mp hlen]
      exact copyText_spec ok 3 [91, 93] h (by decide)
    · rw [if_neg hlen]
      cases hok : ok h.next with
      | false =>
        obtain ⟨h₁, hmalloc, hprints⟩ := pointers_failed ok h child.length _ hok
        rw [hmalloc]
        exact ⟨none, h₁, rfl, hprints⟩
      | true =>
        obtain ⟨entries, h₁, hmalloc, adds, hnext⟩ :=
          Heap.adds_malloc ok h (.entries (List.replicate child.length none)) hok
        obtain ⟨⟨len, fail, h₂⟩, hrun, hcollect⟩ :=
          collectEntries_spec ok fmt child (depth + 1) entries 5 [] [] h h₁ hshorts hsize adds
        rw [mallocEntries, hmalloc]
        rw [List.length_nil] at hrun
        simp only [hrun, Option.bind_some]
        exact array_prints ok fmt depth entries child h h₁ h₂ len fail hnext hok hcollect
  | .object child, depth, h, hshort => by
    obtain ⟨hsize, hshorts⟩ := object_sizes fmt depth (Item.memberValues child) hshort
    rw [printValue]
    by_cases hlen : child.length = 0
    · have hnil := List.length_eq_zero_iff.mp hlen
      subst hnil
      exact emptyObject_spec ok fmt depth h hshort
    · rw [if_neg hlen]
      cases hok : ok h.next with
      | false =>
        obtain ⟨h₁, hmalloc, hprints⟩ := pointers_failed ok h child.length _ hok
        rw [hmalloc]
        exact ⟨none, h₁, rfl, hprints⟩
      | true =>
        obtain ⟨entries, h₁, hmalloc, adds, hnext⟩ :=
          Heap.adds_malloc ok h (.entries (List.replicate child.length none)) hok
        rw [mallocEntries, hmalloc]
        cases hok₁ : ok h₁.next with
        | false =>
          obtain ⟨h₂, h₃, hmalloc₂, hfree, hprints⟩ :=
            names_failed ok h h₁ entries child.length _ _ adds hnext hok₁
          simp only [hmalloc₂, hfree, Option.map_some]
          exact ⟨none, h₃, rfl, hprints⟩
        | true =>
          obtain ⟨names, h₂, hmalloc₂, adds₂, hnext₂⟩ :=
            Heap.adds_malloc ok h₁ (.entries (List.replicate child.length none)) hok₁
          have hboth := (adds.trans adds₂).perm (List.Perm.swap ..)
          obtain ⟨⟨len, fail, h₃⟩, hrun, hcollect⟩ := collectMembers_spec ok fmt child (depth + 1)
            names entries (7 + if fmt then depth + 1 else 0) [] [] [] h h₂ rfl hshorts hsize hboth
          have hint := intAdd_of_le (Nat.le_of_add_right_le hsize)
          have hstart : Heap.Clean ok h.next h₂.next := by
            rw [Heap.clean_trans ok h.next h₁.next h₂.next (by omega) (by omega), hnext₂,
              Heap.clean_one, hnext, Heap.clean_one, ← hnext]
            exact ⟨hok, hok₁⟩
          rw [List.length_nil] at hrun
          simp only [mallocEntries, hmalloc₂, hint, hrun, Option.bind_some]
          exact object_prints ok fmt depth names entries child h h₂ h₃ len fail (by omega) hstart
            hcollect

theorem collectEntries_spec (ok : ℕ → Bool) (fmt : Bool) : ∀ (child : List Item)
    (depth entries len : ℕ) (pre : List (Option ℕ)) (own : List (ℕ × Cell)) (h₀ h' : Memory),
    (∀ v ∈ Item.values child, 2 * (printText fmt depth v).length + 4 ≤ intMax) →
    len + (entrySizes fmt depth (Item.values child)).sum ≤ intMax →
    h₀.Adds h' ((entries, .entries (pre ++ List.replicate child.length none)) :: own) →
    ∃ r, collectEntries ok fmt depth entries pre.length len child h' = some r ∧
      CollectsEntries ok fmt depth entries len child pre own h₀ h' r
  | [], depth, entries, len, pre, own, h₀, h', _, _, adds => by
    refine ⟨(len, false, h'), rfl, [], rfl, ?_, le_rfl, ?_, ?_⟩
    · have hnil : own ++ cells [] = own := List.append_nil own
      rw [hnil]
      exact adds
    · intro htrue
      cases htrue
    · exact fun _ => ⟨Heap.clean_self ok _, [], rfl, rfl, rfl⟩
  | item :: next, depth, entries, len, pre, own, h₀, h', hshorts, hsize, adds => by
    have hnext := fun v hv => hshorts v (List.mem_cons_of_mem _ hv)
    obtain ⟨r, h₁, hprint, hprints⟩ :=
      printValue_spec ok fmt item depth h' (hshorts _ (List.mem_cons_self ..))
    exact collectEntries_step ok fmt depth entries len item next pre own h₀ h' h₁ r adds hprint
      hprints hsize fun len pre own h₀ h' =>
        collectEntries_spec ok fmt next depth entries len pre own h₀ h' hnext

theorem collectMembers_spec (ok : ℕ → Bool) (fmt : Bool) : ∀ (child : List (Option CStr × Item))
    (depth names entries len : ℕ) (preNames pre : List (Option ℕ)) (own : List (ℕ × Cell))
    (h₀ h' : Memory), preNames.length = pre.length →
    (∀ m ∈ Item.memberValues child, 2 * (printText fmt depth m.2).length + 4 ≤ intMax ∧
      (quoted m.1).length + 1 ≤ intMax) →
    len + (memberSizes fmt depth (Item.memberValues child)).sum ≤ intMax →
    h₀.Adds h' ((names, .entries (preNames ++ List.replicate child.length none)) ::
      (entries, .entries (pre ++ List.replicate child.length none)) :: own) →
    ∃ r, collectMembers ok fmt depth names entries pre.length len child h' = some r ∧
      CollectsMembers ok fmt depth names entries len child preNames pre own h₀ h' r
  | [], depth, names, entries, len, preNames, pre, own, h₀, h', hsame, _, _, adds => by
    refine ⟨(len, false, h'), rfl, [], rfl, ?_, le_rfl, ?_, ?_⟩
    · have hnil : own ++ pairCells [] = own := List.append_nil own
      rw [hnil]
      exact adds
    · intro htrue
      cases htrue
    · exact fun _ => ⟨Heap.clean_self ok _, [], rfl, rfl, rfl⟩
  | (key, item) :: next, depth, names, entries, len, preNames, pre, own, h₀, h', hsame, hshorts,
    hsize, adds => by
    obtain ⟨hitem, hkey⟩ := hshorts _ (List.mem_cons_self ..)
    have hnext := fun m hm => hshorts m (List.mem_cons_of_mem _ hm)
    exact collectMembers_step ok fmt depth names entries len key item next preNames pre own h₀ h'
      hsame adds hkey hsize (fun h => printValue_spec ok fmt item depth h hitem)
      fun len preNames pre own h₀ h' hsame =>
        collectMembers_spec ok fmt next depth names entries len preNames pre own h₀ h' hsame hnext

end

/-! ### `cJSON_Print` and `cJSON_PrintUnformatted` -/

/-- `fmt` is 1 in `cJSON_Print` and 0 in `cJSON_PrintUnformatted`. -/
def print (ok : ℕ → Bool) (fmt : Bool) (item : Item) (h : Memory) : Option (Option ℕ × Memory) :=
  printValue ok fmt 0 item h

/-- For a text below 2^30 bytes the call never stores, reads or frees out of bounds, and
no `int` overflows; it is NULL exactly when one of its own allocations failed, and then
every block is as before; otherwise there is one new block, and `strlen` reads the text
from it. -/
theorem print_memorySafe (ok : ℕ → Bool) (fmt : Bool) (item : Item) (h : Memory)
    (hshort : 2 * (printText fmt 0 item.value).length + 4 ≤ intMax) :
    ∃ r h', print ok fmt item h = some (r, h') ∧
      (r = none ↔ ∃ k, h.next ≤ k ∧ k < h'.next ∧ ok k = false) ∧
      (r = none → h'.cell = h.cell) ∧
      ∀ out, r = some out → load h' out = some (printText fmt 0 item.value) ∧
        h.cell out = none ∧ ∀ a, a ≠ out → h'.cell a = h.cell a := by
  obtain ⟨r, h', hrun, hprints⟩ := printValue_spec ok fmt item 0 h hshort
  have hfailed : (∃ k, h.next ≤ k ∧ k < h'.next ∧ ok k = false) ↔
      ¬ Heap.Clean ok h.next h'.next := by
    simp [Heap.Clean]
  refine ⟨r, h', hrun, ?_⟩
  rw [hfailed]
  cases r with
  | none =>
    obtain ⟨hclean, adds⟩ := hprints
    refine ⟨by simp [hclean], fun _ => adds.nothing, ?_⟩
    intro out hout
    cases hout
  | some out =>
    obtain ⟨hclean, junk, adds⟩ := hprints
    refine ⟨by simp [hclean], ?_, ?_⟩
    · intro hnone
      cases hnone
    · intro out' hout
      cases hout
      have hlow := adds.later _ (List.mem_singleton.mpr rfl)
      refine ⟨load_spec ⟨out, printText fmt 0 item.value, junk⟩ adds (List.mem_singleton.mpr rfl)
        (zero_notMem_value fmt item 0), h.fresh out hlow, adds.others⟩

def homeMember : Item := .object [(some (.lit "name"), .string (some (.lit "HOME")))]

theorem member_printed : ∃ r h', print (fun _ => true) true homeMember Heap.empty = some (r, h') ∧
    (r = none ↔ ∃ k, 0 ≤ k ∧ k < h'.next ∧ true = false) ∧
    (r = none → h'.cell = fun _ => none) ∧
    ∀ out, r = some out → load h' out = some (printText true 0 homeMember.value) ∧
      none = (none : Option Cell) ∧ ∀ a, a ≠ out → h'.cell a = none :=
  print_memorySafe (fun _ => true) true homeMember Heap.empty (by decide +kernel)

end Plain
end SmbDiscover

import SmbDiscover.PlainPrint

/-!
# Blocks of the children (cJSON.c:1102-1216, 1428-1585, with `p` NULL)

The second halves of `print_array` and `print_object`: `out` is allocated, the blocks of
the children are copied into it and freed, and the arrays of pointers after them. When
`out` is NULL, or when a child was not printed, all that was collected is freed.
-/

namespace SmbDiscover
open CText JsonText CJson

namespace Plain

/-! ### Loops over the collected blocks -/

/-- `cJSON_free` of the entries from `i` on that are not NULL. -/
def freeEntries (entries : ℕ) : ℕ → ℕ → Memory → Option Memory
  | _, 0, h => some h
  | i, k + 1, h =>
    (getEntry h entries i).bind fun entry =>
      match entry with
      | none => freeEntries entries (i + 1) k h
      | some ptr => (h.free ptr).bind fun h => freeEntries entries (i + 1) k h

/-- The copies of the children into `out`, with `k` of them left. -/
def joinEntries (fmt : Bool) (entries out : ℕ) : ℕ → ℕ → ℕ → Memory → Option (ℕ × Memory)
  | _, 0, off, h => some (off, h)
  | i, k + 1, off, h =>
    (getEntry h entries i).bind fun entry =>
    entry.bind fun ptr =>
    (load h ptr).bind fun text =>
    (store h out off text).bind fun h =>
      if k = 0 then
        (h.free ptr).bind fun h => joinEntries fmt entries out (i + 1) k (off + text.length) h
      else
        let sep := 44 :: gap fmt [32]
        (store h out (off + text.length) (sep ++ [0])).bind fun h =>
        (h.free ptr).bind fun h =>
          joinEntries fmt entries out (i + 1) k (off + text.length + sep.length) h

/-- `print_array` behind its first loop (cJSON.c:1163-1214). -/
def finishArray (ok : ℕ → Bool) (fmt : Bool) (entries numentries len : ℕ) (fail : Bool)
    (h : Memory) : Option (Option ℕ × Memory) :=
  match if fail then (none, h) else mallocText ok h len with
  | (none, h) =>
    (freeEntries entries 0 numentries h).bind fun h =>
    (h.free entries).map fun h => (none, h)
  | (some out, h) =>
    (store h out 0 [91, 0]).bind fun h =>
    (joinEntries fmt entries out 0 numentries 1 h).bind fun p =>
    (p.2.free entries).bind fun h =>
    (store h out p.1 [93, 0]).map fun h => (some out, h)

def freeMembers (names entries : ℕ) : ℕ → ℕ → Memory → Option Memory
  | _, 0, h => some h
  | i, k + 1, h =>
    (freeEntries names i 1 h).bind fun h =>
    (freeEntries entries i 1 h).bind fun h => freeMembers names entries (i + 1) k h

/-- The copy loop of `print_object`: each block is freed behind its copy. -/
def joinMembers (fmt : Bool) (depth names entries out : ℕ) :
    ℕ → ℕ → ℕ → Memory → Option (ℕ × Memory)
  | _, 0, off, h => some (off, h)
  | i, k + 1, off, h =>
    let indent := gap fmt (tabs depth)
    (getEntry h names i).bind fun name =>
    name.bind fun namePtr =>
    (getEntry h entries i).bind fun entry =>
    entry.bind fun ptr =>
    (load h namePtr).bind fun name =>
    (load h ptr).bind fun text =>
    (store h out off (indent ++ name ++ 58 :: gap fmt [9])).bind fun h =>
    let off := off + (indent ++ name ++ 58 :: gap fmt [9]).length
    (store h out off (text ++ [0])).bind fun h =>
    let off := off + text.length
    let sep := (if k = 0 then [] else [44]) ++ gap fmt [10]
    (store h out off (sep ++ [0])).bind fun h =>
    (h.free namePtr).bind fun h =>
    (h.free ptr).bind fun h =>
      joinMembers fmt depth names entries out (i + 1) k (off + sep.length) h

/-- `print_object` behind its first loop (cJSON.c:1501-1584). -/
def finishObject (ok : ℕ → Bool) (fmt : Bool) (depth names entries numentries len : ℕ)
    (fail : Bool) (h : Memory) : Option (Option ℕ × Memory) :=
  match if fail then (none, h) else mallocText ok h len with
  | (none, h) =>
    (freeMembers names entries 0 numentries h).bind fun h =>
    (h.free names).bind fun h =>
    (h.free entries).map fun h => (none, h)
  | (some out, h) =>
    let brace := 123 :: gap fmt [10]
    (store h out 0 (brace ++ [0])).bind fun h =>
    (joinMembers fmt depth names entries out 0 numentries brace.length h).bind fun p =>
    (p.2.free names).bind fun h =>
    (h.free entries).bind fun h =>
    (store h out p.1 (gap fmt (tabs (depth - 1)) ++ [125, 0])).map fun h => (some out, h)

/-! ### Collected blocks -/

/-- A printed block: its address, its text, and the bytes behind the terminator. -/
structure Slot where
  addr : ℕ
  text : List Byte
  junk : List (Option Byte)

def Slot.cell (s : Slot) : ℕ × Cell := (s.addr, .text ((s.text ++ [0]).map some ++ s.junk))

def pointers (slots : List (Option Slot)) : List (Option ℕ) := slots.map (Option.map Slot.addr)

def cells (slots : List (Option Slot)) : List (ℕ × Cell) := slots.filterMap (Option.map Slot.cell)

theorem cells_some (ss : List Slot) : cells (ss.map some) = ss.map Slot.cell := by
  induction ss with
  | nil => rfl
  | cons s ss ih => exact congrArg (s.cell :: ·) ih

theorem pointers_some (ss : List Slot) : pointers (ss.map some) = ss.map fun s => some s.addr := by
  rw [pointers, List.map_map]
  rfl

variable {h h' : Memory} {own first : List (ℕ × Cell)}

theorem prints_slot (ok : ℕ → Bool) (text : List Byte) (r : Option ℕ) (hp : Prints ok h h' text r) :
    ∃ slot : Option Slot, r = slot.map Slot.addr ∧ h.Adds h' (cells [slot]) ∧
      (slot = none → ¬ Heap.Clean ok h.next h'.next) ∧
      ∀ s, slot = some s → s.text = text ∧ Heap.Clean ok h.next h'.next := by
  cases r with
  | none =>
    obtain ⟨hclean, adds⟩ := hp
    refine ⟨none, rfl, adds, fun _ => hclean, ?_⟩
    intro s hs
    cases hs
  | some out =>
    obtain ⟨hclean, junk, adds⟩ := hp
    refine ⟨some ⟨out, text, junk⟩, rfl, adds, ?_, ?_⟩
    · intro hnone
      cases hnone
    · intro s hs
      cases hs
      exact ⟨rfl, hclean⟩

theorem setEntry_spec (first : List (ℕ × Cell)) (ptrs : List (Option ℕ)) (entries i : ℕ) (ret : Option ℕ)
    (adds : h.Adds h' (first ++ (entries, .entries ptrs) :: own)) (hi : i < ptrs.length) :
    ∃ h'', setEntry h' entries i ret = some h'' ∧
      h.Adds h'' (first ++ (entries, .entries (ptrs.set i ret)) :: own) ∧
      h''.next = h'.next := by
  have hmid := adds.perm List.perm_middle
  obtain ⟨h'', hwrite, adds', hnext⟩ := hmid.write (.entries (ptrs.set i ret))
  refine ⟨h'', ?_, adds'.perm List.perm_middle.symm, hnext⟩
  unfold setEntry
  rw [hmid.read (List.mem_cons_self ..)]
  simp only [if_pos hi]
  exact hwrite

theorem getEntry_spec (ptrs : List (Option ℕ)) (entries i : ℕ) (adds : h.Adds h' own)
    (hmem : (entries, .entries ptrs) ∈ own) : getEntry h' entries i = ptrs[i]? := by
  unfold getEntry
  rw [adds.read hmem]

theorem load_spec (s : Slot) (adds : h.Adds h' own) (hmem : s.cell ∈ own) (hnul : 0 ∉ s.text) :
    load h' s.addr = some s.text := by
  unfold load
  rw [adds.read (a := s.addr) hmem]
  exact loadString_text s.text s.junk hnul

theorem head_of_drop {α : Type} (xs rest : List α) (x : α) (i : ℕ) (h : xs.drop i = x :: rest) :
    xs[i]? = some x ∧ xs.drop (i + 1) = rest := by
  refine ⟨?_, ?_⟩
  · have hhead := List.head?_drop (l := xs) (i := i)
    rw [h] at hhead
    exact hhead.symm
  · rw [← List.drop_drop, h]
    rfl

/-! ### Freeing what was collected -/

theorem freeEntries_spec (entries : ℕ) (ptrs rest : List (Option ℕ)) (slots : List (Option Slot)) :
    ∀ (i : ℕ) (h' : Memory), h.Adds h' (first ++ cells slots ++ own) →
      (entries, .entries ptrs) ∈ first → ptrs.drop i = pointers slots ++ rest →
      ∃ h'', freeEntries entries i slots.length h' = some h'' ∧
        h.Adds h'' (first ++ own) ∧ h''.next = h'.next := by
  induction slots with
  | nil =>
    intro i h' adds _ _
    rw [cells, List.filterMap_nil, List.append_nil] at adds
    exact ⟨h', rfl, adds, rfl⟩
  | cons slot slots ih =>
    intro i h' adds hmem hdrop
    obtain ⟨hget, hnext⟩ := head_of_drop _ _ _ i hdrop
    have hentry := getEntry_spec ptrs entries i adds
      (List.mem_append_left _ (List.mem_append_left _ hmem))
    rw [List.length_cons, freeEntries, hentry, hget]
    cases slot with
    | none =>
      have hskip : cells (none :: slots) = cells slots := rfl
      rw [hskip] at adds
      exact ih (i + 1) h' adds hmem hnext
    | some s =>
      have hcons : first ++ cells (some s :: slots) ++ own =
          first ++ (s.addr, s.cell.2) :: (cells slots ++ own) := by
        rw [List.append_assoc]
        rfl
      rw [hcons] at adds
      obtain ⟨h₁, hfree, adds₁, hnext₁⟩ := adds.freeMid _
      rw [← List.append_assoc] at adds₁
      obtain ⟨h₂, hrest, adds₂, hnext₂⟩ := ih (i + 1) h₁ adds₁ hmem hnext
      simp only [Option.bind_some, Option.map_some, hfree]
      exact ⟨h₂, hrest, adds₂, hnext₂.trans hnext₁⟩

def pairCells (pairs : List (Option Slot × Option Slot)) : List (ℕ × Cell) :=
  pairs.flatMap fun p => cells [p.1] ++ cells [p.2]

theorem freeMembers_spec (first : List (ℕ × Cell)) (names entries : ℕ) (namePtrs ptrs : List (Option ℕ))
    (pairs : List (Option Slot × Option Slot)) :
    ∀ (i : ℕ) (h' : Memory), h.Adds h' (first ++ pairCells pairs) →
      (names, .entries namePtrs) ∈ first → (entries, .entries ptrs) ∈ first →
      namePtrs.drop i = pointers (pairs.map Prod.fst) →
      ptrs.drop i = pointers (pairs.map Prod.snd) →
      ∃ h'', freeMembers names entries i pairs.length h' = some h'' ∧
        h.Adds h'' first ∧ h''.next = h'.next := by
  induction pairs with
  | nil =>
    intro i h' adds _ _ _ _
    rw [pairCells, List.flatMap_nil, List.append_nil] at adds
    exact ⟨h', rfl, adds, rfl⟩
  | cons p pairs ih =>
    intro i h' adds hnames hentries hdropNames hdrop
    have hcons : first ++ pairCells (p :: pairs) =
        first ++ cells [p.1] ++ (cells [p.2] ++ pairCells pairs) := by
      simp [pairCells]
    rw [hcons] at adds
    obtain ⟨h₁, hfree₁, adds₁, hnext₁⟩ := freeEntries_spec names namePtrs
      (pointers (pairs.map Prod.fst)) [p.1] i h' adds hnames hdropNames
    rw [← List.append_assoc] at adds₁
    obtain ⟨h₂, hfree₂, adds₂, hnext₂⟩ := freeEntries_spec entries ptrs
      (pointers (pairs.map Prod.snd)) [p.2] i h₁ adds₁ hentries hdrop
    obtain ⟨h₃, hrest, adds₃, hnext₃⟩ := ih (i + 1) h₂ adds₂ hnames hentries
      (head_of_drop _ _ _ i hdropNames).2 (head_of_drop _ _ _ i hdrop).2
    rw [List.length_cons, freeMembers]
    rw [List.length_singleton] at hfree₁ hfree₂
    simp only [hfree₁, hfree₂, Option.bind_some]
    exact ⟨h₃, hrest, adds₃, by omega⟩

/-! ### Copying what was collected -/

def joinTexts (fmt : Bool) : List (List Byte) → List Byte
  | [] => []
  | [text] => text
  | text :: next => text ++ 44 :: (gap fmt [32] ++ joinTexts fmt next)

def pairText (fmt : Bool) (depth : ℕ) (name text : List Byte) (last : Bool) : List Byte :=
  gap fmt (tabs depth) ++ name ++ 58 :: gap fmt [9] ++ text ++
    ((if last then [] else [44]) ++ gap fmt [10])

def joinPairs (fmt : Bool) (depth : ℕ) : List (List Byte × List Byte) → List Byte
  | [] => []
  | (name, text) :: next => pairText fmt depth name text next.isEmpty ++ joinPairs fmt depth next

theorem filled_freeMid (first : List (ℕ × Cell)) (out addr : ℕ) (w : List Byte) (room : ℕ) (cell : Cell)
    (filled : Filled h h' out w room (first ++ (addr, cell) :: own)) :
    ∃ h'', h'.free addr = some h'' ∧ Filled h h'' out w room (first ++ own) ∧
      h''.next = h'.next := by
  obtain ⟨junk, hjunk, adds⟩ := filled
  obtain ⟨h'', hfree, adds', hnext⟩ := Heap.Adds.freeMid (_ :: first) adds
  exact ⟨h'', hfree, ⟨junk, hjunk, adds'⟩, hnext⟩

theorem filled_entry (out entries i : ℕ) (w : List Byte) (room : ℕ) (ptrs : List (Option ℕ))
    (filled : Filled h h' out w room own) (hmem : (entries, .entries ptrs) ∈ own) :
    getEntry h' entries i = ptrs[i]? := by
  obtain ⟨junk, -, adds⟩ := filled
  exact getEntry_spec ptrs entries i adds (List.mem_cons_of_mem _ hmem)

theorem filled_load (out : ℕ) (w : List Byte) (room : ℕ) (s : Slot)
    (filled : Filled h h' out w room own) (hmem : s.cell ∈ own) (hnul : 0 ∉ s.text) :
    load h' s.addr = some s.text := by
  obtain ⟨junk, -, adds⟩ := filled
  exact load_spec s adds (List.mem_cons_of_mem _ hmem) hnul

theorem joinEntries_spec (fmt : Bool) (entries out : ℕ) (ptrs : List (Option ℕ))
    (ss : List Slot) : ∀ (i off : ℕ) (w : List Byte) (room : ℕ) (h' : Memory),
      Filled h h' out w room (first ++ ss.map Slot.cell) → (entries, .entries ptrs) ∈ first →
      ptrs.drop i = ss.map (fun s => some s.addr) → off = w.length →
      (∀ s ∈ ss, 0 ∉ s.text) → (joinTexts fmt (ss.map Slot.text)).length + 2 ≤ room →
      ∃ h'', joinEntries fmt entries out i ss.length off h' =
          some (off + (joinTexts fmt (ss.map Slot.text)).length, h'') ∧
        Filled h h'' out (w ++ joinTexts fmt (ss.map Slot.text))
          (room - (joinTexts fmt (ss.map Slot.text)).length) first ∧ h''.next = h'.next := by
  induction ss with
  | nil =>
    intro i off w room h' filled _ _ _ _ _
    rw [List.map_nil, List.append_nil] at filled
    refine ⟨h', rfl, ?_, rfl⟩
    rw [List.map_nil, joinTexts, List.append_nil]
    exact filled
  | cons s ss ih =>
    intro i off w room h' filled hmem hdrop hoff hnul hroom
    obtain ⟨hget, hnextDrop⟩ := head_of_drop _ _ _ i hdrop
    have hentry := filled_entry out entries i w room ptrs filled (List.mem_append_left _ hmem)
    have hload := filled_load out w room s filled
      (List.mem_append_right _ (List.mem_cons_self ..)) (hnul s (List.mem_cons_self ..))
    have hrest : ∀ s' ∈ ss, 0 ∉ s'.text := fun s' hs' => hnul s' (List.mem_cons_of_mem _ hs')
    rw [List.length_cons, joinEntries, hentry, hget]
    simp only [Option.bind_some, hload]
    cases ss with
    | nil =>
      simp only [List.map_cons, List.map_nil, joinTexts] at hroom ⊢
      obtain ⟨h₁, hstore, filled₁, hnext₁⟩ := filled.store off s.text hoff (by omega)
      obtain ⟨h₂, hfree, filled₂, hnext₂⟩ := filled_freeMid _ out s.addr _ _ s.cell.2 filled₁
      simp only [hstore, Option.bind_some, List.length_nil, if_true, hfree, joinEntries]
      rw [List.map_nil, List.append_nil] at filled₂
      exact ⟨h₂, rfl, filled₂, hnext₂.trans hnext₁⟩
    | cons s' ss =>
      have htexts : joinTexts fmt ((s :: s' :: ss).map Slot.text) =
          s.text ++ (44 :: gap fmt [32]) ++ joinTexts fmt ((s' :: ss).map Slot.text) := by
        simp [joinTexts]
      rw [htexts] at hroom ⊢
      simp only [List.length_append] at hroom ⊢
      obtain ⟨h₁, hstore₁, filled₁, hnext₁⟩ := filled.store off s.text hoff (by omega)
      obtain ⟨h₂, hstore₂, filled₂, hnext₂⟩ := filled₁.storeNul (off + s.text.length)
        (44 :: gap fmt [32]) (by rw [List.length_append, hoff]) (by omega)
      obtain ⟨h₃, hfree, filled₃, hnext₃⟩ := filled_freeMid _ out s.addr _ _ s.cell.2 filled₂
      obtain ⟨h₄, hjoin, filled₄, hnext₄⟩ := ih (i + 1)
        (off + s.text.length + (44 :: gap fmt [32]).length) _ _ h₃ filled₃ hmem hnextDrop
        (by simp only [List.length_append]; omega) hrest (by omega)
      rw [Nat.sub_sub, Nat.sub_sub, List.append_assoc, List.append_assoc,
        ← List.append_assoc s.text, ← Nat.add_assoc] at filled₄
      have hsep : (44 :: gap fmt [32]).length = (gap fmt [32]).length + 1 := rfl
      simp only [hstore₁, Option.bind_some, List.length_cons, Nat.add_one_ne_zero, if_false]
      rw [hstore₂]
      simp only [Option.bind_some, hfree]
      exact ⟨h₄, hjoin.trans (congrArg (fun n => some (n, h₄)) (by omega)), filled₄, by omega⟩

def memberCells (ps : List (Slot × Slot)) : List (ℕ × Cell) :=
  ps.flatMap fun p => [p.1.cell, p.2.cell]

def memberTexts (ps : List (Slot × Slot)) : List (List Byte × List Byte) :=
  ps.map fun p => (p.1.text, p.2.text)

theorem joinMembers_spec (fmt : Bool) (depth names entries out : ℕ)
    (namePtrs ptrs : List (Option ℕ)) (ps : List (Slot × Slot)) :
    ∀ (i off : ℕ) (w : List Byte) (room : ℕ) (h' : Memory),
      Filled h h' out w room (first ++ memberCells ps) → (names, .entries namePtrs) ∈ first →
      (entries, .entries ptrs) ∈ first → namePtrs.drop i = ps.map (fun p => some p.1.addr) →
      ptrs.drop i = ps.map (fun p => some p.2.addr) → off = w.length →
      (∀ p ∈ ps, 0 ∉ p.1.text ∧ 0 ∉ p.2.text) →
      (joinPairs fmt depth (memberTexts ps)).length + 2 ≤ room →
      ∃ h'', joinMembers fmt depth names entries out i ps.length off h' =
          some (off + (joinPairs fmt depth (memberTexts ps)).length, h'') ∧
        Filled h h'' out (w ++ joinPairs fmt depth (memberTexts ps))
          (room - (joinPairs fmt depth (memberTexts ps)).length) first ∧ h''.next = h'.next := by
  induction ps with
  | nil =>
    intro i off w room h' filled _ _ _ _ _ _ _
    rw [memberCells, List.flatMap_nil, List.append_nil] at filled
    refine ⟨h', rfl, ?_, rfl⟩
    rw [memberTexts, List.map_nil, joinPairs, List.append_nil]
    exact filled
  | cons p ps ih =>
    intro i off w room h' filled hnames hentries hdropNames hdrop hoff hnul hroom
    obtain ⟨hgetName, hnextNames⟩ := head_of_drop _ _ _ i hdropNames
    obtain ⟨hget, hnextDrop⟩ := head_of_drop _ _ _ i hdrop
    have hmemName : p.1.cell ∈ first ++ memberCells (p :: ps) :=
      List.mem_append_right _ (List.mem_cons_self ..)
    have hmem : p.2.cell ∈ first ++ memberCells (p :: ps) :=
      List.mem_append_right _ (List.mem_cons_of_mem _ (List.mem_cons_self ..))
    have hnul₀ := hnul p (List.mem_cons_self ..)
    have hrest : ∀ p' ∈ ps, 0 ∉ p'.1.text ∧ 0 ∉ p'.2.text := fun p' hp' =>
      hnul p' (List.mem_cons_of_mem _ hp')
    have hentryName := filled_entry out names i w room namePtrs filled (List.mem_append_left _ hnames)
    have hentry := filled_entry out entries i w room ptrs filled (List.mem_append_left _ hentries)
    have hloadName := filled_load out w room p.1 filled hmemName hnul₀.1
    have hload := filled_load out w room p.2 filled hmem hnul₀.2
    have hlast : (memberTexts ps).isEmpty = decide (ps.length = 0) := by
      cases ps <;> rfl
    rw [List.length_cons, joinMembers]
    rw [hentryName, hgetName, hentry, hget]
    simp only [Option.bind_some, hloadName, hload]
    have hsplit : joinPairs fmt depth (memberTexts (p :: ps)) =
        (gap fmt (tabs depth) ++ p.1.text ++ 58 :: gap fmt [9]) ++ p.2.text ++
          ((if ps.length = 0 then [] else [44]) ++ gap fmt [10]) ++
          joinPairs fmt depth (memberTexts ps) := by
      show pairText fmt depth p.1.text p.2.text (memberTexts ps).isEmpty ++
        joinPairs fmt depth (memberTexts ps) = _
      rw [hlast, pairText]
      simp
    rw [hsplit] at hroom ⊢
    generalize gap fmt (tabs depth) ++ p.1.text ++ 58 :: gap fmt [9] = lead at hroom ⊢
    generalize (if ps.length = 0 then [] else [44]) ++ gap fmt [10] = sep at hroom ⊢
    simp only [List.length_append] at hroom ⊢
    obtain ⟨h₁, hstore₁, filled₁, hnext₁⟩ := filled.store off lead hoff (by omega)
    obtain ⟨h₂, hstore₂, filled₂, hnext₂⟩ := filled₁.storeNul (off + lead.length) p.2.text
      (by rw [List.length_append, hoff]) (by omega)
    obtain ⟨h₃, hstore₃, filled₃, hnext₃⟩ := filled₂.storeNul
      (off + lead.length + p.2.text.length) sep
      (by rw [List.length_append, List.length_append, hoff]) (by omega)
    obtain ⟨h₄, hfree₄, filled₄, hnext₄⟩ := filled_freeMid _ out p.1.addr _ _ p.1.cell.2 filled₃
    obtain ⟨h₅, hfree₅, filled₅, hnext₅⟩ := filled_freeMid _ out p.2.addr _ _ p.2.cell.2 filled₄
    obtain ⟨h₆, hjoin, filled₆, hnext₆⟩ := ih (i + 1)
      (off + lead.length + p.2.text.length + sep.length) _ _ h₅ filled₅ hnames hentries hnextNames
      hnextDrop (by simp only [List.length_append]; omega) hrest (by omega)
    rw [Nat.sub_sub, Nat.sub_sub, Nat.sub_sub] at filled₆
    simp only [List.append_assoc, ← Nat.add_assoc] at filled₆ ⊢
    rw [hstore₁]
    simp only [Option.bind_some]
    rw [hstore₂]
    simp only [Option.bind_some]
    rw [hstore₃]
    simp only [Option.bind_some, hfree₄, hfree₅]
    exact ⟨h₆, hjoin, filled₆, by omega⟩

/-! ### The whole text -/

theorem filled_after (out : ℕ) (w : List Byte) (room : ℕ) (h₁ : Memory) (adds : h.Adds h' own)
    (filled : Filled h' h₁ out w room []) : Filled h h₁ out w room own := by
  obtain ⟨junk, hjunk, adds'⟩ := filled
  exact ⟨junk, hjunk, (adds.trans adds').perm (List.perm_append_singleton ..)⟩

/-- What the second half of a print function makes of its collected blocks. -/
def Finishes (ok : ℕ → Bool) (h h' h'' : Memory) (text : List Byte) : Option ℕ → Prop
  | none => ok h'.next = false ∧ h.Adds h'' [] ∧ h''.next = h'.next + 1
  | some out => ok h'.next = true ∧ h''.next = h'.next + 1 ∧ ∃ junk,
      h.Adds h'' [(out, .text ((text ++ [0]).map some ++ junk))]

theorem freeArray_spec (entries : ℕ) (slots : List (Option Slot))
    (adds : h.Adds h' ((entries, .entries (pointers slots)) :: cells slots)) :
    ∃ h'', ((freeEntries entries 0 slots.length h').bind fun h =>
        (h.free entries).map fun h => ((none : Option ℕ), h)) = some (none, h'') ∧
      h.Adds h'' [] ∧ h''.next = h'.next := by
  have adds₀ : h.Adds h' ([(entries, .entries (pointers slots))] ++ cells slots ++ []) := by
    rw [List.append_nil]
    exact adds
  obtain ⟨h₁, hfree, adds₁, hnext₁⟩ := freeEntries_spec entries (pointers slots) [] slots 0 h' adds₀
    (List.mem_singleton.mpr rfl) (by rw [List.drop_zero, List.append_nil])
  obtain ⟨h₂, hfree₂, adds₂, hnext₂⟩ := Heap.Adds.freeMid [] adds₁
  refine ⟨h₂, ?_, adds₂, hnext₂.trans hnext₁⟩
  rw [hfree, Option.bind_some, hfree₂, Option.map_some]

theorem finishArray_failed (ok : ℕ → Bool) (fmt : Bool) (entries len : ℕ)
    (slots : List (Option Slot))
    (adds : h.Adds h' ((entries, .entries (pointers slots)) :: cells slots)) :
    ∃ h'', finishArray ok fmt entries slots.length len true h' = some (none, h'') ∧
      h.Adds h'' [] ∧ h''.next = h'.next := freeArray_spec entries slots adds

theorem finishArray_spec (ok : ℕ → Bool) (fmt : Bool) (entries len : ℕ) (ss : List Slot)
    (adds : h.Adds h' ((entries, .entries (pointers (ss.map some))) :: ss.map Slot.cell))
    (hnul : ∀ s ∈ ss, 0 ∉ s.text)
    (hlen : (joinTexts fmt (ss.map Slot.text)).length + 3 ≤ len) :
    ∃ r h'', finishArray ok fmt entries ss.length len false h' = some (r, h'') ∧
      Finishes ok h h' h'' (91 :: (joinTexts fmt (ss.map Slot.text) ++ [93])) r := by
  unfold finishArray
  cases hok : ok h'.next with
  | false =>
    obtain ⟨h₁, hmalloc, adds₁, hnext₁⟩ :=
      Heap.malloc_failed ok h' (.text (List.replicate len none)) hok
    have adds₂ := adds.trans adds₁
    rw [List.append_nil, ← cells_some] at adds₂
    obtain ⟨h₂, hfree, adds₃, hnext₂⟩ := freeArray_spec entries (ss.map some) adds₂
    rw [List.length_map] at hfree
    refine ⟨none, h₂, ?_, hok, adds₃, hnext₂.trans hnext₁⟩
    simp only [Bool.false_eq_true, if_false, mallocText, hmalloc]
    exact hfree
  | true =>
    obtain ⟨out, h₁, hmalloc, filled₁, hnext₁⟩ := filled_malloc ok h' len hok
    have filled₁ : Filled h h₁ out [] len
        ([(entries, .entries (pointers (ss.map some)))] ++ ss.map Slot.cell) :=
      filled_after out [] len h₁ adds filled₁
    obtain ⟨h₂, hstore₂, filled₂, hnext₂⟩ := filled₁.storeNul 0 [91] rfl
      (by rw [List.length_singleton]; omega)
    obtain ⟨h₃, hjoin, filled₃, hnext₃⟩ := joinEntries_spec fmt entries out
      (pointers (ss.map some)) ss 0 1 _ _ h₂ filled₂ (List.mem_singleton.mpr rfl)
      (pointers_some ss) rfl hnul (by rw [List.length_singleton]; omega)
    obtain ⟨h₄, hfree, filled₄, hnext₄⟩ := filled_freeMid [] out entries _ _ _ filled₃
    obtain ⟨h₅, hstore₅, filled₅, hnext₅⟩ := filled₄.store
      (1 + (joinTexts fmt (ss.map Slot.text)).length) [93, 0]
      (by simp only [List.nil_append, List.length_append, List.length_singleton])
      (by simp only [List.length_cons, List.length_nil]; omega)
    obtain ⟨junk, -, adds₅⟩ := filled₅
    refine ⟨some out, h₅, ?_, hok, by omega, junk, ?_⟩
    · simp only [Bool.false_eq_true, if_false, hmalloc]
      rw [show ([91, 0] : List Byte) = [91] ++ [0] from rfl, hstore₂]
      simp only [Option.bind_some, hjoin, hfree, hstore₅, Option.map_some]
    · have htext : [] ++ [91] ++ joinTexts fmt (ss.map Slot.text) ++ [93, 0] =
          91 :: (joinTexts fmt (ss.map Slot.text) ++ [93]) ++ [0] := by simp
      rw [htext] at adds₅
      exact adds₅

theorem freeObject_spec (names entries : ℕ) (pairs : List (Option Slot × Option Slot))
    (adds : h.Adds h' ((names, .entries (pointers (pairs.map Prod.fst))) ::
      (entries, .entries (pointers (pairs.map Prod.snd))) :: pairCells pairs)) :
    ∃ h'', ((freeMembers names entries 0 pairs.length h').bind fun h =>
        (h.free names).bind fun h =>
        (h.free entries).map fun h => ((none : Option ℕ), h)) = some (none, h'') ∧
      h.Adds h'' [] ∧ h''.next = h'.next := by
  obtain ⟨h₁, hfree, adds₁, hnext₁⟩ := freeMembers_spec [_, _] names entries _ _ pairs 0 h'
    adds (List.mem_cons_self ..) (List.mem_cons_of_mem _ (List.mem_cons_self ..)) rfl rfl
  obtain ⟨h₂, hfree₂, adds₂, hnext₂⟩ := adds₁.free
  obtain ⟨h₃, hfree₃, adds₃, hnext₃⟩ := adds₂.free
  refine ⟨h₃, ?_, adds₃, by omega⟩
  rw [hfree, Option.bind_some, hfree₂, Option.bind_some, hfree₃, Option.map_some]

theorem pairCells_some (ps : List (Slot × Slot)) :
    pairCells (ps.map fun p => (some p.1, some p.2)) = memberCells ps := by
  rw [pairCells, List.flatMap_map, memberCells]
  rfl

theorem finishObject_spec (ok : ℕ → Bool) (fmt : Bool) (depth names entries len : ℕ)
    (ps : List (Slot × Slot))
    (adds : h.Adds h' ((names, .entries (ps.map fun p => some p.1.addr)) ::
      (entries, .entries (ps.map fun p => some p.2.addr)) :: memberCells ps))
    (hnul : ∀ p ∈ ps, 0 ∉ p.1.text ∧ 0 ∉ p.2.text)
    (hlen : (joinPairs fmt depth (memberTexts ps)).length + (gap fmt (tabs (depth - 1))).length +
      (gap fmt [10]).length + 3 ≤ len) :
    ∃ r h'', finishObject ok fmt depth names entries ps.length len false h' = some (r, h'') ∧
      Finishes ok h h' h'' (123 :: (gap fmt [10] ++ joinPairs fmt depth (memberTexts ps) ++
        gap fmt (tabs (depth - 1)) ++ [125])) r := by
  unfold finishObject
  cases hok : ok h'.next with
  | false =>
    obtain ⟨h₁, hmalloc, adds₁, hnext₁⟩ :=
      Heap.malloc_failed ok h' (.text (List.replicate len none)) hok
    have adds₂ := adds.trans adds₁
    rw [List.append_nil, ← pairCells_some] at adds₂
    obtain ⟨h₂, hfree, adds₃, hnext₂⟩ := freeObject_spec names entries
      (ps.map fun p => (some p.1, some p.2)) (by
        simp only [pointers, List.map_map] at adds₂ ⊢
        exact adds₂)
    rw [List.length_map] at hfree
    refine ⟨none, h₂, ?_, hok, adds₃, hnext₂.trans hnext₁⟩
    simp only [Bool.false_eq_true, if_false, mallocText, hmalloc]
    exact hfree
  | true =>
    obtain ⟨out, h₁, hmalloc, filled₁, hnext₁⟩ := filled_malloc ok h' len hok
    have filled₁ : Filled h h₁ out [] len
        ([(names, .entries (ps.map fun p => some p.1.addr)),
          (entries, .entries (ps.map fun p => some p.2.addr))] ++ memberCells ps) :=
      filled_after out [] len h₁ adds filled₁
    have hbrace : (123 :: gap fmt [10]).length = (gap fmt [10]).length + 1 := rfl
    obtain ⟨h₂, hstore₂, filled₂, hnext₂⟩ := filled₁.storeNul 0 (123 :: gap fmt [10]) rfl (by omega)
    obtain ⟨h₃, hjoin, filled₃, hnext₃⟩ := joinMembers_spec fmt depth names entries out _ _ ps 0
      (123 :: gap fmt [10]).length _ _ h₂ filled₂ (List.mem_cons_self ..)
      (List.mem_cons_of_mem _ (List.mem_cons_self ..)) rfl rfl rfl hnul (by omega)
    obtain ⟨h₄, hfree₄, filled₄, hnext₄⟩ := filled_freeMid [] out names _ _ _ filled₃
    obtain ⟨h₅, hfree₅, filled₅, hnext₅⟩ := filled_freeMid [] out entries _ _ _ filled₄
    obtain ⟨h₆, hstore₆, filled₆, hnext₆⟩ := filled₅.store
      ((123 :: gap fmt [10]).length + (joinPairs fmt depth (memberTexts ps)).length)
      (gap fmt (tabs (depth - 1)) ++ [125, 0])
      (by simp only [List.nil_append, List.length_append])
      (by simp only [List.length_append, List.length_cons, List.length_nil]; omega)
    obtain ⟨junk, -, adds₆⟩ := filled₆
    refine ⟨some out, h₆, ?_, hok, by omega, junk, ?_⟩
    · simp only [Bool.false_eq_true, if_false, hmalloc]
      rw [hstore₂]
      simp only [Option.bind_some, hjoin, hfree₄, hfree₅, hstore₆, Option.map_some]
    · have htext : [] ++ 123 :: gap fmt [10] ++ joinPairs fmt depth (memberTexts ps) ++
          (gap fmt (tabs (depth - 1)) ++ [125, 0]) =
          123 :: (gap fmt [10] ++ joinPairs fmt depth (memberTexts ps) ++
            gap fmt (tabs (depth - 1)) ++ [125]) ++ [0] := by simp
      rw [htext] at adds₆
      exact adds₆

theorem gap_length (fmt : Bool) (s : List Byte) :
    (gap fmt s).length = if fmt then s.length else 0 := by
  cases fmt <;> rfl

theorem joinTexts_entries (fmt : Bool) (depth : ℕ) (elems : List Json) :
    joinTexts fmt (elems.map (printText fmt depth)) = printEntries fmt depth elems := by
  induction elems with
  | nil => rfl
  | cons v next ih =>
    cases next with
    | nil => rfl
    | cons v' next =>
      rw [List.map_cons] at ih
      simp only [List.map_cons, joinTexts, printEntries, ih]

theorem joinPairs_members (fmt : Bool) (depth : ℕ) (members : List (List Byte × Json)) :
    joinPairs fmt depth (members.map fun m => (quoted m.1, printText fmt depth m.2)) =
      printPairs fmt depth members := by
  induction members with
  | nil => rfl
  | cons m next ih =>
    cases next with
    | nil => simp [joinPairs, pairText, printPairs]
    | cons m' next =>
      rw [List.map_cons, joinPairs, ih]
      simp [pairText, printPairs]

theorem joinTexts_length (fmt : Bool) (texts : List (List Byte)) :
    (joinTexts fmt texts).length ≤
      (texts.map fun text => text.length + 2 + if fmt then 1 else 0).sum := by
  have hgap := gap_length fmt [32]
  rw [List.length_singleton] at hgap
  induction texts with
  | nil => exact Nat.le_refl 0
  | cons text next ih =>
    cases next with
    | nil =>
      rw [joinTexts, List.map_cons, List.sum_cons]
      omega
    | cons text' next =>
      rw [List.map_cons, List.sum_cons]
      simp only [joinTexts, List.length_append, List.length_cons] at ih ⊢
      omega

theorem joinPairs_length (fmt : Bool) (depth : ℕ) (pairs : List (List Byte × List Byte)) :
    (joinPairs fmt depth pairs).length ≤
      (pairs.map fun p => p.2.length + p.1.length + 2 + if fmt then 2 + depth else 0).sum := by
  have htabs := gap_length fmt (tabs depth)
  have hnine := gap_length fmt [9]
  have hten := gap_length fmt [10]
  rw [tabs, List.length_replicate, ← tabs] at htabs
  rw [List.length_singleton] at hnine hten
  induction pairs with
  | nil => exact Nat.le_refl 0
  | cons p next ih =>
    have hcomma : (if next.isEmpty then [] else [44] : List Byte).length ≤ 1 := by
      split <;> simp
    rw [List.map_cons, List.sum_cons, joinPairs, pairText]
    simp only [List.length_append, List.length_cons]
    cases fmt with
    | false =>
      simp only [Bool.false_eq_true, if_false] at *
      omega
    | true =>
      simp only [if_true] at *
      omega

/-! ### Sizes that fit an `int` -/

theorem joinTexts_sizes (fmt : Bool) (texts : List (List Byte)) :
    (texts.map fun text => text.length + 2 + if fmt then 1 else 0).sum ≤
      2 * (joinTexts fmt texts).length + 3 := by
  have hgap := gap_length fmt [32]
  have hone : (if fmt then 1 else 0) ≤ 1 := by split <;> omega
  rw [List.length_singleton] at hgap
  induction texts with
  | nil => exact Nat.zero_le _
  | cons text next ih =>
    cases next with
    | nil =>
      rw [joinTexts, List.map_cons, List.sum_cons, List.map_nil, List.sum_nil]
      omega
    | cons text' next =>
      rw [List.map_cons, List.sum_cons]
      simp only [joinTexts, List.length_append, List.length_cons] at ih ⊢
      omega

theorem joinTexts_mem (fmt : Bool) (texts : List (List Byte)) :
    ∀ text ∈ texts, text.length ≤ (joinTexts fmt texts).length := by
  induction texts with
  | nil =>
    intro text htext
    cases htext
  | cons first next ih =>
    intro text htext
    cases next with
    | nil =>
      rw [List.mem_singleton.mp htext]
      exact Nat.le_refl _
    | cons text' next =>
      simp only [joinTexts, List.length_append, List.length_cons]
      rcases List.mem_cons.mp htext with rfl | hnext
      · omega
      · have hle := ih text hnext
        omega

theorem joinPairs_sizes (fmt : Bool) (depth : ℕ) (pairs : List (List Byte × List Byte)) :
    (pairs.map fun p => p.2.length + p.1.length + 2 + if fmt then 2 + depth else 0).sum ≤
      (joinPairs fmt depth pairs).length + 1 := by
  have htabs := gap_length fmt (tabs depth)
  have hnine := gap_length fmt [9]
  have hten := gap_length fmt [10]
  rw [tabs, List.length_replicate, ← tabs] at htabs
  rw [List.length_singleton] at hnine hten
  induction pairs with
  | nil => exact Nat.zero_le _
  | cons p next ih =>
    have hnext : (next.map fun p => p.2.length + p.1.length + 2 + if fmt then 2 + depth else 0).sum ≤
        (if next.isEmpty then [] else [44] : List Byte).length +
          (joinPairs fmt depth next).length := by
      cases next with
      | nil => exact Nat.zero_le _
      | cons p' next => exact ih.trans (Nat.add_comm _ 1).le
    rw [List.map_cons, List.sum_cons, joinPairs, pairText]
    simp only [List.length_append, List.length_cons]
    cases fmt with
    | false =>
      simp only [Bool.false_eq_true, if_false] at *
      omega
    | true =>
      simp only [if_true] at *
      omega

theorem joinPairs_mem (fmt : Bool) (depth : ℕ) (pairs : List (List Byte × List Byte)) :
    ∀ p ∈ pairs, p.1.length + p.2.length ≤ (joinPairs fmt depth pairs).length := by
  induction pairs with
  | nil =>
    intro p hp
    cases hp
  | cons first next ih =>
    intro p hp
    rw [joinPairs, pairText]
    simp only [List.length_append, List.length_cons]
    rcases List.mem_cons.mp hp with rfl | hnext
    · omega
    · have hle := ih p hnext
      omega

end Plain
end SmbDiscover

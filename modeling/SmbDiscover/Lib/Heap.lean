import Mathlib

/-!
# A heap of cells

Cells at addresses that are given out in order and never twice. `ok k` says whether
the `k`-th allocation succeeds. A read, a write or a free of a cell that is not live is
`none`. `Adds h h' own` says what a caller has to know about a call: the cells of `h`
are as they were, and `own` are the cells that the call leaves behind.
-/

variable {β : Type*}

/-- Cells under addresses that are given out one after another and never again. -/
structure Heap (β : Type*) where
  next : ℕ
  cell : ℕ → Option β
  fresh : ∀ a, next ≤ a → cell a = none

namespace Heap

def empty : Heap β := ⟨0, fun _ => none, fun _ _ => rfl⟩

def malloc (ok : ℕ → Bool) (h : Heap β) (b : β) : Option ℕ × Heap β :=
  if ok h.next then
    (some h.next, ⟨h.next + 1, Function.update h.cell h.next (some b), fun a ha => by
      rw [Function.update_of_ne (by omega)]
      exact h.fresh a (by omega)⟩)
  else (none, ⟨h.next + 1, h.cell, fun a ha => h.fresh a (by omega)⟩)

def write (h : Heap β) (a : ℕ) (b : β) : Option (Heap β) :=
  if live : (h.cell a).isSome then
    some ⟨h.next, Function.update h.cell a (some b), fun a' ha' => by
      have hne : a' ≠ a := by
        intro heq
        rw [← heq, h.fresh a' ha'] at live
        cases live
      rw [Function.update_of_ne hne]
      exact h.fresh a' ha'⟩
  else none

def free (h : Heap β) (a : ℕ) : Option (Heap β) :=
  if (h.cell a).isSome then
    some ⟨h.next, Function.update h.cell a none, fun a' ha' => by
      rw [Function.update_apply]
      split
      · rfl
      · exact h.fresh a' ha'⟩
  else none

/-- Every allocation from the `i`-th to the `j`-th succeeds. -/
def Clean (ok : ℕ → Bool) (i j : ℕ) : Prop := ∀ k, i ≤ k → k < j → ok k = true

theorem clean_self (ok : ℕ → Bool) (i : ℕ) : Clean ok i i := by
  intro k hlow hhigh
  omega

theorem clean_trans (ok : ℕ → Bool) (i j k : ℕ) (hij : i ≤ j) (hjk : j ≤ k) :
    Clean ok i k ↔ Clean ok i j ∧ Clean ok j k := by
  refine ⟨?_, ?_⟩
  · intro h
    exact ⟨fun m hlow hhigh => h m hlow (by omega), fun m hlow hhigh => h m (by omega) hhigh⟩
  · intro h m hlow hhigh
    by_cases hm : m < j
    · exact h.1 m hlow hm
    · exact h.2 m (by omega) hhigh

theorem clean_one (ok : ℕ → Bool) (i : ℕ) : Clean ok i (i + 1) ↔ ok i = true := by
  refine ⟨fun h => h i le_rfl (Nat.lt_succ_self i), ?_⟩
  intro h m hlow hhigh
  have hm : m = i := by omega
  rw [hm]
  exact h

/-! ### What a call leaves behind -/

/-- `h'` holds the cells of `h` and the new ones of `own`, and nothing else. -/
structure Adds (h h' : Heap β) (own : List (ℕ × β)) : Prop where
  next : h.next ≤ h'.next
  old : ∀ a < h.next, h'.cell a = h.cell a
  cells : ∀ a b, h.next ≤ a → (h'.cell a = some b ↔ (a, b) ∈ own)
  later : ∀ p ∈ own, h.next ≤ p.1
  nodup : (own.map Prod.fst).Nodup

theorem adds_self (h : Heap β) : Adds h h [] where
  next := le_rfl
  old _ _ := rfl
  cells a b ha := by simp [h.fresh a ha]
  later p hp := by cases hp
  nodup := List.nodup_nil

variable {h h' h'' : Heap β} {own : List (ℕ × β)} {a : ℕ} {b : β}

theorem Adds.read (adds : Adds h h' own) (hmem : (a, b) ∈ own) : h'.cell a = some b :=
  (adds.cells a b (adds.later _ hmem)).mpr hmem

theorem Adds.below (adds : Adds h h' own) (hmem : (a, b) ∈ own) : a < h'.next := by
  by_contra hle
  have hfresh := h'.fresh a (Nat.le_of_not_lt hle)
  rw [adds.read hmem] at hfresh
  cases hfresh

theorem Adds.perm {own' : List (ℕ × β)} (adds : Adds h h' own) (hperm : own.Perm own') :
    Adds h h' own' where
  next := adds.next
  old := adds.old
  cells a b ha := (adds.cells a b ha).trans hperm.mem_iff
  later p hp := adds.later p (hperm.mem_iff.mpr hp)
  nodup := (hperm.map Prod.fst).nodup_iff.mp adds.nodup

/-- Nothing is left behind: the heap has the same cells as before. -/
theorem Adds.nothing (adds : Adds h h' []) : h'.cell = h.cell := by
  funext a
  by_cases ha : a < h.next
  · exact adds.old a ha
  · have hle := Nat.le_of_not_lt ha
    rw [h.fresh a hle]
    refine Option.eq_none_iff_forall_ne_some.mpr fun b hb => ?_
    cases (adds.cells a b hle).mp hb

/-- The heaps differ at no cell but the one that is left behind. -/
theorem Adds.others (adds : Adds h h' [(a, b)]) : ∀ a', a' ≠ a → h'.cell a' = h.cell a' := by
  intro a' hne
  by_cases ha : a' < h.next
  · exact adds.old a' ha
  · have hle := Nat.le_of_not_lt ha
    rw [h.fresh a' hle]
    refine Option.eq_none_iff_forall_ne_some.mpr fun b' hb => ?_
    have hmem := (adds.cells a' b' hle).mp hb
    rw [List.mem_singleton] at hmem
    exact hne (Prod.mk.inj hmem).1

theorem Adds.trans {later : List (ℕ × β)} (adds : Adds h h' own) (adds' : Adds h' h'' later) :
    Adds h h'' (own ++ later) where
  next := adds.next.trans adds'.next
  old a ha := (adds'.old a (lt_of_lt_of_le ha adds.next)).trans (adds.old a ha)
  cells a b ha := by
    rw [List.mem_append]
    by_cases hold : a < h'.next
    · rw [adds'.old a hold, adds.cells a b ha]
      refine ⟨Or.inl, fun hmem => hmem.resolve_right fun hlater => ?_⟩
      have := adds'.later _ hlater
      omega
    · rw [adds'.cells a b (Nat.le_of_not_lt hold)]
      exact ⟨Or.inr, fun hmem => hmem.resolve_left fun hown => hold (adds.below hown)⟩
  later p hp := by
    rcases List.mem_append.mp hp with hown | hlater
    · exact adds.later p hown
    · exact adds.next.trans (adds'.later p hlater)
  nodup := by
    rw [List.map_append, List.nodup_append]
    refine ⟨adds.nodup, adds'.nodup, ?_⟩
    intro a ha a' ha'
    obtain ⟨p, hp, rfl⟩ := List.mem_map.mp ha
    obtain ⟨p', hp', rfl⟩ := List.mem_map.mp ha'
    have hbelow := adds.below (a := p.1) (b := p.2) hp
    have hlater := adds'.later p' hp'
    omega

theorem adds_malloc (ok : ℕ → Bool) (h : Heap β) (b : β) (hok : ok h.next = true) :
    ∃ a h', h.malloc ok b = (some a, h') ∧ Adds h h' [(a, b)] ∧ h'.next = h.next + 1 := by
  unfold malloc
  rw [if_pos hok]
  refine ⟨_, _, rfl, ⟨Nat.le_succ _, ?_, ?_, ?_, List.nodup_singleton _⟩, rfl⟩
  · intro a ha
    exact Function.update_of_ne (by omega) _ _
  · intro a b' ha
    rw [List.mem_singleton]
    by_cases heq : a = h.next
    · subst heq
      simp [eq_comm]
    · simp [h.fresh a ha, heq]
  · intro p hp
    rw [List.mem_singleton.mp hp]

theorem malloc_failed (ok : ℕ → Bool) (h : Heap β) (b : β) (hok : ok h.next = false) :
    ∃ h', h.malloc ok b = (none, h') ∧ Adds h h' [] ∧ h'.next = h.next + 1 := by
  unfold malloc
  rw [hok]
  refine ⟨_, rfl, ⟨Nat.le_succ _, fun _ _ => rfl, ?_, ?_, List.nodup_nil⟩, rfl⟩
  · intro a b' ha
    simp [h.fresh a ha]
  · intro p hp
    cases hp

theorem Adds.write (adds : Adds h h' ((a, b) :: own)) (b' : β) :
    ∃ h'', h'.write a b' = some h'' ∧ Adds h h'' ((a, b') :: own) ∧ h''.next = h'.next := by
  have hcell := adds.read (List.mem_cons_self ..)
  have hlow := adds.later _ (List.mem_cons_self ..)
  have hnodup := List.nodup_cons.mp adds.nodup
  unfold Heap.write
  rw [dif_pos (by rw [hcell]; rfl)]
  refine ⟨_, rfl, ⟨adds.next, ?_, ?_, ?_, adds.nodup⟩, rfl⟩
  · intro a' ha'
    dsimp only at hlow
    show Function.update h'.cell a (some b') a' = h.cell a'
    rw [Function.update_of_ne (by omega)]
    exact adds.old a' ha'
  · intro a' b'' ha'
    by_cases heq : a' = a
    · subst heq
      have hnot : (a', b'') ∉ own := fun hmem => hnodup.1 (List.mem_map.mpr ⟨_, hmem, rfl⟩)
      simp [hnot, eq_comm]
    · show Function.update h'.cell a (some b') a' = some b'' ↔ _
      rw [Function.update_of_ne heq, adds.cells a' b'' ha']
      simp [heq]
  · intro p hp
    rcases List.mem_cons.mp hp with hhead | htail
    · rw [hhead]
      exact hlow
    · exact adds.later p (List.mem_cons_of_mem _ htail)

theorem Adds.free (adds : Adds h h' ((a, b) :: own)) :
    ∃ h'', h'.free a = some h'' ∧ Adds h h'' own ∧ h''.next = h'.next := by
  have hcell := adds.read (List.mem_cons_self ..)
  have hlow := adds.later _ (List.mem_cons_self ..)
  have hnodup := List.nodup_cons.mp adds.nodup
  unfold Heap.free
  rw [if_pos (by rw [hcell]; rfl)]
  refine ⟨_, rfl, ⟨adds.next, ?_, ?_, ?_, hnodup.2⟩, rfl⟩
  · intro a' ha'
    dsimp only at hlow
    show Function.update h'.cell a none a' = h.cell a'
    rw [Function.update_of_ne (by omega)]
    exact adds.old a' ha'
  · intro a' b' ha'
    by_cases heq : a' = a
    · subst heq
      have hnot : (a', b') ∉ own := fun hmem => hnodup.1 (List.mem_map.mpr ⟨_, hmem, rfl⟩)
      simp [hnot]
    · show Function.update h'.cell a none a' = some b' ↔ _
      rw [Function.update_of_ne heq, adds.cells a' b' ha']
      simp [heq]
  · exact fun p hp => adds.later p (List.mem_cons_of_mem _ hp)

theorem Adds.freeMid (first : List (ℕ × β)) (adds : Adds h h' (first ++ (a, b) :: own)) :
    ∃ h'', h'.free a = some h'' ∧ Adds h h'' (first ++ own) ∧ h''.next = h'.next :=
  (adds.perm List.perm_middle).free

/-! ### Ownership without an order -/

def Owns (h h' : Heap β) (own : Multiset (ℕ × β)) : Prop := Adds h h' own.toList

variable {own : Multiset (ℕ × β)}

theorem owns_coe (h h' : Heap β) (own : List (ℕ × β)) : Owns h h' own ↔ Adds h h' own := by
  have hperm : (own : Multiset (ℕ × β)).toList.Perm own :=
    Multiset.coe_eq_coe.mp (Multiset.coe_toList _)
  exact ⟨fun owns => Adds.perm owns hperm, fun adds => adds.perm hperm.symm⟩

theorem owns_self (h : Heap β) : Owns h h 0 := (owns_coe h h []).mpr (adds_self h)

theorem owns_cons : Owns h h' ({(a, b)} + own) ↔ Adds h h' ((a, b) :: own.toList) := by
  have hown : ({(a, b)} + own : Multiset (ℕ × β)) = ((a, b) :: own.toList : List (ℕ × β)) := by
    rw [← Multiset.cons_coe, Multiset.coe_toList, Multiset.singleton_add]
  rw [hown]
  exact owns_coe ..

theorem Owns.read (owns : Owns h h' ({(a, b)} + own)) : h'.cell a = some b :=
  (owns_cons.mp owns).read (List.mem_cons_self ..)

theorem Owns.write (owns : Owns h h' ({(a, b)} + own)) (b' : β) :
    ∃ h'', h'.write a b' = some h'' ∧ Owns h h'' ({(a, b')} + own) ∧ h''.next = h'.next := by
  obtain ⟨h'', hwrite, adds, hnext⟩ := (owns_cons.mp owns).write b'
  exact ⟨h'', hwrite, owns_cons.mpr adds, hnext⟩

theorem Owns.free (owns : Owns h h' ({(a, b)} + own)) :
    ∃ h'', h'.free a = some h'' ∧ Owns h h'' own ∧ h''.next = h'.next :=
  (owns_cons.mp owns).free

theorem Owns.malloc (owns : Owns h h' own) (ok : ℕ → Bool) (b : β) (hok : ok h'.next = true) :
    ∃ h'', h'.malloc ok b = (some h'.next, h'') ∧ Owns h h'' ({(h'.next, b)} + own) ∧
      h''.next = h'.next + 1 := by
  obtain ⟨a, h'', hmalloc, adds, hnext⟩ := adds_malloc ok h' b hok
  have ha : a = h'.next := by
    rw [Heap.malloc, if_pos hok] at hmalloc
    exact (Option.some.inj (Prod.mk.inj hmalloc).1).symm
  rw [ha] at hmalloc adds
  refine ⟨h'', hmalloc, ?_, hnext⟩
  rw [owns_cons]
  exact (Adds.trans owns adds).perm (List.perm_append_singleton ..)

theorem Owns.mallocFailed (owns : Owns h h' own) (ok : ℕ → Bool) (b : β)
    (hok : ok h'.next = false) :
    ∃ h'', h'.malloc ok b = (none, h'') ∧ Owns h h'' own ∧ h''.next = h'.next + 1 := by
  obtain ⟨h'', hmalloc, adds, hnext⟩ := malloc_failed ok h' b hok
  refine ⟨h'', hmalloc, ?_, hnext⟩
  have hboth := Adds.trans owns adds
  rw [List.append_nil] at hboth
  exact hboth

theorem Owns.nodup (owns : Owns h h' own) : (own.map Prod.fst).Nodup := by
  have hnodup := Adds.nodup owns
  rw [← Multiset.coe_nodup, ← Multiset.map_coe, Multiset.coe_toList] at hnodup
  exact hnodup

theorem Owns.nothing (owns : Owns h h' 0) : h'.cell = h.cell := by
  rw [Owns, Multiset.toList_zero] at owns
  exact Adds.nothing owns

theorem Owns.distinct {a' : ℕ} {b' : β} (owns : Owns h h' ({(a, b)} + ({(a', b')} + own))) :
    a ≠ a' := by
  have hnodup := owns.nodup
  simp only [Multiset.singleton_add, Multiset.map_cons, Multiset.nodup_cons,
    Multiset.mem_cons, not_or] at hnodup
  exact hnodup.1.1

/-- Addresses are given out in order, so a heap has no more cells than it gave out. -/
theorem Owns.card_le (owns : Owns h h' own) : own.card ≤ h'.next := by
  have hbelow : own.map Prod.fst ≤ Multiset.range h'.next := by
    rw [Multiset.le_iff_subset owns.nodup]
    intro a ha
    obtain ⟨p, hp, rfl⟩ := Multiset.mem_map.mp ha
    exact Multiset.mem_range.mpr (Adds.below owns (b := p.2) (Multiset.mem_toList.mpr hp))
  have hcard := Multiset.card_le_card hbelow
  rw [Multiset.card_map, Multiset.card_range] at hcard
  exact hcard

/-! ### Bringing a part to the front -/

variable {m₁ m₂ m₃ m₄ m₅ : Multiset (ℕ × β)}

theorem Owns.second (owns : Owns h h' (m₁ + (m₂ + own))) : Owns h h' (m₂ + (m₁ + own)) := by
  rwa [add_left_comm] at owns

theorem Owns.third (owns : Owns h h' (m₁ + (m₂ + (m₃ + own)))) :
    Owns h h' (m₃ + (m₁ + (m₂ + own))) := by
  rwa [add_left_comm m₂, add_left_comm m₁] at owns

theorem Owns.fourth (owns : Owns h h' (m₁ + (m₂ + (m₃ + (m₄ + own))))) :
    Owns h h' (m₄ + (m₁ + (m₂ + (m₃ + own)))) := by
  rwa [add_left_comm m₃, add_left_comm m₂, add_left_comm m₁] at owns

theorem Owns.fifth (owns : Owns h h' (m₁ + (m₂ + (m₃ + (m₄ + (m₅ + own)))))) :
    Owns h h' (m₅ + (m₁ + (m₂ + (m₃ + (m₄ + own))))) := by
  rwa [add_left_comm m₄, add_left_comm m₃, add_left_comm m₂, add_left_comm m₁] at owns

end Heap

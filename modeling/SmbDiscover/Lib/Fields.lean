import Mathlib

/-!
# Separated fields, limited filters and last-wins folds

Facts about lists. The non-empty fields of a list are its maximal non-empty
runs without the separator, in order. A filter with a limit keeps an element when
fewer elements than the limit were kept before it. A fold in which every element
either overwrites a component or leaves it alone ends with the value of the last
element that overwrites it.
-/

namespace ListText
variable {α β σ : Type*}

/-! ### Fields -/

section Fields
variable [DecidableEq α]

/-- The non-empty runs of `s` between separators, in order. -/
def fields (sep : α) (s : List α) : List (List α) := (s.splitOn sep).filter (· ≠ [])

/-- One run as a list of fields: none when it is empty. -/
def single (x : List α) : List (List α) := if x = [] then [] else [x]

omit [DecidableEq α] in
theorem length_cut (sep : α) (x rest : List α) :
    (x ++ sep :: rest).length = x.length + 1 + rest.length := by
  rw [List.length_append, List.length_cons]
  omega

omit [DecidableEq α] in
/-- Induction over the runs of a list, the last run being the one without a separator. -/
theorem sepInduction (sep : α) {motive : List α → Prop}
    (last : ∀ x, sep ∉ x → motive x)
    (step : ∀ x rest, sep ∉ x → motive rest → motive (x ++ sep :: rest)) :
    ∀ s, motive s := by
  intro s
  induction hn : s.length using Nat.strong_induction_on generalizing s with
  | h n ih =>
    by_cases hs : sep ∈ s
    · obtain ⟨x, rest, rfl, hx⟩ := List.eq_append_cons_of_mem hs
      refine step x rest hx (ih rest.length ?_ rest rfl)
      rw [← hn, length_cut]
      omega
    · exact last s hs

theorem fields_of_notMem (sep : α) (x : List α) (h : sep ∉ x) : fields sep x = single x := by
  rw [fields, List.splitOn_eq_singleton h, single]
  by_cases hx : x = [] <;> simp [hx]

theorem fields_append_sep (sep : α) (x rest : List α) (h : sep ∉ x) :
    fields sep (x ++ sep :: rest) = single x ++ fields sep rest := by
  rw [fields, List.splitOn_append_cons_self_of_not_mem h, List.filter_cons, single, fields]
  by_cases hx : x = [] <;> simp [hx]

theorem mem_fields (sep : α) (s f : List α) (h : f ∈ fields sep s) : f ≠ [] ∧ sep ∉ f := by
  have single_ok : ∀ x : List α, sep ∉ x → f ∈ single x → f ≠ [] ∧ sep ∉ f := by
    intro x hx hf
    unfold single at hf
    split at hf
    · simp at hf
    · simp only [List.mem_singleton] at hf
      subst hf
      exact ⟨by assumption, hx⟩
  induction s using sepInduction sep with
  | last x hx =>
    rw [fields_of_notMem sep x hx] at h
    exact single_ok x hx h
  | step x rest hx ih =>
    rw [fields_append_sep sep x rest hx] at h
    rcases List.mem_append.mp h with hf | hf
    · exact single_ok x hx hf
    · exact ih hf

/-- What is left of a list when the elements at the refused positions are dropped;
`k` is the position of the head. -/
def kept (ok : ℕ → Bool) : ℕ → List β → List β
  | _, [] => []
  | k, x :: rest => if ok k then x :: kept ok (k + 1) rest else kept ok (k + 1) rest

theorem kept_append (ok : ℕ → Bool) (a b : List β) (k : ℕ) :
    kept ok k (a ++ b) = kept ok k a ++ kept ok (k + a.length) b := by
  induction a generalizing k with
  | nil => rfl
  | cons x rest ih =>
    have hk : k + 1 + rest.length = k + (x :: rest).length := by
      rw [List.length_cons]
      omega
    simp only [List.cons_append, kept]
    rw [ih (k + 1), hk]
    split <;> rfl

theorem kept_sublist (ok : ℕ → Bool) (l : List β) (k : ℕ) : (kept ok k l).Sublist l := by
  induction l generalizing k with
  | nil => exact List.Sublist.refl []
  | cons x rest ih =>
    unfold kept
    split
    · exact (ih (k + 1)).cons_cons x
    · exact (ih (k + 1)).cons x

/-- An element is kept exactly when one of its positions is accepted. -/
theorem mem_kept (ok : ℕ → Bool) (l : List β) (k : ℕ) (x : β) :
    x ∈ kept ok k l ↔ ∃ i, l[i]? = some x ∧ ok (k + i) = true := by
  induction l generalizing k with
  | nil => simp [kept]
  | cons y rest ih =>
    have hshift : (∃ i, (y :: rest)[i]? = some x ∧ ok (k + i) = true) ↔
        y = x ∧ ok k = true ∨ ∃ i, rest[i]? = some x ∧ ok (k + 1 + i) = true := by
      refine ⟨?_, ?_⟩
      · intro h
        obtain ⟨i, hi, hok⟩ := h
        cases i with
        | zero => exact Or.inl ⟨Option.some.inj hi, hok⟩
        | succ i => exact Or.inr ⟨i, hi, by rwa [Nat.add_assoc, Nat.add_comm 1 i]⟩
      · intro h
        rcases h with ⟨rfl, hok⟩ | ⟨i, hi, hok⟩
        · exact ⟨0, rfl, hok⟩
        · exact ⟨i + 1, hi, by rwa [Nat.add_assoc, Nat.add_comm 1 i] at hok⟩
    rw [hshift, ← ih (k + 1), kept]
    split
    next hok => simp [hok, eq_comm]
    next hok => simp [hok]

theorem kept_ne_nil_iff (ok : ℕ → Bool) (l : List β) (k : ℕ) :
    kept ok k l ≠ [] ↔ ∃ i < l.length, ok (k + i) = true := by
  refine ⟨fun hne => ?_, fun h => ?_⟩
  · obtain ⟨x, hx⟩ := List.exists_mem_of_ne_nil _ hne
    obtain ⟨i, hi, hok⟩ := (mem_kept ok l k x).mp hx
    exact ⟨i, (List.getElem?_eq_some_iff.mp hi).1, hok⟩
  · obtain ⟨i, hi, hok⟩ := h
    exact List.ne_nil_of_mem ((mem_kept ok l k l[i]).mpr ⟨i, List.getElem?_eq_getElem hi, hok⟩)

theorem kept_eq_self_iff (ok : ℕ → Bool) (l : List β) (k : ℕ) :
    kept ok k l = l ↔ ∀ i < l.length, ok (k + i) = true := by
  refine ⟨fun hself i hi => ?_, fun hall => ?_⟩
  · induction l generalizing k i with
    | nil => cases hi
    | cons x rest ih =>
      have hhead : ok k = true := by
        by_contra hrefused
        have hshort := (kept_sublist ok rest (k + 1)).length_le
        rw [kept, if_neg hrefused] at hself
        rw [hself, List.length_cons] at hshort
        omega
      rw [kept, if_pos hhead, List.cons.injEq] at hself
      cases i with
      | zero => exact hhead
      | succ i =>
        have htail := ih (k + 1) hself.2 i (Nat.lt_of_succ_lt_succ hi)
        rwa [Nat.add_assoc, Nat.add_comm 1 i] at htail
  · induction l generalizing k with
    | nil => rfl
    | cons x rest ih =>
      have hhead : ok k = true := hall 0 (Nat.zero_lt_succ _)
      rw [kept, if_pos hhead, ih (k + 1) fun i hi => ?_]
      have htail := hall (i + 1) (Nat.succ_lt_succ hi)
      rwa [← Nat.add_assoc, Nat.add_right_comm] at htail

theorem kept_all (ok : ℕ → Bool) (h : ∀ i, ok i = true) (l : List β) (k : ℕ) :
    kept ok k l = l :=
  (kept_eq_self_iff ok l k).mpr fun i _ => h (k + i)

end Fields

/-! ### Filters with a limit -/

/-- The kept elements are all good exactly when `limit` others pass before each bad one. -/
theorem all_take_filter_iff (pass : α → Bool) (good : α → Prop) (limit : ℕ) (l : List α) :
    (∀ x ∈ (l.filter pass).take limit, good x) ↔ ∀ before x after, l = before ++ x :: after →
      pass x = true → ¬ good x → limit ≤ before.countP pass := by
  refine ⟨?_, ?_⟩
  · intro hall before x after hl hpass hbad
    by_contra hfew
    rw [List.countP_eq_length_filter, Nat.not_le] at hfew
    refine hbad (hall x ?_)
    obtain ⟨k, hk⟩ : ∃ k, limit = (before.filter pass).length + (k + 1) :=
      ⟨limit - (before.filter pass).length - 1, by omega⟩
    rw [hl, List.filter_append, List.filter_cons_of_pos hpass, hk, List.take_length_add_append,
      List.take_succ_cons]
    exact List.mem_append_right _ (List.mem_cons_self ..)
  · intro hfew x hx
    by_contra hbad
    obtain ⟨kept, rest, hkept⟩ := List.append_of_mem hx
    have hsplit : l.filter pass = kept ++ x :: (rest ++ (l.filter pass).drop limit) := by
      have h := List.take_append_drop limit (l.filter pass)
      rw [hkept, List.append_assoc] at h
      exact h.symm
    obtain ⟨front, back, rfl, hfront, hback⟩ := List.filter_eq_append_iff.mp hsplit
    obtain ⟨skipped, after, rfl, hskip, hpass, -⟩ := List.filter_eq_cons_iff.mp hback
    have hlimit := hfew (front ++ skipped) x after (by simp) hpass hbad
    have hnone : skipped.countP pass = 0 := by
      rw [List.countP_eq_zero]
      exact hskip
    rw [List.countP_append, hnone, List.countP_eq_length_filter, hfront] at hlimit
    have hlen := congrArg List.length hkept
    simp only [List.length_take, List.length_append, List.length_cons] at hlen
    omega

/-! ### Last-wins folds -/

/-- What the last element that overwrites the component gives it. -/
def lastSome (sel : α → Option β) (l : List α) : Option β := (l.filterMap sel).getLast?

/-- A component that each step overwrites or leaves alone ends with the last value given to it. -/
theorem foldl_lastWins (step : σ → α → σ) (proj : σ → β) (sel : α → Option β)
    (h : ∀ s a, proj (step s a) = (sel a).getD (proj s)) (l : List α) (s : σ) :
    proj (l.foldl step s) = (lastSome sel l).getD (proj s) := by
  induction l generalizing s with
  | nil => rfl
  | cons a rest ih =>
    rw [List.foldl_cons, ih (step s a), h s a, lastSome, lastSome]
    cases hsel : sel a with
    | none => rw [List.filterMap_cons_none hsel, Option.getD_none]
    | some b =>
      rw [List.filterMap_cons_some hsel, List.getLast?_cons]
      cases (rest.filterMap sel).getLast? <;> rfl

theorem lastSome_map {γ : Type*} (sel : α → Option β) (f : β → γ) (l : List α) :
    lastSome (fun a => (sel a).map f) l = (lastSome sel l).map f := by
  rw [lastSome, lastSome, ← List.getLast?_map, List.map_filterMap]

theorem lastSome_mem (sel : α → Option β) (l : List α) (b : β) (h : lastSome sel l = some b) :
    ∃ a ∈ l, sel a = some b := List.mem_filterMap.mp (List.mem_of_getLast? h)

theorem lastSome_eq_none_iff (sel : α → Option β) (l : List α) :
    lastSome sel l = none ↔ ∀ a ∈ l, sel a = none := by
  rw [lastSome, List.getLast?_eq_none_iff, List.filterMap_eq_nil_iff]

/-- A last value that passes the test stays the last when values that fail it are dropped. -/
theorem lastSome_of_passes (sel : α → Option β) (test : β → Bool) (l : List α) (b : β)
    (h : lastSome sel l = some b) (hb : test b = true) :
    lastSome (fun a => (sel a).filter test) l = some b := by
  obtain ⟨before, hbefore⟩ := List.getLast?_eq_some_iff.mp h
  have hfilter : l.filterMap (fun a => (sel a).filter test) = (l.filterMap sel).filter test := by
    rw [List.filter_filterMap]
  rw [lastSome, hfilter, hbefore, List.filter_append, List.filter_cons_of_pos hb, List.filter_nil,
    List.getLast?_concat]

theorem lastSome_filter (sel : α → Option β) (keep : α → Bool) (l : List α)
    (h : ∀ a, keep a = false → sel a = none) :
    lastSome sel (l.filter keep) = lastSome sel l := by
  rw [lastSome, lastSome, List.filterMap_filter]
  congr 2
  funext a
  cases hk : keep a with
  | true => rfl
  | false => simp [h a hk]

end ListText

import SmbDiscover.Lib.Fields

/-!
# Maximal runs

The non-empty fields of a list are its maximal non-empty separator-free
stretches, each at its own position, and a list of names is what is left of any
text that joins them by separators.
-/

namespace ListText
variable {α : Type*}

/-! ### Runs and their positions -/

/-- `f` stands at position `i` of `s`, holds no separator, and is cut on both sides
by a separator or by an end of `s`. -/
def MaximalRun (sep : α) (s : List α) (i : ℕ) (f : List α) : Prop :=
  ∃ before after, s = before ++ f ++ after ∧ before.length = i ∧ f ≠ [] ∧ sep ∉ f ∧
    (∀ b ∈ before.getLast?, b = sep) ∧ ∀ b ∈ after.head?, b = sep

theorem eq_nil_of_getLast? (sep : α) (s : List α) (hlast : ∀ b ∈ s.getLast?, b = sep)
    (h : sep ∉ s) : s = [] := by
  cases hs : s.getLast? with
  | none => exact List.getLast?_eq_none_iff.mp hs
  | some b =>
    have hb : b ∈ s := List.mem_of_getLast? hs
    rw [hlast b hs] at hb
    exact absurd hb h

theorem maximalRun_of_notMem (sep : α) (x f : List α) (i : ℕ) (h : sep ∉ x) :
    MaximalRun sep x i f ↔ i = 0 ∧ f = x ∧ x ≠ [] := by
  refine ⟨?_, ?_⟩
  · intro hrun
    obtain ⟨before, after, rfl, rfl, hne, -, hbefore, hafter⟩ := hrun
    have hb : before = [] := by
      apply eq_nil_of_getLast? sep before hbefore
      exact fun hsep => h (List.mem_append_left _ (List.mem_append_left _ hsep))
    have ha : after = [] := by
      cases after with
      | nil => rfl
      | cons a rest =>
        rw [hafter a rfl] at h
        exact absurd (List.mem_append_right _ (List.mem_cons_self ..)) h
    subst hb ha
    simp [hne]
  · intro hx
    obtain ⟨rfl, rfl, hne⟩ := hx
    exact ⟨[], [], by simp, rfl, hne, h, by simp, by simp⟩

theorem eq_of_cut (sep : α) (x f rest after : List α) (hx : sep ∉ x) (hf : sep ∉ f)
    (hafter : ∀ b ∈ after.head?, b = sep) (h : x ++ sep :: rest = f ++ after) : f = x := by
  rcases List.append_eq_append_iff.mp h with ⟨d, rfl, hd⟩ | ⟨d, rfl, hd⟩
  · cases d with
    | nil => rw [List.append_nil]
    | cons b d =>
      rw [List.cons_append, List.cons.injEq] at hd
      exact absurd (List.mem_append_right _ (List.mem_cons.mpr (Or.inl hd.1))) hf
  · cases d with
    | nil => rw [List.append_nil]
    | cons b d =>
      rw [hafter b (by rw [hd]; rfl)] at hx
      exact absurd (List.mem_append_right _ (List.mem_cons_self ..)) hx

theorem last_cut_iff (sep : α) (x rest : List α) :
    (∀ b ∈ (x ++ sep :: rest).getLast?, b = sep) ↔ ∀ b ∈ rest.getLast?, b = sep := by
  rw [List.getLast?_append, List.getLast?_cons]
  cases rest.getLast? with
  | none => simp
  | some last => simp

theorem maximalRun_cut (sep : α) (x rest f : List α) (i : ℕ) (h : sep ∉ x) :
    MaximalRun sep (x ++ sep :: rest) i f ↔
      i = 0 ∧ f = x ∧ x ≠ [] ∨ ∃ j, i = x.length + 1 + j ∧ MaximalRun sep rest j f := by
  refine ⟨?_, ?_⟩
  · intro hrun
    obtain ⟨before, after, hs, rfl, hne, hf, hbefore, hafter⟩ := hrun
    rw [List.append_assoc] at hs
    rcases List.append_eq_append_iff.mp hs with ⟨c, rfl, hc⟩ | ⟨c, rfl, hc⟩
    · cases c with
      | nil =>
        have hx := eq_nil_of_getLast? sep (x ++ []) hbefore (by simpa using h)
        have hfx := eq_of_cut sep [] f rest after (by simp) hf hafter hc
        exact absurd hfx hne
      | cons b c =>
        -- the run begins behind the first separator
        rw [List.cons_append, List.cons.injEq] at hc
        obtain ⟨rfl, rfl⟩ := hc
        exact Or.inr ⟨c.length, length_cut sep x c, c, after, by simp, rfl, hne, hf,
          (last_cut_iff sep x c).mp hbefore, hafter⟩
    · have hb : before = [] := by
        apply eq_nil_of_getLast? sep before hbefore
        exact fun hsep => h (List.mem_append_left _ hsep)
      subst hb
      have hfx : f = [] ++ c := eq_of_cut sep ([] ++ c) f rest after h hf hafter hc.symm
      subst hfx
      exact Or.inl ⟨rfl, rfl, hne⟩
  · intro hrun
    rcases hrun with ⟨rfl, rfl, hne⟩ | ⟨j, rfl, before, after, rfl, rfl, hne, hf, hbefore, hafter⟩
    · exact ⟨[], sep :: rest, by simp, rfl, hne, h, by simp, by simp⟩
    · exact ⟨x ++ sep :: before, after, by simp, length_cut sep x before, hne, hf,
        (last_cut_iff sep x before).mpr hbefore, hafter⟩

/-- `fs` are the maximal runs of `s` in the order of their positions. -/
def ListsRuns (sep : α) (s : List α) (fs : List (List α)) : Prop :=
  ∃ spans : List (ℕ × List α), spans.map Prod.snd = fs ∧
    spans.Pairwise (fun p q => p.1 + p.2.length < q.1) ∧
    ∀ i f, (i, f) ∈ spans ↔ MaximalRun sep s i f

theorem listsRuns_single (sep : α) (x : List α) (h : sep ∉ x) : ListsRuns sep x (single x) := by
  by_cases hx : x = []
  · refine ⟨[], by simp [single, hx], List.Pairwise.nil, fun i f => ?_⟩
    rw [maximalRun_of_notMem sep x f i h]
    simp [hx]
  · refine ⟨[(0, x)], by simp [single, hx], List.pairwise_singleton .., fun i f => ?_⟩
    rw [maximalRun_of_notMem sep x f i h]
    simp [hx]

theorem listsRuns_cut (sep : α) (x rest : List α) (fs : List (List α)) (h : sep ∉ x)
    (hrest : ListsRuns sep rest fs) : ListsRuns sep (x ++ sep :: rest) (single x ++ fs) := by
  obtain ⟨spans, hmap, hsorted, hmem⟩ := hrest
  obtain ⟨head, hhead, hsingle, hfirst⟩ := listsRuns_single sep x h
  let later := spans.map fun p => (x.length + 1 + p.1, p.2)
  have hlater : ∀ i f, (i, f) ∈ later ↔ ∃ j, i = x.length + 1 + j ∧ MaximalRun sep rest j f := by
    intro i f
    simp only [later, List.mem_map, Prod.exists, Prod.mk.injEq]
    refine ⟨?_, ?_⟩
    · intro hp
      obtain ⟨j, f, hj, rfl, rfl⟩ := hp
      exact ⟨j, rfl, (hmem j f).mp hj⟩
    · intro hp
      obtain ⟨j, rfl, hrun⟩ := hp
      exact ⟨j, f, (hmem j f).mpr hrun, rfl, rfl⟩
  refine ⟨head ++ later, ?_, ?_, fun i f => ?_⟩
  · rw [List.map_append, hhead, List.map_map, ← hmap]
    rfl
  · rw [List.pairwise_append]
    refine ⟨hsingle, ?_, ?_⟩
    · rw [List.pairwise_map]
      refine hsorted.imp fun {p q} hpq => ?_
      show x.length + 1 + p.1 + p.2.length < x.length + 1 + q.1
      omega
    · rintro ⟨i, f⟩ hp ⟨k, g⟩ hq
      obtain ⟨rfl, rfl, -⟩ := (maximalRun_of_notMem sep x f i h).mp ((hfirst i f).mp hp)
      obtain ⟨j, rfl, -⟩ := (hlater k g).mp hq
      show 0 + f.length < f.length + 1 + j
      omega
  · rw [List.mem_append, hfirst, hlater, maximalRun_of_notMem sep x f i h,
      maximalRun_cut sep x rest f i h]

theorem listsRuns_fields [DecidableEq α] (sep : α) (s : List α) :
    ListsRuns sep s (fields sep s) := by
  induction s using sepInduction sep with
  | last x hx =>
    rw [fields_of_notMem sep x hx]
    exact listsRuns_single sep x hx
  | step x rest hx ih =>
    rw [fields_append_sep sep x rest hx]
    exact listsRuns_cut sep x rest _ hx ih

/-! ### Joined names -/

/-- `s` is the names in order with separators between them; more separators may
stand anywhere outside the names. -/
inductive Joined (sep : α) : List (List α) → List α → Prop
  | nil : Joined sep [] []
  | extra (names s) : Joined sep names s → Joined sep names (sep :: s)
  | last (name) : name ≠ [] → sep ∉ name → Joined sep [name] name
  | cons (name names s) : name ≠ [] → sep ∉ name → Joined sep names s →
      Joined sep (name :: names) (name ++ sep :: s)

theorem joined_intercalate (sep : α) (names : List (List α))
    (h : ∀ name ∈ names, name ≠ [] ∧ sep ∉ name) : Joined sep names ([sep].intercalate names) := by
  induction names with
  | nil => exact Joined.nil
  | cons name rest ih =>
    obtain ⟨hne, hsep⟩ := h name (List.mem_cons_self ..)
    cases rest with
    | nil =>
      rw [List.intercalate_singleton]
      exact Joined.last name hne hsep
    | cons next rest =>
      rw [List.intercalate_cons_cons, List.append_assoc]
      exact Joined.cons name _ _ hne hsep (ih fun n hn => h n (List.mem_cons_of_mem _ hn))

theorem fields_of_joined [DecidableEq α] (sep : α) (names : List (List α)) (s : List α)
    (h : Joined sep names s) : fields sep s = names := by
  induction h with
  | nil => simp [fields_of_notMem, single]
  | extra names s hs ih =>
    have hcut := fields_append_sep sep [] s (by simp)
    rw [List.nil_append, ih] at hcut
    simpa [single] using hcut
  | last name hne hsep =>
    rw [fields_of_notMem sep name hsep, single, if_neg hne]
  | cons name names s hne hsep hs ih =>
    rw [fields_append_sep sep name s hsep, ih, single, if_neg hne]
    rfl

end ListText

import SmbDiscover.Workgroups
import SmbDiscover.Lib.Runs

/-!
# Bounds and result of the splitter (`_parse_workgroups`, smb_discover.c:127-188)

Which arguments keep both cursors inside `argCopy`, and which names an argument
stands for. A last field without a separator takes the cursors one byte past the
terminator, so what is split then depends on the byte behind the copy. Which
failing allocations lose names or the list of an earlier call.
-/

namespace SmbDiscover
open CText ListText CJson

/-! ### Offsets of the loops -/

theorem splitField_touched (env : SplitMemory) (st st' : Cursor)
    (h : splitField env st = some st') : st.touched ⊆ st'.touched := by
  unfold splitField at h
  split at h
  · cases h
  next pStop reads hscan =>
    cases h
    intro i hi
    dsimp only
    split
    · simp [addWorkgroup, hi]
    · simp [hi]

theorem splitLoop_touched (env : SplitMemory) (fuel : ℕ) (st st' : Cursor)
    (h : splitLoop env fuel st = some st') : st.touched ++ [st.pStop] ⊆ st'.touched := by
  induction fuel generalizing st with
  | zero => cases h
  | succ fuel ih =>
    simp only [splitLoop] at h
    split at h
    · cases h
    · split at h
      · split at h
        · cases h
        next st1 hfield =>
          have hfirst := splitField_touched env st.readStop st1 hfield
          intro i hi
          exact ih st1 h (List.mem_append_left _ (hfirst hi))
      · cases h
        exact List.Subset.refl _

theorem fieldStep_touched (env : SplitMemory) (st : Cursor) (x : List Byte) (hx : FieldBytes x)
    (hpos : st.pStart = st.pStop) :
    ∀ i ∈ (fieldStep env st.readStop x hx).touched,
      i ∈ st.touched ∨ i ≤ st.pStop + x.length := by
  intro i hi
  have hmarked : i ∈ (fieldEnd st.readStop x).touched ∨
      i ∈ List.range' st.pStop (x.length + 1) := by
    unfold fieldStep at hi
    split at hi
    · exact Or.inl hi
    · rcases List.mem_append.mp hi with hold | hname
      · exact Or.inl hold
      · rw [← hpos]
        exact Or.inr hname
  have hrange : i ∈ List.range' st.pStop (x.length + 1) → i ≤ st.pStop + x.length := by
    intro h
    have := (List.mem_range'_1.mp h).2
    omega
  rcases hmarked with hend | hname
  · simp only [fieldEnd, Cursor.readStop, List.mem_append, List.mem_cons, List.not_mem_nil,
      or_false] at hend
    rcases hend with ((hold | rfl) | hread) | rfl | hread
    · exact Or.inl hold
    · exact Or.inr (Nat.le_add_right ..)
    · exact Or.inr (hrange hread)
    · exact Or.inr le_rfl
    · exact Or.inr (hrange hread)
  · exact Or.inr (hrange hname)

/-- Text behind which the cursors stop at the terminator of the copy. -/
def Closed (s : List Byte) : Prop := s = [] ∨ s.getLast? = some 58

theorem closed_iff (s : List Byte) : Closed s ↔ ∀ b ∈ s.getLast?, b = 58 := by
  unfold Closed
  cases hlast : s.getLast? with
  | none => simp [List.getLast?_eq_none_iff.mp hlast]
  | some b =>
    have hne : s ≠ [] := by
      intro hnil
      rw [hnil] at hlast
      cases hlast
    simp [hne]

theorem closed_cut (x rest : List Byte) : Closed (x ++ 58 :: rest) ↔ Closed rest := by
  rw [closed_iff, closed_iff, last_cut_iff]

theorem splitLoop_inside (env : SplitMemory) (s : List Byte) :
    ∀ (st : Cursor) (after : List Byte) (fuel : ℕ), (∀ b ∈ s, b ≠ 0) → st.pStart = st.pStop →
      st.mem.drop st.pStop = s ++ 0 :: after → s.length < fuel → Closed s →
      ∃ st', splitLoop env fuel st = some st' ∧ st'.pStart = st'.pStop ∧
        ∀ i ∈ st'.touched, i ∈ st.touched ∨ i ≤ st.pStop + s.length := by
  induction s using sepInduction (58 : Byte) with
  | last x hsep =>
    intro st after fuel _ hpos hmem hfuel hclosed
    have hx : x = [] := hclosed.resolve_right fun h58 => hsep (List.mem_of_getLast? h58)
    subst hx
    obtain ⟨fuel, rfl⟩ : ∃ k, fuel = k + 1 := ⟨fuel - 1, by omega⟩
    refine ⟨_, splitLoop_stop env st fuel after hmem, hpos, ?_⟩
    intro i hi
    rcases List.mem_append.mp hi with hold | hstop
    · exact Or.inl hold
    · exact Or.inr (le_of_eq (List.mem_singleton.mp hstop))
  | step x rest hsep ih =>
    intro st after fuel hnul hpos hmem hfuel hclosed
    obtain ⟨hx, hrest, hmem0⟩ := cut_text x rest (0 :: after) _ hsep hnul hmem
    have hlen := length_cut 58 x rest
    obtain ⟨fuel, rfl⟩ : ∃ k, fuel = k + 1 := ⟨fuel - 1, by omega⟩
    have hstep := fieldStep_touched env st x hx hpos
    obtain ⟨st', hrun, hpos', hin⟩ := ih (fieldStep env st.readStop x hx) after fuel hrest rfl
      (fieldStep_spec env st x _ 58 hmem0 hx).1 (by omega) ((closed_cut x rest).mp hclosed)
    refine ⟨st', (splitLoop_field env st x _ 58 fuel hpos hmem0 hx (Or.inr rfl)).trans hrun, hpos',
      fun i hi => ?_⟩
    have hnext : (fieldStep env st.readStop x hx).pStop = st.pStop + x.length + 1 := rfl
    rcases hin i hi with hi | hi
    · exact (hstep i hi).imp_right fun hle => by omega
    · exact Or.inr (by omega)

/-- The cursors step over the terminator of a text that does not end with ':'. -/
theorem splitLoop_overrun (env : SplitMemory) (s : List Byte) :
    ∀ (st st' : Cursor) (after : List Byte) (fuel : ℕ), (∀ b ∈ s, b ≠ 0) → st.pStart = st.pStop →
      st.mem.drop st.pStop = s ++ 0 :: after → ¬ Closed s → splitLoop env fuel st = some st' →
      st.pStop + s.length + 1 ∈ st'.touched := by
  induction s using sepInduction (58 : Byte) with
  | last x hsep =>
    intro st st' after fuel hnul hpos hmem hopen hrun
    have hx : FieldBytes x := fun b hb => ⟨hnul b hb, fun h => hsep (h ▸ hb)⟩
    have hne : x ≠ [] := fun h => hopen (Or.inl h)
    cases fuel with
    | zero => cases hrun
    | succ fuel =>
      rw [splitLoop_field env st x after 0 fuel hpos hmem hx (Or.inl ⟨rfl, hne⟩)] at hrun
      have hread := splitLoop_touched env fuel _ st' hrun
      exact hread (List.mem_append_right _ (List.mem_singleton.mpr rfl))
  | step x rest hsep ih =>
    intro st st' after fuel hnul hpos hmem hopen hrun
    obtain ⟨hx, hrest, hmem0⟩ := cut_text x rest (0 :: after) _ hsep hnul hmem
    cases fuel with
    | zero => cases hrun
    | succ fuel =>
      rw [splitLoop_field env st x _ 58 fuel hpos hmem0 hx (Or.inr rfl)] at hrun
      have hover := ih (fieldStep env st.readStop x hx) st' after fuel hrest rfl
        (fieldStep_spec env st x _ 58 hmem0 hx).1 (fun h => hopen ((closed_cut x rest).mpr h)) hrun
      have hindex : st.pStop + (x ++ 58 :: rest).length + 1 =
          (fieldStep env st.readStop x hx).pStop + rest.length + 1 := by
        show _ = st.pStop + x.length + 1 + rest.length + 1
        rw [length_cut]
        omega
      rw [hindex]
      exact hover

/-! ### Arguments that stay in bounds -/

/-- The loops end, and every offset they touch is one of the copy with its
terminator. -/
def SplitInBounds (env : SplitMemory) (arg : CStr) : Prop :=
  ∃ st, splitWorkgroups env arg = some st ∧ ∀ i ∈ st.touched, i ≤ arg.length

theorem splitStart_mem (env : SplitMemory) (arg : CStr) :
    (splitStart env arg).mem.drop (splitStart env arg).pStop = arg.bytes ++ 0 :: env.after := by
  simp only [splitStart, CStr.withNul, List.drop_zero, List.append_assoc]
  rfl

theorem closed_inBounds (env : SplitMemory) (arg : CStr) (h : Closed arg.bytes) :
    SplitInBounds env arg := by
  have hlen : arg.bytes.length < (splitStart env arg).mem.length + 1 := by
    have := congrArg List.length (splitStart_mem env arg)
    simp only [List.length_drop, List.length_append, List.length_cons] at this
    omega
  obtain ⟨st, hrun, hpos, hin⟩ := splitLoop_inside env arg.bytes (splitStart env arg) env.after _
    arg.nulFree rfl (splitStart_mem env arg) hlen h
  refine ⟨st, ?_, fun i hi => ?_⟩
  · rw [splitWorkgroups, hrun, Option.map_some, splitTail, if_neg (not_not.mpr hpos)]
  · have hnone : (splitStart env arg).touched = [] := rfl
    have hzero : (splitStart env arg).pStop = 0 := rfl
    rcases hin i hi with hold | hle
    · rw [hnone] at hold
      cases hold
    · rw [hzero, Nat.zero_add] at hle
      exact hle

theorem open_overruns (env : SplitMemory) (arg : CStr) (h : ¬ Closed arg.bytes) :
    ¬ SplitInBounds env arg := by
  intro hbounds
  obtain ⟨st, hrun, hin⟩ := hbounds
  obtain ⟨st1, hloop, htail⟩ := Option.map_eq_some_iff.mp hrun
  have hover := splitLoop_overrun env arg.bytes (splitStart env arg) st1 env.after _ arg.nulFree rfl
    (splitStart_mem env arg) h hloop
  have hkeep : st1.touched ⊆ st.touched := by
    rw [← htail]
    unfold splitTail
    split
    · exact List.subset_append_left ..
    · exact List.Subset.refl _
  have hle := hin _ (hkeep hover)
  have hzero : (splitStart env arg).pStop = 0 := rfl
  rw [hzero, CStr.length] at hle
  omega

/-- The loops stay inside `argCopy` exactly for arguments that end with ':'. -/
theorem split_inBounds_iff (env : SplitMemory) (arg : CStr) (hne : arg ≠ .empty) :
    SplitInBounds env arg ↔ arg.bytes.getLast? = some 58 := by
  refine ⟨?_, ?_⟩
  · intro hbounds
    by_contra hlast
    refine open_overruns env arg ?_ hbounds
    intro hclosed
    rcases hclosed with hnil | h58
    · exact hne ((CStr.eq_empty_iff arg).mpr hnil)
    · exact hlast h58
  · intro hlast
    exact closed_inBounds env arg (Or.inr hlast)

theorem one_name_overruns :
    CStr.lit "A" ≠ .empty ∧ ¬ SplitInBounds .plenty (.lit "A") := by
  refine ⟨by decide, open_overruns _ _ ?_⟩
  unfold Closed
  decide

theorem closed_name_inBounds : SplitInBounds .plenty (.lit "A:") :=
  (split_inBounds_iff .plenty (.lit "A:") (by decide)).mpr (by decide)

/-! ### Names of an argument -/

/-- With the array and the copy allocated and a NUL behind the copy, the names are the
fields whose strings were allocated. -/
theorem parseWorkgroups_kept (env : SplitMemory) (arg : CStr) (ctx : Context)
    (hne : arg ≠ .empty) (harray : env.array = true) (hcopy : env.copy = true)
    (nul : env.after.head? = some 0) :
    ∃ names, parseWorkgroups env arg ctx = some (0, { ctx with smbWorkgroups := some names }) ∧
      names.map CStr.bytes = kept env.string 0 (fields 58 arg.bytes) := by
  obtain ⟨st, hrun, hnames⟩ := splitWorkgroups_spec env arg nul
  have hlen : arg.length ≠ 0 := fun h0 => hne ((CStr.eq_empty_iff_length arg).mpr h0)
  refine ⟨st.names, ?_, hnames⟩
  simp [parseWorkgroups, hlen, harray, hcopy, hrun]

/-- With allocations succeeding and a NUL behind the copy, the names are the maximal
runs of the argument, and any names that it joins. -/
theorem parseWorkgroups_runs (env : SplitMemory) (arg : CStr) (ctx : Context)
    (hne : arg ≠ .empty) (harray : env.array = true) (hcopy : env.copy = true)
    (hstrings : ∀ k, env.string k = true) (nul : env.after.head? = some 0) :
    ∃ names, parseWorkgroups env arg ctx = some (0, { ctx with smbWorkgroups := some names }) ∧
      ListsRuns 58 arg.bytes (names.map CStr.bytes) ∧
      (∀ joined : List CStr, Joined 58 (joined.map CStr.bytes) arg.bytes → names = joined) ∧
      ∀ joined : List CStr, (∀ name ∈ joined, name ≠ .empty ∧ 58 ∉ name.bytes) →
        arg.bytes = [58].intercalate (joined.map CStr.bytes) → names = joined := by
  obtain ⟨names, hparse, hnames⟩ := parseWorkgroups_kept env arg ctx hne harray hcopy nul
  rw [kept_all _ hstrings] at hnames
  have hjoined : ∀ joined : List CStr,
      Joined 58 (joined.map CStr.bytes) arg.bytes → names = joined := by
    intro joined hjoin
    rw [fields_of_joined 58 _ _ hjoin] at hnames
    exact List.map_injective_iff.mpr CStr.bytes_injective hnames
  refine ⟨names, hparse, ?_, hjoined, ?_⟩
  · rw [hnames]
    exact listsRuns_fields 58 arg.bytes
  · intro joined hplain harg
    apply hjoined
    rw [harg]
    apply joined_intercalate
    intro name hname
    obtain ⟨n, hn, rfl⟩ := List.mem_map.mp hname
    obtain ⟨hempty, hsep⟩ := hplain n hn
    exact ⟨fun h => hempty ((CStr.eq_empty_iff n).mpr h), hsep⟩

theorem spread_names_listed : ∃ names,
    parseWorkgroups .plenty (.lit ":HOME::WORK:") .zero =
      some (0, { Context.zero with smbWorkgroups := some names }) ∧
      ListsRuns 58 (CStr.lit ":HOME::WORK:").bytes (names.map CStr.bytes) := by
  obtain ⟨names, hparse, hruns, -⟩ := parseWorkgroups_runs .plenty (.lit ":HOME::WORK:") .zero
    (by decide) rfl rfl (fun _ => rfl) rfl
  exact ⟨names, hparse, hruns⟩

/-! ### Failing allocations -/

/-- The call lists every field, or it fails and leaves the context alone. -/
def AllOrNothing (env : SplitMemory) (arg : CStr) (ctx : Context) : Prop :=
  (∃ names, parseWorkgroups env arg ctx = some (0, { ctx with smbWorkgroups := some names }) ∧
    names.map CStr.bytes = fields 58 arg.bytes) ∨
  parseWorkgroups env arg ctx = some (-1, ctx)

theorem withWorkgroups_eq_iff (ctx : Context) (groups : Option (List CStr)) :
    { ctx with smbWorkgroups := groups } = ctx ↔ ctx.smbWorkgroups = groups := by
  refine ⟨?_, ?_⟩
  · intro hsame
    rw [← hsame]
  · intro hgroups
    rw [← hgroups]

/-- A failing call is all or nothing when it puts back what the field held. -/
theorem failed_allOrNothing_iff (env : SplitMemory) (arg : CStr) (ctx : Context)
    (groups : Option (List CStr))
    (hparse : parseWorkgroups env arg ctx = some (-1, { ctx with smbWorkgroups := groups })) :
    AllOrNothing env arg ctx ↔ ctx.smbWorkgroups = groups := by
  rw [← withWorkgroups_eq_iff, AllOrNothing, hparse]
  refine ⟨?_, ?_⟩
  · intro hall
    rcases hall with ⟨names, hzero, -⟩ | hsame
    · cases hzero
    · exact congrArg Prod.snd (Option.some.inj hsame)
  · intro hsame
    rw [hsame]
    exact Or.inr rfl

theorem split_allOrNothing_iff (env : SplitMemory) (arg : CStr) (ctx : Context)
    (nul : env.after.head? = some 0) (hne : arg ≠ .empty) (harray : env.array = true)
    (hcopy : env.copy = true) :
    AllOrNothing env arg ctx ↔ ∀ i < (fields 58 arg.bytes).length, env.string i = true := by
  obtain ⟨listed, hparse, hnames⟩ := parseWorkgroups_kept env arg ctx hne harray hcopy nul
  have hself := kept_eq_self_iff env.string (fields 58 arg.bytes) 0
  simp only [Nat.zero_add] at hself
  rw [← hself, ← hnames, AllOrNothing, hparse]
  refine ⟨?_, ?_⟩
  · intro hall
    rcases hall with ⟨names, hzero, hfields⟩ | hfailed
    · have hgroups := congrArg (fun p => p.2.smbWorkgroups) (Option.some.inj hzero)
      rw [Option.some.inj hgroups]
      exact hfields
    · cases hfailed
  · intro hfields
    exact Or.inl ⟨listed, rfl, hfields⟩

/-- Which failing allocations the call survives: the ones behind which the field holds
what it held before. A string that fails is left out of the list. -/
theorem allOrNothing_iff (env : SplitMemory) (arg : CStr) (ctx : Context)
    (nul : env.after.head? = some 0) :
    AllOrNothing env arg ctx ↔ arg = .empty ∨
      (env.array = false ∧ ctx.smbWorkgroups = none) ∨
      (env.array = true ∧ env.copy = false ∧ ctx.smbWorkgroups = some []) ∨
      (env.array = true ∧ env.copy = true ∧
        ∀ i < (fields 58 arg.bytes).length, env.string i = true) := by
  by_cases hempty : arg = .empty
  · have hparse : parseWorkgroups env arg ctx = some (-1, ctx) := by
      rw [hempty]
      rfl
    exact ⟨fun _ => Or.inl hempty, fun _ => Or.inr hparse⟩
  have hlen : arg.length ≠ 0 := fun h0 => hempty ((CStr.eq_empty_iff_length arg).mpr h0)
  cases harray : env.array with
  | false =>
    rw [failed_allOrNothing_iff env arg ctx none (by simp [parseWorkgroups, hlen, harray])]
    simp [hempty]
  | true =>
    cases hcopy : env.copy with
    | false =>
      rw [failed_allOrNothing_iff env arg ctx (some [])
        (by simp [parseWorkgroups, hlen, harray, hcopy])]
      simp [hempty]
    | true =>
      rw [split_allOrNothing_iff env arg ctx nul hempty harray hcopy]
      simp [hempty]

theorem lost_string_listed : ∃ names,
    parseWorkgroups { SplitMemory.plenty with string := (· ≠ 1) } (.lit "HOME:WORK") .zero =
      some (0, { Context.zero with smbWorkgroups := some names }) ∧ names = [.lit "HOME"] ∧
      ¬ AllOrNothing { SplitMemory.plenty with string := (· ≠ 1) } (.lit "HOME:WORK") .zero := by
  refine ⟨_, rfl, rfl, ?_⟩
  rw [split_allOrNothing_iff _ _ _ rfl (by decide) rfl rfl]
  intro hall
  have hsecond := hall 1 (by decide +kernel)
  simp at hsecond

theorem second_list_replaced : AllOrNothing .plenty (.lit "HOME:WORK")
    { Context.zero with smbWorkgroups := some [.lit "OLD"] } :=
  (allOrNothing_iff .plenty _ _ rfl).mpr (Or.inr (Or.inr (Or.inr ⟨rfl, rfl, fun _ _ => rfl⟩)))

end SmbDiscover

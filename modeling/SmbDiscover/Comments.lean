import SmbDiscover.Minify

/-!
# Comments and open strings in `cJSON_Minify` (cJSON.c:2132-2194)

A scanner with a mode for each loop says what is written. A text that ends inside a string or
a block comment takes `json` past its terminator.
-/

namespace SmbDiscover
open CText JsonText

namespace Minify

inductive Mode where
  | text
  | slash
  | line
  | block
  | star
  | string
  | escape

namespace Mode

def textStep (b : Byte) : Mode × List Byte :=
  if isWs b = true then (text, [])
  else if b = 47 then (slash, [])
  else if b = 34 then (string, [b])
  else (text, [b])

/-- The mode behind a byte, and what the byte writes. -/
def step : Mode → Byte → Mode × List Byte
  | text, b => textStep b
  | slash, b =>
    if b = 47 then (line, [])
    -- `/*/` is a whole comment: its star counts twice
    else if b = 42 then (star, [])
    else ((textStep b).1, 47 :: (textStep b).2)
  | line, b => if b = 10 then (text, []) else (line, [])
  | block, b => if b = 42 then (star, []) else (block, [])
  | star, b => if b = 47 then (text, []) else if b = 42 then (star, []) else (block, [])
  | string, b => if b = 34 then (text, [b]) else if b = 92 then (escape, [b]) else (string, [b])
  | escape, b => (string, [b])

def after (m : Mode) (s : List Byte) : Mode := s.foldl (fun m b => (m.step b).1) m

def isOpen : Mode → Bool
  | block | star | string | escape => true
  | text | slash | line => false

/-- A slash is written with the byte behind it. -/
def held : Mode → List Byte
  | slash => [47]
  | _ => []

def written : Mode → List Byte → List Byte
  | m, [] => m.held
  | m, b :: s => (m.step b).2 ++ written (m.step b).1 s

def stripped (m : Mode) (s : List Byte) : Option (List Byte) :=
  if (m.after s).isOpen = true then none else some (m.written s)

variable {m k : Mode} {b : Byte}

theorem stripped_cons (m : Mode) (b : Byte) (s : List Byte) :
    m.stripped (b :: s) = ((m.step b).1.stripped s).map ((m.step b).2 ++ ·) := by
  have hafter : m.after (b :: s) = (m.step b).1.after s := rfl
  unfold stripped
  rw [hafter]
  split
  · rfl
  · rfl

theorem stripped_silent (h : m.step b = (k, [])) (s : List Byte) :
    m.stripped (b :: s) = k.stripped s := by
  rw [stripped_cons, h]
  exact Option.map_id_fun' ▸ rfl

theorem stripped_written (h : m.step b = (k, [b])) (s : List Byte) :
    m.stripped (b :: s) = (k.stripped s).map ([b] ++ ·) := by
  rw [stripped_cons, h]

/-- The slash is an ordinary byte when no comment begins. -/
theorem stripped_slash (s : List Byte) (h : ∀ c u, s = c :: u → c ≠ 47 ∧ c ≠ 42) :
    slash.stripped s = (text.stripped s).map ([47] ++ ·) := by
  cases s with
  | nil => rfl
  | cons c u =>
    obtain ⟨h47, h42⟩ := h c u rfl
    have hstep : slash.step c = ((textStep c).1, 47 :: (textStep c).2) := by
      rw [step, if_neg h47, if_neg h42]
    rw [stripped_cons, stripped_cons, hstep, step, Option.map_map]
    rfl

theorem stripped_star (s : List Byte) (h : ∀ u, s ≠ 47 :: u) :
    star.stripped s = block.stripped s := by
  cases s with
  | nil => rfl
  | cons c u =>
    have h47 : c ≠ 47 := by
      rintro rfl
      exact h u rfl
    have hstep : star.step c = block.step c := by
      simp only [step, if_neg h47]
    rw [stripped_cons, stripped_cons, hstep]

end Mode

/-! ### The loops inside the main loop -/

variable {st : State} {w p s : List Byte} {b c : Byte} {n : ℕ}

theorem At.peek (h : At st w (b :: c :: p)) : st.block[st.json + 1]? = some c := h.next.read

theorem At.outside (h : At st w []) : st.block.length ≤ st.json := List.drop_eq_nil_iff.mp h.rest

theorem loop_outside (n : ℕ) (h : st.block.length ≤ st.json) : loop n st = none := by
  cases n with
  | zero => rfl
  | succ n =>
    rw [loop, List.getElem?_eq_none h]
    rfl

theorem copyString_outside (n : ℕ) (h : st.block.length ≤ st.json) : copyString n st = none := by
  cases n with
  | zero => rfl
  | succ n =>
    rw [copyString, List.getElem?_eq_none h]
    rfl

theorem skipLine_scanned : ∀ (s : List Byte) (st : State) (n : ℕ), At st w (s ++ [0]) → 0 ∉ s →
    s.length < n →
    ∃ st' s', skipLine n st = some st' ∧ At st' w (s' ++ [0]) ∧ s' <:+ s ∧
      Mode.line.stripped s = Mode.text.stripped s' ∧ st'.block.length = st.block.length := by
  intro s
  induction s with
  | nil =>
    intro st n h hs hn
    obtain ⟨n, rfl⟩ := Nat.exists_eq_succ_of_ne_zero (by omega : n ≠ 0)
    refine ⟨st, [], ?_, h, List.suffix_rfl, rfl, rfl⟩
    rw [skipLine, At.read h]
    rfl
  | cons b t ih =>
    intro st n h hs hn
    rw [List.length_cons] at hn
    simp only [List.mem_cons, not_or] at hs
    obtain ⟨n, rfl⟩ := Nat.exists_eq_succ_of_ne_zero (by omega : n ≠ 0)
    rw [skipLine, At.read h]
    simp only [Option.bind_eq_bind, Option.bind_some]
    by_cases h10 : b = 10
    · subst h10
      refine ⟨st, 10 :: t, by rw [if_neg (by decide)], h, List.suffix_rfl, ?_, rfl⟩
      rw [Mode.stripped_cons, Mode.stripped_cons]
      rfl
    · obtain ⟨st', s', hskip, h', hsuffix, hstripped, hlen⟩ :=
        ih (next st) n (At.next h) hs.2 (by omega)
      rw [if_pos ⟨Ne.symm hs.1, h10⟩]
      refine ⟨st', s', hskip, h', hsuffix.trans (List.suffix_cons b t), ?_, hlen⟩
      rw [Mode.stripped_silent (by rw [Mode.step, if_neg h10])]
      exact hstripped

/-- The scan stops at the star of `*/`, or at the terminator. -/
theorem skipComment_scanned : ∀ (s : List Byte) (st : State) (n : ℕ), At st w (s ++ [0]) → 0 ∉ s →
    s.length < n →
    ∃ st', skipComment n st = some st' ∧ st'.block.length = st.block.length ∧
      ((∃ s', At st' w (42 :: 47 :: (s' ++ [0])) ∧ 42 :: 47 :: s' <:+ s ∧
          Mode.block.stripped s = Mode.text.stripped s') ∨
        At st' w [0] ∧ Mode.block.stripped s = none) := by
  intro s
  induction s with
  | nil =>
    intro st n h hs hn
    obtain ⟨n, rfl⟩ := Nat.exists_eq_succ_of_ne_zero (by omega : n ≠ 0)
    refine ⟨st, ?_, rfl, Or.inr ⟨h, rfl⟩⟩
    rw [skipComment, At.read h]
    rfl
  | cons b t ih =>
    intro st n h hs hn
    rw [List.length_cons] at hn
    simp only [List.mem_cons, not_or] at hs
    obtain ⟨n, rfl⟩ := Nat.exists_eq_succ_of_ne_zero (by omega : n ≠ 0)
    have hbelow := List.suffix_cons b t
    obtain ⟨st', hskip, hlen, hcases⟩ := ih (next st) n (At.next h) hs.2 (by omega)
    rw [skipComment, At.read h]
    simp only [Option.bind_eq_bind, Option.bind_some, if_neg (Ne.symm hs.1)]
    by_cases h42 : b = 42
    · subst h42
      rw [if_pos rfl, Mode.stripped_silent (k := .star) rfl]
      cases t with
      | nil =>
        rw [At.peek h]
        refine ⟨st', hskip, hlen, ?_⟩
        rcases hcases with ⟨s', -, hsuffix, -⟩ | hend
        · cases List.suffix_nil.mp hsuffix
        · exact Or.inr hend
      | cons c t' =>
        rw [At.peek h]
        by_cases h47 : c = 47
        · subst h47
          refine ⟨st, rfl, rfl, Or.inl ⟨t', h, List.suffix_rfl, ?_⟩⟩
          exact Mode.stripped_silent rfl t'
        · rw [Mode.stripped_star (c :: t') fun u hu => h47 (List.cons.inj hu).1]
          simp only [Option.bind_some, if_neg h47]
          refine ⟨st', hskip, hlen, ?_⟩
          rcases hcases with ⟨s', h', hsuffix, hstripped⟩ | hend
          · exact Or.inl ⟨s', h', hsuffix.trans hbelow, hstripped⟩
          · exact Or.inr hend
    · rw [if_neg h42, Mode.stripped_silent (by rw [Mode.step, if_neg h42])]
      refine ⟨st', hskip, hlen, ?_⟩
      rcases hcases with ⟨s', h', hsuffix, hstripped⟩ | hend
      · exact Or.inl ⟨s', h', hsuffix.trans hbelow, hstripped⟩
      · exact Or.inr hend

def StringScanned (res : Option State) (len : ℕ) (w s : List Byte) : Prop :=
  (∃ st' raw s', res = some st' ∧ st'.block.length = len ∧ At st' (w ++ raw) (34 :: (s' ++ [0])) ∧
    34 :: s' <:+ s ∧
    Mode.string.stripped s = (Mode.text.stripped s').map (raw ++ [34] ++ ·)) ∨
  (Mode.string.stripped s = none ∧ ∀ st', res = some st' → ∃ w', At st' w' [0])

theorem StringScanned.more {res : Option State} {len : ℕ} {t : List Byte} (u : List Byte)
    (h : StringScanned res len (w ++ u) t) (hsuffix : t <:+ s)
    (hs : Mode.string.stripped s = (Mode.string.stripped t).map (u ++ ·)) :
    StringScanned res len w s := by
  rcases h with ⟨st', raw, s', hres, hlen, h', hsuffix', ht⟩ | ⟨ht, hend⟩
  · refine Or.inl ⟨st', u ++ raw, s', hres, hlen, ?_, hsuffix'.trans hsuffix, ?_⟩
    · rwa [List.append_assoc] at h'
    · rw [hs, ht, Option.map_map]
      refine congrArg (fun f => Option.map f (Mode.text.stripped s')) (funext fun x => ?_)
      simp
  · exact Or.inr ⟨by rw [hs, ht, Option.map_none], hend⟩

theorem copyString_scanned : ∀ (n : ℕ) (st : State) (w s : List Byte), At st w (s ++ [0]) →
    0 ∉ s → s.length < n → StringScanned (copyString n st) st.block.length w s := by
  intro n
  induction n with
  | zero => intro st w s h hs hn; omega
  | succ n ih =>
    intro st w s h hs hn
    cases s with
    | nil =>
      refine Or.inr ⟨rfl, fun st' hres => ⟨w, ?_⟩⟩
      have hstop : copyString (n + 1) st = some st := by
        rw [copyString, At.read h]
        rfl
      rw [hstop] at hres
      cases hres
      exact h
    | cons b t =>
      rw [List.length_cons] at hn
      simp only [List.mem_cons, not_or] at hs
      rw [copyString, At.read h]
      simp only [Option.bind_eq_bind, Option.bind_some]
      by_cases h34 : b = 34
      · subst h34
        rw [if_pos (Or.inr rfl)]
        refine Or.inl ⟨st, [], t, rfl, rfl, by rwa [List.append_nil], List.suffix_rfl, ?_⟩
        exact Mode.stripped_written rfl t
      rw [if_neg (not_or.mpr ⟨Ne.symm hs.1, h34⟩)]
      obtain ⟨st₁, hcopy, h₁, hlen₁⟩ := At.copy h
      by_cases h92 : b = 92
      · subst h92
        rw [if_pos rfl, hcopy, Option.bind_some]
        cases t with
        | nil =>
          -- the terminator is copied as an escaped byte
          obtain ⟨st₂, hcopy₂, h₂, hlen₂⟩ := At.copy h₁
          refine Or.inr ⟨rfl, fun st' hres => ?_⟩
          rw [hcopy₂, Option.bind_some, copyString_outside n h₂.outside] at hres
          cases hres
        | cons c t' =>
          obtain ⟨st₂, hcopy₂, h₂, hlen₂⟩ := At.copy h₁
          rw [List.length_cons] at hn
          simp only [List.mem_cons, not_or] at hs
          rw [hcopy₂, Option.bind_some]
          have hrest := ih st₂ _ t' h₂ hs.2.2 (by omega)
          rw [hlen₂, hlen₁, List.append_assoc] at hrest
          refine hrest.more ([92] ++ [c]) ((List.suffix_cons c t').trans (List.suffix_cons 92 _)) ?_
          rw [Mode.stripped_written (k := .escape) rfl, Mode.stripped_written (k := .string) rfl,
            Option.map_map]
          refine congrArg (fun f => Option.map f _) (funext fun x => ?_)
          simp
      · rw [if_neg h92, hcopy, Option.bind_some]
        have hrest := ih st₁ _ t h₁ hs.2 (by omega)
        rw [hlen₁] at hrest
        refine hrest.more [b] (List.suffix_cons b t) (Mode.stripped_written ?_ t)
        rw [Mode.step, if_neg h34, if_neg h92]

/-! ### The main loop -/

def Writes (res : Option State) (len : ℕ) (w : List Byte) : Option (List Byte) → Prop
  | some out => ∃ st', res = some st' ∧ At st' (w ++ out) [0] ∧ st'.block.length = len
  | none => res = none

theorem Writes.more {res : Option State} {len : ℕ} {o : Option (List Byte)} (u : List Byte)
    (h : Writes res len (w ++ u) o) : Writes res len w (o.map (u ++ ·)) := by
  cases o with
  | none => exact h
  | some out =>
    obtain ⟨st', hres, h', hlen⟩ := h
    rw [List.append_assoc] at h'
    exact ⟨st', hres, h', hlen⟩

def Scanned (n : ℕ) : Prop :=
  ∀ (st : State) (w s : List Byte), At st w (s ++ [0]) → 0 ∉ s → s.length + 1 < n →
    Writes (loop n st) st.block.length w (Mode.text.stripped s)

theorem slash_cases {t : List Byte} (h : At st w (47 :: (t ++ [0]))) :
    (∃ t', t = 47 :: t') ∨ (∃ t', t = 42 :: t') ∨
      ∃ c, st.block[st.json + 1]? = some c ∧ c ≠ 47 ∧ c ≠ 42 ∧
        ∀ c' u, t = c' :: u → c' ≠ 47 ∧ c' ≠ 42 := by
  cases t with
  | nil => exact Or.inr (Or.inr ⟨0, At.peek h, by decide, by decide, fun c' u hu => by cases hu⟩)
  | cons c t' =>
    by_cases h47 : c = 47
    · exact Or.inl ⟨t', by rw [h47]⟩
    by_cases h42 : c = 42
    · exact Or.inr (Or.inl ⟨t', by rw [h42]⟩)
    refine Or.inr (Or.inr ⟨c, At.peek h, h47, h42, fun c' u hu => ?_⟩)
    cases hu
    exact ⟨h47, h42⟩

theorem slash_scanned (ih : Scanned n) (t : List Byte) (h : At st w (47 :: (t ++ [0])))
    (ht : 0 ∉ t) (hn : t.length + 1 < n) :
    Writes (loop (n + 1) st) st.block.length w (Mode.text.stripped (47 :: t)) := by
  rw [Mode.stripped_silent (k := .slash) rfl, loop, h.read]
  simp only [Option.bind_eq_bind, Option.bind_some]
  rw [if_neg (by decide), if_neg (by decide), if_pos trivial]
  rcases slash_cases h with ⟨t', rfl⟩ | ⟨t', rfl⟩ | ⟨c, hpeek, h47, h42, hplain⟩
  · rw [List.length_cons] at hn
    obtain ⟨n, rfl⟩ := Nat.exists_eq_succ_of_ne_zero (by omega : n ≠ 0)
    obtain ⟨st', s', hskip, h', hsuffix, hstripped, hlen⟩ :=
      skipLine_scanned (47 :: t') (next st) n h.next ht (by rw [List.length_cons]; omega)
    have hshort := hsuffix.length_le
    rw [List.length_cons] at hshort
    have hline : skipLine (n + 1) st = some st' := by
      rw [skipLine, h.read]
      exact hskip
    rw [At.peek h, Option.bind_some, if_pos rfl, hline, Option.bind_some,
      Mode.stripped_silent (k := .line) rfl]
    rw [Mode.stripped_silent (k := .line) rfl] at hstripped
    have hrest := ih st' w s' h' (fun hmem => ht (hsuffix.mem hmem)) (by omega)
    rw [hlen] at hrest
    rw [hstripped]
    exact hrest
  · rw [List.length_cons] at hn
    have hs : 0 ∉ 47 :: 42 :: t' := by
      simp only [List.mem_cons, not_or] at ht ⊢
      exact ⟨by decide, ht⟩
    obtain ⟨st', hskip, hlen, hcases⟩ := skipComment_scanned (47 :: 42 :: t') st n h hs
      (by rw [List.length_cons, List.length_cons]; omega)
    rw [At.peek h, Option.bind_some, if_neg (by decide), if_pos rfl, hskip, Option.bind_some,
      Mode.stripped_silent (k := .star) rfl]
    rw [Mode.stripped_silent (k := .block) rfl, Mode.stripped_silent (k := .star) rfl] at hcases
    rcases hcases with ⟨s', h', hsuffix, hstripped⟩ | ⟨h', hstripped⟩
    · have hshort := hsuffix.length_le
      simp only [List.length_cons] at hshort
      have hrest := ih _ w s' h'.next.next (fun hmem => hs (hsuffix.mem (by simp [hmem])))
        (by omega)
      rw [hstripped, ← hlen]
      exact hrest
    · rw [hstripped]
      exact loop_outside n (Nat.le_succ_of_le h'.next.outside)
  · obtain ⟨st₁, hcopy, h₁, hlen₁⟩ := h.copy
    rw [hpeek, Option.bind_some, if_neg h47, if_neg h42, hcopy, Option.bind_some,
      Mode.stripped_slash t hplain, ← hlen₁]
    exact (ih st₁ _ t h₁ ht hn).more [47]

theorem string_scanned (ih : Scanned n) (t : List Byte) (h : At st w (34 :: (t ++ [0])))
    (ht : 0 ∉ t) (hn : t.length + 1 < n) :
    Writes (loop (n + 1) st) st.block.length w (Mode.text.stripped (34 :: t)) := by
  obtain ⟨st₁, hcopy, h₁, hlen₁⟩ := h.copy
  rw [Mode.stripped_written (k := .string) rfl, loop, h.read]
  simp only [Option.bind_eq_bind, Option.bind_some]
  rw [if_neg (by decide), if_neg (by decide), if_neg (by decide), if_pos trivial,
    hcopy, Option.bind_some]
  rcases copyString_scanned n st₁ _ t h₁ ht (by omega) with
    ⟨st₂, raw, s', hres, hlen₂, h₂, hsuffix, hstripped⟩ | ⟨hstripped, hend⟩
  · obtain ⟨st₃, hcopy₃, h₃, hlen₃⟩ := h₂.copy
    have hshort := hsuffix.length_le
    rw [List.length_cons] at hshort
    have hrest := ih st₃ _ s' h₃ (fun hmem => ht (hsuffix.mem (List.mem_cons_of_mem _ hmem)))
      (by omega)
    rw [hlen₃, hlen₂, hlen₁, List.append_assoc] at hrest
    rw [hres, Option.bind_some, hcopy₃, Option.bind_some, hstripped]
    exact (hrest.more (raw ++ [34])).more [34]
  · rw [hstripped]
    show (copyString n st₁).bind _ = none
    cases hres : copyString n st₁ with
    | none => rfl
    | some st₂ =>
      obtain ⟨w', h₂⟩ := hend st₂ hres
      obtain ⟨st₃, hcopy₃, h₃, -⟩ := h₂.copy
      rw [Option.bind_some, hcopy₃, Option.bind_some]
      exact loop_outside n h₃.outside

theorem loop_scanned (n : ℕ) : Scanned n := by
  induction n with
  | zero => intro st w s h hs hn; omega
  | succ n ih =>
    intro st w s h hs hn
    cases s with
    | nil =>
      refine ⟨st, ?_, by simpa [Mode.written, Mode.held] using h, rfl⟩
      rw [loop, At.read h]
      rfl
    | cons b t =>
      rw [List.length_cons] at hn
      simp only [List.mem_cons, not_or] at hs
      by_cases h47 : b = 47
      · subst h47
        exact slash_scanned ih t h hs.2 (by omega)
      by_cases h34 : b = 34
      · subst h34
        exact string_scanned ih t h hs.2 (by omega)
      by_cases hws : isWs b = true
      · rw [Mode.stripped_silent (k := .text) (by rw [Mode.step, Mode.textStep, if_pos hws]), loop,
          At.read h]
        simp only [Option.bind_eq_bind, Option.bind_some]
        rw [if_neg (Ne.symm hs.1), if_pos ((isWs_iff b).mp hws)]
        exact ih (next st) w t (At.next h) hs.2 (by omega)
      · obtain ⟨st₁, hcopy, h₁, hlen₁⟩ := At.copy h
        rw [Mode.stripped_written (k := .text) (by rw [Mode.step, Mode.textStep, if_neg hws,
          if_neg h47, if_neg h34]), loop, At.read h]
        simp only [Option.bind_eq_bind, Option.bind_some]
        rw [if_neg (Ne.symm hs.1), if_neg fun h => hws ((isWs_iff b).mpr h), if_neg h47, if_neg h34,
          hcopy, Option.bind_some, ← hlen₁]
        exact (ih st₁ _ t h₁ hs.2 (by omega)).more [b]

/-- The call leaves the block exactly when the text ends inside a string or a block comment;
otherwise the block holds what the scanner writes, terminated. -/
theorem minify_scanned (text : CStr) :
    (minify text.withNul = none ↔ (Mode.text.after text.bytes).isOpen = true) ∧
      ∀ block, minify text.withNul = some block →
        ∃ tail, block = Mode.text.written text.bytes ++ 0 :: tail ∧
          block.length = text.withNul.length := by
  have hzero : 0 ∉ text.bytes := fun hmem => text.nulFree 0 hmem rfl
  have hloop := loop_scanned (text.withNul.length + 1) ⟨text.withNul, 0, 0⟩ [] text.bytes
    ⟨rfl, rfl, le_rfl⟩ hzero (by simp [CStr.withNul])
  unfold Mode.stripped at hloop
  by_cases hopen : (Mode.text.after text.bytes).isOpen = true
  · rw [if_pos hopen] at hloop
    have hnone : minify text.withNul = none := by
      unfold minify
      rw [show loop (text.withNul.length + 1) ⟨text.withNul, 0, 0⟩ = none from hloop]
      rfl
    rw [hnone]
    exact ⟨⟨fun _ => hopen, fun _ => rfl⟩, fun block h => by cases h⟩
  · rw [if_neg hopen] at hloop
    obtain ⟨st, hres, hat, hlen⟩ := hloop
    obtain ⟨tail, hminify, htail, -⟩ := minify_end hres hat hlen
    rw [hminify]
    refine ⟨⟨fun h => absurd h (Option.some_ne_none _), fun h => absurd h hopen⟩, fun block h => ?_⟩
    cases h
    exact ⟨tail, rfl, htail⟩

example : minify [47, 42, 47, 0] = some [0, 42, 47, 0] := by decide

example : minify [47, 42, 42, 0] = none := by decide

end Minify
end SmbDiscover

import SmbDiscover.ParseTree

/-!
# JSON texts are accepted (cJSON.c:133-208, 414-616, 780-785, 856-901)

The parser reads a value wherever a JSON text has it, and leaves what is behind it. Only
a `\u0000` in a string, which the code refuses, is left out.
-/

namespace SmbDiscover
open CText JsonText

namespace Parse

/-! ### String literals -/

theorem hexValue_digit (c : Byte) : hexValue c = digitValue 16 c := by
  unfold hexValue digitValue digitOf
  split_ifs <;> first | rfl | omega | exact congrArg some (by omega)

theorem parseHex4_eq (a b c d : Byte) (u : ℕ) (t : Ptr) (h : hex4 a b c d = some u) :
    parseHex4 (a :: b :: c :: d :: t) = some u := by
  unfold hex4 at h
  split at h
  · next ha hb hc hd =>
    cases h
    simp only [parseHex4, hexDigits, hexValue_digit, ha, hb, hc, hd, Nat.shiftLeft_eq]
    congr 1
    omega
  · cases h

theorem literalEnd_closeQuote (s raw rest : List Byte) (hs : 0 ∉ s)
    (h : closeQuote s = some (raw, rest)) :
    literalEnd (s ++ [0]) = some (34 :: (rest ++ [0])) := by
  induction s using closeQuote.induct generalizing raw with
  | case1 => cases h
  | case2 tail =>
    cases h
    rw [List.cons_append, literalEnd.eq_def]
    exact if_pos (Or.inl rfl)
  | case3 c tail ih =>
    obtain ⟨⟨raw', rest'⟩, hrec, heq⟩ := Option.map_eq_some_iff.mp h
    dsimp only at heq
    cases heq
    simp only [List.mem_cons, not_or] at hs
    rw [List.cons_append, List.cons_append, literalEnd_escape c _ (Ne.symm hs.2.1)]
    exact ih raw' hs.2.2 hrec
  | case4 c tail hq hb ih =>
    rw [closeQuote.eq_4 c tail hq hb] at h
    obtain ⟨⟨raw', rest'⟩, hrec, heq⟩ := Option.map_eq_some_iff.mp h
    dsimp only at heq
    cases heq
    simp only [List.mem_cons, not_or] at hs
    have hback : c ≠ 92 := by
      rintro rfl
      cases tail with
      | nil => cases hrec
      | cons c' tail => exact hb c' tail rfl rfl
    rw [List.cons_append, literalEnd_char c _ hq (Ne.symm hs.1) hback]
    exact ih raw' hs.2 hrec

theorem simpleEscape_escaped (c e : Byte) (h : simpleEscape c = some e) :
    escaped c = e ∧ c ≠ 117 := by
  unfold simpleEscape at h
  split at h <;> cases h <;> exact ⟨rfl, by decide⟩

theorem unicodeStep_single (a b c d : Byte) (u : ℕ) (t : Ptr) (endLen : ℕ)
    (hu : hex4 a b c d = some u) (hlen : endLen ≤ t.length)
    (hhigh : ¬ (0xD800 ≤ u ∧ u < 0xDC00)) (hlow : ¬ (0xDC00 ≤ u ∧ u < 0xE000)) (h0 : u ≠ 0) :
    unicodeStep endLen (117 :: a :: b :: c :: d :: t) = some (some (utf8 u, t)) := by
  have hlt := hex4_lt a b c d u hu
  unfold unicodeStep
  simp only [List.drop_succ_cons, List.drop_zero, parseHex4_eq a b c d u t hu,
    Option.bind_eq_bind, Option.bind_some, List.length_cons]
  rw [if_neg (by omega), if_neg (by omega), if_neg (by omega), utf8Bytes_eq u (by omega)]

theorem unicodeStep_pair (a b c d a' b' c' d' : Byte) (u v : ℕ) (t : Ptr) (endLen : ℕ)
    (hu : hex4 a b c d = some u) (hv : hex4 a' b' c' d' = some v) (hlen : endLen ≤ t.length)
    (hhigh : 0xD800 ≤ u ∧ u < 0xDC00) (hlow : 0xDC00 ≤ v ∧ v < 0xE000) :
    unicodeStep endLen (117 :: a :: b :: c :: d :: 92 :: 117 :: a' :: b' :: c' :: d' :: t) =
      some (some (utf8 (0x10000 + (u - 0xD800) * 1024 + (v - 0xDC00)), t)) := by
  unfold unicodeStep
  simp only [List.drop_succ_cons, List.drop_zero, parseHex4_eq a b c d u _ hu,
    parseHex4_eq a' b' c' d' v t hv, Option.bind_eq_bind, Option.bind_some, List.length_cons,
    List.getElem?_cons_succ, List.getElem?_cons_zero]
  rw [if_neg (by omega), if_neg (by omega), if_pos (by omega), if_neg (by omega),
    if_neg (by simp), if_neg (by omega), surrogate_pair u v (by omega) (by omega) (by omega)
      (by omega), utf8Bytes_eq _ (by omega)]

theorem unicodeStep_zero (a b c d : Byte) (t : Ptr) (endLen : ℕ) (hu : hex4 a b c d = some 0) :
    unicodeStep endLen (117 :: a :: b :: c :: d :: t) = some none := by
  unfold unicodeStep
  simp only [List.drop_succ_cons, List.drop_zero, parseHex4_eq a b c d 0 t hu,
    Option.bind_eq_bind, Option.bind_some, or_true, if_true, ite_self]

/-- One more round of the second loop. -/
theorem decode_step (n : ℕ) (ptr q e : Ptr) (bs d : List Byte) (hlen : e.length < ptr.length)
    (hstep : charStep e.length ptr = some (some (bs, q))) (hbs : 0 ∉ bs)
    (hrest : decode e.length n q = if 0 ∈ d then none else some (d, e)) :
    decode e.length (n + 1) ptr = if 0 ∈ bs ++ d then none else some (bs ++ d, e) := by
  rw [decode, if_neg (by omega), hstep]
  simp only [hrest, List.mem_append, hbs, false_or]
  split_ifs <;> rfl

theorem simpleEscape_ne_zero (c x : Byte) (h : simpleEscape c = some x) : x ≠ 0 := by
  unfold simpleEscape at h
  split at h <;> cases h <;> decide

theorem decode_unescape (raw : List Byte) (e : Ptr) : ∀ d n, unescape raw = some d →
    raw.length < n → decode e.length n (raw ++ e) = if 0 ∈ d then none else some (d, e) := by
  fun_induction unescape raw with
  | case1 =>
    intro d n hd hn
    cases hd
    obtain ⟨n, rfl⟩ := Nat.exists_eq_succ_of_ne_zero (by omega : n ≠ 0)
    rw [Nat.succ_eq_add_one, decode, List.nil_append, if_pos le_rfl]
    rfl
  | case4 a b c d' u hu hhigh a' b' c' e' rest' v hv hlow ih =>
    intro d n hd hn
    obtain ⟨t, ht, rfl⟩ := Option.map_eq_some_iff.mp hd
    simp only [List.length_cons] at hn
    obtain ⟨n, rfl⟩ := Nat.exists_eq_succ_of_ne_zero (by omega : n ≠ 0)
    refine decode_step n _ (rest' ++ e) e _ t ?_ ?_ (utf8_ne_zero _ (by omega) (by omega))
      (ih t n ht (by omega))
    · simp only [List.cons_append, List.length_cons, List.length_append]
      omega
    · exact unicodeStep_pair a b c d' a' b' c' e' u v (rest' ++ e) e.length hu hv
        (by rw [List.length_append]; omega) hhigh hlow
  | case8 a b c d' rest u hu hhigh hlow ih =>
    intro d n hd hn
    obtain ⟨t, ht, rfl⟩ := Option.map_eq_some_iff.mp hd
    have hlt := hex4_lt a b c d' u hu
    simp only [List.length_cons] at hn
    obtain ⟨n, rfl⟩ := Nat.exists_eq_succ_of_ne_zero (by omega : n ≠ 0)
    have hlen : e.length < (92 :: 117 :: a :: b :: c :: d' :: (rest ++ e)).length := by
      simp only [List.length_cons, List.length_append]
      omega
    by_cases h0 : u = 0
    · subst h0
      have hstep : charStep e.length (92 :: 117 :: a :: b :: c :: d' :: (rest ++ e)) = some none :=
        unicodeStep_zero a b c d' (rest ++ e) e.length hu
      have hmem : (0 : Byte) ∈ utf8 0 ++ t := List.mem_append_left t (by decide)
      rw [if_pos hmem]
      simp only [List.cons_append]
      rw [decode, if_neg (by omega), hstep]
    · refine decode_step n _ (rest ++ e) e _ t hlen ?_ (utf8_ne_zero u h0 (by omega))
        (ih t n ht (by omega))
      exact unicodeStep_single a b c d' u (rest ++ e) e.length hu
        (by rw [List.length_append]; omega) hhigh hlow h0
  | case10 c rest hshape x hx ih =>
    intro d n hd hn
    obtain ⟨t, ht, rfl⟩ := Option.map_eq_some_iff.mp hd
    obtain ⟨hescaped, hc⟩ := simpleEscape_escaped c x hx
    simp only [List.length_cons] at hn
    obtain ⟨n, rfl⟩ := Nat.exists_eq_succ_of_ne_zero (by omega : n ≠ 0)
    refine decode_step n _ (rest ++ e) e [x] t ?_ ?_
      (by simp [(simpleEscape_ne_zero c x hx).symm]) (ih t n ht (by omega))
    · simp only [List.cons_append, List.length_cons, List.length_append]
      omega
    · rw [List.cons_append, List.cons_append, charStep]
      · rw [hescaped]
      · exact fun heq => hc heq
  | case11 c rest hu hb hplain ih =>
    intro d n hd hn
    obtain ⟨t, ht, rfl⟩ := Option.map_eq_some_iff.mp hd
    simp only [List.length_cons] at hn
    obtain ⟨n, rfl⟩ := Nat.exists_eq_succ_of_ne_zero (by omega : n ≠ 0)
    have hc : c ≠ 0 := byte_ne_zero c 32 (by decide) hplain.1
    refine decode_step n _ (rest ++ e) e [c] t ?_ ?_ (by simp [hc.symm]) (ih t n ht (by omega))
    · simp only [List.cons_append, List.length_cons, List.length_append]
      omega
    · rw [List.cons_append, charStep]
      exact hplain.2.2
  | _ =>
    intro d n hd
    cases hd

theorem readString_lexString (s d rest : List Byte) (h : lexString s = some (d, rest))
    (hs : 0 ∉ s) :
    readString (34 :: (s ++ [0])) = (if 0 ∈ d then none else some (d, rest ++ [0])) ∧
      rest <:+ s ∧ rest.length < s.length := by
  unfold lexString at h
  split at h
  · cases h
  next raw rest' hclose =>
    obtain ⟨d', hd', heq⟩ := Option.map_eq_some_iff.mp h
    cases heq
    have hend := literalEnd_closeQuote s raw rest hs hclose
    obtain rfl := closeQuote_eq s raw rest hclose
    have htext : raw ++ 34 :: rest ++ [0] = raw ++ 34 :: (rest ++ [0]) := by
      rw [List.append_assoc, List.cons_append]
    rw [htext] at hend ⊢
    have hdecode := decode_unescape raw (34 :: (rest ++ [0])) d
      (raw ++ 34 :: (rest ++ [0])).length hd'
      (by simp only [List.length_append, List.length_cons]; omega)
    refine ⟨?_, ⟨raw ++ [34], by simp⟩, by simp only [List.length_append, List.length_cons]; omega⟩
    rw [readString, hend]
    simp only [hdecode]
    split_ifs <;> rfl

/-! ### Numbers -/

/-- A number that stops here would go on over a digit. -/
def Follows (rest : List Byte) : Prop := ∀ b t, rest = b :: t → isDigit b = false

theorem isDigit_iff (b : Byte) : isDigit b = true ↔ 48 ≤ b.val ∧ b.val ≤ 57 := by
  simp [isDigit, Fin.le_def]

theorem skipDigits_text (s : List Byte) :
    skipDigits (s ++ [0]) = some (s.dropWhile isDigit ++ [0]) := by
  induction s with
  | nil => rfl
  | cons b s ih =>
    rw [List.cons_append, skipDigits, List.dropWhile_cons]
    by_cases hb : isDigit b = true
    · rw [if_pos hb, if_pos ((isDigit_iff b).mp hb), ih]
    · rw [if_neg hb, if_neg fun h => hb ((isDigit_iff b).mpr h), List.cons_append]

theorem digits_head (s : List Byte) (h : ¬ (s.takeWhile isDigit).isEmpty = true) :
    ∃ b u, s = b :: u ∧ isDigit b = true := by
  cases s with
  | nil => exact absurd rfl h
  | cons b u =>
    refine ⟨b, u, rfl, ?_⟩
    by_contra hb
    exact h (by rw [List.takeWhile_cons, if_neg hb]; rfl)

theorem lexDigits_text (before s d t : List Byte) (h : lexDigits before s = some (d, t)) :
    ∃ b u, s = b :: u ∧ isDigit b = true ∧ skipDigits (s ++ [0]) = some (t ++ [0]) ∧
      before ++ s = d ++ t := by
  unfold lexDigits at h
  split at h
  · cases h
  next hne =>
    cases h
    obtain ⟨b, u, hs, hb⟩ := digits_head s hne
    refine ⟨b, u, hs, hb, skipDigits_text s, ?_⟩
    rw [List.append_assoc, List.takeWhile_append_dropWhile]

theorem skipIf_sign (s : List Byte) :
    skipIf (· = 45) (s ++ [0]) = some ((lexSign s).2 ++ [0]) ∧ s = (lexSign s).1 ++ (lexSign s).2 ∧
      ((lexSign s).1 = [] ∨ (lexSign s).1 = [45]) := by
  unfold lexSign
  split
  · exact ⟨rfl, rfl, Or.inr rfl⟩
  · next hne =>
    refine ⟨?_, rfl, Or.inl rfl⟩
    cases s with
    | nil => rfl
    | cons b s =>
      have hb : b ≠ 45 := by
        rintro rfl
        exact hne s rfl
      rw [List.cons_append, skipIf, if_neg (by simpa using hb)]

theorem skipInt_lexInt (s int t : List Byte) (h : lexInt s = some (int, t)) (ht : Follows t) :
    (skipIf (· = 48) (s ++ [0])).bind skipInt = some (t ++ [0]) ∧ s = int ++ t ∧
      ∃ b u, int = b :: u ∧ 48 ≤ b.val ∧ b.val ≤ 57 := by
  unfold lexInt at h
  split at h
  next rest =>
    cases h
    refine ⟨?_, rfl, 48, [], rfl, by decide, by decide⟩
    show skipInt (t ++ [0]) = some (t ++ [0])
    cases t with
    | nil => rfl
    | cons b t =>
      have hb := ht b t rfl
      rw [List.cons_append, skipInt, if_neg]
      intro hrange
      rw [(isDigit_iff b).mpr ⟨by omega, hrange.2⟩] at hb
      cases hb
  next hne =>
    split at h
    · cases h
    next hdigits =>
      cases h
      obtain ⟨b, u, rfl, hb⟩ := digits_head s hdigits
      have hrange := (isDigit_iff b).mp hb
      have h48 : b ≠ 48 := by
        rintro rfl
        exact hne u rfl
      have hval : b.val ≠ 48 := fun hval => h48 (Fin.ext hval)
      refine ⟨?_, (List.takeWhile_append_dropWhile ..).symm, b, _, by rw [List.takeWhile_cons,
        if_pos hb], hrange⟩
      rw [List.cons_append, skipIf, if_neg (by simpa using h48), Option.bind_some, skipInt,
        if_pos ⟨by omega, hrange.2⟩, skipDigits_text, List.dropWhile_cons, if_pos hb]

theorem skipFrac_lexFrac (s f t : List Byte) (h : lexFrac s = some (f, t)) :
    skipFrac (s ++ [0]) = some (t ++ [0]) ∧ s = f ++ t := by
  unfold lexFrac at h
  split at h
  next rest =>
    obtain ⟨b, u, rfl, hb, hskip, htext⟩ := lexDigits_text [46] rest f t h
    refine ⟨?_, htext⟩
    rw [List.cons_append, skipDigits, if_pos ((isDigit_iff b).mp hb)] at hskip
    rw [List.cons_append, List.cons_append, skipFrac, if_pos ((isDigit_iff b).mp hb)]
    exact hskip
  next hne =>
    cases h
    refine ⟨?_, rfl⟩
    cases s with
    | nil => rfl
    | cons b s =>
      rw [List.cons_append, skipFrac]
      rintro rfl
      exact hne s rfl

theorem skipExp_lexExp (s e t : List Byte) (h : lexExp s = some (e, t)) :
    skipExp (s ++ [0]) = some (t ++ [0]) ∧ s = e ++ t := by
  unfold lexExp at h
  split at h
  next c rest =>
    by_cases hc : c = 101 ∨ c = 69
    · rw [if_pos hc] at h
      rw [List.cons_append, skipExp, if_pos hc]
      split at h
      next rest =>
        obtain ⟨b, u, rfl, hb, hskip, htext⟩ := lexDigits_text [c, 43] rest e t h
        exact ⟨hskip, htext⟩
      next rest =>
        obtain ⟨b, u, rfl, hb, hskip, htext⟩ := lexDigits_text [c, 45] rest e t h
        exact ⟨hskip, htext⟩
      next hplus hminus =>
        obtain ⟨b, u, rfl, hb, hskip, htext⟩ := lexDigits_text [c] rest e t h
        refine ⟨?_, htext⟩
        have hb43 : b ≠ 43 := by
          rintro rfl
          exact hplus u rfl
        have hb45 : b ≠ 45 := by
          rintro rfl
          exact hminus u rfl
        rw [List.cons_append] at hskip ⊢
        rw [skipIf, if_neg (by simp [hb43, hb45])]
        exact hskip
    · rw [if_neg hc] at h
      cases h
      refine ⟨?_, rfl⟩
      rw [List.cons_append, skipExp, if_neg hc]
  · cases h
    exact ⟨rfl, rfl⟩

theorem lex_digit (b : Byte) (u : List Byte) (hb : isDigit b = true) :
    lexFrac (b :: u) = some ([], b :: u) ∧ lexExp (b :: u) = some ([], b :: u) := by
  have hrange := (isDigit_iff b).mp hb
  refine ⟨?_, ?_⟩
  · rw [lexFrac]
    intro rest heq
    cases heq
    exact absurd hrange.1 (by decide)
  · unfold lexExp
    dsimp only
    rw [if_neg]
    rintro (rfl | rfl)
    · exact absurd hrange.2 (by decide)
    · exact absurd hrange.2 (by decide)

theorem parseNumber_lexNumber (s t rest : List Byte) (h : lexNumber s = some (t, rest))
    (hrest : Follows rest) : parseNumber (s ++ [0]) = some (rest ++ [0]) ∧ s = t ++ rest ∧
      ∃ b u, t = b :: u ∧ (b = 45 ∨ (48 ≤ b.val ∧ b.val ≤ 57)) := by
  obtain ⟨hsign, htext, hsigns⟩ := skipIf_sign s
  unfold lexNumber at h
  split at h
  · cases h
  next int t₁ hint =>
    split at h
    · cases h
    next frac t₂ hfrac =>
      obtain ⟨⟨e, rest'⟩, hexp, heq⟩ := Option.map_eq_some_iff.mp h
      dsimp only at heq
      obtain ⟨rfl, rfl⟩ := Prod.mk.inj heq
      have ht₁ : Follows t₁ := by
        rintro b u rfl
        by_contra hb
        rw [Bool.not_eq_false] at hb
        obtain ⟨hfrac', hexp'⟩ := lex_digit b u hb
        rw [hfrac'] at hfrac
        cases hfrac
        rw [hexp'] at hexp
        cases hexp
        rw [hrest b u rfl] at hb
        cases hb
      obtain ⟨hskip, htext₁, b, u, rfl, hb⟩ := skipInt_lexInt _ int t₁ hint ht₁
      obtain ⟨hskip₂, htext₂⟩ := skipFrac_lexFrac t₁ frac t₂ hfrac
      obtain ⟨hskip₃, htext₃⟩ := skipExp_lexExp t₂ e rest' hexp
      obtain ⟨z, hzero, hskip⟩ := Option.bind_eq_some_iff.mp hskip
      refine ⟨?_, ?_, ?_⟩
      · unfold parseNumber
        simp only [Option.bind_eq_bind, Option.bind_some, hsign, hzero, hskip, hskip₂, hskip₃]
      · rw [List.append_assoc, List.append_assoc, List.append_assoc, ← htext₃, ← htext₂, ← htext₁]
        exact htext
      · rcases hsigns with hnone | hminus
        · exact ⟨b, _, by rw [hnone]; rfl, Or.inr hb⟩
        · exact ⟨45, _, by rw [hminus]; rfl, Or.inl rfl⟩

/-! ### White space -/

theorem isWs_skipped (b : Byte) (h : isWs b = true) :
    (b ≠ 0 ∧ b.val ≤ 32) ∧ isDigit b = false := by
  simp only [isWs, Bool.or_eq_true, decide_eq_true_eq] at h
  rcases h with ((rfl | rfl) | rfl) | rfl <;> decide

theorem skip_ws (s t : List Byte) : skip (s ++ t) = skip (skipWs s ++ t) := by
  induction s with
  | nil => rfl
  | cons b s ih =>
    by_cases hb : isWs b = true
    · rw [List.cons_append, skip, if_pos (isWs_skipped b hb).1, ih, skipWs, skipWs,
        List.dropWhile_cons, if_pos hb]
    · rw [skipWs_cons b s (by simpa using hb)]

theorem skip_text (s : List Byte) (b : Byte) (t : List Byte) (hs : skipWs s = b :: t)
    (hb : 32 < b.val) : skip (s ++ [0]) = some (b :: (t ++ [0])) := by
  rw [skip_ws, hs, List.cons_append, skip, if_neg fun h => by omega]

theorem skip_end (s : List Byte) (hs : skipWs s = []) : skip (s ++ [0]) = some [0] := by
  rw [skip_ws, hs]
  rfl

theorem skip_skip (p q : Ptr) (h : skip p = some q) : skip q = some q := by
  induction p with
  | nil => cases h
  | cons b rest ih =>
    rw [skip] at h
    split at h
    · exact ih h
    · next hb =>
      cases h
      rw [skip, if_neg hb]

theorem skipWs_suffix (s : List Byte) : skipWs s <:+ s := List.dropWhile_suffix ..

theorem follows_ws (rest : List Byte) (h : ∀ b t, skipWs rest = b :: t → isDigit b = false) :
    Follows rest := by
  rintro b t rfl
  by_cases hb : isWs b = true
  · exact (isWs_skipped b hb).2
  · exact h b t (skipWs_cons b t (by simpa using hb))

/-! ### Values -/

def noNul (s : List Byte) : Bool := s.all fun b => b ≠ 0

theorem noNul_iff (s : List Byte) : noNul s = true ↔ 0 ∉ s := by
  rw [noNul, List.all_eq_true]
  refine ⟨fun h hmem => ?_, fun h b hb => ?_⟩
  · exact absurd rfl (of_decide_eq_true (h 0 hmem))
  · exact decide_eq_true fun h0 => h (h0 ▸ hb)

mutual

/-- No string has a terminator in it. -/
def nulFree : Json → Bool
  | .str s => noNul s
  | .arr elems => nulFreeElems elems
  | .obj members => nulFreeMembers members
  | .null => true
  | .bool _ => true
  | .num _ => true

def nulFreeElems : List Json → Bool
  | [] => true
  | v :: next => nulFree v && nulFreeElems next

def nulFreeMembers : List (List Byte × Json) → Bool
  | [] => true
  | (name, v) :: next => noNul name && (nulFree v && nulFreeMembers next)

end

def Accepts (fuel : ℕ) : Prop :=
  ∀ s v rest n, JsonText.parseValue fuel s = some (v, rest) → 0 ∉ s → Follows rest →
    2 * s.length + 4 ≤ n →
    (∃ b t, skip (s ++ [0]) = some (b :: t) ∧ b ≠ 93 ∧
      readValue n (b :: t) = if nulFree v then some (v, rest ++ [0]) else none) ∧
      rest <:+ s ∧ rest.length < s.length

def AcceptsElems (fuel : ℕ) : Prop :=
  ∀ s vs rest n, JsonText.parseElems fuel s = some (vs, rest) → 0 ∉ s → 2 * s.length + 4 ≤ n →
    (∃ b t, skip (s ++ [0]) = some (b :: t) ∧ b ≠ 93 ∧
      ((spaced n (b :: t)).bind fun p => (readElements n p.2).map fun q => (p.1 :: q.1, q.2)) =
        if nulFreeElems vs then some (vs, rest ++ [0]) else none) ∧
      rest <:+ s ∧ rest.length < s.length

def AcceptsMembers (fuel : ℕ) : Prop :=
  ∀ s ms rest n, JsonText.parseMembers fuel s = some (ms, rest) → 0 ∉ s → 2 * s.length + 4 ≤ n →
    (∃ t, skip (s ++ [0]) = some (34 :: t) ∧
      ((readMember n (34 :: t)).bind fun p =>
        (readMembers n p.2).map fun q => (p.1 :: q.1, q.2)) =
        if nulFreeMembers ms then some (ms, rest ++ [0]) else none) ∧
      rest <:+ s ∧ rest.length < s.length

theorem parseLiteral_other (b : Byte) (t : Ptr) (h110 : b ≠ 110) (h102 : b ≠ 102)
    (h116 : b ≠ 116) : parseLiteral (b :: t) = some none := by
  obtain ⟨hnull, htrue, hfalse⟩ := ascii_tokens
  unfold parseLiteral
  simp only [hnull, htrue, hfalse, startsWith, if_neg h110, if_neg h102, if_neg h116,
    Option.bind_eq_bind, Option.bind_some, Bool.false_eq_true, if_false]

theorem readValue_string (n : ℕ) (t : Ptr) : readValue (n + 1) (34 :: t) =
    (readString (34 :: t)).map fun p => (.str p.1, p.2) := by
  rw [readValue, parseLiteral_other 34 t (by decide) (by decide) (by decide)]
  rfl

theorem readValue_array (n : ℕ) (t : Ptr) : readValue (n + 1) (91 :: t) =
    (readArray n (91 :: t)).map fun p => (.arr p.1, p.2) := by
  rw [readValue, parseLiteral_other 91 t (by decide) (by decide) (by decide)]
  rfl

theorem readValue_object (n : ℕ) (t : Ptr) : readValue (n + 1) (123 :: t) =
    (readObject n (123 :: t)).map fun p => (.obj p.1, p.2) := by
  rw [readValue, parseLiteral_other 123 t (by decide) (by decide) (by decide)]
  rfl

theorem number_head (b : Byte) (h : b = 45 ∨ (48 ≤ b.val ∧ b.val ≤ 57)) :
    32 < b.val ∧ b ≠ 34 ∧ b ≠ 93 ∧ b ≠ 110 ∧ b ≠ 102 ∧ b ≠ 116 := by
  rcases h with rfl | h
  · decide
  · refine ⟨by omega, ?_, ?_, ?_, ?_, ?_⟩ <;>
    · rintro rfl
      revert h
      decide

theorem readValue_number (n : ℕ) (s t rest : List Byte) (h : lexNumber s = some (t, rest))
    (hrest : Follows rest) : readValue (n + 1) (s ++ [0]) = some (.num t, rest ++ [0]) ∧
      ∃ b u, s = b :: u ∧ 32 < b.val ∧ b ≠ 93 := by
  obtain ⟨hparse, rfl, b, u, rfl, hb⟩ := parseNumber_lexNumber s t rest h hrest
  obtain ⟨hless, h34, h93, h110, h102, h116⟩ := number_head b hb
  refine ⟨?_, b, u ++ rest, rfl, hless, h93⟩
  have hnum : (b :: u ++ rest ++ [0]).take ((b :: u ++ rest ++ [0]).length - (rest ++ [0]).length) =
      b :: u := by
    rw [List.append_assoc (b :: u), List.length_append, Nat.add_sub_cancel, List.take_left]
  rw [List.cons_append, List.cons_append] at hparse hnum ⊢
  rw [readValue, parseLiteral_other b _ h110 h102 h116]
  simp only [if_neg h34, if_pos hb, hparse, Option.map_some, hnum]

/-! ### Lists -/

/-- The space in front of a value may be skipped already. -/
theorem spaced_start (n : ℕ) (value start : Ptr) (h : skip value = some start) :
    spaced n start = spaced n value := by
  rw [spaced, spaced, h, skip_skip value start h]

theorem readMember_start (n : ℕ) (value start : Ptr) (h : skip value = some start) :
    readMember n start = readMember n value := by
  cases n with
  | zero => rfl
  | succ n => rw [readMember, readMember, h, skip_skip value start h]

/-- A value, and a byte behind it that is no part of a number. -/
theorem spaced_accepted (fuel n : ℕ) (hvalue : Accepts fuel) (s r t : List Byte) (b : Byte)
    (v : Json) (hv : JsonText.parseValue fuel s = some (v, r)) (hr : skipWs r = b :: t)
    (hb : 32 < b.val) (hdigit : isDigit b = false) (hs : 0 ∉ s) (hn : 2 * s.length + 4 ≤ n) :
    (∃ c u, skip (s ++ [0]) = some (c :: u) ∧ c ≠ 93 ∧
      spaced n (c :: u) = if nulFree v then some (v, b :: (t ++ [0])) else none) ∧
      t <:+ s ∧ t.length + 1 < s.length := by
  have hrest : Follows r := by
    refine follows_ws r fun b' t' heq => ?_
    rw [hr] at heq
    cases heq
    exact hdigit
  obtain ⟨⟨c, u, hskip, hc, hread⟩, hsuffix, hless⟩ := hvalue s v r n hv hs hrest hn
  have hbelow := skipWs_suffix r
  rw [hr] at hbelow
  have hlen := hbelow.length_le
  rw [List.length_cons] at hlen
  refine ⟨⟨c, u, hskip, hc, ?_⟩, ((List.suffix_cons b t).trans hbelow).trans hsuffix, by omega⟩
  rw [spaced, skip_skip _ _ hskip, Option.bind_some, hread]
  cases nulFree v with
  | false => rfl
  | true =>
    rw [if_pos rfl, if_pos rfl, Option.bind_some, skip_text r b t hr hb, Option.map_some]

theorem elems_accepted (fuel : ℕ) (hvalue : Accepts fuel) (helems : AcceptsElems fuel) :
    AcceptsElems (fuel + 1) := by
  intro s vs rest n h hs hn
  obtain ⟨n, rfl⟩ := Nat.exists_eq_succ_of_ne_zero (by omega : n ≠ 0)
  rw [JsonText.parseElems] at h
  split at h
  · cases h
  next v r hv =>
    split at h
    next t hr =>
      obtain ⟨⟨tail, rest'⟩, htail, heq⟩ := Option.map_eq_some_iff.mp h
      dsimp only at heq
      cases heq
      obtain ⟨⟨c, u, hskip, hc, hspaced⟩, hsuffix, hless⟩ :=
        spaced_accepted fuel (n + 1) hvalue s r t 44 v hv hr (by decide) (by decide) hs hn
      obtain ⟨⟨b, w, hskip', -, hform⟩, hsuffix', hless'⟩ := helems t tail rest n htail
        (fun hmem => hs (hsuffix.mem hmem)) (by omega)
      refine ⟨⟨c, u, hskip, hc, ?_⟩, hsuffix'.trans hsuffix, by omega⟩
      rw [hspaced, nulFreeElems]
      cases nulFree v with
      | false => rfl
      | true =>
        rw [if_pos rfl, Option.bind_some, readElements_comma, ← spaced_start n _ _ hskip', hform,
          Bool.true_and]
        split_ifs <;> rfl
    next t hr =>
      cases h
      obtain ⟨⟨c, u, hskip, hc, hspaced⟩, hsuffix, hless⟩ :=
        spaced_accepted fuel (n + 1) hvalue s r rest 93 v hv hr (by decide) (by decide) hs hn
      refine ⟨⟨c, u, hskip, hc, ?_⟩, hsuffix, by omega⟩
      rw [hspaced, nulFreeElems, nulFreeElems, Bool.and_true]
      cases nulFree v with
      | false => rfl
      | true =>
        rw [if_pos rfl, Option.bind_some, readElements]
        rfl
    · cases h

theorem member_accepted (fuel n : ℕ) (hvalue : Accepts fuel) (s key : List Byte)
    (r r' t : List Byte) (b : Byte) (v : Json) (hkey : lexKey s = some (key, r))
    (hv : JsonText.parseValue fuel r = some (v, r')) (hr' : skipWs r' = b :: t) (hb : 32 < b.val)
    (hdigit : isDigit b = false) (hs : 0 ∉ s) (hn : 2 * s.length + 3 ≤ n) :
    (∃ u, skip (s ++ [0]) = some (34 :: u) ∧ readMember n (34 :: u) =
      if 0 ∉ key ∧ nulFree v = true then some ((key, v), b :: (t ++ [0])) else none) ∧
      t <:+ s ∧ t.length + 1 < s.length := by
  unfold lexKey at hkey
  split at hkey
  next a ha =>
    split at hkey
    · cases hkey
    next key' c hstring =>
      split at hkey
      next r'' hc =>
        cases hkey
        have hbelow := skipWs_suffix s
        rw [ha] at hbelow
        have hbelow := (List.suffix_cons 34 a).trans hbelow
        have hzero : ∀ x : List Byte, x <:+ s → 0 ∉ x := fun x hx hmem => hs (hx.mem hmem)
        obtain ⟨hname, hsuffix, hless⟩ := readString_lexString a key c hstring (hzero a hbelow)
        have hcolon := skipWs_suffix c
        rw [hc] at hcolon
        have hlen := hcolon.length_le
        rw [List.length_cons] at hlen
        have hlen₀ := (skipWs_suffix s).length_le
        rw [ha, List.length_cons] at hlen₀
        have hr : r <:+ s := (((List.suffix_cons 58 r).trans hcolon).trans hsuffix).trans hbelow
        have hskip := skip_text s 34 a ha (by decide)
        obtain ⟨n, rfl⟩ := Nat.exists_eq_succ_of_ne_zero (by omega : n ≠ 0)
        obtain ⟨⟨d, u, hskip', -, hspaced⟩, hsuffix', hless'⟩ :=
          spaced_accepted fuel n hvalue r r' t b v hv hr' hb hdigit (hzero r hr) (by omega)
        refine ⟨⟨_, hskip, ?_⟩, hsuffix'.trans hr, by omega⟩
        by_cases hnul : 0 ∈ key
        · rw [if_pos hnul] at hname
          rw [if_neg (fun hboth => hboth.1 hnul), Nat.succ_eq_add_one, readMember,
            skip_skip _ _ hskip, Option.bind_some, hname, Option.bind_none]
        · rw [if_neg hnul] at hname
          rw [Nat.succ_eq_add_one, readMember_colon n _ (34 :: (a ++ [0])) key (c ++ [0])
            (r ++ [0]) (skip_skip _ _ hskip) hname (skip_text c 58 r hc (by decide)),
            ← spaced_start n _ _ hskip', hspaced]
          cases hv : nulFree v with
          | false => simp
          | true => simp [hnul]
      · cases hkey
  · cases hkey

theorem members_accepted (fuel : ℕ) (hvalue : Accepts fuel) (hmembers : AcceptsMembers fuel) :
    AcceptsMembers (fuel + 1) := by
  intro s ms rest n h hs hn
  obtain ⟨n, rfl⟩ := Nat.exists_eq_succ_of_ne_zero (by omega : n ≠ 0)
  rw [JsonText.parseMembers] at h
  split at h
  · cases h
  next key r hkey =>
    split at h
    · cases h
    next v r' hv =>
      split at h
      next t hr =>
        obtain ⟨⟨tail, rest'⟩, htail, heq⟩ := Option.map_eq_some_iff.mp h
        dsimp only at heq
        cases heq
        obtain ⟨⟨u, hskip, hmember⟩, hsuffix, hless⟩ := member_accepted fuel (n + 1) hvalue s key r
          r' t 44 v hkey hv hr (by decide) (by decide) hs (by omega)
        obtain ⟨⟨w, hskip', hform⟩, hsuffix', hless'⟩ := hmembers t tail rest n htail
          (fun hmem => hs (hsuffix.mem hmem)) (by omega)
        refine ⟨⟨u, hskip, ?_⟩, hsuffix'.trans hsuffix, by omega⟩
        rw [hmember, nulFreeMembers]
        by_cases hnul : 0 ∉ key ∧ nulFree v = true
        · rw [if_pos hnul, Option.bind_some, readMembers, ← readMember_start n _ _ hskip', hform,
            hnul.2, (noNul_iff key).mpr hnul.1]
          simp only [Bool.true_and]
          split_ifs <;> rfl
        · rw [if_neg hnul, if_neg]
          · rfl
          · simp only [Bool.and_eq_true, noNul_iff]
            exact fun hall => hnul ⟨hall.1, hall.2.1⟩
      next t hr =>
        cases h
        obtain ⟨⟨u, hskip, hmember⟩, hsuffix, hless⟩ := member_accepted fuel (n + 1) hvalue s key r
          r' rest 125 v hkey hv hr (by decide) (by decide) hs (by omega)
        refine ⟨⟨u, hskip, ?_⟩, hsuffix, by omega⟩
        rw [hmember, nulFreeMembers, nulFreeMembers]
        by_cases hnul : 0 ∉ key ∧ nulFree v = true
        · rw [if_pos hnul, if_pos (by simp [noNul_iff, hnul.1, hnul.2]), Option.bind_some, readMembers]
          rfl
        · rw [if_neg hnul, if_neg]
          · rfl
          · simp only [Bool.and_eq_true, noNul_iff]
            exact fun hall => hnul ⟨hall.1, hall.2.1⟩
      · cases h

/-! ### All values -/

/-- What `Accepts` says of one text. -/
def AcceptedAt (n : ℕ) (s : List Byte) (v : Json) (rest : List Byte) : Prop :=
  (∃ b t, skip (s ++ [0]) = some (b :: t) ∧ b ≠ 93 ∧
    readValue n (b :: t) = if nulFree v then some (v, rest ++ [0]) else none) ∧
    rest <:+ s ∧ rest.length < s.length

theorem suffix_behind (s r : List Byte) (b : Byte) (hr : skipWs s = b :: r) :
    r <:+ s ∧ r.length < s.length := by
  have hbelow := skipWs_suffix s
  rw [hr] at hbelow
  have hlen := hbelow.length_le
  rw [List.length_cons] at hlen
  exact ⟨(List.suffix_cons b r).trans hbelow, hlen⟩

theorem string_accepted (n : ℕ) (s r d rest : List Byte) (hs : 0 ∉ s) (hr : skipWs s = 34 :: r)
    (hstring : lexString r = some (d, rest)) : AcceptedAt (n + 2) s (.str d) rest := by
  obtain ⟨hbelow, hlen⟩ := suffix_behind s r 34 hr
  obtain ⟨hread, hsuffix, hless⟩ :=
    readString_lexString r d rest hstring (fun hmem => hs (hbelow.mem hmem))
  refine ⟨⟨34, _, skip_text s 34 r hr (by decide), by decide, ?_⟩, hsuffix.trans hbelow, by omega⟩
  rw [readValue_string, hread, nulFree]
  by_cases hnul : 0 ∈ d
  · simp [noNul_iff, hnul]
  · simp [noNul_iff, hnul]

theorem object_accepted (fuel n : ℕ) (hmembers : AcceptsMembers fuel) (s r rest : List Byte)
    (ms : List (List Byte × Json)) (hs : 0 ∉ s) (hn : 2 * s.length + 4 ≤ n + 2)
    (hr : skipWs s = 123 :: r) (hparse : JsonText.parseMembers fuel (skipWs r) = some (ms, rest)) :
    AcceptedAt (n + 2) s (.obj ms) rest := by
  obtain ⟨hbelow, hlen⟩ := suffix_behind s r 123 hr
  have hspace := skipWs_suffix r
  have hlen' := hspace.length_le
  obtain ⟨⟨t, hskip, hform⟩, hsuffix, hless⟩ := hmembers (skipWs r) ms rest n hparse
    (fun hmem => hs ((hspace.trans hbelow).mem hmem)) (by omega)
  rw [← skip_ws] at hskip
  refine ⟨⟨123, _, skip_text s 123 r hr (by decide), by decide, ?_⟩,
    (hsuffix.trans hspace).trans hbelow, by omega⟩
  rw [readValue_object, readObject_cons n (r ++ [0]) 34 t hskip (by decide), hform, nulFree]
  split_ifs <;> rfl

theorem array_accepted (fuel n : ℕ) (helems : AcceptsElems fuel) (s r rest : List Byte)
    (vs : List Json) (hs : 0 ∉ s) (hn : 2 * s.length + 4 ≤ n + 2) (hr : skipWs s = 91 :: r)
    (hparse : JsonText.parseElems fuel (skipWs r) = some (vs, rest)) :
    AcceptedAt (n + 2) s (.arr vs) rest := by
  obtain ⟨hbelow, hlen⟩ := suffix_behind s r 91 hr
  have hspace := skipWs_suffix r
  have hlen' := hspace.length_le
  obtain ⟨⟨b, t, hskip, hb, hform⟩, hsuffix, hless⟩ := helems (skipWs r) vs rest n hparse
    (fun hmem => hs ((hspace.trans hbelow).mem hmem)) (by omega)
  rw [← skip_ws] at hskip
  refine ⟨⟨91, _, skip_text s 91 r hr (by decide), by decide, ?_⟩,
    (hsuffix.trans hspace).trans hbelow, by omega⟩
  rw [readValue_array, readArray_cons n (r ++ [0]) b t hskip hb, hform, nulFree]
  split_ifs <;> rfl

/-- Two brackets with space between them. -/
theorem brackets_accepted (n : ℕ) (s r rest : List Byte) (v : Json) (b c : Byte)
    (hb : 32 < b.val) (hc : 32 < c.val) (h93 : b ≠ 93) (hr : skipWs s = b :: r)
    (hr' : skipWs r = c :: rest) (hfree : nulFree v = true)
    (hread : skip (r ++ [0]) = some (c :: (rest ++ [0])) →
      readValue n (b :: (r ++ [0])) = some (v, rest ++ [0])) : AcceptedAt n s v rest := by
  obtain ⟨hbelow, hlen⟩ := suffix_behind s r b hr
  obtain ⟨hbelow', hlen'⟩ := suffix_behind r rest c hr'
  refine ⟨⟨b, _, skip_text s b r hr hb, h93, ?_⟩, hbelow'.trans hbelow, by omega⟩
  rw [hread (skip_text r c rest hr' hc), if_pos hfree]

theorem literal_accepted (n : ℕ) (s u rest : List Byte) (kind : Kind) (b : Byte)
    (hb : 32 < b.val) (h93 : b ≠ 93) (hr : skipWs s = b :: (u ++ rest))
    (hliteral : parseLiteral (b :: (u ++ rest ++ [0])) = some (some (kind, u.length + 1)))
    (hfree : nulFree (literalValue kind) = true) :
    AcceptedAt (n + 1) s (literalValue kind) rest := by
  obtain ⟨hbelow, hlen⟩ := suffix_behind s (u ++ rest) b hr
  rw [List.length_append] at hlen
  refine ⟨⟨b, _, skip_text s b _ hr hb, h93, ?_⟩, (List.suffix_append u rest).trans hbelow, by omega⟩
  rw [readValue, hliteral, if_pos hfree]
  simp only [List.append_assoc, List.drop_succ_cons, List.drop_left]

theorem value_accepted (fuel : ℕ) (helems : AcceptsElems fuel) (hmembers : AcceptsMembers fuel) :
    Accepts (fuel + 1) := by
  intro s v rest n h hs hrest hn
  obtain ⟨n, rfl⟩ : ∃ m, n = m + 2 := ⟨n - 2, by omega⟩
  show AcceptedAt (n + 2) s v rest
  obtain ⟨hnull, htrue, hfalse⟩ := ascii_tokens
  rw [JsonText.parseValue] at h
  split at h
  next r hr =>
    obtain ⟨⟨d, rest'⟩, hstring, heq⟩ := Option.map_eq_some_iff.mp h
    dsimp only at heq
    cases heq
    exact string_accepted n s r d rest hs hr hstring
  next r hr =>
    split at h
    next r' hr' =>
      cases h
      refine brackets_accepted _ s r rest _ 123 125 (by decide) (by decide) (by decide) hr hr' rfl
        fun hskip => ?_
      rw [readValue_object, readObject, hskip]
      rfl
    next hne =>
      obtain ⟨⟨ms, rest'⟩, hparse, heq⟩ := Option.map_eq_some_iff.mp h
      dsimp only at heq
      cases heq
      exact object_accepted fuel n hmembers s r rest ms hs hn hr hparse
  next r hr =>
    split at h
    next r' hr' =>
      cases h
      refine brackets_accepted _ s r rest _ 91 93 (by decide) (by decide) (by decide) hr hr' rfl
        fun hskip => ?_
      rw [readValue_array, readArray, hskip]
      rfl
    next hne =>
      obtain ⟨⟨vs, rest'⟩, hparse, heq⟩ := Option.map_eq_some_iff.mp h
      dsimp only at heq
      cases heq
      exact array_accepted fuel n helems s r rest vs hs hn hr hparse
  next r hr =>
    cases h
    exact literal_accepted (n + 1) s [114, 117, 101] rest .cTrue 116 (by decide) (by decide) hr
      (by simp [parseLiteral, hnull, htrue, hfalse, startsWith]) rfl
  next r hr =>
    cases h
    exact literal_accepted (n + 1) s [97, 108, 115, 101] rest .cFalse 102 (by decide) (by decide) hr
      (by simp [parseLiteral, hnull, hfalse, startsWith]) rfl
  next r hr =>
    cases h
    exact literal_accepted (n + 1) s [117, 108, 108] rest .cNull 110 (by decide) (by decide) hr
      (by simp [parseLiteral, hnull, startsWith]) rfl
  next =>
    obtain ⟨⟨t, rest'⟩, hnumber, heq⟩ := Option.map_eq_some_iff.mp h
    dsimp only at heq
    cases heq
    have hbelow := skipWs_suffix s
    have hlen := hbelow.length_le
    obtain ⟨hread, b, u, htext, hless, hb⟩ :=
      readValue_number (n + 1) (skipWs s) t rest hnumber hrest
    obtain ⟨-, hsplit, c, w, rfl, -⟩ := parseNumber_lexNumber (skipWs s) t rest hnumber hrest
    rw [htext, List.cons_append] at hread
    refine ⟨⟨b, _, skip_text s b u htext hless, hb, hread⟩,
      (hsplit ▸ List.suffix_append _ rest).trans hbelow, ?_⟩
    rw [hsplit, List.length_append, List.length_cons] at hlen
    omega

theorem all_accepted (fuel : ℕ) : Accepts fuel ∧ AcceptsElems fuel ∧ AcceptsMembers fuel := by
  induction fuel with
  | zero =>
    refine ⟨?_, ?_, ?_⟩
    · intro s v rest n h
      rw [JsonText.parseValue] at h
      cases h
    · intro s vs rest n h
      rw [JsonText.parseElems] at h
      cases h
    · intro s ms rest n h
      rw [JsonText.parseMembers] at h
      cases h
  | succ fuel ih =>
    obtain ⟨hvalue, helems, hmembers⟩ := ih
    exact ⟨value_accepted fuel helems hmembers, elems_accepted fuel hvalue helems,
      members_accepted fuel hvalue hmembers⟩

/-- Behind a value that ends the text there is only space. -/
theorem decodes_accepted (text : CStr) (v : Json) (requireNull : Bool)
    (h : Decodes text.bytes v) :
    ∃ e, accepted (some text) requireNull = if nulFree v then some (v, e) else none := by
  obtain ⟨fuel, rest, hparse, hrest⟩ := h
  have hfollows : Follows rest := follows_ws rest fun b t heq => by
    rw [hrest] at heq
    cases heq
  have hzero : 0 ∉ text.bytes := fun hmem => text.nulFree 0 hmem rfl
  have hlen : text.withNul.length = text.bytes.length + 1 := List.length_append
  obtain ⟨⟨b, t, hskip, -, hread⟩, -⟩ := (all_accepted fuel).1 text.bytes v rest
    (2 * text.withNul.length + 2) hparse hzero hfollows (by omega)
  have hroot : readRoot (some text) = if nulFree v then some (v, rest ++ [0]) else none := by
    rw [readRoot, Option.bind_some, CStr.withNul, hskip, Option.bind_some]
    exact hread
  rw [accepted, hroot]
  cases nulFree v with
  | false => exact ⟨[], rfl⟩
  | true =>
    rw [if_pos rfl, Option.bind_some]
    cases requireNull with
    | false => exact ⟨_, rfl⟩
    | true =>
      refine ⟨[0], ?_⟩
      rw [if_pos rfl, skip_end rest hrest]
      rfl

end Parse
end SmbDiscover

import SmbDiscover.Minify

/-!
# What `cJSON_Minify` keeps (cJSON.c:2132-2194)

A JSON text has no comments, and its tokens do not depend on the space between them: the
text that is left has the same value. A formatted text becomes the unformatted one.
-/

namespace SmbDiscover
open CText JsonText CJson

namespace Minify

/-! ### Space and tokens -/

theorem emits_skipWs (s t : List Byte) : Emits (s ++ t) [] (skipWs s ++ t) := by
  induction s with
  | nil => exact .done t
  | cons b s ih =>
    by_cases hb : isWs b = true
    · rw [skipWs, List.dropWhile_cons, if_pos hb]
      exact .space b _ [] _ hb ih
    · rw [skipWs_cons b s (by simpa using hb)]
      exact .done _

theorem emits_ordinary (w t : List Byte) (hw : ∀ b ∈ w, Ordinary b) : Emits (w ++ t) w t := by
  induction w with
  | nil => exact .done t
  | cons b w ih =>
    exact .plain b _ w t (hw b (List.mem_cons_self ..))
      (ih fun b' hb' => hw b' (List.mem_cons_of_mem _ hb'))

theorem closeQuote_quoted (s raw rest : List Byte) (hs : 0 ∉ s)
    (h : closeQuote s = some (raw, rest)) :
    Quoted raw ∧ ∀ t, closeQuote (raw ++ 34 :: t) = some (raw, t) := by
  induction s using closeQuote.induct generalizing raw with
  | case1 => cases h
  | case2 tail =>
    cases h
    exact ⟨.nil, fun t => rfl⟩
  | case3 c tail ih =>
    obtain ⟨⟨raw', rest'⟩, hrec, heq⟩ := Option.map_eq_some_iff.mp h
    dsimp only at heq
    cases heq
    simp only [List.mem_cons, not_or] at hs
    obtain ⟨hquoted, hclose⟩ := ih raw' hs.2.2 hrec
    refine ⟨.escape c raw' hquoted, fun t => ?_⟩
    rw [List.cons_append, List.cons_append, closeQuote, hclose t]
    rfl
  | case4 c tail hq hb ih =>
    rw [closeQuote.eq_4 c tail hq hb] at h
    obtain ⟨⟨raw', rest'⟩, hrec, heq⟩ := Option.map_eq_some_iff.mp h
    dsimp only at heq
    cases heq
    simp only [List.mem_cons, not_or] at hs
    obtain ⟨hquoted, hclose⟩ := ih raw' hs.2 hrec
    have hback : c ≠ 92 := by
      rintro rfl
      cases tail with
      | nil => cases hrec
      | cons c' tail => exact hb c' tail rfl rfl
    refine ⟨.char c raw' (Ne.symm hs.1) hq hback hquoted, fun t => ?_⟩
    rw [List.cons_append, closeQuote_cons c _ hq hback, hclose t]
    rfl

/-- A string literal is copied as it stands, and reads the same before any other text. -/
theorem lexString_copied (s d rest : List Byte) (hs : 0 ∉ s) (h : lexString s = some (d, rest)) :
    ∃ raw, (∀ t, Emits (34 :: (s ++ t)) (34 :: (raw ++ [34])) (rest ++ t)) ∧
      ∀ t, lexString (raw ++ 34 :: t) = some (d, t) := by
  unfold lexString at h
  split at h
  · cases h
  next raw rest' hclose =>
    obtain ⟨d', hd', heq⟩ := Option.map_eq_some_iff.mp h
    cases heq
    obtain ⟨hquoted, hagain⟩ := closeQuote_quoted s raw rest hs hclose
    obtain rfl := closeQuote_eq s raw rest hclose
    refine ⟨raw, fun t => ?_, fun t => ?_⟩
    · rw [List.append_assoc, List.cons_append]
      exact .string raw _ [] _ hquoted (.done _)
    · rw [lexString, hagain t]
      simp only [hd', Option.map_some]

/-! ### Numbers -/

/-- What stands behind a value in a text without space. -/
def Ends (t : List Byte) : Prop := ∀ b u, t = b :: u → b = 44 ∨ b = 93 ∨ b = 125

def NumberByte (b : Byte) : Prop := isDigit b = true ∨ b = 43 ∨ b = 45 ∨ b = 46 ∨ b = 101 ∨ b = 69

theorem NumberByte.ordinary {b : Byte} (h : NumberByte b) : Ordinary b := by
  rcases h with h | rfl | rfl | rfl | rfl | rfl
  · have hrange := (Parse.isDigit_iff b).mp h
    have hws : isWs b = false := by
      by_contra hws
      rw [Bool.not_eq_false] at hws
      have := (Parse.isWs_skipped b hws).1.2
      omega
    refine ⟨?_, hws, ?_, ?_⟩ <;>
    · rintro rfl
      revert hrange
      decide
  all_goals decide

theorem span_digits (ds t : List Byte) (hds : ∀ b ∈ ds, isDigit b = true) (ht : Parse.Follows t) :
    (ds ++ t).takeWhile isDigit = ds ∧ (ds ++ t).dropWhile isDigit = t := by
  have hhead : t.takeWhile isDigit = [] ∧ t.dropWhile isDigit = t := by
    cases t with
    | nil => exact ⟨rfl, rfl⟩
    | cons b u =>
      have hb := ht b u rfl
      simp [hb]
  rw [List.takeWhile_append_of_pos hds, List.dropWhile_append_of_pos hds, hhead.1, hhead.2,
    List.append_nil]
  exact ⟨rfl, rfl⟩

/-- The digits and the text before them, read again before another text. -/
theorem lexDigits_again (before s d rest : List Byte) (h : lexDigits before s = some (d, rest)) :
    ∃ ds, d = before ++ ds ∧ (∀ b ∈ ds, isDigit b = true) ∧
      (∃ b u, ds = b :: u ∧ isDigit b = true) ∧
      ∀ t, Parse.Follows t → lexDigits before (ds ++ t) = some (d, t) := by
  unfold lexDigits at h
  split at h
  · cases h
  next hne =>
    cases h
    obtain ⟨b, u, hs, hb⟩ := Parse.digits_head s hne
    have hdigits : ∀ b ∈ s.takeWhile isDigit, isDigit b = true := fun _ => List.mem_takeWhile_imp
    refine ⟨s.takeWhile isDigit, rfl, hdigits, ⟨b, u.takeWhile isDigit, by rw [hs,
      List.takeWhile_cons, if_pos hb], hb⟩, fun t ht => ?_⟩
    obtain ⟨htake, hdrop⟩ := span_digits _ t hdigits ht
    rw [lexDigits, htake, hdrop, if_neg hne]

theorem numberBytes_digits (ds : List Byte) (h : ∀ b ∈ ds, isDigit b = true) :
    ∀ b ∈ ds, NumberByte b := fun b hb => Or.inl (h b hb)

theorem lexInt_again (s int rest : List Byte) (h : lexInt s = some (int, rest)) :
    s = int ++ rest ∧ (∀ b ∈ int, NumberByte b) ∧ (∃ b u, int = b :: u ∧ isDigit b = true) ∧
      ∀ t, Parse.Follows t → lexInt (int ++ t) = some (int, t) := by
  unfold lexInt at h
  split at h
  next rest' =>
    cases h
    refine ⟨rfl, numberBytes_digits [48] (by simp [isDigit]), ⟨48, [], rfl, rfl⟩, fun t _ => rfl⟩
  next hne =>
    split at h
    · cases h
    next hdigits =>
      cases h
      obtain ⟨b, u, rfl, hb⟩ := Parse.digits_head s hdigits
      have hall : ∀ b' ∈ (b :: u).takeWhile isDigit, isDigit b' = true :=
        fun _ => List.mem_takeWhile_imp
      refine ⟨(List.takeWhile_append_dropWhile ..).symm, numberBytes_digits _ hall,
        ⟨b, _, by rw [List.takeWhile_cons, if_pos hb], hb⟩, fun t ht => ?_⟩
      obtain ⟨htake, hdrop⟩ := span_digits _ t hall ht
      unfold lexInt
      split
      next rest heq =>
        rw [List.takeWhile_cons, if_pos hb] at heq
        cases (List.cons.inj heq).1
        exact absurd rfl (hne u)
      · rw [htake, hdrop, if_neg hdigits]

theorem lexFrac_again (s f rest : List Byte) (h : lexFrac s = some (f, rest)) :
    (∀ b ∈ f, NumberByte b) ∧ (f = [] ∨ ∃ u, f = 46 :: u) ∧
      ∀ t, Parse.Follows t → (∀ u, t ≠ 46 :: u) → lexFrac (f ++ t) = some (f, t) := by
  unfold lexFrac at h
  split at h
  next rest' =>
    obtain ⟨ds, rfl, hds, -, hagain⟩ := lexDigits_again [46] rest' f rest h
    refine ⟨?_, Or.inr ⟨ds, rfl⟩, fun t ht _ => hagain t ht⟩
    intro b hb
    rcases List.mem_cons.mp hb with rfl | hb
    · exact Or.inr (Or.inr (Or.inr (Or.inl rfl)))
    · exact numberBytes_digits ds hds b hb
  · cases h
    refine ⟨fun b hb => absurd hb List.not_mem_nil, Or.inl rfl, fun t _ hdot => ?_⟩
    rw [List.nil_append, lexFrac]
    exact fun u hu => hdot u hu

theorem lexExp_ends (t : List Byte) (ht : Ends t) : lexExp t = some ([], t) := by
  unfold lexExp
  split
  next c r =>
    rw [if_neg]
    rcases ht c r rfl with rfl | rfl | rfl <;> decide
  · rfl

theorem lexExp_again (s e rest : List Byte) (h : lexExp s = some (e, rest)) :
    (∀ b ∈ e, NumberByte b) ∧ (e = [] ∨ ∃ c u, e = c :: u ∧ (c = 101 ∨ c = 69)) ∧
      ∀ t, Ends t → lexExp (e ++ t) = some (e, t) := by
  have hends : ∀ t, Ends t → Parse.Follows t := by
    rintro t ht b u rfl
    rcases ht b u rfl with rfl | rfl | rfl <;> rfl
  unfold lexExp at h
  split at h
  next c r =>
    by_cases hc : c = 101 ∨ c = 69
    · have hcbyte : NumberByte c := by
        rcases hc with rfl | rfl
        · exact Or.inr (Or.inr (Or.inr (Or.inr (Or.inl rfl))))
        · exact Or.inr (Or.inr (Or.inr (Or.inr (Or.inr rfl))))
      rw [if_pos hc] at h
      have hsigned : ∀ sign : Byte, sign = 43 ∨ sign = 45 → ∀ ds : List Byte,
          (∀ b ∈ ds, isDigit b = true) → ∀ b ∈ [c, sign] ++ ds, NumberByte b := by
        intro sign hsign ds hds b hb
        simp only [List.cons_append, List.nil_append, List.mem_cons] at hb
        rcases hb with rfl | rfl | hb
        · exact hcbyte
        · rcases hsign with rfl | rfl
          · exact Or.inr (Or.inl rfl)
          · exact Or.inr (Or.inr (Or.inl rfl))
        · exact numberBytes_digits ds hds b hb
      split at h
      next r' =>
        obtain ⟨ds, rfl, hds, -, hagain⟩ := lexDigits_again [c, 43] r' e rest h
        refine ⟨hsigned 43 (Or.inl rfl) ds hds, Or.inr ⟨c, _, rfl, hc⟩, fun t ht => ?_⟩
        simp only [List.cons_append, List.nil_append, lexExp, if_pos hc]
        exact hagain t (hends t ht)
      next r' =>
        obtain ⟨ds, rfl, hds, -, hagain⟩ := lexDigits_again [c, 45] r' e rest h
        refine ⟨hsigned 45 (Or.inr rfl) ds hds, Or.inr ⟨c, _, rfl, hc⟩, fun t ht => ?_⟩
        simp only [List.cons_append, List.nil_append, lexExp, if_pos hc]
        exact hagain t (hends t ht)
      next hplus hminus =>
        obtain ⟨ds, rfl, hds, ⟨b, u, rfl, hb⟩, hagain⟩ := lexDigits_again [c] r e rest h
        refine ⟨?_, Or.inr ⟨c, b :: u, rfl, hc⟩, fun t ht => ?_⟩
        · intro b' hb'
          rcases List.mem_cons.mp hb' with rfl | hb'
          · exact hcbyte
          · exact numberBytes_digits _ hds b' hb'
        · have hlex := hagain t (hends t ht)
          simp only [List.cons_append, List.nil_append] at hlex ⊢
          unfold lexExp
          dsimp only
          rw [if_pos hc]
          split
          next heq =>
            cases (List.cons.inj heq).1
            cases hb
          next heq =>
            cases (List.cons.inj heq).1
            cases hb
          · exact hlex
    · rw [if_neg hc] at h
      cases h
      exact ⟨fun b hb => absurd hb List.not_mem_nil, Or.inl rfl, lexExp_ends⟩
  · cases h
    exact ⟨fun b hb => absurd hb List.not_mem_nil, Or.inl rfl, lexExp_ends⟩

/-- A number is copied as it stands, and reads the same where a value ends. -/
theorem lexNumber_again (s w rest : List Byte) (h : lexNumber s = some (w, rest)) :
    s = w ++ rest ∧ (∀ b ∈ w, NumberByte b) ∧
      (∃ b u, w = b :: u ∧ (b = 45 ∨ isDigit b = true)) ∧
      ∀ t, Ends t → lexNumber (w ++ t) = some (w, t) := by
  obtain ⟨-, hsplit, hsigns⟩ := Parse.skipIf_sign s
  unfold lexNumber at h
  split at h
  · cases h
  next int t₁ hint =>
    split at h
    · cases h
    next frac t₂ hfrac =>
      obtain ⟨⟨e, rest'⟩, hexp, heq⟩ := Option.map_eq_some_iff.mp h
      dsimp only at heq
      obtain ⟨rfl, rfl⟩ := Prod.mk.inj heq
      obtain ⟨hsplit₁, hintBytes, ⟨b, u, rfl, hb⟩, hintAgain⟩ := lexInt_again _ int t₁ hint
      obtain ⟨-, hsplit₂⟩ := Parse.skipFrac_lexFrac t₁ frac t₂ hfrac
      obtain ⟨-, hsplit₃⟩ := Parse.skipExp_lexExp t₂ e rest' hexp
      obtain ⟨hfracBytes, hfracHead, hfracAgain⟩ := lexFrac_again t₁ frac t₂ hfrac
      obtain ⟨hexpBytes, hexpHead, hexpAgain⟩ := lexExp_again t₂ e rest' hexp
      have hbytes : ∀ b' ∈ (lexSign s).1 ++ b :: u ++ frac ++ e, NumberByte b' := by
        intro b' hb'
        simp only [List.mem_append] at hb'
        rcases hb' with ((hb' | hb') | hb') | hb'
        · rcases hsigns with hnone | hminus
          · rw [hnone] at hb'
            cases hb'
          · rw [hminus, List.mem_singleton] at hb'
            exact Or.inr (Or.inr (Or.inl hb'))
        · exact hintBytes b' hb'
        · exact hfracBytes b' hb'
        · exact hexpBytes b' hb'
      refine ⟨?_, hbytes, ?_, fun t ht => ?_⟩
      · rw [List.append_assoc, List.append_assoc, List.append_assoc, ← hsplit₃, ← hsplit₂,
          ← hsplit₁]
        exact hsplit
      · rcases hsigns with hnone | hminus
        · exact ⟨b, _, by rw [hnone]; rfl, Or.inr hb⟩
        · exact ⟨45, _, by rw [hminus]; rfl, Or.inl rfl⟩
      · have hafter : Parse.Follows (e ++ t) ∧ ∀ x, e ++ t ≠ 46 :: x := by
          rcases hexpHead with rfl | ⟨c, x, rfl, rfl | rfl⟩
          · refine ⟨fun b' x hx => ?_, fun x hx => ?_⟩
            · rcases ht b' x hx with rfl | rfl | rfl <;> rfl
            · rcases ht 46 x hx with h46 | h46 | h46 <;> cases h46
          · refine ⟨fun b' x hx => ?_, fun x hx => by cases hx⟩
            cases hx
            rfl
          · refine ⟨fun b' x hx => ?_, fun x hx => by cases hx⟩
            cases hx
            rfl
        have hfollows : Parse.Follows (frac ++ (e ++ t)) := by
          rcases hfracHead with rfl | ⟨x, rfl⟩
          · exact hafter.1
          · intro b' y hy
            cases hy
            rfl
        have hsign : lexSign ((lexSign s).1 ++ (b :: u ++ (frac ++ (e ++ t)))) =
            ((lexSign s).1, b :: u ++ (frac ++ (e ++ t))) := by
          rcases hsigns with hnone | hminus
          · rw [hnone, List.nil_append, List.cons_append]
            unfold lexSign
            split
            next heq =>
              cases (List.cons.inj heq).1
              cases hb
            · rfl
          · rw [hminus]
            rfl
        have htext : (lexSign s).1 ++ b :: u ++ frac ++ e ++ t =
            (lexSign s).1 ++ (b :: u ++ (frac ++ (e ++ t))) := by
          simp only [List.append_assoc]
        rw [htext, lexNumber, hsign]
        simp only [hintAgain _ hfollows, hfracAgain _ hafter.1 hafter.2, hexpAgain t ht,
          Option.map_some]

/-! ### Values -/

def KeepsValue (fuel : ℕ) : Prop :=
  ∀ s v rest, JsonText.parseValue fuel s = some (v, rest) → 0 ∉ s →
    ∃ w, (∀ t, Emits (s ++ t) w (rest ++ t)) ∧ rest <:+ s ∧
      (∃ b u, w = b :: u ∧ isWs b = false ∧ b ≠ 93) ∧
      ∀ t, Ends t → JsonText.parseValue fuel (w ++ t) = some (v, t)

def KeepsElems (fuel : ℕ) : Prop :=
  ∀ s vs rest, parseElems fuel s = some (vs, rest) → 0 ∉ s →
    ∃ w, (∀ t, Emits (s ++ t) w (rest ++ t)) ∧ rest <:+ s ∧
      (∃ b u, w = b :: u ∧ isWs b = false ∧ b ≠ 93) ∧
      ∀ t, parseElems fuel (w ++ t) = some (vs, t)

def KeepsMembers (fuel : ℕ) : Prop :=
  ∀ s ms rest, parseMembers fuel s = some (ms, rest) → 0 ∉ s →
    ∃ w, (∀ t, Emits (s ++ t) w (rest ++ t)) ∧ rest <:+ s ∧ (∃ u, w = 34 :: u) ∧
      ∀ t, parseMembers fuel (w ++ t) = some (ms, t)

theorem ends_cons (b : Byte) (t : List Byte) (h : b = 44 ∨ b = 93 ∨ b = 125) : Ends (b :: t) := by
  intro b' u heq
  cases heq
  exact h

/-- The space in front of a byte, and the byte. -/
theorem emits_byte (s r t : List Byte) (b : Byte) (hs : skipWs s = b :: r) (hb : Ordinary b) :
    Emits (s ++ t) [b] (r ++ t) := by
  have hskip := emits_skipWs s t
  rw [hs] at hskip
  exact hskip.trans (.plain b _ [] _ hb (.done _))

theorem suffix_of_skip (s r : List Byte) (b : Byte) (hs : skipWs s = b :: r) : r <:+ s := by
  have hsuffix := Parse.skipWs_suffix s
  rw [hs] at hsuffix
  exact (List.suffix_cons b r).trans hsuffix

theorem elems_kept (fuel : ℕ) (hvalue : KeepsValue fuel) (helems : KeepsElems fuel) :
    KeepsElems (fuel + 1) := by
  intro s vs rest h hs
  rw [parseElems] at h
  split at h
  · cases h
  next v r hv =>
    obtain ⟨w, hemits, hsuffix, ⟨b, u, rfl, hb, h93⟩, hagain⟩ := hvalue s v r hv hs
    split at h
    next r' hr =>
      obtain ⟨⟨tail, rest'⟩, htail, heq⟩ := Option.map_eq_some_iff.mp h
      dsimp only at heq
      cases heq
      have hbelow := (suffix_of_skip r r' 44 hr).trans hsuffix
      obtain ⟨w', hemits', hsuffix', -, hagain'⟩ :=
        helems r' tail rest htail fun hmem => hs (hbelow.mem hmem)
      refine ⟨b :: u ++ [44] ++ w', fun t => ?_, hsuffix'.trans hbelow, ⟨b, _, rfl, hb, h93⟩,
        fun t => ?_⟩
      · exact ((hemits t).trans (emits_byte r r' t 44 hr (by decide))).trans (hemits' t)
      · have hfirst := hagain (44 :: (w' ++ t)) (ends_cons 44 _ (Or.inl rfl))
        rw [List.append_assoc, List.append_assoc, List.singleton_append, parseElems, hfirst]
        simp only [skipWs_cons 44 _ rfl, hagain' t, Option.map_some]
    next r' hr =>
      cases h
      refine ⟨b :: u ++ [93], fun t => ?_, (suffix_of_skip r rest 93 hr).trans hsuffix,
        ⟨b, _, rfl, hb, h93⟩, fun t => ?_⟩
      · exact (hemits t).trans (emits_byte r rest t 93 hr (by decide))
      · have hfirst := hagain (93 :: t) (ends_cons 93 _ (Or.inr (Or.inl rfl)))
        rw [List.append_assoc, List.singleton_append, parseElems, hfirst]
        simp only [skipWs_cons 93 _ rfl]
    · cases h

theorem key_kept (s key r : List Byte) (h : lexKey s = some (key, r)) (hs : 0 ∉ s) :
    ∃ w, (∀ t, Emits (s ++ t) (34 :: w) (r ++ t)) ∧ r <:+ s ∧
      ∀ t, lexKey (34 :: w ++ t) = some (key, t) := by
  unfold lexKey at h
  split at h
  next a ha =>
    split at h
    · cases h
    next key' c hstring =>
      split at h
      next r' hc =>
        cases h
        have hbelow := suffix_of_skip s a 34 ha
        have ha0 : 0 ∉ a := fun hmem => hs (hbelow.mem hmem)
        obtain ⟨raw, hemits, hagain⟩ := lexString_copied a key c ha0 hstring
        obtain ⟨-, hsuffix, -⟩ := Parse.readString_lexString a key c hstring ha0
        refine ⟨raw ++ [34] ++ [58], fun t => ?_,
          ((suffix_of_skip c r 58 hc).trans hsuffix).trans hbelow, fun t => ?_⟩
        · have hskip := emits_skipWs s t
          rw [ha] at hskip
          exact (hskip.trans (hemits t)).trans (emits_byte c r t 58 hc (by decide))
        · have htext : 34 :: (raw ++ [34] ++ [58]) ++ t = 34 :: (raw ++ 34 :: 58 :: t) := by simp
          rw [htext, lexKey, skipWs_cons 34 _ rfl]
          simp only [hagain]
          rw [skipWs_cons 58 _ rfl]
          rfl
      · cases h
  · cases h

theorem members_kept (fuel : ℕ) (hvalue : KeepsValue fuel) (hmembers : KeepsMembers fuel) :
    KeepsMembers (fuel + 1) := by
  intro s ms rest h hs
  rw [parseMembers] at h
  split at h
  · cases h
  next key r hkey =>
    obtain ⟨wk, hemitsKey, hsuffixKey, hagainKey⟩ := key_kept s key r hkey hs
    split at h
    · cases h
    next v r' hv =>
      obtain ⟨w, hemits, hsuffix, -, hagain⟩ := hvalue r v r' hv
        fun hmem => hs (hsuffixKey.mem hmem)
      have hbelow := hsuffix.trans hsuffixKey
      split at h
      next r₂ hr =>
        obtain ⟨⟨tail, rest'⟩, htail, heq⟩ := Option.map_eq_some_iff.mp h
        dsimp only at heq
        cases heq
        have hbelow := (suffix_of_skip r' r₂ 44 hr).trans hbelow
        obtain ⟨w', hemits', hsuffix', -, hagain'⟩ :=
          hmembers r₂ tail rest htail fun hmem => hs (hbelow.mem hmem)
        refine ⟨34 :: wk ++ w ++ [44] ++ w', fun t => ?_, hsuffix'.trans hbelow, ⟨_, rfl⟩,
          fun t => ?_⟩
        · exact (((hemitsKey t).trans (hemits t)).trans
            (emits_byte r' r₂ t 44 hr (by decide))).trans (hemits' t)
        · have hfirst := hagain (44 :: (w' ++ t)) (ends_cons 44 _ (Or.inl rfl))
          rw [List.append_assoc, List.append_assoc, List.append_assoc, List.singleton_append,
            parseMembers, hagainKey]
          simp only [hfirst, skipWs_cons 44 _ rfl, hagain' t, Option.map_some]
      next r₂ hr =>
        cases h
        refine ⟨34 :: wk ++ w ++ [125], fun t => ?_, (suffix_of_skip r' rest 125 hr).trans hbelow,
          ⟨_, rfl⟩, fun t => ?_⟩
        · exact ((hemitsKey t).trans (hemits t)).trans (emits_byte r' rest t 125 hr (by decide))
        · have hfirst := hagain (125 :: t) (ends_cons 125 _ (Or.inr (Or.inr rfl)))
          rw [List.append_assoc, List.append_assoc, List.singleton_append, parseMembers, hagainKey]
          simp only [hfirst, skipWs_cons 125 _ rfl]
      · cases h

theorem number_start (b : Byte) (hb : b = 45 ∨ isDigit b = true) :
    isWs b = false ∧ b ≠ 93 ∧ b ≠ 34 ∧ b ≠ 123 ∧ b ≠ 91 ∧ b ≠ 116 ∧ b ≠ 102 ∧ b ≠ 110 := by
  rcases hb with rfl | hb
  · decide
  · have hws := (NumberByte.ordinary (Or.inl hb)).2.1
    refine ⟨hws, ?_, ?_, ?_, ?_, ?_, ?_, ?_⟩ <;>
    · rintro rfl
      cases hb

theorem parseValue_number (fuel : ℕ) (b : Byte) (u : List Byte) (hb : b = 45 ∨ isDigit b = true) :
    JsonText.parseValue (fuel + 1) (b :: u) =
      (lexNumber (b :: u)).map fun p => (.num p.1, p.2) := by
  obtain ⟨hws, -, h34, h123, h91, h116, h102, h110⟩ := number_start b hb
  rw [JsonText.parseValue, skipWs_cons b u hws]
  split
  next heq => exact absurd (List.cons.inj heq).1 h34
  next heq => exact absurd (List.cons.inj heq).1 h123
  next heq => exact absurd (List.cons.inj heq).1 h91
  next heq => exact absurd (List.cons.inj heq).1 h116
  next heq => exact absurd (List.cons.inj heq).1 h102
  next heq => exact absurd (List.cons.inj heq).1 h110
  · rfl

theorem letters_kept (s w rest : List Byte) (hs : skipWs s = w ++ rest)
    (hw : ∀ b ∈ w, Ordinary b) :
    (∀ t, Emits (s ++ t) w (rest ++ t)) ∧ rest <:+ s := by
  refine ⟨fun t => ?_, ?_⟩
  · have hskip := emits_skipWs s t
    rw [hs, List.append_assoc] at hskip
    exact hskip.trans (emits_ordinary w _ hw)
  · have hsuffix := Parse.skipWs_suffix s
    rw [hs] at hsuffix
    exact (List.suffix_append w rest).trans hsuffix

theorem letters_ordinary (w : List Byte)
    (hw : w ⊆ [116, 114, 117, 101, 102, 97, 108, 115, 110]) : ∀ b ∈ w, Ordinary b := by
  intro b hb
  have hletter := hw hb
  simp only [List.mem_cons, List.not_mem_nil, or_false] at hletter
  rcases hletter with rfl | rfl | rfl | rfl | rfl | rfl | rfl | rfl | rfl <;> decide

/-- What `KeepsValue` says of one text. -/
def Kept (fuel : ℕ) (s : List Byte) (v : Json) (rest : List Byte) : Prop :=
  ∃ w, (∀ t, Emits (s ++ t) w (rest ++ t)) ∧ rest <:+ s ∧
    (∃ b u, w = b :: u ∧ isWs b = false ∧ b ≠ 93) ∧
    ∀ t, Ends t → JsonText.parseValue fuel (w ++ t) = some (v, t)

theorem string_kept (fuel : ℕ) (s r d rest : List Byte) (hs : 0 ∉ s) (hr : skipWs s = 34 :: r)
    (hstring : lexString r = some (d, rest)) : Kept (fuel + 1) s (.str d) rest := by
  have hbelow := suffix_of_skip s r 34 hr
  have hr0 : 0 ∉ r := fun hmem => hs (hbelow.mem hmem)
  obtain ⟨raw, hemits, hagain⟩ := lexString_copied r d rest hr0 hstring
  obtain ⟨-, hsuffix, -⟩ := Parse.readString_lexString r d rest hstring hr0
  refine ⟨34 :: (raw ++ [34]), fun t => ?_, hsuffix.trans hbelow, ⟨34, _, rfl, by decide,
    by decide⟩, fun t _ => ?_⟩
  · have hskip := emits_skipWs s t
    rw [hr] at hskip
    exact hskip.trans (hemits t)
  · rw [List.cons_append, List.append_assoc, List.singleton_append, parseValue_quote, hagain t,
      Option.map_some]

theorem object_kept (fuel : ℕ) (hmembers : KeepsMembers fuel) (s r rest : List Byte)
    (ms : List (List Byte × Json)) (hs : 0 ∉ s) (hr : skipWs s = 123 :: r)
    (hparse : parseMembers fuel (skipWs r) = some (ms, rest)) :
    Kept (fuel + 1) s (.obj ms) rest := by
  have hbelow := (Parse.skipWs_suffix r).trans (suffix_of_skip s r 123 hr)
  obtain ⟨w, hemits, hsuffix, ⟨u, rfl⟩, hagain⟩ :=
    hmembers (skipWs r) ms rest hparse fun hmem => hs (hbelow.mem hmem)
  refine ⟨[123] ++ ([] ++ 34 :: u), fun t => ?_, hsuffix.trans hbelow,
    ⟨123, _, rfl, by decide, by decide⟩, fun t _ => ?_⟩
  · exact (emits_byte s r t 123 hr (by decide)).trans ((emits_skipWs r t).trans (hemits t))
  · have hmembers := hagain t
    rw [List.cons_append] at hmembers
    simp only [List.nil_append, List.cons_append]
    rw [JsonText.parseValue, skipWs_cons 123 _ rfl]
    simp only [skipWs_cons 34 _ rfl, hmembers, Option.map_some]

theorem array_kept (fuel : ℕ) (helems : KeepsElems fuel) (s r rest : List Byte) (vs : List Json)
    (hs : 0 ∉ s) (hr : skipWs s = 91 :: r) (hparse : parseElems fuel (skipWs r) = some (vs, rest)) :
    Kept (fuel + 1) s (.arr vs) rest := by
  have hbelow := (Parse.skipWs_suffix r).trans (suffix_of_skip s r 91 hr)
  obtain ⟨w, hemits, hsuffix, ⟨b, u, rfl, hb, h93⟩, hagain⟩ :=
    helems (skipWs r) vs rest hparse fun hmem => hs (hbelow.mem hmem)
  refine ⟨[91] ++ ([] ++ b :: u), fun t => ?_, hsuffix.trans hbelow,
    ⟨91, _, rfl, by decide, by decide⟩, fun t _ => ?_⟩
  · exact (emits_byte s r t 91 hr (by decide)).trans ((emits_skipWs r t).trans (hemits t))
  · have helems := hagain t
    rw [List.cons_append] at helems
    simp only [List.nil_append, List.cons_append]
    rw [JsonText.parseValue, skipWs_cons 91 _ rfl]
    simp only [skipWs_cons b _ hb]
    split
    next heq => exact absurd (List.cons.inj heq).1 h93
    · rw [helems, Option.map_some]

/-- Two brackets with space between them. -/
theorem brackets_kept (fuel : ℕ) (s r rest : List Byte) (v : Json) (b c : Byte) (hb : Ordinary b)
    (hc : Ordinary c) (h93 : b ≠ 93) (hr : skipWs s = b :: r) (hr' : skipWs r = c :: rest)
    (hagain : ∀ t, JsonText.parseValue fuel (b :: c :: t) = some (v, t)) : Kept fuel s v rest := by
  refine ⟨[b] ++ [c], fun t => ?_, (suffix_of_skip r rest c hr').trans (suffix_of_skip s r b hr),
    ⟨b, _, rfl, hb.2.1, h93⟩, fun t _ => hagain t⟩
  exact (emits_byte s r t b hr hb).trans (emits_byte r rest t c hr' hc)

theorem literal_kept (fuel : ℕ) (s u rest : List Byte) (v : Json) (b : Byte)
    (hw : b :: u ⊆ [116, 114, 117, 101, 102, 97, 108, 115, 110]) (hr : skipWs s = b :: u ++ rest)
    (hagain : ∀ t, JsonText.parseValue fuel (b :: u ++ t) = some (v, t)) : Kept fuel s v rest := by
  have hletters := letters_ordinary _ hw
  have hb := hletters b (List.mem_cons_self ..)
  obtain ⟨hemits, hsuffix⟩ := letters_kept s (b :: u) rest hr hletters
  refine ⟨b :: u, hemits, hsuffix, ⟨b, u, rfl, hb.2.1, ?_⟩, fun t _ => hagain t⟩
  rintro rfl
  have hmem := hw (List.mem_cons_self ..)
  simp at hmem

theorem value_kept (fuel : ℕ) (helems : KeepsElems fuel) (hmembers : KeepsMembers fuel) :
    KeepsValue (fuel + 1) := by
  intro s v rest h hs
  show Kept (fuel + 1) s v rest
  rw [JsonText.parseValue] at h
  split at h
  next r hr =>
    obtain ⟨⟨d, rest'⟩, hstring, heq⟩ := Option.map_eq_some_iff.mp h
    dsimp only at heq
    cases heq
    exact string_kept fuel s r d rest hs hr hstring
  next r hr =>
    split at h
    next r' hr' =>
      cases h
      refine brackets_kept _ s r rest _ 123 125 (by decide) (by decide) (by decide) hr hr'
        fun t => ?_
      rw [JsonText.parseValue, skipWs_cons 123 _ rfl]
      simp only [skipWs_cons 125 _ rfl]
    next hne =>
      obtain ⟨⟨ms, rest'⟩, hparse, heq⟩ := Option.map_eq_some_iff.mp h
      dsimp only at heq
      cases heq
      exact object_kept fuel hmembers s r rest ms hs hr hparse
  next r hr =>
    split at h
    next r' hr' =>
      cases h
      refine brackets_kept _ s r rest _ 91 93 (by decide) (by decide) (by decide) hr hr'
        fun t => ?_
      rw [JsonText.parseValue, skipWs_cons 91 _ rfl]
      simp only [skipWs_cons 93 _ rfl]
    next hne =>
      obtain ⟨⟨vs, rest'⟩, hparse, heq⟩ := Option.map_eq_some_iff.mp h
      dsimp only at heq
      cases heq
      exact array_kept fuel helems s r rest vs hs hr hparse
  next r hr =>
    cases h
    refine literal_kept _ s [114, 117, 101] rest _ 116 (by simp) hr fun t => ?_
    rw [JsonText.parseValue, List.cons_append, skipWs_cons 116 _ rfl]
    rfl
  next r hr =>
    cases h
    refine literal_kept _ s [97, 108, 115, 101] rest _ 102 (by simp) hr fun t => ?_
    rw [JsonText.parseValue, List.cons_append, skipWs_cons 102 _ rfl]
    rfl
  next r hr =>
    cases h
    refine literal_kept _ s [117, 108, 108] rest _ 110 (by simp) hr fun t => ?_
    rw [JsonText.parseValue, List.cons_append, skipWs_cons 110 _ rfl]
    rfl
  next =>
    obtain ⟨⟨w, rest'⟩, hnumber, heq⟩ := Option.map_eq_some_iff.mp h
    dsimp only at heq
    cases heq
    obtain ⟨hsplit, hbytes, ⟨b, u, rfl, hb⟩, hagain⟩ := lexNumber_again (skipWs s) w rest hnumber
    obtain ⟨hemits, hsuffix⟩ := letters_kept s (b :: u) rest hsplit
      fun b' hb' => (hbytes b' hb').ordinary
    obtain ⟨hws, h93, -⟩ := number_start b hb
    refine ⟨b :: u, hemits, hsuffix, ⟨b, u, rfl, hws, h93⟩, fun t ht => ?_⟩
    rw [List.cons_append, parseValue_number fuel b _ hb, ← List.cons_append, hagain t ht,
      Option.map_some]

theorem all_kept (fuel : ℕ) : KeepsValue fuel ∧ KeepsElems fuel ∧ KeepsMembers fuel := by
  induction fuel with
  | zero =>
    refine ⟨?_, ?_, ?_⟩
    · intro s v rest h
      rw [JsonText.parseValue] at h
      cases h
    · intro s vs rest h
      rw [parseElems] at h
      cases h
    · intro s ms rest h
      rw [parseMembers] at h
      cases h
  | succ fuel ih =>
    obtain ⟨hvalue, helems, hmembers⟩ := ih
    exact ⟨value_kept fuel helems hmembers, elems_kept fuel hvalue helems,
      members_kept fuel hvalue hmembers⟩

theorem emits_subset {p w q : List Byte} (h : Emits p w q) :
    ∃ x, p = x ++ q ∧ ∀ b ∈ w, b ∈ x := by
  induction h with
  | done p => exact ⟨[], rfl, fun b hb => hb⟩
  | space b p w q hb h ih =>
    obtain ⟨x, rfl, hx⟩ := ih
    exact ⟨b :: x, rfl, fun b' hb' => List.mem_cons_of_mem b (hx b' hb')⟩
  | plain b p w q hb h ih =>
    obtain ⟨x, rfl, hx⟩ := ih
    exact ⟨b :: x, rfl, List.cons_subset_cons b fun b' hb' => hx b' hb'⟩
  | string raw p w q hraw h ih =>
    obtain ⟨x, rfl, hx⟩ := ih
    refine ⟨34 :: (raw ++ 34 :: x), by simp, fun b hb => ?_⟩
    simp only [List.mem_cons, List.mem_append] at hb ⊢
    rcases hb with hb | hb | hb | hb
    · exact Or.inl hb
    · exact Or.inr (Or.inl hb)
    · exact Or.inr (Or.inr (Or.inl hb))
    · exact Or.inr (Or.inr (Or.inr (hx b hb)))

/-- The rewritten text has the same value, no byte more, and is left alone by another
call, in the block of the first one and in any other. -/
theorem minify_decodes (text : CStr) (v : Json) (hdecodes : Decodes text.bytes v) :
    ∃ out tail, minify text.withNul = some (out ++ 0 :: tail) ∧
      (out ++ 0 :: tail).length = text.withNul.length ∧ 0 ∉ out ∧ Decodes out v ∧
      ∀ junk, minify (out ++ 0 :: junk) = some (out ++ 0 :: junk) := by
  obtain ⟨fuel, rest, hparse, hrest⟩ := hdecodes
  have hzero : 0 ∉ text.bytes := fun hmem => text.nulFree 0 hmem rfl
  obtain ⟨out, hemits, -, -, hagain⟩ := (all_kept fuel).1 text.bytes v rest hparse hzero
  have hend : Emits text.withNul out [0] := by
    have hskip := emits_skipWs rest [0]
    rw [hrest, List.nil_append] at hskip
    have hall := (hemits [0]).trans hskip
    rwa [List.append_nil] at hall
  obtain ⟨tail, hminify, hlen, -⟩ := minify_emits text.withNul out [] hend
  obtain ⟨x, hx, hsubset⟩ := emits_subset hend
  have hbytes : text.bytes = x := List.append_cancel_right hx
  refine ⟨out, tail, hminify, hlen, fun hmem => hzero (hbytes ▸ hsubset 0 hmem),
    ⟨fuel, [], ?_, rfl⟩, fun junk => ?_⟩
  · have hvalue := hagain [] fun b u heq => by cases heq
    rwa [List.append_nil] at hvalue
  · obtain ⟨tail', hagain', hlen', hsuffix⟩ :=
      minify_emits (out ++ 0 :: junk) out junk (hend.again (0 :: junk))
    have hsame : junk = tail' := by
      rw [List.length_append, List.length_append, List.length_cons, List.length_cons] at hlen'
      exact hsuffix.eq_of_length (by omega)
    rw [hagain', hsame]

theorem list_minified : ∃ out tail, minify [91, 32, 34, 92, 110, 34, 32, 93, 0] =
    some (out ++ 0 :: tail) ∧ Decodes out (.arr [.str [10]]) := by
  obtain ⟨out, tail, hminify, -, -, hdecodes, -⟩ :=
    minify_decodes ⟨[91, 32, 34, 92, 110, 34, 32, 93], by simp⟩ (.arr [.str [10]])
      ⟨4, [], by simp [JsonText.parseValue, parseElems, skipWs, isWs, lexString, closeQuote,
        unescape, simpleEscape], rfl⟩
  exact ⟨out, tail, hminify, hdecodes⟩

/-! ### Formatted texts -/

theorem emits_space (w t : List Byte) (hw : ∀ b ∈ w, isWs b = true) : Emits (w ++ t) [] t := by
  have hskip := emits_skipWs w t
  have hnil : skipWs w = [] := List.dropWhile_eq_nil_iff.mpr hw
  rwa [hnil, List.nil_append] at hskip

theorem quoted_escaped (s : List Byte) : Quoted (s.flatMap escapeByte) := by
  induction s with
  | nil => exact .nil
  | cons b s ih =>
    rw [List.flatMap_cons]
    rcases escapeByte_cases b with ⟨hplain, he⟩ | ⟨e, -, he⟩ | ⟨hlow, he⟩
    · rw [he]
      exact .char b _ (Parse.byte_ne_zero b 32 (by decide) hplain.1) hplain.2.1 hplain.2.2 ih
    · rw [he]
      exact .escape e _ ih
    · obtain ⟨-, hhi34, hhi92⟩ := hexDigit_eq (b.val / 16) (by omega)
      obtain ⟨-, hlo34, hlo92⟩ := hexDigit_eq (b.val % 16) (by omega)
      rw [he]
      exact .escape 117 _ (.char 48 _ (by decide) (by decide) (by decide)
        (.char 48 _ (by decide) (by decide) (by decide)
          (.char _ _ (hexDigit_ne_zero _ (by omega)) hhi34 hhi92
            (.char _ _ (hexDigit_ne_zero _ (by omega)) hlo34 hlo92 ih))))

theorem emits_quoted (s t : List Byte) : Emits (quoted s ++ t) (quoted s) t := by
  rw [quoted_append]
  exact .string _ t [] t (quoted_escaped s) (.done t)

theorem emits_one (b : Byte) (t : List Byte) (hb : Ordinary b) : Emits (b :: t) [b] t :=
  .plain b t [] t hb (.done t)

theorem emits_letters (w t : List Byte) (hw : w ⊆ [116, 114, 117, 101, 102, 97, 108, 115, 110]) :
    Emits (w ++ t) w t := emits_ordinary w t (letters_ordinary w hw)

mutual

theorem emits_printText : ∀ (v : Json) (depth : ℕ) (t : List Byte), Numberless v →
    Emits (printText true depth v ++ t) (printText false depth v) t
  | .null, depth, t, _ => by
    rw [printText, printText, ascii_tokens.1]
    exact emits_letters _ t (by simp)
  | .bool false, depth, t, _ => by
    rw [printText, printText, ascii_tokens.2.2]
    exact emits_letters _ t (by simp)
  | .bool true, depth, t, _ => by
    rw [printText, printText, ascii_tokens.2.1]
    exact emits_letters _ t (by simp)
  | .num text, depth, t, h => h.elim
  | .str s, depth, t, _ => by
    rw [printText, printText]
    exact emits_quoted s t
  | .arr elems, depth, t, h => by
    rw [printText, printText, List.cons_append, List.append_assoc]
    exact .plain 91 _ _ t (by decide)
      ((emits_printEntries elems (depth + 1) _ h).trans (emits_one 93 t (by decide)))
  | .obj members, depth, t, h => by
    have htext : printText true depth (.obj members) ++ t = 123 :: ([10] ++
        (printPairs true (depth + 1) members ++ (tabs depth ++ 125 :: t))) := by
      rw [printText]
      simp [gap]
    have hout : printText false depth (.obj members) =
        123 :: ([] ++ (printPairs false (depth + 1) members ++ ([] ++ [125]))) := by
      rw [printText]
      simp [gap]
    rw [htext, hout]
    exact .plain 123 _ _ t (by decide) ((emits_space [10] _ (by simp [isWs])).trans
      ((emits_printPairs members (depth + 1) _ h).trans
        ((emits_space (tabs depth) _ (tabs_ws depth)).trans (emits_one 125 t (by decide)))))

theorem emits_printEntries : ∀ (elems : List Json) (depth : ℕ) (t : List Byte),
    NumberlessElems elems →
    Emits (printEntries true depth elems ++ t) (printEntries false depth elems) t
  | [], depth, t, _ => .done t
  | v :: next, depth, t, h => by
    rw [printEntries_cons, printEntries_cons, List.append_assoc]
    refine (emits_printText v depth _ h.1).trans ?_
    by_cases hnext : next = []
    · rw [if_pos hnext, if_pos hnext]
      exact .done t
    · rw [if_neg hnext, if_neg hnext, List.cons_append, List.append_assoc]
      exact .plain 44 _ _ t (by decide) ((emits_space [32] _
        (by simp [isWs])).trans (emits_printEntries next depth t h.2))

theorem emits_printPairs : ∀ (members : List (List Byte × Json)) (depth : ℕ) (t : List Byte),
    NumberlessMembers members →
    Emits (printPairs true depth members ++ t) (printPairs false depth members) t
  | [], depth, t, _ => .done t
  | (name, v) :: next, depth, t, h => by
    rw [printPairs_cons, printPairs_cons]
    simp only [List.append_assoc, List.cons_append]
    refine (emits_space (tabs depth) _ (tabs_ws depth)).trans ((emits_quoted name _).trans
      (.plain 58 _ _ t (by decide) ((emits_space [9] _ (by simp [isWs])).trans
        ((emits_printText v depth _ h.1).trans ?_))))
    by_cases hnext : next = []
    · rw [if_pos hnext, if_pos hnext]
      exact emits_space [10] t (by simp [isWs])
    · rw [if_neg hnext, if_neg hnext, List.cons_append, List.append_assoc]
      exact .plain 44 _ _ t (by decide) ((emits_space [10] _ (by simp [isWs])).trans
        (emits_printPairs next depth t h.2))

end

/-- The text of `cJSON_Print` becomes the text of `cJSON_PrintUnformatted`. -/
theorem minify_print (item : Item) (junk : List Byte) :
    ∃ tail, minify (printText true 0 item.value ++ 0 :: junk) =
      some (printText false 0 item.value ++ 0 :: tail) := by
  obtain ⟨tail, hminify, -⟩ := minify_emits _ _ junk
    (emits_printText item.value 0 (0 :: junk) (printable_value item).1)
  exact ⟨tail, hminify⟩

end Minify
end SmbDiscover

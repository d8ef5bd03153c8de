import SmbDiscover.Lib.Json
import SmbDiscover.Lib.Numeric

/-!
# Scanning a JSON text (cJSON.c:132-208, 341-617, 780-788)

The loops of the parser over the text, `parse_string` up to its buffer. A pointer is the
list of the bytes from it on, the terminator included, so `p < q` is a comparison of
lengths, and a read behind the terminator is `none`.
-/

namespace SmbDiscover
open CText JsonText

namespace Parse

abbrev Ptr := List Byte

/-! ### Scanning loops -/

def skip : Ptr → Option Ptr
  | [] => none
  | b :: rest => if b ≠ 0 ∧ b.val ≤ 32 then skip rest else some (b :: rest)

def hexValue (c : Byte) : Option ℕ :=
  if 48 ≤ c.val ∧ c.val ≤ 57 then some (c.val - 48)
  else if 65 ≤ c.val ∧ c.val ≤ 70 then some (10 + (c.val - 65))
  else if 97 ≤ c.val ∧ c.val ≤ 102 then some (10 + (c.val - 97))
  else none

/-- The digits of `parse_hex4` that are left; an invalid one makes the result 0. -/
def hexDigits : ℕ → ℕ → Ptr → Option ℕ
  | 0, h, _ => some h
  | _ + 1, _, [] => none
  | k + 1, h, c :: str =>
    match hexValue c with
    | none => some 0
    | some d => hexDigits k ((h <<< 4) + d) str

def parseHex4 (str : Ptr) : Option ℕ := hexDigits 4 0 str

/-- The first loop of `parse_string` (cJSON.c:462-474): the `int len` and `end_ptr`, or a
backslash before the end. -/
def findEnd : ℕ → Ptr → Option (Option (ℕ × Ptr))
  | _, [] => none
  | len, b :: rest =>
    if b = 34 ∨ b = 0 then some (some (len, b :: rest))
    else match intAdd len 1 with
      | none => none
      | some len =>
        if b = 92 then
          match rest with
          | [] => none
          | c :: rest => if c = 0 then some none else findEnd len rest
        else findEnd len rest

def firstByteMark : List ℕ := [0x00, 0x00, 0xC0, 0xE0, 0xF0, 0xF8, 0xFC]

def utf8Len (uc : ℕ) : ℕ :=
  if uc < 0x80 then 1 else if uc < 0x800 then 2 else if uc < 0x10000 then 3 else 4

/-- The `switch` from case `k` down, with the bytes that are stored behind it. -/
def utf8From (len : ℕ) : ℕ → ℕ → List Byte → List Byte
  | 0, _, stored => stored
  | 1, uc, stored => Fin.ofNat 256 (uc ||| firstByteMark.getD len 0) :: stored
  | k + 2, uc, stored =>
    utf8From len (k + 1) (uc >>> 6) (Fin.ofNat 256 ((uc ||| 0x80) &&& 0xBF) :: stored)

def utf8Bytes (uc : ℕ) : List Byte := utf8From (utf8Len uc) (utf8Len uc) uc []

def escaped : Byte → Byte
  | 98 => 8
  | 102 => 12
  | 110 => 10
  | 114 => 13
  | 116 => 9
  | c => c

/-- `\u`, with `u` at `ptr`: the bytes and the pointer behind it, or invalid. -/
def unicodeStep (endLen : ℕ) (ptr : Ptr) : Option (Option (List Byte × Ptr)) := do
  let uc ← parseHex4 (ptr.drop 1)
  let ptr := ptr.drop 4
  if ptr.length ≤ endLen then some none
  else if (0xDC00 ≤ uc ∧ uc ≤ 0xDFFF) ∨ uc = 0 then some none
  else if 0xD800 ≤ uc ∧ uc ≤ 0xDBFF then
    if ptr.length < endLen + 6 then some none
    else do
      let b1 ← ptr[1]?
      let b2 ← ptr[2]?
      if b1 ≠ 92 ∨ b2 ≠ 117 then some none
      else do
        let uc2 ← parseHex4 (ptr.drop 3)
        if uc2 < 0xDC00 ∨ 0xDFFF < uc2 then some none
        else some (some (utf8Bytes (0x10000 + (((uc &&& 0x3FF) <<< 10) ||| (uc2 &&& 0x3FF))),
          ptr.drop 7))
  else some (some (utf8Bytes uc, ptr.drop 1))

/-- One round of the second loop of `parse_string`. -/
def charStep (endLen : ℕ) : Ptr → Option (Option (List Byte × Ptr))
  | [] => none
  | 92 :: ptr =>
    match ptr with
    | [] => none
    | 117 :: rest => unicodeStep endLen (117 :: rest)
    | c :: rest => some (some ([escaped c], rest))
  | b :: rest => some (some ([b], rest))

/-- `while ((*num >= '0') && (*num <= '9'))` -/
def skipDigits : Ptr → Option Ptr
  | [] => none
  | b :: rest => if 48 ≤ b.val ∧ b.val ≤ 57 then skipDigits rest else some (b :: rest)

/-- `num++` if the byte is one of these. -/
def skipIf (f : Byte → Bool) : Ptr → Option Ptr
  | [] => none
  | b :: rest => some (if f b then rest else b :: rest)

def skipInt : Ptr → Option Ptr
  | [] => none
  | b :: rest => if 49 ≤ b.val ∧ b.val ≤ 57 then skipDigits rest else some (b :: rest)

def skipFrac : Ptr → Option Ptr
  | [] => none
  | 46 :: rest =>
    match rest with
    | [] => none
    | d :: rest => if 48 ≤ d.val ∧ d.val ≤ 57 then skipDigits rest else some (46 :: d :: rest)
  | b :: rest => some (b :: rest)

def skipExp : Ptr → Option Ptr
  | [] => none
  | b :: rest =>
    if b = 101 ∨ b = 69 then (skipIf (fun c => c = 43 || c = 45) rest).bind skipDigits
    else some (b :: rest)

/-- The pointer behind the number; the value is computed from what is in front of it. -/
def parseNumber (num : Ptr) : Option Ptr := do
  let num ← skipIf (· = 45) num
  let num ← skipIf (· = 48) num
  let num ← skipInt num
  let num ← skipFrac num
  skipExp num

def startsWith : List Byte → Ptr → Option Bool
  | [], _ => some true
  | _ :: _, [] => none
  | c :: s, b :: value => if b = c then startsWith s value else some false

/-! ### Pointers into a text -/

/-- There is one terminator, at the end. -/
def Terminated : Ptr → Prop
  | [] => False
  | b :: rest => if b = 0 then rest = [] else Terminated rest

/-- A terminated text whose length fits an `int`. -/
structure Text (p : Ptr) : Prop where
  terminated : Terminated p
  fits : p.length ≤ intMax

theorem text_cons (b : Byte) (rest : Ptr) (h : Text (b :: rest)) (hb : b ≠ 0) : Text rest := by
  obtain ⟨hterminated, hfits⟩ := h
  rw [Terminated, if_neg hb] at hterminated
  exact ⟨hterminated, (Nat.le_succ _).trans hfits⟩

theorem terminated_withNul (s : List Byte) (hs : 0 ∉ s) : Terminated (s ++ [0]) := by
  induction s with
  | nil => rfl
  | cons b s ih =>
    rw [List.mem_cons, not_or] at hs
    rw [List.cons_append, Terminated, if_neg (Ne.symm hs.1)]
    exact ih hs.2

theorem text_ne_nil (p : Ptr) (h : Text p) : ∃ b rest, p = b :: rest := by
  cases p with
  | nil => exact h.terminated.elim
  | cons b rest => exact ⟨b, rest, rfl⟩

theorem skip_spec (p : Ptr) (h : Text p) : ∃ q, skip p = some q ∧ Text q ∧ q <:+ p := by
  induction p with
  | nil => exact h.terminated.elim
  | cons b rest ih =>
    rw [skip]
    by_cases hb : b ≠ 0 ∧ b.val ≤ 32
    · obtain ⟨q, hskip, hq, hsuffix⟩ := ih (text_cons b rest h hb.1)
      rw [if_pos hb]
      exact ⟨q, hskip, hq, hsuffix.trans (List.suffix_cons b rest)⟩
    · rw [if_neg hb]
      exact ⟨b :: rest, rfl, h, List.suffix_rfl⟩

theorem skipDigits_spec (p : Ptr) (h : Text p) :
    ∃ q, skipDigits p = some q ∧ Text q ∧ q <:+ p := by
  induction p with
  | nil => exact h.terminated.elim
  | cons b rest ih =>
    rw [skipDigits]
    by_cases hb : 48 ≤ b.val ∧ b.val ≤ 57
    · have hne : b ≠ 0 := by
        intro h0
        rw [h0] at hb
        simp at hb
      obtain ⟨q, hskip, hq, hsuffix⟩ := ih (text_cons b rest h hne)
      rw [if_pos hb]
      exact ⟨q, hskip, hq, hsuffix.trans (List.suffix_cons b rest)⟩
    · rw [if_neg hb]
      exact ⟨b :: rest, rfl, h, List.suffix_rfl⟩

theorem hexValue_ne (c : Byte) (d : ℕ) (h : hexValue c = some d) :
    c ≠ 0 ∧ c ≠ 34 ∧ c ≠ 92 ∧ d < 16 := by
  unfold hexValue at h
  refine ⟨?_, ?_, ?_, ?_⟩
  · rintro rfl
    simp at h
  · rintro rfl
    simp at h
  · rintro rfl
    simp at h
  · split_ifs at h <;> cases h <;> omega

/-- Either all digits are there, or one is invalid and the result is 0. -/
theorem hexDigits_spec (k : ℕ) : ∀ (n : ℕ) (p : Ptr), Text p →
    hexDigits k n p = some 0 ∨ ∃ ds rest u, p = ds ++ rest ∧ ds.length = k ∧
      (∀ c ∈ ds, ∃ d, hexValue c = some d) ∧ hexDigits k n p = some u ∧ u < (n + 1) * 16 ^ k := by
  induction k with
  | zero =>
    intro n p _
    refine Or.inr ⟨[], p, n, rfl, rfl, ?_, rfl, by omega⟩
    intro c hc
    cases hc
  | succ k ih =>
    intro n p h
    obtain ⟨c, rest, rfl⟩ := text_ne_nil p h
    rw [hexDigits]
    cases hd : hexValue c with
    | none => exact Or.inl rfl
    | some d =>
      obtain ⟨hne, -, -, hlt⟩ := hexValue_ne c d hd
      rcases ih ((n <<< 4) + d) rest (text_cons c rest h hne) with hzero | hall
      · exact Or.inl hzero
      · obtain ⟨ds, rest', u, rfl, hlen, hds, hu, hbound⟩ := hall
        refine Or.inr ⟨c :: ds, rest', u, rfl, by rw [List.length_cons, hlen], ?_, hu, ?_⟩
        · intro c' hc'
          rcases List.mem_cons.mp hc' with rfl | hmem
          · exact ⟨d, hd⟩
          · exact hds c' hmem
        · rw [Nat.shiftLeft_eq] at hbound
          have hstep : (n * 2 ^ 4 + d + 1) * 16 ^ k ≤ (n + 1) * 16 * 16 ^ k :=
            Nat.mul_le_mul_right _ (by omega)
          rw [pow_succ', ← mul_assoc]
          omega

/-! ### The end of a string literal -/

/-- `end_ptr` is reached from here in `m` rounds. -/
inductive Scans : Ptr → ℕ → Ptr → Prop where
  | stop (b : Byte) (rest : Ptr) (hb : b = 34 ∨ b = 0) : Scans (b :: rest) 0 (b :: rest)
  | char (b : Byte) (rest e : Ptr) (m : ℕ) (h34 : b ≠ 34) (h0 : b ≠ 0) (h92 : b ≠ 92)
      (h : Scans rest m e) : Scans (b :: rest) (m + 1) e
  | escape (c : Byte) (rest e : Ptr) (m : ℕ) (h0 : c ≠ 0) (h : Scans rest m e) :
      Scans (92 :: c :: rest) (m + 1) e

/-- The end of a literal, wherever it is. -/
def literalEnd : Ptr → Option Ptr
  | [] => none
  | b :: rest =>
    if b = 34 ∨ b = 0 then some (b :: rest)
    else if b = 92 then
      match rest with
      | [] => none
      | c :: rest => if c = 0 then none else literalEnd rest
    else literalEnd rest

theorem literalEnd_char (b : Byte) (rest : Ptr) (h34 : b ≠ 34) (h0 : b ≠ 0) (h92 : b ≠ 92) :
    literalEnd (b :: rest) = literalEnd rest := by
  rw [literalEnd.eq_def (b :: rest)]
  simp only [h34, h0, h92, or_self, if_false]

theorem literalEnd_escape (c : Byte) (rest : Ptr) (h0 : c ≠ 0) :
    literalEnd (92 :: c :: rest) = literalEnd rest := by
  rw [literalEnd, if_neg (by decide), if_pos rfl, if_neg h0]

/-- As long as the text fits an `int`, `len` counts the rounds up to the end. -/
theorem findEnd_spec (len : ℕ) (p : Ptr) (h : Text p) (hfit : len + p.length ≤ intMax) :
    (findEnd len p = some none ∧ literalEnd p = none) ∨
    ∃ m e, findEnd len p = some (some (len + m, e)) ∧ literalEnd p = some e ∧ Scans p m e := by
  induction p using literalEnd.induct generalizing len with
  | case1 => exact h.terminated.elim
  | case2 b rest hb =>
    refine Or.inr ⟨0, b :: rest, ?_, ?_, .stop b rest hb⟩
    · rw [findEnd, if_pos hb]
      rfl
    · rw [literalEnd.eq_def]
      exact if_pos hb
  | case3 => exact (text_cons 92 [] h (by decide)).terminated.elim
  | case4 rest =>
    have hadd := intAdd_of_le (a := len) (b := 1) (by rw [List.length_cons] at hfit; omega)
    refine Or.inl ⟨?_, rfl⟩
    rw [findEnd, if_neg (by decide), hadd]
    rfl
  | case5 c rest hc hne ih =>
    have htext := text_cons c rest (text_cons 92 _ h (by decide)) hc
    rw [List.length_cons, List.length_cons] at hfit
    have hadd := intAdd_of_le (a := len) (b := 1) (by omega)
    have hstep : findEnd len (92 :: c :: rest) = findEnd (len + 1) rest := by
      rw [findEnd, if_neg (by decide), hadd]
      exact if_neg hc
    rw [hstep, literalEnd_escape c rest hc]
    rcases ih (len + 1) htext (by omega) with hnone | ⟨m, e, hfind, hend, hscans⟩
    · exact Or.inl hnone
    · refine Or.inr ⟨m + 1, e, ?_, hend, .escape c rest e m hc hscans⟩
      rw [hfind, Nat.add_assoc, Nat.add_comm 1]
  | case6 b rest hb h92 ih =>
    rw [not_or] at hb
    rw [List.length_cons] at hfit
    have hadd := intAdd_of_le (a := len) (b := 1) (by omega)
    have hstep : findEnd len (b :: rest) = findEnd (len + 1) rest := by
      rw [findEnd, if_neg (not_or.mpr hb), hadd]
      exact if_neg h92
    rw [hstep, literalEnd_char b rest hb.1 hb.2 h92]
    rcases ih (len + 1) (text_cons b rest h hb.2) (by omega) with hnone | ⟨m, e, hfind, hend, hscans⟩
    · exact Or.inl hnone
    · refine Or.inr ⟨m + 1, e, ?_, hend, .char b rest e m hb.1 hb.2 h92 hscans⟩
      rw [hfind, Nat.add_assoc, Nat.add_comm 1]

theorem scans_suffix (p : Ptr) (m : ℕ) (e : Ptr) (h : Scans p m e) :
    e <:+ p ∧ (m = 0 ↔ p = e) ∧ m + e.length ≤ p.length ∧
      ∃ b rest, e = b :: rest ∧ (b = 34 ∨ b = 0) := by
  induction h with
  | stop b rest hb => exact ⟨List.suffix_rfl, by simp, by simp, b, rest, rfl, hb⟩
  | char b rest e m h34 h0 h92 h ih =>
    obtain ⟨hsuffix, -, hlen, hend⟩ := ih
    refine ⟨hsuffix.trans (List.suffix_cons b rest), ?_, ?_, hend⟩
    · refine ⟨fun h0 => absurd h0 (Nat.succ_ne_zero m), ?_⟩
      intro heq
      rw [← heq, List.length_cons] at hlen
      omega
    · rw [List.length_cons]
      omega
  | escape c rest e m h0 h ih =>
    obtain ⟨hsuffix, -, hlen, hend⟩ := ih
    refine ⟨hsuffix.trans ((List.suffix_cons c rest).trans (List.suffix_cons 92 _)), ?_, ?_, hend⟩
    · refine ⟨fun h0 => absurd h0 (Nat.succ_ne_zero m), ?_⟩
      intro heq
      rw [← heq, List.length_cons, List.length_cons] at hlen
      omega
    · rw [List.length_cons, List.length_cons]
      omega

theorem scans_char (b : Byte) (rest e : Ptr) (m : ℕ) (h34 : b ≠ 34) (h0 : b ≠ 0) (h92 : b ≠ 92)
    (h : Scans (b :: rest) m e) : ∃ m', m = m' + 1 ∧ Scans rest m' e := by
  cases h with
  | stop _ _ hb => exact absurd hb (by simp [h34, h0])
  | char _ _ _ m' _ _ _ h => exact ⟨m', rfl, h⟩
  | escape _ _ _ _ _ _ => exact absurd rfl h92

theorem scans_escape (c : Byte) (rest e : Ptr) (m : ℕ) (h : Scans (92 :: c :: rest) m e) :
    ∃ m', m = m' + 1 ∧ c ≠ 0 ∧ Scans rest m' e := by
  cases h with
  | stop _ _ hb => exact absurd hb (by decide)
  | char _ _ _ _ _ _ h92 _ => exact absurd rfl h92
  | escape _ _ _ m' h0 h => exact ⟨m', rfl, h0, h⟩

theorem scans_digits (ds rest : List Byte) (e : Ptr) (hds : ∀ c ∈ ds, ∃ d, hexValue c = some d) :
    ∀ m : ℕ, Scans (ds ++ rest) m e → ∃ m', Scans rest m' e ∧ m = m' + ds.length := by
  induction ds with
  | nil => exact fun m h => ⟨m, h, rfl⟩
  | cons c ds ih =>
    intro m h
    obtain ⟨d, hd⟩ := hds c (List.mem_cons_self ..)
    obtain ⟨h0, h34, h92, -⟩ := hexValue_ne c d hd
    obtain ⟨m₁, rfl, h₁⟩ := scans_char c _ e m h34 h0 h92 h
    obtain ⟨m', h', heq⟩ := ih (fun c' hc' => hds c' (List.mem_cons_of_mem _ hc')) m₁ h₁
    exact ⟨m', h', by rw [List.length_cons]; omega⟩

theorem text_digits (ds rest : List Byte) (hds : ∀ c ∈ ds, ∃ d, hexValue c = some d)
    (h : Text (ds ++ rest)) : Text rest := by
  induction ds with
  | nil => exact h
  | cons c ds ih =>
    obtain ⟨d, hd⟩ := hds c (List.mem_cons_self ..)
    exact ih (fun c' hc' => hds c' (List.mem_cons_of_mem _ hc'))
      (text_cons c _ h (hexValue_ne c d hd).1)

/-! ### UTF-8 -/

theorem low_bits (m : Fin 256) : (m.val ||| 0x80) &&& 0xBF = 0x80 + m.val % 64 := by
  revert m
  decide +kernel

theorem continuation_byte (n : ℕ) : (n ||| 0x80) &&& 0xBF = 0x80 + n % 64 := by
  have hbyte : ∀ x : ℕ, x &&& 0xBF = x % 256 &&& 0xBF := by
    intro x
    rw [← Nat.and_two_pow_sub_one_eq_mod x 8, Nat.and_assoc]
    rfl
  have hlow := low_bits ⟨n % 256, Nat.mod_lt _ (by decide)⟩
  rw [hbyte, show (256 : ℕ) = 2 ^ 8 from rfl, Nat.or_mod_two_pow]
  simp only [Nat.reducePow, Nat.reduceMod] at hlow ⊢
  omega

theorem first_byte (mark : ℕ) (k n : ℕ) (hmark : mark % 2 ^ k = 0) (hn : n < 2 ^ k) :
    n ||| mark = mark + n := by
  have hsplit : mark = (mark / 2 ^ k) <<< k := by
    rw [Nat.shiftLeft_eq]
    have := Nat.div_add_mod mark (2 ^ k)
    rw [hmark, Nat.add_zero, mul_comm] at this
    exact this.symm
  rw [Nat.lor_comm, hsplit, ← Nat.shiftLeft_add_eq_or_of_lt hn]

theorem utf8Bytes_eq (uc : ℕ) (h : uc < 0x110000) : utf8Bytes uc = utf8 uc := by
  unfold utf8Bytes utf8Len utf8
  split_ifs with h1 h2 h3
  · show [Fin.ofNat 256 (uc ||| 0x00)] = _
    rw [Nat.or_zero]
  · show [Fin.ofNat 256 ((uc >>> 6) ||| 0xC0), Fin.ofNat 256 ((uc ||| 0x80) &&& 0xBF)] = _
    rw [continuation_byte, Nat.shiftRight_eq_div_pow,
      first_byte 0xC0 5 _ rfl (by omega)]
  · show [Fin.ofNat 256 ((uc >>> 6 >>> 6) ||| 0xE0), Fin.ofNat 256 ((uc >>> 6 ||| 0x80) &&& 0xBF),
      Fin.ofNat 256 ((uc ||| 0x80) &&& 0xBF)] = _
    rw [continuation_byte, continuation_byte, Nat.shiftRight_eq_div_pow, Nat.shiftRight_eq_div_pow,
      Nat.div_div_eq_div_mul, first_byte 0xE0 4 _ rfl (by omega)]
  · show [Fin.ofNat 256 ((uc >>> 6 >>> 6 >>> 6) ||| 0xF0),
      Fin.ofNat 256 ((uc >>> 6 >>> 6 ||| 0x80) &&& 0xBF),
      Fin.ofNat 256 ((uc >>> 6 ||| 0x80) &&& 0xBF), Fin.ofNat 256 ((uc ||| 0x80) &&& 0xBF)] = _
    rw [continuation_byte, continuation_byte, continuation_byte, Nat.shiftRight_eq_div_pow,
      Nat.shiftRight_eq_div_pow, Nat.shiftRight_eq_div_pow, Nat.div_div_eq_div_mul,
      Nat.div_div_eq_div_mul, Nat.div_div_eq_div_mul, first_byte 0xF0 3 _ rfl (by omega)]

theorem surrogate_pair (uc uc2 : ℕ) (h1 : 0xD800 ≤ uc) (h2 : uc ≤ 0xDBFF) (h3 : 0xDC00 ≤ uc2)
    (h4 : uc2 ≤ 0xDFFF) : 0x10000 + (((uc &&& 0x3FF) <<< 10) ||| (uc2 &&& 0x3FF)) =
      0x10000 + (uc - 0xD800) * 1024 + (uc2 - 0xDC00) := by
  have hlow : uc2 &&& 0x3FF = uc2 % 1024 := Nat.and_two_pow_sub_one_eq_mod uc2 10
  have hhigh : uc &&& 0x3FF = uc % 1024 := Nat.and_two_pow_sub_one_eq_mod uc 10
  rw [hlow, hhigh, ← Nat.shiftLeft_add_eq_or_of_lt (by omega), Nat.shiftLeft_eq]
  omega

theorem utf8_ne_zero (uc : ℕ) (h0 : uc ≠ 0) (h : uc < 0x110000) : 0 ∉ utf8 uc := by
  unfold utf8
  have hbyte : ∀ n : ℕ, n < 256 → n ≠ 0 → (0 : Byte) ≠ Fin.ofNat 256 n := by
    intro n hn hne heq
    have hval := congrArg Fin.val heq
    rw [Fin.val_ofNat, Nat.mod_eq_of_lt hn] at hval
    exact hne hval.symm
  split_ifs with h1 h2 h3
  · intro hmem
    exact hbyte uc (by omega) h0 (List.mem_singleton.mp hmem)
  · simp only [List.mem_cons, List.not_mem_nil, or_false, not_or]
    exact ⟨hbyte _ (by omega) (by omega), hbyte _ (by omega) (by omega)⟩
  · simp only [List.mem_cons, List.not_mem_nil, or_false, not_or]
    exact ⟨hbyte _ (by omega) (by omega), hbyte _ (by omega) (by omega),
      hbyte _ (by omega) (by omega)⟩
  · simp only [List.mem_cons, List.not_mem_nil, or_false, not_or]
    exact ⟨hbyte _ (by omega) (by omega), hbyte _ (by omega) (by omega),
      hbyte _ (by omega) (by omega), hbyte _ (by omega) (by omega)⟩

/-! ### One character of a string literal -/

/-- A round of the second loop keeps `m`, the room that is left in the buffer. -/
def Steps (p : Ptr) (m : ℕ) (e : Ptr) (r : Option (List Byte × Ptr)) : Prop :=
  ∀ bs q, r = some (bs, q) → ∃ m', Scans q m' e ∧ m' + bs.length ≤ m ∧ Text q ∧
    q.length < p.length ∧ 0 ∉ bs

theorem steps_none (p : Ptr) (m : ℕ) (e : Ptr) : Steps p m e none := by
  intro bs q h
  cases h

theorem length_four (ds : List Byte) (h : ds.length = 4) :
    ∃ a b c d, ds = [a, b, c, d] := by
  match ds, h with
  | [a, b, c, d], _ => exact ⟨a, b, c, d, rfl⟩

theorem unicodeStep_spec (rest e : Ptr) (m : ℕ) (htext : Text rest) (hscans : Scans rest m e) :
    ∃ r, unicodeStep e.length (117 :: rest) = some r ∧ Steps (117 :: rest) (m + 1) e r := by
  unfold unicodeStep parseHex4
  rw [List.drop_succ_cons, List.drop_zero]
  rcases hexDigits_spec 4 0 rest htext with hzero | hall
  · rw [hzero]
    refine ⟨none, ?_, steps_none _ _ _⟩
    simp only [Option.bind_eq_bind, Option.bind_some, or_true, if_true, ite_self]
  obtain ⟨ds, t, u, rfl, hlen, hds, hu, hbound⟩ := hall
  obtain ⟨m₁, hscans₁, rfl⟩ := scans_digits ds t e hds m hscans
  have htext₁ := text_digits ds t hds htext
  obtain ⟨a, b, c, d, rfl⟩ := length_four ds hlen
  obtain ⟨-, -, hle₁, -⟩ := scans_suffix t m₁ e hscans₁
  rw [hu]
  simp only [Option.bind_eq_bind, Option.bind_some, List.cons_append, List.nil_append,
    List.drop_succ_cons, List.drop_zero, List.length_cons, List.getElem?_cons_succ]
  rw [if_neg (by omega)]
  by_cases hbad : (0xDC00 ≤ u ∧ u ≤ 0xDFFF) ∨ u = 0
  · exact ⟨none, if_pos hbad, steps_none _ _ _⟩
  rw [if_neg hbad]
  rw [not_or] at hbad
  by_cases hhigh : 0xD800 ≤ u ∧ u ≤ 0xDBFF
  · rw [if_pos hhigh]
    by_cases hroom : t.length + 1 < e.length + 6
    · exact ⟨none, if_pos hroom, steps_none _ _ _⟩
    rw [if_neg hroom]
    match t, htext₁, hscans₁, hle₁, hroom with
    | b1 :: b2 :: t, htext₁, hscans₁, hle₁, hroom =>
      simp only [List.getElem?_cons_zero, List.getElem?_cons_succ, Option.bind_some,
        List.drop_succ_cons, List.drop_zero]
      by_cases hback : b1 ≠ 92 ∨ b2 ≠ 117
      · exact ⟨none, if_pos hback, steps_none _ _ _⟩
      rw [if_neg hback]
      rw [not_or, not_not, not_not] at hback
      obtain ⟨rfl, rfl⟩ := hback
      obtain ⟨m₂, rfl, -, hscans₂⟩ := scans_escape 117 t e m₁ hscans₁
      have htext₂ := text_cons 117 t (text_cons 92 _ htext₁ (by decide)) (by decide)
      rcases hexDigits_spec 4 0 t htext₂ with hzero | hall
      · rw [hzero, Option.bind_some]
        exact ⟨none, if_pos (Or.inl (by decide)), steps_none _ _ _⟩
      obtain ⟨ds, t, v, rfl, hlen', hds', hv, hbound'⟩ := hall
      obtain ⟨m₃, hscans₃, rfl⟩ := scans_digits ds t e hds' m₂ hscans₂
      have htext₃ := text_digits ds t hds' htext₂
      obtain ⟨a', b', c', d', rfl⟩ := length_four ds hlen'
      rw [hv]
      simp only [Option.bind_some]
      by_cases hlow : v < 0xDC00 ∨ 0xDFFF < v
      · exact ⟨none, if_pos hlow, steps_none _ _ _⟩
      rw [if_neg hlow]
      rw [not_or, not_lt, not_lt] at hlow
      refine ⟨_, rfl, ?_⟩
      intro bs q h
      cases h
      rw [surrogate_pair u v hhigh.1 hhigh.2 hlow.1 hlow.2, utf8Bytes_eq _ (by omega)]
      have hutf := (utf8_length (0x10000 + (u - 0xD800) * 1024 + (v - 0xDC00))).1
      refine ⟨m₃, hscans₃, ?_, htext₃, ?_, utf8_ne_zero _ (by omega) (by omega)⟩
      · simp only [List.length_cons, List.length_nil]
        omega
      · simp only [List.length_cons, List.cons_append, List.nil_append, List.drop_succ_cons,
          List.drop_zero]
        omega
    | [], _, _, _, hroom => exact absurd (by simp only [List.length_nil]; omega) hroom
    | [b1], _, _, _, hroom => exact absurd (by simp only [List.length_cons, List.length_nil]; omega) hroom
  · rw [if_neg hhigh]
    refine ⟨_, rfl, ?_⟩
    intro bs q h
    cases h
    have hlt : u < 0x10000 := by omega
    rw [utf8Bytes_eq u (by omega)]
    have hutf := (utf8_length u).2 hlt
    refine ⟨m₁, hscans₁, ?_, htext₁, ?_, utf8_ne_zero u hbad.2 (by omega)⟩
    · simp only [List.length_nil]
      omega
    · simp only [List.length_cons]
      omega

theorem escaped_ne_zero (c : Byte) (h : c ≠ 0) : escaped c ≠ 0 := by
  unfold escaped
  split <;> first | decide | exact h

theorem charStep_spec (p e : Ptr) (m : ℕ) (htext : Text p) (hscans : Scans p m e)
    (hlen : e.length < p.length) : ∃ r, charStep e.length p = some r ∧ Steps p m e r := by
  cases hscans with
  | stop b rest hb => exact absurd hlen (lt_irrefl _)
  | char b rest e m h34 h0 h92 h =>
    refine ⟨some ([b], rest), ?_, ?_⟩
    · rw [charStep]
      exact h92
    · intro bs q heq
      cases heq
      exact ⟨m, h, le_rfl, text_cons b rest htext h0, Nat.lt_succ_self _, by simp [h0.symm]⟩
  | escape c rest e m h0 h =>
    have htext' := text_cons c rest (text_cons 92 _ htext (by decide)) h0
    by_cases hu : c = 117
    · subst hu
      obtain ⟨r, hstep, hsteps⟩ := unicodeStep_spec rest e m htext' h
      refine ⟨r, hstep, fun bs q heq => ?_⟩
      obtain ⟨m', hscans', hroom, htext'', hless, hnul⟩ := hsteps bs q heq
      exact ⟨m', hscans', hroom, htext'', hless.trans (Nat.lt_succ_self _), hnul⟩
    · refine ⟨some ([escaped c], rest), ?_, ?_⟩
      · rw [charStep]
        exact fun heq => hu heq
      · intro bs q heq
        cases heq
        refine ⟨m, h, le_rfl, htext', ?_, ?_⟩
        · simp only [List.length_cons]
          omega
        · simp [(escaped_ne_zero c h0).symm]

/-! ### Numbers and literals -/

theorem skipIf_spec (f : Byte → Bool) (p : Ptr) (hf : f 0 = false) (h : Text p) :
    ∃ q, skipIf f p = some q ∧ Text q ∧ q <:+ p := by
  obtain ⟨b, rest, rfl⟩ := text_ne_nil p h
  rw [skipIf]
  by_cases hb : f b = true
  · have h0 : b ≠ 0 := by
      rintro rfl
      rw [hf] at hb
      cases hb
    rw [if_pos hb]
    exact ⟨rest, rfl, text_cons b rest h h0, List.suffix_cons b rest⟩
  · rw [if_neg hb]
    exact ⟨b :: rest, rfl, h, List.suffix_rfl⟩

theorem byte_ne_zero (b : Byte) (low : ℕ) (hlow : 0 < low) (h : low ≤ b.val) : b ≠ 0 := by
  rintro rfl
  simp at h
  omega

theorem skipInt_spec (p : Ptr) (h : Text p) : ∃ q, skipInt p = some q ∧ Text q ∧ q <:+ p := by
  obtain ⟨b, rest, rfl⟩ := text_ne_nil p h
  rw [skipInt]
  by_cases hb : 49 ≤ b.val ∧ b.val ≤ 57
  · obtain ⟨q, hskip, hq, hsuffix⟩ :=
      skipDigits_spec rest (text_cons b rest h (byte_ne_zero b 49 (by decide) hb.1))
    rw [if_pos hb]
    exact ⟨q, hskip, hq, hsuffix.trans (List.suffix_cons b rest)⟩
  · rw [if_neg hb]
    exact ⟨b :: rest, rfl, h, List.suffix_rfl⟩

theorem skipFrac_spec (p : Ptr) (h : Text p) : ∃ q, skipFrac p = some q ∧ Text q ∧ q <:+ p := by
  obtain ⟨b, rest, rfl⟩ := text_ne_nil p h
  by_cases hb : b = 46
  · subst hb
    have hrest := text_cons 46 rest h (by decide)
    obtain ⟨d, rest, rfl⟩ := text_ne_nil rest hrest
    rw [skipFrac]
    by_cases hd : 48 ≤ d.val ∧ d.val ≤ 57
    · obtain ⟨q, hskip, hq, hsuffix⟩ :=
        skipDigits_spec rest (text_cons d rest hrest (byte_ne_zero d 48 (by decide) hd.1))
      rw [if_pos hd]
      exact ⟨q, hskip, hq, hsuffix.trans ((List.suffix_cons d rest).trans (List.suffix_cons 46 _))⟩
    · rw [if_neg hd]
      exact ⟨_, rfl, h, List.suffix_rfl⟩
  · refine ⟨b :: rest, ?_, h, List.suffix_rfl⟩
    rw [skipFrac]
    exact hb

theorem skipExp_spec (p : Ptr) (h : Text p) : ∃ q, skipExp p = some q ∧ Text q ∧ q <:+ p := by
  obtain ⟨b, rest, rfl⟩ := text_ne_nil p h
  rw [skipExp]
  by_cases hb : b = 101 ∨ b = 69
  · have h0 : b ≠ 0 := by
      rintro rfl
      revert hb
      decide
    obtain ⟨q, hskip, hq, hsuffix⟩ :=
      skipIf_spec (fun c => c = 43 || c = 45) rest rfl (text_cons b rest h h0)
    obtain ⟨r, hdigits, hr, hsuffix'⟩ := skipDigits_spec q hq
    rw [if_pos hb, hskip, Option.bind_some]
    exact ⟨r, hdigits, hr, hsuffix'.trans (hsuffix.trans (List.suffix_cons b rest))⟩
  · rw [if_neg hb]
    exact ⟨b :: rest, rfl, h, List.suffix_rfl⟩

/-- A number takes its first byte at least. -/
theorem parseNumber_spec (b : Byte) (rest : Ptr) (h : Text (b :: rest))
    (hb : b = 45 ∨ (48 ≤ b.val ∧ b.val ≤ 57)) :
    ∃ q, parseNumber (b :: rest) = some q ∧ Text q ∧ q <:+ rest := by
  have hrest : Text rest := text_cons b rest h (by
    rintro rfl
    rcases hb with hb | hb
    · revert hb
      decide
    · simp at hb)
  have hint : ∃ p q, skipIf (· = 45) (b :: rest) = some p ∧
      (skipIf (· = 48) p).bind skipInt = some q ∧ Text q ∧ q <:+ rest := by
    by_cases hsign : b = 45
    · obtain ⟨q, hzero, hq, hsuffix⟩ := skipIf_spec (· = 48) rest rfl hrest
      obtain ⟨r, hskip, hr, hsuffix'⟩ := skipInt_spec q hq
      refine ⟨rest, r, ?_, ?_, hr, hsuffix'.trans hsuffix⟩
      · rw [skipIf, if_pos (decide_eq_true hsign)]
      · rw [hzero]
        exact hskip
    · have hdigit := hb.resolve_left hsign
      refine ⟨b :: rest, ?_⟩
      rw [skipIf, if_neg (by simpa using hsign)]
      by_cases hzero : b = 48
      · obtain ⟨r, hskip, hr, hsuffix⟩ := skipInt_spec rest hrest
        refine ⟨r, rfl, ?_, hr, hsuffix⟩
        rw [skipIf, if_pos (decide_eq_true hzero)]
        exact hskip
      · have hne : b.val ≠ 48 := fun hval => hzero (Fin.ext hval)
        obtain ⟨r, hskip, hr, hsuffix⟩ := skipDigits_spec rest hrest
        refine ⟨r, rfl, ?_, hr, hsuffix⟩
        rw [skipIf, if_neg (by simpa using hzero), Option.bind_some, skipInt,
          if_pos ⟨by omega, hdigit.2⟩]
        exact hskip
  obtain ⟨p, q, hsign, hint, hq, hsuffix⟩ := hint
  obtain ⟨r, hfrac, hr, hsuffix₁⟩ := skipFrac_spec q hq
  obtain ⟨t, hexp, ht, hsuffix₂⟩ := skipExp_spec r hr
  refine ⟨t, ?_, ht, hsuffix₂.trans (hsuffix₁.trans hsuffix)⟩
  unfold parseNumber
  rw [hsign]
  obtain ⟨z, hzero, hskip⟩ := Option.bind_eq_some_iff.mp hint
  simp only [Option.bind_eq_bind, Option.bind_some, hzero, hskip, hfrac, hexp]

theorem startsWith_spec (s : List Byte) (hs : 0 ∉ s) : ∀ p : Ptr, Text p →
    startsWith s p = some (decide (s <+: p)) := by
  induction s with
  | nil => exact fun p _ => by simp [startsWith]
  | cons c s ih =>
    intro p h
    rw [List.mem_cons, not_or] at hs
    obtain ⟨b, rest, rfl⟩ := text_ne_nil p h
    rw [startsWith]
    by_cases hb : b = c
    · subst hb
      rw [if_pos rfl, ih hs.2 rest (text_cons b rest h (Ne.symm hs.1))]
      simp [List.cons_prefix_cons]
    · rw [if_neg hb]
      simp [List.cons_prefix_cons, Ne.symm hb]

end Parse
end SmbDiscover

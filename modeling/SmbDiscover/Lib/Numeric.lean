import SmbDiscover.Lib.CString

/-!
# Numbers in C strings

`%d` conversion, `strtol` in base 10 on a 32-bit `long`, and the two address
conversions `inet_addr` and `inet_ntoa`. Addresses are 32-bit words whose most
significant byte is the first printed component. A length that is summed up in an `int`
has a value as long as it fits.
-/

namespace CText

/-! ### Lengths of type `int` -/

def intMax : ℕ := 2147483647

/-- What does not fit an `int` is `none`. -/
def intAdd (a b : ℕ) : Option ℕ := if a + b ≤ intMax then some (a + b) else none

theorem intAdd_of_le {a b : ℕ} (h : a + b ≤ intMax) : intAdd a b = some (a + b) := if_pos h

/-! ### Printing -/

def digitByte (d : ℕ) : Byte := Fin.ofNat 256 (48 + d)

theorem digitByte_val (d : ℕ) (h : d < 10) : (digitByte d).val = 48 + d := by
  show (48 + d) % 256 = 48 + d
  omega

def decimalBytes (n : ℕ) : List Byte :=
  if n = 0 then [48] else (Nat.digits 10 n).reverse.map digitByte

theorem decimalBytes_digit (n : ℕ) : ∀ b ∈ decimalBytes n, 48 ≤ b.val ∧ b.val ≤ 57 := by
  intro b hb
  unfold decimalBytes at hb
  split at hb
  · simp only [List.mem_singleton] at hb
    subst hb
    decide
  · simp only [List.mem_map, List.mem_reverse] at hb
    obtain ⟨d, hd, rfl⟩ := hb
    have hlt : d < 10 := Nat.digits_lt_base (by norm_num) hd
    rw [digitByte_val d hlt]
    omega

def decimal (n : ℕ) : CStr :=
  ⟨decimalBytes n, fun b hb h0 => by
    have h := decimalBytes_digit n b hb
    subst h0
    simp at h⟩

def formatInt (i : ℤ) : CStr :=
  if i < 0 then .lit "-" ++ decimal i.natAbs else decimal i.natAbs

theorem decimalBytes_head (n : ℕ) (h : n ≠ 0) :
    ∃ c rest, decimalBytes n = c :: rest ∧ 49 ≤ c.val ∧ c.val ≤ 57 := by
  have hne : Nat.digits 10 n ≠ [] := Nat.digits_ne_nil_iff_ne_zero.mpr h
  have hlast := Nat.getLast_digit_ne_zero 10 h
  have hlt : (Nat.digits 10 n).getLast hne < 10 :=
    Nat.digits_lt_base (by norm_num) (List.getLast_mem hne)
  refine ⟨digitByte ((Nat.digits 10 n).getLast hne),
    ((Nat.digits 10 n).dropLast.reverse.map digitByte), ?_, ?_, ?_⟩
  · rw [decimalBytes, if_neg h]
    conv_lhs => rw [← List.dropLast_append_getLast hne]
    simp
  · rw [digitByte_val _ hlt]
    omega
  · rw [digitByte_val _ hlt]
    omega

theorem length_decimal (n k : ℕ) (hk : 0 < k) (h : n < 10 ^ k) : (decimal n).length ≤ k := by
  show (decimalBytes n).length ≤ k
  unfold decimalBytes
  split
  · exact hk
  · rw [List.length_map, List.length_reverse]
    exact (Nat.digits_length_le_iff (by norm_num) n).mpr h

theorem decimal_ne_empty (n : ℕ) : (decimal n).bytes ≠ [] := by
  by_cases h : n = 0
  · subst h
    decide
  · obtain ⟨c, rest, hc, -⟩ := decimalBytes_head n h
    show decimalBytes n ≠ []
    rw [hc]
    simp

/-! ### Reading -/

def isSpace (c : Byte) : Bool := c = 32 || (9 ≤ c && c ≤ 13)

/-- Value of a hexadecimal digit; `base` for any other byte. -/
def digitOf (base : ℕ) (c : Byte) : ℕ :=
  if 48 ≤ c.val ∧ c.val ≤ 57 then c.val - 48
  else if 65 ≤ c.val ∧ c.val ≤ 70 then c.val - 55
  else if 97 ≤ c.val ∧ c.val ≤ 102 then c.val - 87
  else base

def digitValue (base : ℕ) (c : Byte) : Option ℕ :=
  if digitOf base c < base then some (digitOf base c) else none

theorem digitValue_lt (base : ℕ) (c : Byte) (n : ℕ) (h : digitValue base c = some n) :
    n < base := by
  unfold digitValue at h
  split at h
  · cases h
    assumption
  · cases h

def readDigits (base : ℕ) : List Byte → ℕ → ℕ × List Byte
  | [], acc => (acc, [])
  | c :: rest, acc =>
    match digitValue base c with
    | some d => readDigits base rest (acc * base + d)
    | none => (acc, c :: rest)

def longMax : ℤ := 2147483647
def longMin : ℤ := -2147483648

/-- `strtol(s, NULL, 10)`: white space, an optional sign, digits; saturated at
the ends of a 32-bit `long`, and 0 when there is no digit. -/
def strtol (s : CStr) : ℤ :=
  match s.bytes.dropWhile isSpace with
  | 45 :: r => max longMin (-((readDigits 10 r 0).1 : ℤ))
  | 43 :: r => min longMax ((readDigits 10 r 0).1 : ℤ)
  | r => min longMax ((readDigits 10 r 0).1 : ℤ)

example : strtol (.lit " -17x") = -17 := by decide +kernel

theorem strtol_range (s : CStr) : longMin ≤ strtol s ∧ strtol s ≤ longMax := by
  unfold strtol longMin longMax
  split
  next r _ =>
    have := Int.natCast_nonneg (readDigits 10 r 0).1
    omega
  next r _ =>
    have := Int.natCast_nonneg (readDigits 10 r 0).1
    omega
  next r _ _ =>
    have := Int.natCast_nonneg (readDigits 10 r 0).1
    omega

/-! ### Addresses -/

def inaddrNone : BitVec 32 := 0xffffffff

/-- One component of an address in the `strtoul` notation of base 0. -/
def inetPart : List Byte → Option (ℕ × List Byte)
  | 48 :: 120 :: h :: rest =>
    if (digitValue 16 h).isSome then some (readDigits 16 (h :: rest) 0)
    else some (0, 120 :: h :: rest)
  | 48 :: 88 :: h :: rest =>
    if (digitValue 16 h).isSome then some (readDigits 16 (h :: rest) 0)
    else some (0, 88 :: h :: rest)
  | 48 :: rest => some (readDigits 8 rest 0)
  | c :: rest => if (digitValue 10 c).isSome then some (readDigits 10 (c :: rest) 0) else none
  | [] => none

/-- Bound on the last component, which fills the `k + 1` bytes left. -/
def inetBound : ℕ → ℕ
  | 0 => 256
  | 1 => 65536
  | 2 => 16777216
  | _ => 4294967296

def inetParts (k acc : ℕ) (s : List Byte) : Option ℕ :=
  match inetPart s with
  | none => none
  | some (v, rest) =>
    if rest.head? = some 46 then
      match k with
      | 0 => none
      | k + 1 => if v < 256 then inetParts k (acc * 256 + v) rest.tail else none
    else if (rest.head?.all isSpace) ∧ v < inetBound k then some (acc * inetBound k + v)
    else none

/-- `inet_addr`: one to four components; `INADDR_NONE` for anything else. -/
def inetAddr (s : CStr) : BitVec 32 :=
  match inetParts 3 0 s.bytes with
  | some v => BitVec.ofNat 32 v
  | none => inaddrNone

def quad (a b c d : ℕ) : CStr :=
  decimal a ++ .lit "." ++ decimal b ++ .lit "." ++ decimal c ++ .lit "." ++ decimal d

def inetNtoa (x : BitVec 32) : CStr :=
  quad (x.toNat / 16777216) (x.toNat / 65536 % 256) (x.toNat / 256 % 256) (x.toNat % 256)

example : inetNtoa (inetAddr (.lit "10.0x1.257")) = .lit "10.1.1.1" := by decide +kernel

def DottedQuad (s : CStr) : Prop :=
  ∃ a b c d, a < 256 ∧ b < 256 ∧ c < 256 ∧ d < 256 ∧ s = quad a b c d

theorem inetNtoa_dottedQuad (x : BitVec 32) : DottedQuad (inetNtoa x) := by
  have hx : x.toNat < 4294967296 := x.isLt
  have ha : x.toNat / 16777216 < 256 := by omega
  have hmod : ∀ n : ℕ, n % 256 < 256 := fun n => Nat.mod_lt n (by norm_num)
  exact ⟨x.toNat / 16777216, x.toNat / 65536 % 256, x.toNat / 256 % 256, x.toNat % 256,
    ha, hmod _, hmod _, hmod _, rfl⟩

theorem lit_dot : (CStr.lit ".").bytes = [46] := by decide

theorem lit_dot_length : (CStr.lit ".").length = 1 := congrArg List.length lit_dot

theorem DottedQuad.length_le {s : CStr} (h : DottedQuad s) : s.length ≤ 15 := by
  obtain ⟨a, b, c, d, ha, hb, hc, hd, rfl⟩ := h
  have h3 : ∀ n, n < 256 → (decimal n).length ≤ 3 := fun n hn =>
    length_decimal n 3 (by norm_num) (by omega)
  have := h3 a ha
  have := h3 b hb
  have := h3 c hc
  have := h3 d hd
  simp only [quad, CStr.length_append, lit_dot_length]
  omega

theorem DottedQuad.ne_empty {s : CStr} (h : DottedQuad s) : s ≠ .empty := by
  obtain ⟨a, b, c, d, -, -, -, -, rfl⟩ := h
  intro hempty
  have hlen := (CStr.eq_empty_iff_length _).mp hempty
  simp only [quad, CStr.length_append, lit_dot_length] at hlen
  omega

theorem DottedQuad.bytes {s : CStr} (h : DottedQuad s) :
    ∀ x ∈ s.bytes, x.val = 46 ∨ 48 ≤ x.val ∧ x.val ≤ 57 := by
  obtain ⟨a, b, c, d, -, -, -, -, rfl⟩ := h
  have hdot : ∀ x ∈ (CStr.lit ".").bytes, x.val = 46 := by
    rw [lit_dot]
    simp
  intro x hx
  simp only [quad, CStr.bytes_append, List.mem_append] at hx
  rcases hx with (((((hx | hx) | hx) | hx) | hx) | hx) | hx
  · exact Or.inr (decimalBytes_digit a x hx)
  · exact Or.inl (hdot x hx)
  · exact Or.inr (decimalBytes_digit b x hx)
  · exact Or.inl (hdot x hx)
  · exact Or.inr (decimalBytes_digit c x hx)
  · exact Or.inl (hdot x hx)
  · exact Or.inr (decimalBytes_digit d x hx)

end CText

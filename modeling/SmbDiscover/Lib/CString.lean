import Mathlib

/-!
# C strings and fixed character arrays

Bytes, NUL-free strings, and the `char[n]` objects that hold them. A `CStr` is
the value that `strlen` and `%s` see: the bytes before the first NUL. A
`CharArray n` is the whole object of `n` bytes, stale bytes behind the
terminator included; `strcpy`, `strncpy`, `snprintf` and the store of a NUL into
the first element act on all of it.
-/

namespace CText

abbrev Byte := Fin 256

instance neZero_byteCount : NeZero (256 : ℕ) := ⟨by decide⟩

def ascii (s : String) : List Byte := s.toList.map fun c => Fin.ofNat 256 c.toNat

/-! ### NUL-free strings -/

/-- The value of a C string: its bytes up to the terminator. -/
@[ext] structure CStr where
  bytes : List Byte
  nulFree : ∀ b ∈ bytes, b ≠ 0
  deriving DecidableEq

namespace CStr

def length (s : CStr) : ℕ := s.bytes.length

def empty : CStr := ⟨[], by simp⟩

/-- The string that a C function reads from these bytes. -/
def ofMemory (m : List Byte) : CStr :=
  ⟨m.takeWhile (· ≠ 0), fun b hb => by simpa using (List.mem_takeWhile_imp hb)⟩

def lit (s : String) : CStr := ofMemory (ascii s)

def append (s t : CStr) : CStr :=
  ⟨s.bytes ++ t.bytes, fun b hb => by
    rcases List.mem_append.mp hb with h | h
    · exact s.nulFree b h
    · exact t.nulFree b h⟩

instance : Append CStr := ⟨append⟩

def take (s : CStr) (k : ℕ) : CStr :=
  ⟨s.bytes.take k, fun b hb => s.nulFree b (List.mem_of_mem_take hb)⟩

/-- The bytes with the terminator. -/
def withNul (s : CStr) : List Byte := s.bytes ++ [0]

@[simp] theorem bytes_empty : empty.bytes = [] := rfl

@[simp] theorem bytes_append (s t : CStr) : (s ++ t).bytes = s.bytes ++ t.bytes := rfl

@[simp] theorem bytes_take (s : CStr) (k : ℕ) : (s.take k).bytes = s.bytes.take k := rfl

@[simp] theorem length_empty : empty.length = 0 := rfl

@[simp] theorem length_append (s t : CStr) : (s ++ t).length = s.length + t.length :=
  List.length_append

@[simp] theorem length_withNul (s : CStr) : s.withNul.length = s.length + 1 := by
  simp [withNul, length]

theorem bytes_injective : Function.Injective bytes := fun _ _ h => CStr.ext h

theorem eq_empty_iff (s : CStr) : s = empty ↔ s.bytes = [] := CStr.ext_iff

theorem eq_empty_iff_length (s : CStr) : s = empty ↔ s.length = 0 := by
  rw [eq_empty_iff, length, List.length_eq_zero_iff]

theorem take_of_length_le (s : CStr) {k : ℕ} (h : s.length ≤ k) : s.take k = s := by
  ext1
  exact List.take_of_length_le h

theorem zero_notMem (s : CStr) : (0 : Byte) ∉ s.bytes := fun h => s.nulFree 0 h rfl

theorem ofMemory_terminated (s : CStr) (rest : List Byte) :
    ofMemory (s.bytes ++ 0 :: rest) = s := by
  ext1
  have h : ∀ b ∈ s.bytes, (decide (b ≠ 0)) = true := fun b hb => by simpa using s.nulFree b hb
  show (s.bytes ++ 0 :: rest).takeWhile (· ≠ 0) = s.bytes
  rw [List.takeWhile_append_of_pos h]
  simp

theorem bytes_ofMemory (m : List Byte) (h : ∀ b ∈ m, b ≠ 0) : (ofMemory m).bytes = m :=
  List.takeWhile_eq_self_iff.mpr fun b hb => by simpa using h b hb

theorem ofMemory_bytes (s : CStr) : ofMemory s.bytes = s := by
  ext1
  exact bytes_ofMemory s.bytes s.nulFree

theorem ofMemory_zero_cons (rest : List Byte) : ofMemory (0 :: rest) = empty :=
  ofMemory_terminated empty rest

theorem ofMemory_eq_empty_iff (m : List Byte) : ofMemory m = empty ↔ m.headD 0 = 0 := by
  rw [eq_empty_iff]
  cases m with
  | nil => simp [ofMemory]
  | cons b rest => by_cases hb : b = 0 <;> simp [ofMemory, hb]

end CStr

/-! ### Character arrays -/

/-- A `char` array of `n` bytes. -/
@[ext] structure CharArray (n : ℕ) where
  data : List Byte
  size : data.length = n
  deriving DecidableEq

namespace CharArray
variable {n : ℕ}

def zero (n : ℕ) : CharArray n := ⟨List.replicate n 0, List.length_replicate⟩

/-- The string that the array holds, whatever is behind its terminator. -/
def str (a : CharArray n) : CStr := .ofMemory a.data

def first (a : CharArray n) : Byte := a.data.headD 0

def Terminated (a : CharArray n) : Prop := 0 ∈ a.data

instance (a : CharArray n) : Decidable a.Terminated :=
  inferInstanceAs (Decidable (0 ∈ a.data))

/-- A store of some bytes at the start of the array. -/
def overwrite (a : CharArray n) (bs : List Byte) (h : bs.length ≤ n) : CharArray n :=
  ⟨bs ++ a.data.drop bs.length, by
    rw [List.length_append, List.length_drop, a.size]
    omega⟩

def strcpy (a : CharArray n) (s : CStr) (h : s.length < n) : CharArray n :=
  a.overwrite s.withNul (by rw [CStr.length_withNul]; omega)

/-- `strncpy(a, s, sizeof(a))`: at most `n` bytes, padded with NUL bytes, and no
terminator when the string is too long. -/
def strncpy (n : ℕ) (s : CStr) : CharArray n :=
  ⟨s.bytes.take n ++ List.replicate (n - s.length) 0, by
    simp only [CStr.length, List.length_append, List.length_take, List.length_replicate]
    omega⟩

/-- `snprintf(a, k, …)` of a formatted text with `0 < k ≤ n`: at most `k - 1`
bytes and a terminator. -/
def snprintf (a : CharArray n) (k : ℕ) (text : CStr) (hk : 0 < k ∧ k ≤ n) : CharArray n :=
  a.overwrite (text.take (k - 1)).withNul (by
    rw [CStr.length_withNul]
    simp only [CStr.length, CStr.bytes_take, List.length_take]
    omega)

/-- The first byte is set to NUL. -/
def clearFirst (a : CharArray n) : CharArray n :=
  ⟨a.data.set 0 0, by rw [List.length_set, a.size]⟩

@[simp] theorem str_zero (n : ℕ) : (zero n).str = .empty := by
  cases n with
  | zero => rfl
  | succ n => exact CStr.ofMemory_zero_cons _

theorem str_overwrite (a : CharArray n) (s : CStr) (h : s.withNul.length ≤ n) :
    (a.overwrite s.withNul h).str = s := by
  show CStr.ofMemory (s.withNul ++ a.data.drop s.withNul.length) = s
  rw [CStr.withNul, List.append_assoc, List.singleton_append]
  exact CStr.ofMemory_terminated s _

@[simp] theorem str_strcpy (a : CharArray n) (s : CStr) (h : s.length < n) :
    (a.strcpy s h).str = s := str_overwrite a s _

@[simp] theorem str_snprintf (a : CharArray n) (k : ℕ) (text : CStr) (hk : 0 < k ∧ k ≤ n) :
    (a.snprintf k text hk).str = text.take (k - 1) := str_overwrite a _ _

@[simp] theorem str_clearFirst (a : CharArray n) : a.clearFirst.str = .empty := by
  cases h : a.data with
  | nil =>
    show CStr.ofMemory (a.data.set 0 0) = .empty
    rw [h]
    rfl
  | cons b rest =>
    show CStr.ofMemory (a.data.set 0 0) = .empty
    rw [h]
    exact CStr.ofMemory_zero_cons rest

theorem first_eq_zero_iff (a : CharArray n) : a.first = 0 ↔ a.str = .empty :=
  (CStr.ofMemory_eq_empty_iff a.data).symm

theorem terminated_of_length_lt (a : CharArray n) (h : a.str.length < n) : a.Terminated := by
  by_contra hnone
  have hall : ∀ b ∈ a.data, decide (b ≠ 0) = true := by
    intro b hb
    have hne : b ≠ 0 := fun h0 => hnone (by rwa [h0] at hb)
    simpa using hne
  have hlen : a.str.length = a.data.length :=
    congrArg List.length (List.takeWhile_eq_self_iff.mpr hall)
  rw [hlen, a.size] at h
  omega

theorem strncpy_of_fits (s : CStr) (h : s.length < n) :
    (strncpy n s).Terminated ∧ (strncpy n s).str = s := by
  obtain ⟨k, hk⟩ : ∃ k, n - s.length = k + 1 := ⟨n - s.length - 1, by omega⟩
  have hdata : (strncpy n s).data = s.bytes ++ 0 :: List.replicate k 0 := by
    show s.bytes.take n ++ List.replicate (n - s.length) 0 = _
    rw [List.take_of_length_le (Nat.le_of_lt h), hk, List.replicate_succ]
  constructor
  · rw [Terminated, hdata]
    simp
  · rw [str, hdata]
    exact CStr.ofMemory_terminated s _

theorem strncpy_of_long (s : CStr) (h : n ≤ s.length) : ¬ (strncpy n s).Terminated := by
  have hdata : (strncpy n s).data = s.bytes.take n := by
    show s.bytes.take n ++ List.replicate (n - s.length) 0 = _
    rw [Nat.sub_eq_zero_of_le h, List.replicate_zero, List.append_nil]
  rw [Terminated, hdata]
  exact fun hm => s.zero_notMem (List.mem_of_mem_take hm)

end CharArray
end CText

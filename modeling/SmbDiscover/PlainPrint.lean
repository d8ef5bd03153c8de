import SmbDiscover.Lib.Numeric
import SmbDiscover.Memory
import SmbDiscover.Printing

/-!
# Printing into fresh blocks (cJSON.c:618-969, 1052-1216, 1313-1585, with `p` NULL)

`cJSON_Print` and `cJSON_PrintUnformatted` on a heap: each call of a print function
allocates the block of its own text, sized in advance, and an array or an object first
collects the blocks of its children in allocated arrays of pointers. Sizes are of type
`int`; one that does not fit is `none`, like a store behind a block.
-/

namespace SmbDiscover
open CText JsonText CJson

/-! ### A block that is filled -/

/-- The block begins with `w`, and has `room` more bytes. -/
def Filled (h h' : Memory) (out : ℕ) (w : List Byte) (room : ℕ) (own : List (ℕ × Cell)) : Prop :=
  ∃ junk : List (Option Byte), junk.length = room ∧
    h.Adds h' ((out, .text (w.map some ++ junk)) :: own)

variable {h h' : Memory} {out : ℕ} {w : List Byte} {room : ℕ} {own : List (ℕ × Cell)}

theorem Filled.store (filled : Filled h h' out w room own) (off : ℕ) (bs : List Byte)
    (hoff : off = w.length) (hfit : bs.length ≤ room) :
    ∃ h'', store h' out off bs = some h'' ∧
      Filled h h'' out (w ++ bs) (room - bs.length) own ∧ h''.next = h'.next := by
  obtain ⟨junk, hjunk, adds⟩ := filled
  obtain ⟨h'', hwrite, adds', hnext⟩ :=
    adds.write (.text ((w ++ bs).map some ++ junk.drop bs.length))
  refine ⟨h'', ?_, ⟨_, ?_, adds'⟩, hnext⟩
  · unfold SmbDiscover.store
    rw [adds.read (List.mem_cons_self ..)]
    simp only [hoff, storeBytes_at w bs junk (by omega), Option.bind_some]
    exact hwrite
  · rw [List.length_drop, hjunk]

/-- A store of a text and its terminator, which the next store goes over. -/
theorem Filled.storeNul (filled : Filled h h' out w room own) (off : ℕ) (bs : List Byte)
    (hoff : off = w.length) (hfit : bs.length < room) :
    ∃ h'', SmbDiscover.store h' out off (bs ++ [0]) = some h'' ∧
      Filled h h'' out (w ++ bs) (room - bs.length) own ∧ h''.next = h'.next := by
  have hlen : (bs ++ [0]).length = bs.length + 1 := List.length_append
  obtain ⟨h'', hstore, ⟨junk, hjunk, adds⟩, hnext⟩ := filled.store off (bs ++ [0]) hoff (by omega)
  refine ⟨h'', hstore, ⟨some 0 :: junk, ?_, ?_⟩, hnext⟩
  · rw [List.length_cons]
    omega
  · have hsplit : (w ++ (bs ++ [0])).map some ++ junk =
        (w ++ bs).map some ++ some 0 :: junk := by simp
    rw [hsplit] at adds
    exact adds

theorem filled_malloc (ok : ℕ → Bool) (h : Memory) (size : ℕ) (hok : ok h.next = true) :
    ∃ out h', mallocText ok h size = (some out, h') ∧ Filled h h' out [] size [] ∧
      h'.next = h.next + 1 := by
  obtain ⟨out, h', hmalloc, adds, hnext⟩ := Heap.adds_malloc ok h _ hok
  exact ⟨out, h', hmalloc, ⟨_, List.length_replicate, adds⟩, hnext⟩

/-! ### Outcomes of a print function -/

/-- NULL behind a failed allocation, with nothing left allocated, or one block with the
text. -/
def Prints (ok : ℕ → Bool) (h h' : Memory) (text : List Byte) : Option ℕ → Prop
  | none => ¬ Heap.Clean ok h.next h'.next ∧ h.Adds h' []
  | some out => Heap.Clean ok h.next h'.next ∧ ∃ junk,
      h.Adds h' [(out, .text ((text ++ [0]).map some ++ junk))]

theorem prints_failed (ok : ℕ → Bool) (h : Memory) (size : ℕ) (text : List Byte)
    (hok : ok h.next = false) :
    ∃ h', mallocText ok h size = (none, h') ∧ Prints ok h h' text none := by
  obtain ⟨h', hmalloc, adds, hnext⟩ := Heap.malloc_failed ok h _ hok
  refine ⟨h', hmalloc, fun hclean => ?_, adds⟩
  rw [hnext] at hclean
  rw [(Heap.clean_one ok h.next).mp hclean] at hok
  cases hok

theorem prints_filled (ok : ℕ → Bool) (text : List Byte) (hok : ok h.next = true)
    (hnext : h'.next = h.next + 1) (filled : Filled h h' out (text ++ [0]) room []) :
    Prints ok h h' text (some out) := by
  obtain ⟨junk, -, adds⟩ := filled
  refine ⟨?_, junk, adds⟩
  rw [hnext]
  exact (Heap.clean_one ok h.next).mpr hok

/-! ### `print_string_ptr` and `cJSON_strdup` -/

namespace Plain

/-- One `malloc` of the size and one copy of the bytes. -/
def copyText (ok : ℕ → Bool) (size : ℕ) (bs : List Byte) (h : Memory) :
    Option (Option ℕ × Memory) :=
  match mallocText ok h size with
  | (none, h) => some (none, h)
  | (some out, h) => (store h out 0 bs).map fun h => (some out, h)

def strdup (ok : ℕ → Bool) (str : List Byte) (h : Memory) : Option (Option ℕ × Memory) :=
  copyText ok (str.length + 1) (str ++ [0]) h

/-- `char` is signed, so a byte from 128 on is not below 32. -/
def flagged (c : Byte) : Bool := (0 < c.val && c.val < 32) || c = 34 || c = 92

/-- The loop that adds up the space for the escapes (cJSON.c:679-691). -/
def escapedLen : ℕ → List Byte → Option ℕ
  | len, [] => some len
  | len, token :: rest =>
    (intAdd len 1).bind fun len =>
    (intAdd len (if token ∈ [34, 92, 8, 12, 10, 13, 9] then 1
      else if token.val < 32 then 5 else 0)).bind fun len =>
    escapedLen len rest

/-- The copy loop; `sprintf` stores the terminator too. -/
def copyEscaped (out : ℕ) : ℕ → List Byte → Memory → Option (ℕ × Memory)
  | off, [], h => some (off, h)
  | off, c :: rest, h =>
    if 31 < c.val ∧ c ≠ 34 ∧ c ≠ 92 then
      (store h out off [c]).bind fun h => copyEscaped out (off + 1) rest h
    else
      (store h out off [92]).bind fun h =>
        match namedEscape c with
        | some e => (store h out (off + 1) [e]).bind fun h => copyEscaped out (off + 2) rest h
        | none =>
          (store h out (off + 1)
              [117, 48, 48, hexDigit (c.val / 16), hexDigit (c.val % 16), 0]).bind fun h =>
            copyEscaped out (off + 6) rest h

/-- cJSON.c:618-760, with `p` NULL -/
def printStringPtr (ok : ℕ → Bool) (str : Option CStr) (h : Memory) :
    Option (Option ℕ × Memory) :=
  match str with
  | none => copyText ok 3 [34, 34, 0] h
  | some str =>
    if str.bytes.any flagged = false then
      let len := str.length
      (intAdd len 3).bind fun size =>
      match mallocText ok h size with
      | (none, h) => some (none, h)
      | (some out, h) =>
        (store h out 0 [34]).bind fun h =>
        (store h out 1 str.withNul).bind fun h =>
        (store h out (1 + len) [34]).bind fun h =>
        (store h out (1 + len + 1) [0]).map fun h => (some out, h)
    else
      (escapedLen 0 str.bytes).bind fun len =>
      (intAdd len 3).bind fun size =>
      match mallocText ok h size with
      | (none, h) => some (none, h)
      | (some out, h) =>
        (store h out 0 [34]).bind fun h =>
        (copyEscaped out 1 str.bytes h).bind fun p =>
        (store p.2 out p.1 [34]).bind fun h =>
        (store h out (p.1 + 1) [0]).map fun h => (some out, h)

theorem copyText_spec (ok : ℕ → Bool) (size : ℕ) (text : List Byte) (h : Memory)
    (hfit : text.length < size) :
    ∃ r h', copyText ok size (text ++ [0]) h = some (r, h') ∧ Prints ok h h' text r := by
  unfold copyText
  cases hok : ok h.next with
  | false =>
    obtain ⟨h', hmalloc, hprints⟩ := prints_failed ok h size text hok
    rw [hmalloc]
    exact ⟨none, h', rfl, hprints⟩
  | true =>
    obtain ⟨out, h₁, hmalloc, filled, hnext⟩ := filled_malloc ok h size hok
    obtain ⟨h₂, hstore, filled, hnext₂⟩ := filled.store 0 (text ++ [0]) rfl
      (by rw [List.length_append]; exact hfit)
    rw [hmalloc]
    simp only [hstore, Option.map_some]
    exact ⟨some out, h₂, rfl, prints_filled ok text hok (hnext₂.trans hnext) filled⟩

theorem namedEscape_none_iff (c : Byte) :
    namedEscape c = none ↔ c ∉ ([34, 92, 8, 12, 10, 13, 9] : List Byte) := by
  unfold namedEscape
  split <;> simp_all

theorem escapeByte_length (c : Byte) : (escapeByte c).length =
    1 + if c ∈ ([34, 92, 8, 12, 10, 13, 9] : List Byte) then 1 else if c.val < 32 then 5 else 0 := by
  have hnamed := namedEscape_none_iff c
  by_cases hplain : 31 < c.val ∧ c ≠ 34 ∧ c ≠ 92
  · have hhigh : ¬ c.val < 32 := by omega
    have hnot : c ∉ ([34, 92, 8, 12, 10, 13, 9] : List Byte) := by
      intro hmem
      simp only [List.mem_cons, hplain.2.1, hplain.2.2, List.not_mem_nil, or_false, false_or] at hmem
      rcases hmem with rfl | rfl | rfl | rfl | rfl <;> exact hhigh (by decide)
    rw [escapeByte, if_pos hplain, if_neg hnot, if_neg hhigh]
    rfl
  · rw [escapeByte, if_neg hplain]
    cases he : namedEscape c with
    | some e =>
      have hmem : c ∈ ([34, 92, 8, 12, 10, 13, 9] : List Byte) := by
        by_contra hnot
        rw [hnamed.mpr hnot] at he
        cases he
      rw [if_pos hmem]
      rfl
    | none =>
      have hnot := hnamed.mp he
      have hne : c ≠ 34 ∧ c ≠ 92 := by
        refine ⟨fun h => hnot ?_, fun h => hnot ?_⟩
        · rw [h]
          exact List.mem_cons_self ..
        · rw [h]
          exact List.mem_cons_of_mem _ (List.mem_cons_self ..)
      have hlow : c.val < 32 := by
        by_contra hhigh
        exact hplain ⟨by omega, hne⟩
      rw [if_neg hnot, if_pos hlow]
      rfl

theorem escapedLen_eq (str : List Byte) : ∀ len : ℕ,
    len + (str.flatMap escapeByte).length ≤ intMax →
      escapedLen len str = some (len + (str.flatMap escapeByte).length) := by
  induction str with
  | nil => exact fun len _ => rfl
  | cons c rest ih =>
    intro len hfit
    have hlen := escapeByte_length c
    rw [List.flatMap_cons, List.length_append] at hfit ⊢
    rw [escapedLen, intAdd_of_le (by omega), Option.bind_some, intAdd_of_le (by omega),
      Option.bind_some, Nat.add_assoc len 1, ← hlen, ih _ (by omega), Nat.add_assoc]

theorem unflagged_text (str : List Byte) (hnul : 0 ∉ str) (h : str.any flagged = false) :
    str.flatMap escapeByte = str := by
  have hself : ∀ c ∈ str, escapeByte c = [c] := by
    intro c hc
    have hflag := List.any_eq_false.mp h c hc
    have hzero : c.val ≠ 0 := fun h0 => hnul (by rwa [Fin.val_eq_zero_iff.mp h0] at hc)
    simp only [flagged, Bool.or_eq_true, Bool.and_eq_true, decide_eq_true_eq, not_or, not_and] at hflag
    obtain ⟨⟨hrange, h34⟩, h92⟩ := hflag
    refine if_pos ⟨?_, h34, h92⟩
    have := hrange (by omega)
    omega
  rw [List.flatMap_congr hself]
  exact List.flatMap_singleton' str

theorem copyEscaped_spec (str : List Byte) :
    ∀ (h h' : Memory) (out off : ℕ) (w : List Byte) (room : ℕ), Filled h h' out w room [] →
      off = w.length → (str.flatMap escapeByte).length < room →
      ∃ h'', copyEscaped out off str h' = some (off + (str.flatMap escapeByte).length, h'') ∧
        Filled h h'' out (w ++ str.flatMap escapeByte)
          (room - (str.flatMap escapeByte).length) [] ∧ h''.next = h'.next := by
  induction str with
  | nil =>
    intro h h' out off w room filled hoff hroom
    refine ⟨h', rfl, ?_, rfl⟩
    rw [List.flatMap_nil, List.append_nil]
    exact filled
  | cons c rest ih =>
    intro h h' out off w room filled hoff hroom
    rw [List.flatMap_cons] at hroom ⊢
    rw [List.length_append] at hroom ⊢
    have hone : ∀ (h₁ : Memory) (k : ℕ), k = (escapeByte c).length → h₁.next = h'.next →
        Filled h h₁ out (w ++ escapeByte c) (room - k) [] →
        ∃ h'', copyEscaped out (off + k) rest h₁ =
            some (off + ((escapeByte c).length + (rest.flatMap escapeByte).length), h'') ∧
          Filled h h'' out (w ++ (escapeByte c ++ rest.flatMap escapeByte))
            (room - ((escapeByte c).length + (rest.flatMap escapeByte).length)) [] ∧
          h''.next = h'.next := by
      intro h₁ k hk hnext₁ filled₁
      obtain ⟨h₂, hcopy, filled₂, hnext₂⟩ := ih h h₁ out (off + k) _ _ filled₁
        (by rw [List.length_append]; omega) (by omega)
      refine ⟨h₂, ?_, ?_, hnext₂.trans hnext₁⟩
      · rw [hcopy, hk, Nat.add_assoc]
      · rw [List.append_assoc, Nat.sub_sub, hk] at filled₂
        exact filled₂
    unfold copyEscaped
    by_cases hplain : 31 < c.val ∧ c ≠ 34 ∧ c ≠ 92
    · have hself : escapeByte c = [c] := if_pos hplain
      rw [hself] at hroom hone ⊢
      obtain ⟨h₁, hstore, filled₁, hnext₁⟩ := filled.store off [c] hoff (by omega)
      rw [if_pos hplain, hstore]
      exact hone h₁ 1 rfl hnext₁ filled₁
    · rw [if_neg hplain]
      cases hnamed : namedEscape c with
      | some e =>
        have hself : escapeByte c = [92, e] := by rw [escapeByte, if_neg hplain, hnamed]
        rw [hself] at hroom hone ⊢
        have htwo : ([92, e] : List Byte).length = 2 := rfl
        rw [htwo] at hroom
        obtain ⟨h₁, hstore, filled₁, hnext₁⟩ := filled.store off [92] hoff
          (by rw [List.length_singleton]; omega)
        obtain ⟨h₂, hstore₂, filled₂, hnext₂⟩ := filled₁.store (off + 1) [e]
          (by rw [List.length_append, hoff]; rfl) (by simp only [List.length_singleton]; omega)
        rw [List.append_assoc, Nat.sub_sub] at filled₂
        rw [hstore]
        simp only [Option.bind_some, hstore₂]
        exact hone h₂ 2 rfl (hnext₂.trans hnext₁) filled₂
      | none =>
        have hself : escapeByte c =
            [92, 117, 48, 48, hexDigit (c.val / 16), hexDigit (c.val % 16)] := by
          rw [escapeByte, if_neg hplain, hnamed]
        rw [hself] at hroom hone ⊢
        have hsix : ([92, 117, 48, 48, hexDigit (c.val / 16), hexDigit (c.val % 16)] :
            List Byte).length = 6 := rfl
        rw [hsix] at hroom
        obtain ⟨h₁, hstore, filled₁, hnext₁⟩ := filled.store off [92] hoff
          (by rw [List.length_singleton]; omega)
        obtain ⟨h₂, hstore₂, filled₂, hnext₂⟩ := filled₁.storeNul (off + 1)
          [117, 48, 48, hexDigit (c.val / 16), hexDigit (c.val % 16)]
          (by rw [List.length_append, hoff]; rfl)
          (by simp only [List.length_cons, List.length_nil]; omega)
        rw [List.append_assoc, Nat.sub_sub] at filled₂
        rw [hstore]
        simp only [Option.bind_some]
        rw [show ([117, 48, 48, hexDigit (c.val / 16), hexDigit (c.val % 16), 0] : List Byte) =
          [117, 48, 48, hexDigit (c.val / 16), hexDigit (c.val % 16)] ++ [0] from rfl, hstore₂]
        exact hone h₂ 6 rfl (hnext₂.trans hnext₁) filled₂

theorem printStringPtr_spec (ok : ℕ → Bool) (str : Option CStr) (h : Memory)
    (hshort : (quoted (str.getD .empty).bytes).length + 1 ≤ intMax) :
    ∃ r h', printStringPtr ok str h = some (r, h') ∧
      Prints ok h h' (quoted (str.getD .empty).bytes) r := by
  cases str with
  | none => exact copyText_spec ok 3 [34, 34] h (by decide)
  | some str =>
    have hquoted : quoted ((some str).getD .empty).bytes ++ [0] =
        [34] ++ str.bytes.flatMap escapeByte ++ [34] ++ [0] := rfl
    have hsize : (str.bytes.flatMap escapeByte).length + 3 ≤ intMax := by
      simp only [quoted, Option.getD_some, List.length_cons, List.length_append,
        List.length_nil] at hshort
      omega
    unfold printStringPtr
    simp only
    by_cases hflag : str.bytes.any flagged = false
    · rw [unflagged_text str.bytes str.zero_notMem hflag] at hquoted hsize
      have hlen : intAdd str.length 3 = some (str.length + 3) := intAdd_of_le hsize
      rw [if_pos hflag, hlen, Option.bind_some]
      cases hok : ok h.next with
      | false =>
        obtain ⟨h', hmalloc, hprints⟩ := prints_failed ok h (str.length + 3) _ hok
        rw [hmalloc]
        exact ⟨none, h', rfl, hprints⟩
      | true =>
        obtain ⟨out, h₁, hmalloc, filled₁, hnext₁⟩ := filled_malloc ok h (str.length + 3) hok
        obtain ⟨h₂, hstore₂, filled₂, hnext₂⟩ := filled₁.store 0 [34] rfl
          (by rw [List.length_singleton]; omega)
        obtain ⟨h₃, hstore₃, filled₃, hnext₃⟩ := filled₂.storeNul 1 str.bytes rfl
          (by rw [List.length_singleton, CStr.length]; omega)
        obtain ⟨h₄, hstore₄, filled₄, hnext₄⟩ := filled₃.store (1 + str.length) [34]
          (by rw [List.nil_append, List.length_append, CStr.length]; rfl)
          (by simp only [List.length_singleton, CStr.length]; omega)
        obtain ⟨h₅, hstore₅, filled₅, hnext₅⟩ := filled₄.store (1 + str.length + 1) [0]
          (by simp only [List.nil_append, List.length_append, List.length_singleton, CStr.length])
          (by simp only [List.length_singleton, CStr.length]; omega)
        rw [hmalloc]
        simp only [hstore₂, Option.bind_some, CStr.withNul, hstore₃, hstore₄, hstore₅, Option.map_some]
        rw [List.nil_append, ← hquoted] at filled₅
        exact ⟨some out, h₅, rfl, prints_filled ok _ hok (by omega) filled₅⟩
    · rw [if_neg hflag, escapedLen_eq str.bytes 0 (by omega), Option.bind_some, Nat.zero_add,
        intAdd_of_le hsize, Option.bind_some]
      cases hok : ok h.next with
      | false =>
        obtain ⟨h', hmalloc, hprints⟩ :=
          prints_failed ok h ((str.bytes.flatMap escapeByte).length + 3) _ hok
        rw [hmalloc]
        exact ⟨none, h', rfl, hprints⟩
      | true =>
        obtain ⟨out, h₁, hmalloc, filled₁, hnext₁⟩ :=
          filled_malloc ok h ((str.bytes.flatMap escapeByte).length + 3) hok
        obtain ⟨h₂, hstore₂, filled₂, hnext₂⟩ := filled₁.store 0 [34] rfl
          (by rw [List.length_singleton]; omega)
        obtain ⟨h₃, hcopy, filled₃, hnext₃⟩ := copyEscaped_spec str.bytes h h₂ out 1 _ _ filled₂ rfl
          (by rw [List.length_singleton]; omega)
        obtain ⟨h₄, hstore₄, filled₄, hnext₄⟩ :=
          filled₃.store (1 + (str.bytes.flatMap escapeByte).length) [34]
            (by rw [List.nil_append, List.length_append]; rfl)
            (by simp only [List.length_singleton]; omega)
        obtain ⟨h₅, hstore₅, filled₅, hnext₅⟩ :=
          filled₄.store (1 + (str.bytes.flatMap escapeByte).length + 1) [0]
            (by simp only [List.nil_append, List.length_append, List.length_singleton])
            (by simp only [List.length_singleton]; omega)
        rw [hmalloc]
        simp only [hstore₂, Option.bind_some, hcopy, hstore₄, hstore₅, Option.map_some]
        rw [List.nil_append, ← hquoted] at filled₅
        exact ⟨some out, h₅, rfl, prints_filled ok _ hok (by omega) filled₅⟩

end Plain
end SmbDiscover

import SmbDiscover.Context
import SmbDiscover.Lib.Fields

/-!
# The workgroup splitter (`_parse_workgroups`, smb_discover.c:127-188)

The argument is split in place in `argCopy`. Memory is the copy with its
terminator and the bytes that follow it; `pStart` and `pStop` are offsets from
`argCopy`. A read outside the listed memory is `none`. `touched` collects every
offset that the loops read or write.
-/

namespace SmbDiscover
open CText ListText CJson

/-- What the allocator and the memory answer to one call: `cJSON_CreateArray`, the
`malloc` of the copy, the `k`-th `cJSON_CreateString`, and the bytes behind the
copy. -/
structure SplitMemory where
  array : Bool
  copy : Bool
  string : ℕ → Bool
  after : List Byte

def SplitMemory.plenty : SplitMemory := ⟨true, true, fun _ => true, [0]⟩

/-- The variables of `_parse_workgroups` and the copy of the argument. -/
structure Cursor where
  mem : List Byte
  pStart : ℕ
  pStop : ℕ
  names : List CStr
  strings : ℕ
  touched : List ℕ

/-- The search for a colon (smb_discover.c:159-163), with the offsets that it reads. -/
def scanField (mem : List Byte) : ℕ → ℕ → Option (ℕ × List ℕ)
  | 0, _ => none
  | fuel + 1, pStop =>
    match mem[pStop]? with
    | none => none
    | some c =>
      if c ≠ 0 ∧ c ≠ 58 then (scanField mem fuel (pStop + 1)).map fun p => (p.1, pStop :: p.2)
      else some (pStop, [pStop])

/-- smb_discover.c:168; reads the string at `pStart`. -/
def addWorkgroup (env : SplitMemory) (st : Cursor) (name : CStr) : Cursor :=
  { st with
    names := addItemToArray st.names (create (env.string st.strings) name)
    strings := st.strings + 1
    touched := st.touched ++ List.range' st.pStart (name.length + 1) }

/-- The body of the outer loop (smb_discover.c:156-174). -/
def splitField (env : SplitMemory) (st : Cursor) : Option Cursor :=
  match scanField st.mem (st.mem.length + 1) st.pStop with
  | none => none
  | some (pStop, reads) =>
    let mem := st.mem.set pStop 0
    let part := CStr.ofMemory (mem.drop st.pStart)
    -- the store of the NUL and `strlen(pStart)`
    let touched := st.touched ++ reads ++ pStop :: List.range' st.pStart (part.length + 1)
    let st := { st with mem, pStop, touched }
    let st := if part.length ≠ 0 then addWorkgroup env st part else st
    some { st with pStop := pStop + 1, pStart := pStop + 1 }

/-- `while (*pStop)`; the copy is shorter than the fuel. -/
def splitLoop (env : SplitMemory) : ℕ → Cursor → Option Cursor
  | 0, _ => none
  | fuel + 1, st =>
    match st.mem[st.pStop]? with
    | none => none
    | some c =>
      let st := { st with touched := st.touched ++ [st.pStop] }
      if c ≠ 0 then
        match splitField env st with
        | none => none
        | some st => splitLoop env fuel st
      else some st

/-- smb_discover.c:177-180 -/
def splitTail (env : SplitMemory) (st : Cursor) : Cursor :=
  if st.pStart ≠ st.pStop then addWorkgroup env st (.ofMemory (st.mem.drop st.pStart)) else st

def splitStart (env : SplitMemory) (arg : CStr) : Cursor :=
  ⟨arg.withNul ++ env.after, 0, 0, [], 0, []⟩

def splitWorkgroups (env : SplitMemory) (arg : CStr) : Option Cursor :=
  (splitLoop env ((splitStart env arg).mem.length + 1) (splitStart env arg)).map (splitTail env)

/-- smb_discover.c:127-188 -/
def parseWorkgroups (env : SplitMemory) (arg : CStr) (ctx : Context) : Option (ℤ × Context) :=
  if arg.length = 0 then some (-1, ctx)
  else if env.array = false then some (-1, { ctx with smbWorkgroups := none })
  else if env.copy = false then some (-1, { ctx with smbWorkgroups := some [] })
  else match splitWorkgroups env arg with
    | none => none
    | some st => some (0, { ctx with smbWorkgroups := some st.names })

/-! ### The splitter computes the fields -/

theorem getElem?_of_drop {mem rest : List Byte} {i : ℕ} {c : Byte}
    (h : mem.drop i = c :: rest) : mem[i]? = some c := by
  have h0 : (mem.drop i)[0]? = mem[i + 0]? := List.getElem?_drop
  rw [h] at h0
  exact h0.symm

theorem drop_succ_of_drop {mem rest : List Byte} {i : ℕ} {c : Byte}
    (h : mem.drop i = c :: rest) : mem.drop (i + 1) = rest := by
  rw [← List.drop_drop, h]
  rfl

def FieldBytes (x : List Byte) : Prop := ∀ b ∈ x, b ≠ 0 ∧ b ≠ 58

theorem scanField_spec (mem x rest : List Byte) (c : Byte) (fuel i : ℕ)
    (hmem : mem.drop i = x ++ c :: rest) (hx : FieldBytes x) (hc : c = 0 ∨ c = 58)
    (hfuel : x.length < fuel) :
    scanField mem fuel i = some (i + x.length, List.range' i (x.length + 1)) := by
  induction x generalizing fuel i with
  | nil =>
    obtain ⟨fuel, rfl⟩ : ∃ k, fuel = k + 1 := ⟨fuel - 1, by simp at hfuel; omega⟩
    have hstop : ¬ (c ≠ 0 ∧ c ≠ 58) := by
      rintro ⟨h0, h58⟩
      exact hc.elim h0 h58
    simp only [scanField, getElem?_of_drop hmem, if_neg hstop]
    rfl
  | cons b x ih =>
    obtain ⟨fuel, rfl⟩ : ∃ k, fuel = k + 1 := ⟨fuel - 1, by omega⟩
    have hb := hx b (List.mem_cons_self ..)
    have hrec := ih fuel (i + 1) (drop_succ_of_drop hmem)
      (fun y hy => hx y (List.mem_cons_of_mem _ hy))
      (by simp only [List.length_cons] at hfuel; omega)
    simp only [scanField, getElem?_of_drop hmem, if_pos hb, hrec, Option.map_some]
    have hlen : i + 1 + x.length = i + (b :: x).length := by
      rw [List.length_cons]
      omega
    rw [hlen]
    rfl

theorem set_drop (mem x rest : List Byte) (c : Byte) (i : ℕ)
    (hmem : mem.drop i = x ++ c :: rest) :
    (mem.set (i + x.length) 0).drop i = x ++ 0 :: rest ∧
      (mem.set (i + x.length) 0).drop (i + x.length + 1) = rest := by
  constructor
  · rw [List.drop_set, if_neg (by omega), hmem, Nat.add_sub_cancel_left,
      List.set_append_right _ _ le_rfl, Nat.sub_self]
    rfl
  · rw [List.drop_set_of_lt (by omega), Nat.add_assoc, ← List.drop_drop, hmem,
      ← List.drop_drop, List.drop_left]
    rfl

def cstr (x : List Byte) (hx : FieldBytes x) : CStr := ⟨x, fun b hb => (hx b hb).1⟩

/-- The cursor when the NUL behind the field `x` is stored. -/
def fieldEnd (st : Cursor) (x : List Byte) : Cursor :=
  { st with
    mem := st.mem.set (st.pStop + x.length) 0
    pStop := st.pStop + x.length
    touched := st.touched ++ List.range' st.pStop (x.length + 1) ++
      (st.pStop + x.length) :: List.range' st.pStop (x.length + 1) }

def fieldStep (env : SplitMemory) (st : Cursor) (x : List Byte) (hx : FieldBytes x) : Cursor :=
  { (if x = [] then fieldEnd st x else addWorkgroup env (fieldEnd st x) (cstr x hx)) with
    pStop := st.pStop + x.length + 1
    pStart := st.pStop + x.length + 1 }

theorem splitField_eq (env : SplitMemory) (st : Cursor) (x rest : List Byte) (c : Byte)
    (hpos : st.pStart = st.pStop) (hmem : st.mem.drop st.pStop = x ++ c :: rest)
    (hx : FieldBytes x) (hc : c = 0 ∨ c = 58) :
    splitField env st = some (fieldStep env st x hx) := by
  have hlen : x.length < st.mem.length + 1 := by
    have := congrArg List.length hmem
    simp only [List.length_drop, List.length_append, List.length_cons] at this
    omega
  have hscan := scanField_spec st.mem x rest c _ st.pStop hmem hx hc hlen
  have hname := (set_drop st.mem x rest c st.pStop hmem).1
  have hpart : CStr.ofMemory ((st.mem.set (st.pStop + x.length) 0).drop st.pStop) = cstr x hx := by
    rw [hname]
    exact CStr.ofMemory_terminated (cstr x hx) rest
  have hpartLen : (cstr x hx).length = x.length := rfl
  unfold splitField fieldStep
  rw [hscan]
  simp only [hpos, hpart, hpartLen]
  cases x with
  | nil => rfl
  | cons b x => simp [fieldEnd, addWorkgroup, hpos]

def Cursor.readStop (st : Cursor) : Cursor := { st with touched := st.touched ++ [st.pStop] }

theorem fieldStep_spec (env : SplitMemory) (st : Cursor) (x rest : List Byte) (c : Byte)
    (hmem : st.mem.drop st.pStop = x ++ c :: rest) (hx : FieldBytes x) :
    (fieldStep env st.readStop x hx).mem.drop (fieldStep env st.readStop x hx).pStop = rest ∧
      (fieldStep env st.readStop x hx).names.map CStr.bytes =
        st.names.map CStr.bytes ++ kept env.string st.strings (single x) ∧
      (fieldStep env st.readStop x hx).strings = st.strings + (single x).length := by
  have hnext := (set_drop st.mem x rest c st.pStop hmem).2
  refine ⟨?_, ?_, ?_⟩
  · unfold fieldStep
    split <;> exact hnext
  · cases x with
    | nil => simp [fieldStep, fieldEnd, Cursor.readStop, single, kept]
    | cons b x =>
      cases hok : env.string st.strings <;>
        simp [fieldStep, fieldEnd, Cursor.readStop, addWorkgroup, hok, single, kept, cstr]
  · cases x with
    | nil => simp [fieldStep, fieldEnd, Cursor.readStop, single]
    | cons b x => rfl

theorem splitLoop_stop (env : SplitMemory) (st : Cursor) (fuel : ℕ) (rest : List Byte)
    (hmem : st.mem.drop st.pStop = 0 :: rest) :
    splitLoop env (fuel + 1) st = some st.readStop := by
  simp only [splitLoop, getElem?_of_drop hmem]
  rfl

theorem splitLoop_field (env : SplitMemory) (st : Cursor) (x rest : List Byte) (c : Byte)
    (fuel : ℕ) (hpos : st.pStart = st.pStop) (hmem : st.mem.drop st.pStop = x ++ c :: rest)
    (hx : FieldBytes x) (hc : c = 0 ∧ x ≠ [] ∨ c = 58) :
    splitLoop env (fuel + 1) st = splitLoop env fuel (fieldStep env st.readStop x hx) := by
  obtain ⟨b, hb, hne⟩ : ∃ b, st.mem[st.pStop]? = some b ∧ b ≠ 0 := by
    cases x with
    | nil =>
      have h58 : c = 58 := hc.resolve_left fun h => h.2 rfl
      exact ⟨c, getElem?_of_drop hmem, by rw [h58]; decide⟩
    | cons b x => exact ⟨b, getElem?_of_drop hmem, (hx b (List.mem_cons_self ..)).1⟩
  have hfield := splitField_eq env st.readStop x rest c hpos hmem hx (hc.imp_left And.left)
  unfold Cursor.readStop at hfield ⊢
  simp only [splitLoop, hb, if_pos hne, hfield]

theorem cut_text (x rest after mem : List Byte) (hsep : 58 ∉ x)
    (hnul : ∀ b ∈ x ++ 58 :: rest, b ≠ 0) (hmem : mem = x ++ 58 :: rest ++ after) :
    FieldBytes x ∧ (∀ b ∈ rest, b ≠ 0) ∧ mem = x ++ 58 :: (rest ++ after) := by
  refine ⟨?_, ?_, ?_⟩
  · intro b hb
    exact ⟨hnul b (List.mem_append_left _ hb), fun h => hsep (h ▸ hb)⟩
  · intro b hb
    exact hnul b (List.mem_append_right _ (List.mem_cons_of_mem _ hb))
  · rw [hmem, List.append_assoc]
    rfl

/-- The outer loop on what is left of the argument, when a second NUL follows. -/
theorem splitLoop_spec (env : SplitMemory) (s : List Byte) :
    ∀ (st : Cursor) (tail : List Byte) (fuel : ℕ), (∀ b ∈ s, b ≠ 0) → st.pStart = st.pStop →
      st.mem.drop st.pStop = s ++ 0 :: 0 :: tail → s.length + 1 < fuel →
      ∃ st', splitLoop env fuel st = some st' ∧ st'.pStart = st'.pStop ∧
        st'.names.map CStr.bytes =
          st.names.map CStr.bytes ++ kept env.string st.strings (fields 58 s) := by
  induction s using sepInduction (58 : Byte) with
  | last x hsep =>
    intro st tail fuel hnul hpos hmem hfuel
    have hx : FieldBytes x := fun b hb => ⟨hnul b hb, fun h => hsep (h ▸ hb)⟩
    obtain ⟨fuel, rfl⟩ : ∃ k, fuel = k + 2 := ⟨fuel - 2, by omega⟩
    rw [fields_of_notMem 58 x hsep]
    by_cases hempty : x = []
    · subst hempty
      refine ⟨_, splitLoop_stop env st (fuel + 1) _ hmem, hpos, ?_⟩
      simp [Cursor.readStop, single, kept]
    · have hloop :=
        splitLoop_field env st x (0 :: tail) 0 (fuel + 1) hpos hmem hx (Or.inl ⟨rfl, hempty⟩)
      obtain ⟨hmem', hnames, -⟩ := fieldStep_spec env st x (0 :: tail) 0 hmem hx
      rw [hloop, splitLoop_stop env _ fuel tail hmem']
      exact ⟨_, rfl, rfl, hnames⟩
  | step x rest hsep ih =>
    intro st tail fuel hnul hpos hmem hfuel
    obtain ⟨hx, hrest, hmem0⟩ := cut_text x rest (0 :: 0 :: tail) _ hsep hnul hmem
    obtain ⟨fuel, rfl⟩ : ∃ k, fuel = k + 1 := ⟨fuel - 1, by omega⟩
    have hloop := splitLoop_field env st x _ 58 fuel hpos hmem0 hx (Or.inr rfl)
    obtain ⟨hmem1, hnames1, hstrings1⟩ := fieldStep_spec env st x _ 58 hmem0 hx
    have hlen : rest.length + 1 < fuel := by
      rw [length_cut] at hfuel
      omega
    obtain ⟨st2, hrun, hpos2, hnames2⟩ :=
      ih (fieldStep env st.readStop x hx) tail fuel hrest rfl hmem1 hlen
    refine ⟨st2, hloop.trans hrun, hpos2, ?_⟩
    rw [hnames2, hnames1, hstrings1, fields_append_sep 58 x rest hsep, kept_append,
      List.append_assoc]

/-- With a NUL behind the copy, the splitter lists the non-empty fields whose
strings were allocated. -/
theorem splitWorkgroups_spec (env : SplitMemory) (arg : CStr) (h : env.after.head? = some 0) :
    ∃ st, splitWorkgroups env arg = some st ∧
      st.names.map CStr.bytes = kept env.string 0 (fields 58 arg.bytes) := by
  obtain ⟨tail, htail⟩ : ∃ tail, env.after = 0 :: tail := List.head?_eq_some_iff.mp h
  have hmem : (splitStart env arg).mem.drop (splitStart env arg).pStop =
      arg.bytes ++ 0 :: 0 :: tail := by
    simp only [splitStart, CStr.withNul, htail, List.drop_zero, List.append_assoc]
    rfl
  have hlen : arg.bytes.length + 1 < (splitStart env arg).mem.length + 1 := by
    simp only [splitStart, CStr.withNul, htail, List.length_append, List.length_cons]
    omega
  obtain ⟨st, hrun, hpos, hnames⟩ := splitLoop_spec env arg.bytes (splitStart env arg) tail _
    arg.nulFree rfl hmem hlen
  refine ⟨st, ?_, hnames⟩
  rw [splitWorkgroups, hrun, Option.map_some, splitTail, if_neg (not_not.mpr hpos)]

end SmbDiscover

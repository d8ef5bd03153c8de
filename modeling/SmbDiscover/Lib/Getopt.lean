import SmbDiscover.Lib.CString

/-!
# Option words of a command line

`getopt` with the permuting order of the GNU library: operands are skipped, `--` ends
the options, flags may share one word, and a value is the rest of its word or the
next argument. `spec c` says whether the character `c` takes a value. `Spells` is the
grammar of the same command lines, word by word.
-/

namespace Getopt
open CText

inductive Token where
  | flag (c : Byte)
  | value (c : Byte) (optarg : CStr)
  | missing (c : Byte)
  | unknown (c : Byte)
  deriving DecidableEq

/-- `strchr` in the option string; `:` and `;` are never options. -/
def optSpec (optstring : List Byte) (c : Byte) : Option Bool :=
  if c = 58 ∨ c = 59 then none
  else match optstring.dropWhile (· ≠ c) with
    | [] => none
    | _ :: rest => some (rest.head? = some 58)

/-- The options of one word, and the one that waits for the next argument. -/
def cluster (spec : Byte → Option Bool) : List Byte → List Token × Option Byte
  | [] => ([], none)
  | c :: rest =>
    match spec c with
    | none => (.unknown c :: (cluster spec rest).1, (cluster spec rest).2)
    | some false => (.flag c :: (cluster spec rest).1, (cluster spec rest).2)
    | some true => if rest = [] then ([], some c) else ([.value c (.ofMemory rest)], none)

def getopt (spec : Byte → Option Bool) : Option Byte → List CStr → List Token
  | none, [] => []
  | some c, [] => [.missing c]
  | some c, optarg :: rest => .value c optarg :: getopt spec none rest
  | none, arg :: rest =>
    match arg.bytes with
    | 45 :: c :: word =>
      if c = 45 ∧ word = [] then []
      else (cluster spec (c :: word)).1 ++ getopt spec (cluster spec (c :: word)).2 rest
    | _ => getopt spec none rest

/-! ### The grammar -/

/-- The options that a word carries, `--` set aside. -/
def Carries (arg : CStr) (word : List Byte) : Prop :=
  arg.bytes = 45 :: word ∧ word ≠ [] ∧ word ≠ [45]

def Operand (arg : CStr) : Prop := ∀ word, arg.bytes = 45 :: word → word = []

def single (spec : Byte → Option Bool) (c : Byte) : Token :=
  if spec c = some false then .flag c else .unknown c

def Valueless (spec : Byte → Option Bool) (cs : List Byte) : Prop := ∀ c ∈ cs, spec c ≠ some true

inductive Spells (spec : Byte → Option Bool) : List CStr → List Token → Prop where
  | done : Spells spec [] []
  | stop (arg : CStr) (operands : List CStr) (h : arg.bytes = [45, 45]) :
      Spells spec (arg :: operands) []
  | operand (arg : CStr) (rest : List CStr) (tokens : List Token) (h : Operand arg)
      (tail : Spells spec rest tokens) : Spells spec (arg :: rest) tokens
  | flags (arg : CStr) (rest : List CStr) (tokens : List Token) (cs : List Byte)
      (h : Carries arg cs) (hcs : Valueless spec cs) (tail : Spells spec rest tokens) :
      Spells spec (arg :: rest) (cs.map (single spec) ++ tokens)
  | attached (arg : CStr) (rest : List CStr) (tokens : List Token) (cs : List Byte) (c : Byte)
      (optarg : CStr) (h : Carries arg (cs ++ c :: optarg.bytes)) (hcs : Valueless spec cs)
      (hc : spec c = some true) (hne : optarg ≠ .empty) (tail : Spells spec rest tokens) :
      Spells spec (arg :: rest) (cs.map (single spec) ++ .value c optarg :: tokens)
  | separate (arg : CStr) (rest : List CStr) (tokens : List Token) (cs : List Byte) (c : Byte)
      (optarg : CStr) (h : Carries arg (cs ++ [c])) (hcs : Valueless spec cs)
      (hc : spec c = some true) (tail : Spells spec rest tokens) :
      Spells spec (arg :: optarg :: rest) (cs.map (single spec) ++ .value c optarg :: tokens)
  | missing (arg : CStr) (cs : List Byte) (c : Byte) (h : Carries arg (cs ++ [c]))
      (hcs : Valueless spec cs) (hc : spec c = some true) :
      Spells spec [arg] (cs.map (single spec) ++ [.missing c])

variable (spec : Byte → Option Bool)

/-! ### The scanner reads the grammar -/

theorem cluster_append (cs rest : List Byte) (hcs : Valueless spec cs) :
    cluster spec (cs ++ rest) =
      (cs.map (single spec) ++ (cluster spec rest).1, (cluster spec rest).2) := by
  induction cs with
  | nil => rfl
  | cons c cs ih =>
    have hrest := ih fun c' hc' => hcs c' (List.mem_cons_of_mem _ hc')
    have hc := hcs c (List.mem_cons_self ..)
    rw [List.cons_append, cluster, hrest]
    unfold single
    cases hspec : spec c with
    | none => simp [hspec]
    | some takes =>
      cases takes with
      | false => simp [hspec]
      | true => exact absurd hspec hc

/-- A word is flags, flags and an option with its value, or flags and an option without. -/
theorem word_cases (word : List Byte) :
    (Valueless spec word ∧ cluster spec word = (word.map (single spec), none)) ∨
    ∃ cs c rest, word = cs ++ c :: rest ∧ Valueless spec cs ∧ spec c = some true ∧
      cluster spec word = if rest = [] then (cs.map (single spec), some c)
        else (cs.map (single spec) ++ [.value c (.ofMemory rest)], none) := by
  induction word with
  | nil => exact Or.inl ⟨fun c hc => absurd hc (List.not_mem_nil), rfl⟩
  | cons c word ih =>
    by_cases hc : spec c = some true
    · refine Or.inr ⟨[], c, word, rfl, fun c hc => absurd hc List.not_mem_nil, hc, ?_⟩
      simp only [cluster, hc, List.map_nil, List.nil_append]
    · have hone : Valueless spec [c] := by
        intro c' hc'
        rw [List.mem_singleton.mp hc']
        exact hc
      have hstep := cluster_append spec [c] word hone
      rcases ih with hflags | hvalue
      · left
        refine ⟨List.forall_mem_cons.mpr ⟨hc, hflags.1⟩, ?_⟩
        rw [List.singleton_append] at hstep
        rw [hstep, hflags.2]
        rfl
      · right
        obtain ⟨cs, d, rest, hword, hcs, hd, hcluster⟩ := hvalue
        refine ⟨c :: cs, d, rest, by rw [hword]; rfl, List.forall_mem_cons.mpr ⟨hc, hcs⟩, hd, ?_⟩
        rw [List.singleton_append] at hstep
        rw [hstep, hcluster]
        split <;> rfl

theorem getopt_word (arg : CStr) (word : List Byte) (rest : List CStr) (h : Carries arg word) :
    getopt spec none (arg :: rest) =
      (cluster spec word).1 ++ getopt spec (cluster spec word).2 rest := by
  obtain ⟨hbytes, hne, hdash⟩ := h
  obtain ⟨c, cs, hword⟩ := List.exists_cons_of_ne_nil hne
  have hgo : ¬ (c = 45 ∧ cs = []) := by
    intro hc
    rw [hword, hc.1, hc.2] at hdash
    exact hdash rfl
  rw [getopt, hbytes, hword]
  exact if_neg hgo

theorem getopt_operand (arg : CStr) (rest : List CStr) (h : Operand arg) :
    getopt spec none (arg :: rest) = getopt spec none rest := by
  rw [getopt]
  split
  next c word hbytes =>
    have hnil := h _ hbytes
    cases hnil
  · rfl

theorem getopt_stop (arg : CStr) (operands : List CStr) (h : arg.bytes = [45, 45]) :
    getopt spec none (arg :: operands) = [] := by
  rw [getopt, h]
  rfl

theorem getopt_pending (c : Byte) (cs : List Byte) (arg : CStr) (rest : List CStr)
    (h : Carries arg (cs ++ [c])) (hcs : Valueless spec cs) (hc : spec c = some true) :
    getopt spec none (arg :: rest) = cs.map (single spec) ++ getopt spec (some c) rest := by
  rw [getopt_word spec arg _ rest h, cluster_append spec cs [c] hcs]
  simp [cluster, hc]

theorem Spells.reads {args : List CStr} {tokens : List Token} (h : Spells spec args tokens) :
    getopt spec none args = tokens := by
  induction h with
  | done => rfl
  | stop arg operands h => exact getopt_stop spec arg operands h
  | operand arg rest tokens h tail ih => rw [getopt_operand spec arg rest h, ih]
  | flags arg rest tokens cs h hcs tail ih =>
    have hflags := cluster_append spec cs [] hcs
    rw [List.append_nil] at hflags
    rw [getopt_word spec arg cs rest h, hflags]
    simp [cluster, ih]
  | attached arg rest tokens cs c optarg h hcs hc hne tail ih =>
    have hbytes : optarg.bytes ≠ [] := fun h0 => hne ((CStr.eq_empty_iff optarg).mpr h0)
    rw [getopt_word spec arg _ rest h, cluster_append spec cs _ hcs]
    simp [cluster, hc, hbytes, CStr.ofMemory_bytes, ih]
  | separate arg rest tokens cs c optarg h hcs hc tail ih =>
    rw [getopt_pending spec c cs arg _ h hcs hc, getopt, ih]
  | missing arg cs c h hcs hc =>
    rw [getopt_pending spec c cs arg [] h hcs hc, getopt]

theorem carries_or (arg : CStr) :
    Operand arg ∨ arg.bytes = [45, 45] ∨ ∃ word, Carries arg word := by
  by_cases hop : Operand arg
  · exact Or.inl hop
  · right
    obtain ⟨word, hword⟩ := not_forall.mp hop
    obtain ⟨hbytes, hne⟩ := Classical.not_imp.mp hword
    by_cases hdash : word = [45]
    · left
      rw [hbytes, hdash]
    · exact Or.inr ⟨word, hbytes, hne, hdash⟩

theorem spells_word (arg : CStr) (word : List Byte) (rest : List CStr) (h : Carries arg word)
    (hrest : ∀ args, args.length ≤ rest.length → Spells spec args (getopt spec none args)) :
    Spells spec (arg :: rest) (getopt spec none (arg :: rest)) := by
  rw [getopt_word spec arg word rest h]
  rcases word_cases spec word with hflags | hvalue
  · rw [hflags.2]
    exact .flags arg rest _ word h hflags.1 (hrest rest le_rfl)
  · obtain ⟨cs, c, value, hsplit, hcs, hc, hcluster⟩ := hvalue
    rw [hsplit] at h
    rw [hcluster]
    by_cases hnil : value = []
    · rw [hnil] at h
      rw [if_pos hnil]
      cases rest with
      | nil => exact .missing arg cs c h hcs hc
      | cons optarg rest =>
        exact .separate arg rest _ cs c optarg h hcs hc (hrest rest (Nat.le_succ _))
    · have hbytes : (CStr.ofMemory value).bytes = value := by
        apply CStr.bytes_ofMemory
        intro b hb
        apply arg.nulFree b
        rw [h.1]
        simp [hb]
      have hne : CStr.ofMemory value ≠ .empty := by
        intro h0
        rw [h0] at hbytes
        exact hnil hbytes.symm
      rw [if_neg hnil, List.append_assoc, List.singleton_append]
      rw [← hbytes] at h
      exact .attached arg rest _ cs c (.ofMemory value) h hcs hc hne (hrest rest le_rfl)

theorem spells_getopt (n : ℕ) (args : List CStr) (hn : args.length ≤ n) :
    Spells spec args (getopt spec none args) := by
  induction n generalizing args with
  | zero =>
    rw [List.length_eq_zero_iff.mp (Nat.le_zero.mp hn)]
    exact .done
  | succ n ih =>
    cases args with
    | nil => exact .done
    | cons arg rest =>
      rw [List.length_cons] at hn
      have hrest : ∀ args, args.length ≤ rest.length → Spells spec args (getopt spec none args) :=
        fun args hargs => ih args (by omega)
      rcases carries_or arg with hop | hdash | hcarries
      · rw [getopt_operand spec arg rest hop]
        exact .operand arg rest _ hop (hrest rest le_rfl)
      · rw [getopt_stop spec arg rest hdash]
        exact .stop arg rest hdash
      · obtain ⟨word, hword⟩ := hcarries
        exact spells_word spec arg word rest hword hrest

theorem getopt_iff (args : List CStr) (tokens : List Token) :
    getopt spec none args = tokens ↔ Spells spec args tokens := by
  refine ⟨?_, Spells.reads spec⟩
  intro h
  rw [← h]
  exact spells_getopt spec args.length args le_rfl

end Getopt

import SmbDiscover.NodeStore

/-!
# Runs of a client (cJSON.c:1586-1960)

A client makes nodes and edits lists, and passes as an item only a node that no list
holds. `apply` is what a call means for the trees of the client; the allocations decide
which nodes there are. A run of the functions in memory follows it call by call. The name
of a node that `cJSON_ReplaceItemInObject` puts in is overwritten, not freed: it stays in
memory, and no node leads to it any more.
-/

namespace SmbDiscover
open CText

namespace Nodes

/-! ### Strings of a node -/

def Str.Readable : Option Str → Prop
  | none => True
  | some s => ∃ text, loadString s.block = some text

def nameOf (n : Node) : Option (List Byte) := n.label.string.bind fun s => loadString s.block

mutual

def Readable : Node → Prop
  | .mk _ label child =>
    Str.Readable label.valuestring ∧ Str.Readable label.string ∧ AllReadable child

def AllReadable : List Node → Prop
  | [] => True
  | n :: rest => Readable n ∧ AllReadable rest

end

/-- `cJSON_strdup` at the `k`-th allocation. -/
def dup (ok : ℕ → Bool) (k : ℕ) (string : CStr) : Option Str :=
  if ok k then some ⟨k, (string.bytes ++ [0]).map some⟩ else none

def named (string : CStr) (n : Node) : Bool := strcasecmp (nameOf n) (some string.bytes) = 0

def Node.rename (s : Option Str) : Node → Node
  | .mk addr label child => .mk addr { label with string := s } child

/-! ### What a call means -/

inductive Op where
  | create (kind : Kind)
  | createString (string : CStr)
  | addItemToArray (array item : ℕ)
  | addItemToObject (object : ℕ) (string : CStr) (item : ℕ)
  | detachItemFromArray (array : ℕ) (which : ℤ)
  | deleteItemFromArray (array : ℕ) (which : ℤ)
  | detachItemFromObject (object : ℕ) (string : CStr)
  | deleteItemFromObject (object : ℕ) (string : CStr)
  | insertItemInArray (array : ℕ) (which : ℤ) (newitem : ℕ)
  | replaceItemInArray (array : ℕ) (which : ℤ) (newitem : ℕ)
  | replaceItemInObject (object : ℕ) (string : CStr) (newitem : ℕ)
  | delete (item : ℕ)

/-- The trees of the client, and the names that were overwritten. -/
structure Store where
  next : ℕ
  roots : List Node
  leaked : List Str

def take (a : ℕ) : List Node → Option (Node × List Node)
  | [] => none
  | n :: rest => if n.addr = a then some (n, rest) else (take a rest).map fun p => (p.1, n :: p.2)

/-- Behind the last node when the index is behind it. -/
def insertAt (k : ℕ) (i : Node) (ns : List Node) : List Node := ns.take k ++ i :: ns.drop k

namespace Store

def create (ok : ℕ → Bool) (kind : Kind) (s : Store) : Option ℕ × Store :=
  if ok s.next then
    (some s.next,
      { s with next := s.next + 1, roots := .mk s.next ⟨kind, [], none, none⟩ [] :: s.roots })
  else (none, { s with next := s.next + 1 })

def createString (ok : ℕ → Bool) (string : CStr) (s : Store) : Option ℕ × Store :=
  if ok s.next then
    match dup ok (s.next + 1) string with
    | some v =>
      (some s.next,
        { s with next := s.next + 2, roots := .mk s.next ⟨.string, [], some v, none⟩ [] :: s.roots })
    | none => (none, { s with next := s.next + 2 })
  else (none, { s with next := s.next + 1 })

/-- The item at the index goes to the client, if there is one. -/
def detach (array i : ℕ) (s : Store) : Option (Option ℕ × Store) := do
  let ns ← childAt array s.roots
  match ns[i]? with
  | none => some (none, s)
  | some c => some (some c.addr, { s with roots := c :: edits array (·.eraseIdx i) s.roots })

def deleteItem (array i : ℕ) (s : Store) : Option (Option ℕ × Store) := do
  let _ ← childAt array s.roots
  some (none, { s with roots := edits array (·.eraseIdx i) s.roots })

def apply (ok : ℕ → Bool) : Op → Store → Option (Option ℕ × Store)
  | .create kind, s => some (create ok kind s)
  | .createString string, s => some (createString ok string s)
  | .addItemToArray array item, s => do
    let (i, rest) ← take item s.roots
    let _ ← childAt array rest
    some (none, { s with roots := edits array (· ++ [i]) rest })
  | .addItemToObject object string item, s => do
    let (i, rest) ← take item s.roots
    let _ ← childAt object rest
    some (none, { s with
      next := s.next + 1
      roots := edits object (· ++ [i.rename (dup ok s.next string)]) rest })
  | .detachItemFromArray array which, s => detach array which.toNat s
  | .deleteItemFromArray array which, s => deleteItem array which.toNat s
  | .detachItemFromObject object string, s => do
    let ns ← childAt object s.roots
    detach object (ns.findIdx (named string)) s
  | .deleteItemFromObject object string, s => do
    let ns ← childAt object s.roots
    deleteItem object (ns.findIdx (named string)) s
  | .insertItemInArray array which newitem, s => do
    let (i, rest) ← take newitem s.roots
    let _ ← childAt array rest
    some (none, { s with roots := edits array (insertAt which.toNat i) rest })
  | .replaceItemInArray array which newitem, s => do
    let (i, rest) ← take newitem s.roots
    let ns ← childAt array rest
    if which.toNat < ns.length then
      some (none, { s with roots := edits array (·.set which.toNat i) rest })
    else some (none, s)
  -- The source does not free the name that `newitem` has (cJSON.c:1843).
  | .replaceItemInObject object string newitem, s => do
    let (i, rest) ← take newitem s.roots
    let ns ← childAt object rest
    if ns.findIdx (named string) < ns.length then
      some (none, {
        next := s.next + 1
        roots := edits object
          (·.set (ns.findIdx (named string)) (i.rename (dup ok s.next string))) rest
        leaked := i.label.string.toList ++ s.leaked })
    else some (none, s)
  | .delete item, s => do
    let (_, rest) ← take item s.roots
    some (none, { s with roots := rest })

/-- The results of the calls, and the trees behind the last one. -/
def applyAll (ok : ℕ → Bool) : List Op → Store → Option (List (Option ℕ) × Store)
  | [], s => some ([], s)
  | op :: ops, s => do
    let (r, s) ← apply ok op s
    let (rs, s) ← applyAll ok ops s
    some (r :: rs, s)

end Store

/-! ### The calls -/

def exec (ok : ℕ → Bool) : Op → Memory → Option (Option ℕ × Memory)
  | .create kind, h => create ok kind h
  | .createString string, h => createString ok string h
  | .addItemToArray array item, h => (addItemToArray array (some item) h).map fun h => (none, h)
  | .addItemToObject object string item, h =>
    (addItemToObject ok object string (some item) h).map fun h => (none, h)
  | .detachItemFromArray array which, h => detachItemFromArray array which h
  | .deleteItemFromArray array which, h => (deleteItemFromArray array which h).map fun h => (none, h)
  | .detachItemFromObject object string, h => detachItemFromObject object string h
  | .deleteItemFromObject object string, h =>
    (deleteItemFromObject object string h).map fun h => (none, h)
  | .insertItemInArray array which newitem, h =>
    (insertItemInArray array which newitem h).map fun h => (none, h)
  | .replaceItemInArray array which newitem, h =>
    (replaceItemInArray array which newitem h).map fun h => (none, h)
  | .replaceItemInObject object string newitem, h =>
    (replaceItemInObject ok object string newitem h).map fun h => (none, h)
  | .delete item, h => (delete (some item) h).map fun h => (none, h)

def execAll (ok : ℕ → Bool) : List Op → Memory → Option (List (Option ℕ) × Memory)
  | [], h => some ([], h)
  | op :: ops, h => do
    let (r, h) ← exec ok op h
    let (rs, h) ← execAll ok ops h
    some (r :: rs, h)

def leakedCells (leaked : List Str) : Multiset (ℕ × Cell) :=
  (leaked.map fun s => Str.cells (some s)).sum

/-- The memory holds the trees of the client and the overwritten names, and else what
`h₀` held. -/
structure Holds (h₀ : Memory) (s : Store) (h : Memory) : Prop where
  next : h.next = s.next
  owns : h₀.Owns h (rootCells s.roots + leakedCells s.leaked)
  readable : AllReadable s.roots

/-! ### Strings in memory -/

variable {h h' : Memory} {own : Multiset (ℕ × Cell)}

theorem load_str (s : Str) (owns : h.Owns h' (Str.cells (some s) + own)) :
    load h' s.addr = loadString s.block := by
  unfold load
  rw [owns.read]

theorem storeBytes_all (bs : List Byte) :
    storeBytes (List.replicate bs.length none) 0 bs = some (bs.map some) := by
  have hstore := storeBytes_at [] bs (List.replicate bs.length none)
    (by rw [List.length_replicate])
  rw [List.drop_replicate, Nat.sub_self, List.replicate_zero, List.append_nil] at hstore
  exact hstore

theorem strdup_owns (ok : ℕ → Bool) (string : CStr) (owns : h.Owns h' own) :
    ∃ h'', Plain.strdup ok string.bytes h' =
        some ((dup ok h'.next string).map Str.addr, h'') ∧
      h.Owns h'' (Str.cells (dup ok h'.next string) + own) ∧ h''.next = h'.next + 1 := by
  unfold Plain.strdup Plain.copyText mallocText dup
  have hlen : string.bytes.length + 1 = (string.bytes ++ [0]).length := by
    rw [List.length_append]
    rfl
  rw [hlen]
  cases hok : ok h'.next with
  | false =>
    obtain ⟨h₁, hmalloc, owns₁, hnext₁⟩ := owns.mallocFailed ok _ hok
    rw [hmalloc]
    refine ⟨h₁, rfl, ?_, hnext₁⟩
    rw [if_neg (by simp), Str.cells, zero_add]
    exact owns₁
  | true =>
    obtain ⟨h₁, hmalloc, owns₁, hnext₁⟩ :=
      owns.malloc ok (.text (List.replicate (string.bytes ++ [0]).length none)) hok
    obtain ⟨h₂, hwrite, owns₂, hnext₂⟩ := owns₁.write (.text ((string.bytes ++ [0]).map some))
    rw [hmalloc]
    refine ⟨h₂, ?_, owns₂, hnext₂.trans hnext₁⟩
    unfold store
    simp only [owns₁.read, storeBytes_all, Option.bind_some, hwrite]
    rfl

theorem dup_readable (ok : ℕ → Bool) (k : ℕ) (string : CStr) : Str.Readable (dup ok k string) := by
  unfold dup
  split
  · refine ⟨string.bytes, ?_⟩
    have hload := loadString_text string.bytes [] string.zero_notMem
    rw [List.append_nil] at hload
    exact hload
  · trivial

theorem findWithin_spec (string : CStr) (ns : List Node) : ∀ (n i : ℕ) (prev : Option ℕ)
    (own : Multiset (ℕ × Cell)), ns.length ≤ n → AllReadable ns →
    h.Owns h' (chain ns prev none + own) →
    findWithin h' string.bytes n i (head ns) =
      some (i + ns.findIdx (named string), head (ns.drop (ns.findIdx (named string)))) := by
  induction ns with
  | nil =>
    intro n i _ _ _ _ _
    rw [head_nil]
    cases n <;> rfl
  | cons m ns ih =>
    intro n i prev own hlen hreadable owns
    cases n with
    | zero => cases hlen
    | succ n =>
      obtain ⟨hread, owns'⟩ := chain_head m ns prev none owns
      have hname : loadIf h' (m.label.string.map Str.addr) = some (nameOf m) := by
        obtain ⟨addr, label, child⟩ := m
        obtain ⟨⟨-, hstring, -⟩, -⟩ := hreadable
        unfold nameOf
        show loadIf h' (label.string.map Str.addr) = some (label.string.bind _)
        cases hs : label.string with
        | none => rfl
        | some s =>
          rw [hs] at hstring
          obtain ⟨text, htext⟩ := hstring
          rw [inner_eq, Label.cells] at owns'
          have hcells : (Node.mk addr label child).label.string = some s := hs
          rw [hcells] at owns'
          simp only [add_assoc] at owns'
          have hload := load_str s owns'.fourth
          rw [Option.map_some, Option.bind_some, loadIf, hload, htext]
          rfl
      rw [head_cons, findWithin, hread]
      simp only [Option.bind_eq_bind, Option.bind_some, fieldsOf, Label.fields, Option.or_none,
        hname, List.findIdx_cons]
      by_cases hmatch : strcasecmp (nameOf m) (some string.bytes) = 0
      · rw [if_pos hmatch, show named string m = true from decide_eq_true hmatch]
        rfl
      · have hrest := ih n (i + 1) (some m.addr) _ (Nat.le_of_succ_le_succ hlen) hreadable.2 owns'
        rw [if_neg hmatch, hrest, show named string m = false from decide_eq_false hmatch]
        rw [cond_false, List.drop_succ_cons, Nat.add_assoc, Nat.add_comm 1]

/-! ### Readable trees -/

theorem allReadable_iff (ns : List Node) : AllReadable ns ↔ ∀ n ∈ ns, Readable n := by
  induction ns with
  | nil => simp [AllReadable]
  | cons n ns ih => rw [AllReadable, ih, List.forall_mem_cons]

mutual

theorem readable_edit (a : ℕ) (f : List Node → List Node)
    (hf : ∀ cs, AllReadable cs → AllReadable (f cs)) : ∀ n : Node, Readable n →
    Readable (edit a f n)
  | .mk addr label child, hn => by
    rw [edit]
    refine ⟨hn.1, hn.2.1, ?_⟩
    by_cases haddr : addr = a
    · rw [if_pos haddr]
      exact hf child hn.2.2
    · rw [if_neg haddr]
      exact allReadable_edits a f hf child hn.2.2

theorem allReadable_edits (a : ℕ) (f : List Node → List Node)
    (hf : ∀ cs, AllReadable cs → AllReadable (f cs)) : ∀ ns : List Node, AllReadable ns →
    AllReadable (edits a f ns)
  | [], hns => by rw [edits]; exact hns
  | n :: rest, hns => by
    rw [edits]
    exact ⟨readable_edit a f hf n hns.1, allReadable_edits a f hf rest hns.2⟩

end

mutual

theorem readable_childOf (a : ℕ) (cs : List Node) : ∀ n : Node, Readable n →
    childOf a n = some cs → AllReadable cs
  | .mk addr label child, hn, hchild => by
    rw [childOf] at hchild
    by_cases haddr : addr = a
    · rw [if_pos haddr] at hchild
      cases hchild
      exact hn.2.2
    · rw [if_neg haddr] at hchild
      exact readable_childAt a cs child hn.2.2 hchild

theorem readable_childAt (a : ℕ) (cs : List Node) : ∀ ns : List Node, AllReadable ns →
    childAt a ns = some cs → AllReadable cs
  | [], _, hchild => by
    rw [childAt] at hchild
    cases hchild
  | n :: rest, hns, hchild => by
    rw [childAt, Option.or_eq_some_iff] at hchild
    rcases hchild with hone | ⟨-, hrest⟩
    · exact readable_childOf a cs n hns.1 hone
    · exact readable_childAt a cs rest hns.2 hrest

end

theorem take_spec (a : ℕ) (roots : List Node) (i : Node) (rest : List Node)
    (htake : take a roots = some (i, rest)) :
    i.addr = a ∧ rootCells roots = alone i + rootCells rest ∧
      (AllReadable roots → Readable i ∧ AllReadable rest) := by
  induction roots generalizing rest with
  | nil => cases htake
  | cons n roots ih =>
    rw [take] at htake
    by_cases haddr : n.addr = a
    · rw [if_pos haddr] at htake
      cases htake
      exact ⟨haddr, rootCells_cons .., fun hread => hread⟩
    · rw [if_neg haddr] at htake
      obtain ⟨⟨i', rest'⟩, htake', heq⟩ := Option.map_eq_some_iff.mp htake
      cases heq
      obtain ⟨hi, hcells, hread⟩ := ih rest' htake'
      refine ⟨hi, ?_, ?_⟩
      · rw [rootCells_cons, rootCells_cons, hcells]
        ac_rfl
      · intro hall
        obtain ⟨hi', hrest'⟩ := hread hall.2
        exact ⟨hi', hall.1, hrest'⟩

/-! ### One call -/

/-- The node at `array`, its children and the rest of the trees, taken apart and put
together again. -/
theorem open_at (array : ℕ) (cs roots : List Node) (hchild : childAt array roots = some cs)
    (owns : h.Owns h' (rootCells roots + own)) :
    ∃ (g : Fields) (rest : Multiset (ℕ × Cell)), g.child = head cs ∧
      h.Owns h' ({(array, .node g)} + (chain cs none none + (own + rest))) ∧
      ∀ f h'' own', h.Owns h'' ({(array, .node { g with child := head (f cs) })} +
        (chain (f cs) none none + (own' + rest))) →
      h.Owns h'' (rootCells (edits array f roots) + own') := by
  obtain ⟨g, rest, hg, hcells⟩ :=
    around_roots array cs roots (addrs_nodup roots owns) hchild
  dsimp only at hcells
  refine ⟨g, rest, hg, ?_, ?_⟩
  · have hsame := hcells id
    rw [edits_same, id_eq, ← hg] at hsame
    rw [hsame] at owns
    rw [show {(array, .node g)} + (chain cs none none + (own + rest)) =
      {(array, .node g)} + (chain cs none none + rest) + own by ac_rfl]
    exact owns
  · intro f h'' own' owns'
    rw [hcells f]
    rw [show {(array, .node { g with child := head (f cs) })} + (chain (f cs) none none + rest) +
      own' = {(array, .node { g with child := head (f cs) })} + (chain (f cs) none none +
      (own' + rest)) by ac_rfl]
    exact owns'

theorem add_holds (array : ℕ) (i : Node) (cs rest : List Node)
    (hchild : childAt array rest = some cs)
    (owns : h.Owns h' (rootCells rest + (alone i + own))) :
    ∃ h'', addItemToArray array (some i.addr) h' = some h'' ∧
      h.Owns h'' (rootCells (edits array (· ++ [i]) rest) + own) ∧ h''.next = h'.next := by
  obtain ⟨g, around, hg, owns', hclose⟩ := open_at array cs rest hchild owns
  rw [add_assoc (alone i)] at owns'
  obtain ⟨h'', hadd, owns'', hnext⟩ := addItemToArray_spec array g cs i hg owns'
  exact ⟨h'', hadd, hclose (· ++ [i]) h'' own owns'', hnext⟩

theorem append_readable (i : Node) (hi : Readable i) (cs : List Node) (hcs : AllReadable cs) :
    AllReadable (cs ++ [i]) := by
  rw [allReadable_iff] at hcs ⊢
  rw [List.forall_mem_append, List.forall_mem_singleton]
  exact ⟨hcs, hi⟩

theorem rename_spec (ok : ℕ → Bool) (string : CStr) (i : Node)
    (owns : h.Owns h' (alone i + own)) :
    ∃ h₁ h₂ h₃, freeIf h' (i.label.string.map Str.addr) = some h₁ ∧
      Plain.strdup ok string.bytes h₁ = some ((dup ok h'.next string).map Str.addr, h₂) ∧
      (setNode h₂ i.addr fun n => { n with string := (dup ok h'.next string).map Str.addr }) =
        some h₃ ∧
      h.Owns h₃ (alone (i.rename (dup ok h'.next string)) + own) ∧ h₃.next = h'.next + 1 := by
  obtain ⟨addr, label, child⟩ := i
  rw [alone, chain_one, inner_eq, Label.cells] at owns
  simp only [add_assoc] at owns
  obtain ⟨h₁, hfree, owns₁, hnext₁⟩ := freeIf_spec label.string owns.third
  obtain ⟨h₂, hdup, owns₂, hnext₂⟩ := strdup_owns ok string owns₁
  rw [hnext₁] at hdup owns₂ hnext₂
  obtain ⟨h₃, hset, owns₃, hnext₃⟩ := setNode_spec
    (fun n => { n with string := (dup ok h'.next string).map Str.addr }) owns₂.second
  refine ⟨h₁, h₂, h₃, hfree, hdup, hset, ?_, by omega⟩
  rw [Node.rename, alone, chain_one, inner_eq, Label.cells]
  simp only [add_assoc]
  exact owns₃.third.second

theorem rename_readable (ok : ℕ → Bool) (k : ℕ) (string : CStr) (i : Node) (hi : Readable i) :
    Readable (i.rename (dup ok k string)) := by
  obtain ⟨addr, label, child⟩ := i
  exact ⟨hi.1, dup_readable ok k string, hi.2.2⟩

theorem rename_addr (i : Node) (s : Option Str) : (i.rename s).addr = i.addr := by
  cases i
  rfl

theorem addItemToObject_holds (ok : ℕ → Bool) (object : ℕ) (string : CStr) (i : Node)
    (cs rest : List Node) (hchild : childAt object rest = some cs)
    (owns : h.Owns h' (rootCells rest + (alone i + own))) :
    ∃ h'', addItemToObject ok object string (some i.addr) h' = some h'' ∧
      h.Owns h'' (rootCells (edits object (· ++ [i.rename (dup ok h'.next string)]) rest) + own) ∧
      h''.next = h'.next + 1 := by
  rw [add_left_comm] at owns
  have hread : getNode h' i.addr = some (fieldsOf i none none) := getNode_one i none none owns
  obtain ⟨h₁, h₂, h₃, hfree, hdup, hset, owns₃, hnext₃⟩ := rename_spec ok string i owns
  rw [add_left_comm] at owns₃
  obtain ⟨h₄, hadd, owns₄, hnext₄⟩ := add_holds object _ cs rest hchild owns₃
  refine ⟨h₄, ?_, owns₄, hnext₄.trans hnext₃⟩
  unfold addItemToObject
  simp only [hread, Option.bind_eq_bind, Option.bind_some, fieldsOf, Label.fields, hfree, hdup, hset]
  rw [rename_addr] at hadd
  exact hadd

theorem detach_holds (array : ℕ) (which : ℤ) (cs roots : List Node) (c : Node)
    (hchild : childAt array roots = some cs) (hc : cs[which.toNat]? = some c)
    (owns : h.Owns h' (rootCells roots + own)) :
    ∃ h'', detachItemFromArray array which h' = some (some c.addr, h'') ∧
      h.Owns h'' (rootCells (edits array (·.eraseIdx which.toNat) roots) + (alone c + own)) ∧
      h''.next = h'.next := by
  obtain ⟨g, around, hg, owns', hclose⟩ := open_at array cs roots hchild owns
  obtain ⟨hlt, hget⟩ := List.getElem?_eq_some_iff.mp hc
  have hsplit : cs = cs.take which.toNat ++ c :: cs.drop (which.toNat + 1) := by
    rw [← hget, List.getElem_cons_drop, List.take_append_drop]
  have herase : cs.eraseIdx which.toNat =
      cs.take which.toNat ++ cs.drop (which.toNat + 1) := List.eraseIdx_eq_take_drop_succ ..
  rw [hsplit] at hg owns'
  obtain ⟨h'', hdetach, owns'', hnext⟩ := detachItemFromArray_spec array g _ _ c which hg (by
    rw [List.length_take]
    omega) owns'
  refine ⟨h'', hdetach, ?_, hnext⟩
  apply hclose (·.eraseIdx which.toNat) h'' (alone c + own)
  rw [herase, add_assoc (alone c)]
  exact owns''

theorem detach_none (array : ℕ) (which : ℤ) (cs roots : List Node)
    (hchild : childAt array roots = some cs) (hc : cs[which.toNat]? = none)
    (owns : h.Owns h' (rootCells roots + own)) :
    detachItemFromArray array which h' = some (none, h') := by
  obtain ⟨g, around, hg, owns', hclose⟩ := open_at array cs roots hchild owns
  have hwalk := walk_spec cs which.toNat none _ owns'.second
  rw [List.getElem?_eq_none_iff] at hc
  rw [List.drop_of_length_le hc, head_nil, ← hg] at hwalk
  unfold detachItemFromArray
  rw [getNode_spec owns']
  simp only [Option.bind_eq_bind, Option.bind_some, hwalk]
  rfl

theorem delete_one (c : Node) (owns : h.Owns h' (alone c + own)) :
    ∃ h'', delete (some c.addr) h' = some h'' ∧ h.Owns h'' own ∧ h''.next = h'.next :=
  delete_spec [c] none owns

theorem delete_null (h' : Memory) : delete none h' = some h' := by
  unfold delete
  cases h'.next <;> rfl

theorem deleteItem_holds (array i : ℕ) (cs roots : List Node) (r : Option ℕ) (h₁ : Memory)
    (hchild : childAt array roots = some cs)
    (hdetach : ∀ c, cs[i]? = some c → r = some c.addr ∧
      h.Owns h₁ (rootCells (edits array (·.eraseIdx i) roots) + (alone c + own)))
    (hnone : cs[i]? = none → r = none ∧ h.Owns h₁ (rootCells roots + own))
    (hnodup : (addrs roots).Nodup) :
    ∃ h'', delete r h₁ = some h'' ∧
      h.Owns h'' (rootCells (edits array (·.eraseIdx i) roots) + own) ∧ h''.next = h₁.next := by
  cases hc : cs[i]? with
  | none =>
    obtain ⟨rfl, owns⟩ := hnone hc
    obtain ⟨g, rest, hg, hcells⟩ := around_roots array cs roots hnodup hchild
    dsimp only at hcells
    have hsame : rootCells (edits array (·.eraseIdx i) roots) = rootCells roots := by
      have hid := hcells id
      rw [edits_same] at hid
      rw [hcells, hid, List.eraseIdx_of_length_le (List.getElem?_eq_none_iff.mp hc)]
      rfl
    rw [← hsame] at owns
    exact ⟨h₁, delete_null h₁, owns, rfl⟩
  | some c =>
    obtain ⟨rfl, owns⟩ := hdetach c hc
    rw [add_left_comm] at owns
    exact delete_one c owns

theorem deleteItemFromArray_holds (array : ℕ) (which : ℤ) (cs roots : List Node)
    (hchild : childAt array roots = some cs) (owns : h.Owns h' (rootCells roots + own)) :
    ∃ h'', deleteItemFromArray array which h' = some h'' ∧
      h.Owns h'' (rootCells (edits array (·.eraseIdx which.toNat) roots) + own) ∧
      h''.next = h'.next := by
  unfold deleteItemFromArray
  cases hc : cs[which.toNat]? with
  | none =>
    rw [detach_none array which cs roots hchild hc owns]
    refine deleteItem_holds array which.toNat cs roots none h' hchild ?_ (fun _ => ⟨rfl, owns⟩)
      (addrs_nodup roots owns)
    intro c hc'
    rw [hc] at hc'
    cases hc'
  | some c =>
    obtain ⟨h₁, hdetach, owns₁, hnext₁⟩ := detach_holds array which cs roots c hchild hc owns
    rw [hdetach]
    obtain ⟨h₂, hdelete, owns₂, hnext₂⟩ :=
      deleteItem_holds array which.toNat cs roots (some c.addr) h₁ hchild (fun c' hc' => by
        rw [hc] at hc'
        cases hc'
        exact ⟨rfl, owns₁⟩) (fun hnone => by
        rw [hc] at hnone
        cases hnone) (addrs_nodup roots owns)
    exact ⟨h₂, hdelete, owns₂, hnext₂.trans hnext₁⟩

/-- The loop over the names ends at the first member that has the name. -/
theorem find_holds (object : ℕ) (string : CStr) (cs roots : List Node)
    (hreadable : AllReadable roots) (hchild : childAt object roots = some cs)
    (owns : h.Owns h' (rootCells roots + own)) :
    ∃ o, getNode h' object = some o ∧ findWithin h' string.bytes h'.next 0 o.child =
      some (cs.findIdx (named string), (cs[cs.findIdx (named string)]?).map Node.addr) := by
  obtain ⟨g, rest, hg, owns', -⟩ := open_at object cs roots hchild owns
  have hfind := findWithin_spec string cs h'.next 0 none _
    (length_le cs none none owns'.second) (readable_childAt object cs roots hreadable hchild)
    owns'.second
  rw [Nat.zero_add] at hfind
  refine ⟨g, getNode_spec owns', ?_⟩
  rw [hg, hfind, head, List.head?_drop]

theorem insertItemInArray_holds (array : ℕ) (which : ℤ) (i : Node) (cs rest : List Node)
    (hchild : childAt array rest = some cs) (owns : h.Owns h' (rootCells rest + (alone i + own))) :
    ∃ h'', insertItemInArray array which i.addr h' = some h'' ∧
      h.Owns h'' (rootCells (edits array (insertAt which.toNat i) rest) + own) ∧
      h''.next = h'.next := by
  obtain ⟨g, around, hg, owns', hclose⟩ := open_at array cs rest hchild owns
  rw [add_assoc (alone i)] at owns'
  have hinsert : ∃ h'', insertItemInArray array which i.addr h' = some h'' ∧
      h.Owns h'' ({(array, .node { g with child := head (insertAt which.toNat i cs) })} +
        (chain (insertAt which.toNat i cs) none none + (own + around))) ∧
      h''.next = h'.next := by
    unfold insertAt
    by_cases hlt : which.toNat < cs.length
    · have hdrop : cs[which.toNat] :: cs.drop (which.toNat + 1) = cs.drop which.toNat :=
        List.getElem_cons_drop ..
      have hsplit : cs = cs.take which.toNat ++ cs[which.toNat] :: cs.drop (which.toNat + 1) := by
        rw [hdrop, List.take_append_drop]
      rw [← hdrop]
      have hg' := hg
      rw [hsplit] at hg' owns'
      exact insertItemInArray_spec array g _ _ _ i which hg' (by
        rw [List.length_take]
        omega) owns'
    · have hle := Nat.le_of_not_lt hlt
      have hwalk := walk_spec cs which.toNat none _ owns'.second
      rw [List.drop_of_length_le hle, head_nil, ← hg] at hwalk
      rw [List.take_of_length_le hle, List.drop_of_length_le hle]
      obtain ⟨h'', hadd, owns'', hnext⟩ := addItemToArray_spec array g cs i hg owns'
      refine ⟨h'', ?_, owns'', hnext⟩
      unfold insertItemInArray
      rw [getNode_spec owns']
      simp only [Option.bind_eq_bind, Option.bind_some, hwalk]
      exact hadd
  obtain ⟨h'', hinsert, owns'', hnext⟩ := hinsert
  exact ⟨h'', hinsert, hclose (insertAt which.toNat i) h'' own owns'', hnext⟩

theorem replaceItemInArray_holds (array : ℕ) (which : ℤ) (i : Node) (cs rest : List Node)
    (hchild : childAt array rest = some cs) (hlt : which.toNat < cs.length)
    (owns : h.Owns h' (rootCells rest + (alone i + own))) :
    ∃ h'', replaceItemInArray array which i.addr h' = some h'' ∧
      h.Owns h'' (rootCells (edits array (·.set which.toNat i) rest) + own) ∧
      h''.next = h'.next := by
  obtain ⟨g, around, hg, owns', hclose⟩ := open_at array cs rest hchild owns
  rw [add_assoc (alone i)] at owns'
  have hsplit : cs = cs.take which.toNat ++ cs[which.toNat] :: cs.drop (which.toNat + 1) := by
    rw [List.getElem_cons_drop, List.take_append_drop]
  have hset : cs.set which.toNat i = cs.take which.toNat ++ i :: cs.drop (which.toNat + 1) :=
    List.set_eq_take_append_cons_drop.trans (if_pos hlt)
  rw [hsplit] at hg owns'
  obtain ⟨h'', hreplace, owns'', hnext⟩ := replaceItemInArray_spec array g _ _ _ i which hg (by
    rw [List.length_take]
    omega) owns'
  refine ⟨h'', hreplace, ?_, hnext⟩
  apply hclose (·.set which.toNat i) h'' own
  rw [hset]
  exact owns''

theorem replaceItemInArray_none (array : ℕ) (which : ℤ) (newitem : ℕ) (cs roots : List Node)
    (hchild : childAt array roots = some cs) (hlt : ¬ which.toNat < cs.length)
    (owns : h.Owns h' (rootCells roots + own)) :
    replaceItemInArray array which newitem h' = some h' := by
  obtain ⟨g, around, hg, owns', -⟩ := open_at array cs roots hchild owns
  have hwalk := walk_spec cs which.toNat none _ owns'.second
  rw [List.drop_of_length_le (Nat.le_of_not_lt hlt), head_nil, ← hg] at hwalk
  unfold replaceItemInArray
  rw [getNode_spec owns']
  simp only [Option.bind_eq_bind, Option.bind_some, hwalk]
  rfl

/-! ### Each call keeps the trees -/

theorem create_owns (ok : ℕ → Bool) (kind : Kind) (roots : List Node) (leaked : List Str)
    (owns : h.Owns h' (rootCells roots + own)) :
    ∃ h'', create ok kind h' = some ((Store.create ok kind ⟨h'.next, roots, leaked⟩).1, h'') ∧
      h.Owns h'' (rootCells (Store.create ok kind ⟨h'.next, roots, leaked⟩).2.roots + own) ∧
      h''.next = (Store.create ok kind ⟨h'.next, roots, leaked⟩).2.next := by
  unfold create newItem Store.create
  cases hok : ok h'.next with
  | false =>
    obtain ⟨h₁, hmalloc, owns₁, hnext₁⟩ := owns.mallocFailed ok _ hok
    rw [hmalloc]
    exact ⟨h₁, rfl, owns₁, hnext₁⟩
  | true =>
    obtain ⟨h₁, hmalloc, owns₁, hnext₁⟩ := owns.malloc ok (.node .zero) hok
    obtain ⟨h₂, hset, owns₂, hnext₂⟩ := setNode_spec (fun item => { item with kind := kind }) owns₁
    rw [hmalloc]
    refine ⟨h₂, ?_, ?_, hnext₂.trans hnext₁⟩
    · simp only [Option.bind_eq_bind, hset, Option.bind_some]
      rfl
    · simp only [if_true]
      rw [rootCells_cons, alone, chain_one, inner_eq, add_assoc]
      exact owns₂

theorem createString_owns (ok : ℕ → Bool) (string : CStr) (roots : List Node) (leaked : List Str)
    (owns : h.Owns h' (rootCells roots + own)) :
    ∃ h'', createString ok string h' =
        some ((Store.createString ok string ⟨h'.next, roots, leaked⟩).1, h'') ∧
      h.Owns h'' (rootCells (Store.createString ok string ⟨h'.next, roots, leaked⟩).2.roots + own) ∧
      h''.next = (Store.createString ok string ⟨h'.next, roots, leaked⟩).2.next := by
  unfold createString newItem Store.createString
  cases hok : ok h'.next with
  | false =>
    obtain ⟨h₁, hmalloc, owns₁, hnext₁⟩ := owns.mallocFailed ok _ hok
    rw [hmalloc]
    exact ⟨h₁, rfl, owns₁, hnext₁⟩
  | true =>
    obtain ⟨h₁, hmalloc, owns₁, hnext₁⟩ := owns.malloc ok (.node .zero) hok
    obtain ⟨h₂, hset₂, owns₂, hnext₂⟩ :=
      setNode_spec (fun item => { item with kind := .string }) owns₁
    obtain ⟨h₃, hdup, owns₃, hnext₃⟩ := strdup_owns ok string owns₂
    rw [hnext₂, hnext₁] at hdup owns₃ hnext₃
    obtain ⟨h₄, hset₄, owns₄, hnext₄⟩ := setNode_spec
      (fun item => { item with valuestring := (dup ok (h'.next + 1) string).map Str.addr })
      owns₃.second
    rw [hmalloc]
    simp only [Option.bind_eq_bind, hset₂, Option.bind_some, hdup, hset₄, if_true]
    cases hv : dup ok (h'.next + 1) string with
    | some v =>
      rw [hv] at owns₄
      refine ⟨h₄, rfl, ?_, ?_⟩
      · have hinner : inner (.mk h'.next ⟨.string, [], some v, none⟩ []) = Str.cells (some v) := by
          rw [inner_eq]
          show Str.cells (some v) + 0 + chain [] none none = _
          rw [chain_nil, add_zero, add_zero]
        rw [rootCells_cons, alone, chain_one, hinner, add_assoc, add_assoc]
        exact owns₄
      · show h₄.next = h'.next + 2
        omega
    | none =>
      rw [hv] at owns₄
      rw [Str.cells, zero_add] at owns₄
      obtain ⟨h₅, hdelete, owns₅, hnext₅⟩ :=
        delete_one (.mk h'.next ⟨.string, [], none, none⟩ []) (by
          rw [alone, chain_one, inner_eq]
          exact owns₄)
      have hdelete : delete (some h'.next) h₄ = some h₅ := hdelete
      refine ⟨h₅, ?_, owns₅, ?_⟩
      · simp only [Option.map_none, hdelete, Option.bind_some]
        rfl
      · show h₅.next = h'.next + 2
        omega

theorem create_readable (ok : ℕ → Bool) (kind : Kind) (s : Store) (hread : AllReadable s.roots) :
    AllReadable (Store.create ok kind s).2.roots ∧
      (Store.create ok kind s).2.leaked = s.leaked := by
  unfold Store.create
  split
  · exact ⟨⟨⟨trivial, trivial, trivial⟩, hread⟩, rfl⟩
  · exact ⟨hread, rfl⟩

theorem createString_readable (ok : ℕ → Bool) (string : CStr) (s : Store)
    (hread : AllReadable s.roots) : AllReadable (Store.createString ok string s).2.roots ∧
      (Store.createString ok string s).2.leaked = s.leaked := by
  unfold Store.createString
  split
  · have hdup := dup_readable ok (s.next + 1) string
    split
    next v hv =>
      rw [hv] at hdup
      exact ⟨⟨⟨hdup, trivial, trivial⟩, hread⟩, rfl⟩
    next => exact ⟨hread, rfl⟩
  · exact ⟨hread, rfl⟩

theorem eraseIdx_readable (i : ℕ) (cs : List Node) (hcs : AllReadable cs) :
    AllReadable (cs.eraseIdx i) := by
  rw [allReadable_iff] at hcs ⊢
  exact fun n hn => hcs n (List.mem_of_mem_eraseIdx hn)

theorem set_readable (k : ℕ) (i : Node) (hi : Readable i) (cs : List Node) (hcs : AllReadable cs) :
    AllReadable (cs.set k i) := by
  rw [allReadable_iff] at hcs ⊢
  intro n hn
  rcases List.mem_or_eq_of_mem_set hn with hmem | heq
  · exact hcs n hmem
  · exact heq ▸ hi

theorem insertAt_readable (k : ℕ) (i : Node) (hi : Readable i) (cs : List Node)
    (hcs : AllReadable cs) : AllReadable (insertAt k i cs) := by
  rw [allReadable_iff] at hcs ⊢
  intro n hn
  rcases List.mem_append.mp hn with htake | hdrop
  · exact hcs n (List.mem_of_mem_take htake)
  · rcases List.mem_cons.mp hdrop with rfl | hdrop
    · exact hi
    · exact hcs n (List.mem_of_mem_drop hdrop)

variable {h₀ : Memory}

theorem detach_step (array : ℕ) (which : ℤ) (s s' : Store) (r : Option ℕ) (h : Memory)
    (holds : Holds h₀ s h) (happly : Store.detach array which.toNat s = some (r, s')) :
    ∃ h', detachItemFromArray array which h = some (r, h') ∧ Holds h₀ s' h' := by
  obtain ⟨hnext, owns, hread⟩ := holds
  simp only [Store.detach, Option.bind_eq_bind, Option.bind_eq_some_iff] at happly
  obtain ⟨cs, hchild, happly⟩ := happly
  cases hc : cs[which.toNat]? with
  | none =>
    rw [hc] at happly
    cases happly
    exact ⟨h, detach_none array which cs s.roots hchild hc owns, hnext, owns, hread⟩
  | some c =>
    rw [hc] at happly
    cases happly
    obtain ⟨h', hdetach, owns', hnext'⟩ := detach_holds array which cs s.roots c hchild hc owns
    refine ⟨h', hdetach, hnext'.trans hnext, ?_, ?_⟩
    · rw [add_left_comm] at owns'
      rw [rootCells_cons, add_assoc]
      exact owns'
    · have hcs := readable_childAt array cs s.roots hread hchild
      rw [allReadable_iff] at hcs
      exact ⟨hcs c (List.mem_of_getElem? hc),
        allReadable_edits array _ (eraseIdx_readable which.toNat) s.roots hread⟩

theorem deleteItem_step (array : ℕ) (which : ℤ) (s s' : Store) (r : Option ℕ) (h : Memory)
    (holds : Holds h₀ s h) (happly : Store.deleteItem array which.toNat s = some (r, s')) :
    r = none ∧ ∃ h', deleteItemFromArray array which h = some h' ∧ Holds h₀ s' h' := by
  obtain ⟨hnext, owns, hread⟩ := holds
  simp only [Store.deleteItem, Option.bind_eq_bind, Option.bind_eq_some_iff] at happly
  obtain ⟨cs, hchild, happly⟩ := happly
  cases happly
  obtain ⟨h', hdelete, owns', hnext'⟩ :=
    deleteItemFromArray_holds array which cs s.roots hchild owns
  exact ⟨rfl, h', hdelete, hnext'.trans hnext, owns',
    allReadable_edits array _ (eraseIdx_readable which.toNat) s.roots hread⟩

/-- By name is by the index of the first member that has the name. -/
theorem detachItemFromObject_eq (object : ℕ) (string : CStr) (s : Store) (cs : List Node)
    (h : Memory) (holds : Holds h₀ s h) (hchild : childAt object s.roots = some cs) :
    detachItemFromObject object string h =
      detachItemFromArray object (cs.findIdx (named string)) h := by
  obtain ⟨hnext, owns, hread⟩ := holds
  obtain ⟨o, ho, hfind⟩ := find_holds object string cs s.roots hread hchild owns
  unfold detachItemFromObject
  simp only [ho, Option.bind_eq_bind, Option.bind_some, hfind]
  cases hc : cs[cs.findIdx (named string)]? with
  | some c => rfl
  | none =>
    exact (detach_none object (cs.findIdx (named string) : ℕ) cs s.roots hchild hc owns).symm

theorem add_step (ok : ℕ → Bool) (array item : ℕ) (s s' : Store) (r : Option ℕ) (h : Memory)
    (holds : Holds h₀ s h) (happly : Store.apply ok (.addItemToArray array item) s = some (r, s')) :
    r = none ∧ ∃ h', addItemToArray array (some item) h = some h' ∧ Holds h₀ s' h' := by
  obtain ⟨hnext, owns, hread⟩ := holds
  simp only [Store.apply, Option.bind_eq_bind, Option.bind_eq_some_iff] at happly
  obtain ⟨⟨i, rest⟩, htake, cs, hchild, happly⟩ := happly
  cases happly
  obtain ⟨rfl, hcells, hreads⟩ := take_spec item s.roots i rest htake
  obtain ⟨hi, hrest⟩ := hreads hread
  rw [hcells, add_assoc, add_left_comm] at owns
  obtain ⟨h', hadd, owns', hnext'⟩ := add_holds array i cs rest hchild owns
  exact ⟨rfl, h', hadd, hnext'.trans hnext, owns',
    allReadable_edits array _ (append_readable i hi) rest hrest⟩

theorem addObject_step (ok : ℕ → Bool) (object : ℕ) (string : CStr) (item : ℕ) (s s' : Store)
    (r : Option ℕ) (h : Memory) (holds : Holds h₀ s h)
    (happly : Store.apply ok (.addItemToObject object string item) s = some (r, s')) :
    r = none ∧ ∃ h', addItemToObject ok object string (some item) h = some h' ∧
      Holds h₀ s' h' := by
  obtain ⟨hnext, owns, hread⟩ := holds
  simp only [Store.apply, Option.bind_eq_bind, Option.bind_eq_some_iff] at happly
  obtain ⟨⟨i, rest⟩, htake, cs, hchild, happly⟩ := happly
  cases happly
  obtain ⟨rfl, hcells, hreads⟩ := take_spec item s.roots i rest htake
  obtain ⟨hi, hrest⟩ := hreads hread
  rw [hcells, add_assoc, add_left_comm] at owns
  obtain ⟨h', hadd, owns', hnext'⟩ := addItemToObject_holds ok object string i cs rest hchild owns
  rw [hnext] at owns' hnext'
  exact ⟨rfl, h', hadd, hnext', owns',
    allReadable_edits object _ (append_readable _ (rename_readable ok s.next string i hi)) rest hrest⟩

theorem insert_step (ok : ℕ → Bool) (array : ℕ) (which : ℤ) (newitem : ℕ) (s s' : Store)
    (r : Option ℕ) (h : Memory) (holds : Holds h₀ s h)
    (happly : Store.apply ok (.insertItemInArray array which newitem) s = some (r, s')) :
    r = none ∧ ∃ h', insertItemInArray array which newitem h = some h' ∧ Holds h₀ s' h' := by
  obtain ⟨hnext, owns, hread⟩ := holds
  simp only [Store.apply, Option.bind_eq_bind, Option.bind_eq_some_iff] at happly
  obtain ⟨⟨i, rest⟩, htake, cs, hchild, happly⟩ := happly
  cases happly
  obtain ⟨rfl, hcells, hreads⟩ := take_spec newitem s.roots i rest htake
  obtain ⟨hi, hrest⟩ := hreads hread
  rw [hcells, add_assoc, add_left_comm] at owns
  obtain ⟨h', hinsert, owns', hnext'⟩ := insertItemInArray_holds array which i cs rest hchild owns
  exact ⟨rfl, h', hinsert, hnext'.trans hnext, owns',
    allReadable_edits array _ (insertAt_readable which.toNat i hi) rest hrest⟩

theorem replace_step (ok : ℕ → Bool) (array : ℕ) (which : ℤ) (newitem : ℕ) (s s' : Store)
    (r : Option ℕ) (h : Memory) (holds : Holds h₀ s h)
    (happly : Store.apply ok (.replaceItemInArray array which newitem) s = some (r, s')) :
    r = none ∧ ∃ h', replaceItemInArray array which newitem h = some h' ∧ Holds h₀ s' h' := by
  obtain ⟨hnext, owns, hread⟩ := holds
  simp only [Store.apply, Option.bind_eq_bind, Option.bind_eq_some_iff] at happly
  obtain ⟨⟨i, rest⟩, htake, cs, hchild, happly⟩ := happly
  obtain ⟨rfl, hcells, hreads⟩ := take_spec newitem s.roots i rest htake
  obtain ⟨hi, hrest⟩ := hreads hread
  have owns₁ := owns
  rw [hcells, add_assoc, add_left_comm] at owns₁
  by_cases hlt : which.toNat < cs.length
  · rw [if_pos hlt] at happly
    cases happly
    obtain ⟨h', hreplace, owns', hnext'⟩ :=
      replaceItemInArray_holds array which i cs rest hchild hlt owns₁
    exact ⟨rfl, h', hreplace, hnext'.trans hnext, owns',
      allReadable_edits array _ (set_readable which.toNat i hi) rest hrest⟩
  · rw [if_neg hlt] at happly
    cases happly
    exact ⟨rfl, h, replaceItemInArray_none array which i.addr cs rest hchild hlt owns₁, hnext, owns,
      hread⟩

/-- The name of the new item is out of reach behind the call. -/
theorem overwrite_spec (ok : ℕ → Bool) (string : CStr) (i : Node)
    (owns : h.Owns h' (alone i + own)) :
    ∃ h₁ h₂, Plain.strdup ok string.bytes h' =
        some ((dup ok h'.next string).map Str.addr, h₁) ∧
      (setNode h₁ i.addr fun n => { n with string := (dup ok h'.next string).map Str.addr }) =
        some h₂ ∧
      h.Owns h₂ (alone (i.rename (dup ok h'.next string)) + (Str.cells i.label.string + own)) ∧
      h₂.next = h'.next + 1 := by
  obtain ⟨addr, label, child⟩ := i
  rw [alone, chain_one, inner_eq, Label.cells] at owns
  simp only [add_assoc] at owns
  obtain ⟨h₁, hdup, owns₁, hnext₁⟩ := strdup_owns ok string owns
  obtain ⟨h₂, hset, owns₂, hnext₂⟩ := setNode_spec
    (fun n => { n with string := (dup ok h'.next string).map Str.addr }) owns₁.second
  refine ⟨h₁, h₂, hdup, hset, ?_, hnext₂.trans hnext₁⟩
  rw [Node.rename, alone, chain_one, inner_eq, Label.cells]
  have hcells : ∀ a b c d e f : Multiset (ℕ × Cell),
      a + (b + (c + (d + (e + f)))) = a + (c + b + e) + (d + f) := by
    intro a b c d e f
    ac_rfl
  rw [hcells] at owns₂
  exact owns₂

theorem leakedCells_append (name : Option Str) (leaked : List Str) :
    leakedCells (name.toList ++ leaked) = Str.cells name + leakedCells leaked := by
  cases name with
  | none =>
    rw [Str.cells, zero_add]
    rfl
  | some s => exact List.sum_cons

theorem replaceObject_step (ok : ℕ → Bool) (object : ℕ) (string : CStr) (newitem : ℕ)
    (s s' : Store) (r : Option ℕ) (h : Memory) (holds : Holds h₀ s h)
    (happly : Store.apply ok (.replaceItemInObject object string newitem) s = some (r, s')) :
    r = none ∧ ∃ h', replaceItemInObject ok object string newitem h = some h' ∧
      Holds h₀ s' h' := by
  obtain ⟨hnext, owns, hread⟩ := holds
  simp only [Store.apply, Option.bind_eq_bind, Option.bind_eq_some_iff] at happly
  obtain ⟨⟨i, rest⟩, htake, cs, hchild, happly⟩ := happly
  obtain ⟨rfl, hcells, hreads⟩ := take_spec newitem s.roots i rest htake
  obtain ⟨hi, hrest⟩ := hreads hread
  have owns₁ := owns
  rw [hcells, add_assoc] at owns₁
  have owns₂ := owns₁
  rw [add_left_comm] at owns₂
  obtain ⟨o, ho, hfind⟩ := find_holds object string cs rest hrest hchild owns₂
  unfold replaceItemInObject
  simp only [ho, Option.bind_eq_bind, Option.bind_some, hfind]
  by_cases hlt : cs.findIdx (named string) < cs.length
  · rw [if_pos hlt] at happly
    cases happly
    obtain ⟨h₁, h₂, hdup, hset, owns₃, hnext₂⟩ := overwrite_spec ok string i owns₁
    rw [add_left_comm (Str.cells _), add_left_comm, ← leakedCells_append] at owns₃
    obtain ⟨h₃, hreplace, owns₄, hnext₃⟩ := replaceItemInArray_holds object
      (cs.findIdx (named string) : ℕ) _ cs rest hchild hlt owns₃
    rw [rename_addr] at hreplace
    rw [hnext] at hdup hset owns₄ hnext₂
    refine ⟨rfl, h₃, ?_, hnext₃.trans hnext₂, owns₄, allReadable_edits object _
      (set_readable _ _ (rename_readable ok s.next string i hi)) rest hrest⟩
    rw [List.getElem?_eq_getElem hlt]
    simp only [Option.map_some, hdup, Option.bind_some, hset]
    exact hreplace
  · rw [if_neg hlt] at happly
    cases happly
    rw [List.getElem?_eq_none (Nat.le_of_not_lt hlt)]
    exact ⟨rfl, h, rfl, hnext, owns, hread⟩

/-- One call in memory is the call on the trees. -/
theorem exec_step (ok : ℕ → Bool) (op : Op) (s s' : Store) (r : Option ℕ) (h : Memory)
    (holds : Holds h₀ s h) (happly : Store.apply ok op s = some (r, s')) :
    ∃ h', exec ok op h = some (r, h') ∧ Holds h₀ s' h' := by
  obtain ⟨hnext, owns, hread⟩ := id holds
  cases op with
  | create kind =>
    obtain ⟨hread', hleaked⟩ := create_readable ok kind s hread
    obtain ⟨h', hcreate, owns', hnext'⟩ := create_owns ok kind s.roots s.leaked owns
    rw [hnext] at hcreate owns' hnext'
    have heq : Store.create ok kind s = (r, s') := Option.some.inj happly
    rw [heq] at hread' hleaked hcreate owns' hnext'
    rw [← hleaked] at owns'
    exact ⟨h', hcreate, hnext', owns', hread'⟩
  | createString string =>
    obtain ⟨hread', hleaked⟩ := createString_readable ok string s hread
    obtain ⟨h', hcreate, owns', hnext'⟩ := createString_owns ok string s.roots s.leaked owns
    rw [hnext] at hcreate owns' hnext'
    have heq : Store.createString ok string s = (r, s') := Option.some.inj happly
    rw [heq] at hread' hleaked hcreate owns' hnext'
    rw [← hleaked] at owns'
    exact ⟨h', hcreate, hnext', owns', hread'⟩
  | addItemToArray array item =>
    obtain ⟨rfl, h', hadd, holds'⟩ := add_step ok array item s s' r h holds happly
    exact ⟨h', by rw [exec, hadd]; rfl, holds'⟩
  | addItemToObject object string item =>
    obtain ⟨rfl, h', hadd, holds'⟩ := addObject_step ok object string item s s' r h holds happly
    exact ⟨h', by rw [exec, hadd]; rfl, holds'⟩
  | detachItemFromArray array which => exact detach_step array which s s' r h holds happly
  | deleteItemFromArray array which =>
    obtain ⟨rfl, h', hdelete, holds'⟩ := deleteItem_step array which s s' r h holds happly
    exact ⟨h', by rw [exec, hdelete]; rfl, holds'⟩
  | detachItemFromObject object string =>
    simp only [Store.apply, Option.bind_eq_bind, Option.bind_eq_some_iff] at happly
    obtain ⟨cs, hchild, happly⟩ := happly
    rw [exec, detachItemFromObject_eq object string s cs h holds hchild]
    exact detach_step object (cs.findIdx (named string) : ℕ) s s' r h holds happly
  | deleteItemFromObject object string =>
    simp only [Store.apply, Option.bind_eq_bind, Option.bind_eq_some_iff] at happly
    obtain ⟨cs, hchild, happly⟩ := happly
    obtain ⟨rfl, h', hdelete, holds'⟩ :=
      deleteItem_step object (cs.findIdx (named string) : ℕ) s s' r h holds happly
    refine ⟨h', ?_, holds'⟩
    rw [exec, deleteItemFromObject, detachItemFromObject_eq object string s cs h holds hchild]
    rw [deleteItemFromArray] at hdelete
    rw [hdelete]
    rfl
  | insertItemInArray array which newitem =>
    obtain ⟨rfl, h', hinsert, holds'⟩ :=
      insert_step ok array which newitem s s' r h holds happly
    exact ⟨h', by rw [exec, hinsert]; rfl, holds'⟩
  | replaceItemInArray array which newitem =>
    obtain ⟨rfl, h', hreplace, holds'⟩ :=
      replace_step ok array which newitem s s' r h holds happly
    exact ⟨h', by rw [exec, hreplace]; rfl, holds'⟩
  | replaceItemInObject object string newitem =>
    obtain ⟨rfl, h', hreplace, holds'⟩ :=
      replaceObject_step ok object string newitem s s' r h holds happly
    exact ⟨h', by rw [exec, hreplace]; rfl, holds'⟩
  | delete item =>
    simp only [Store.apply, Option.bind_eq_bind, Option.bind_eq_some_iff] at happly
    obtain ⟨⟨i, rest⟩, htake, happly⟩ := happly
    cases happly
    obtain ⟨rfl, hcells, hreads⟩ := take_spec item s.roots i rest htake
    rw [hcells, add_assoc] at owns
    obtain ⟨h', hdelete, owns', hnext'⟩ := delete_one i owns
    refine ⟨h', by rw [exec, hdelete]; rfl, hnext'.trans hnext, owns', (hreads hread).2⟩

/-! ### Runs -/

theorem exec_run (ok : ℕ → Bool) (ops : List Op) : ∀ (s s' : Store) (rs : List (Option ℕ))
    (h : Memory), Holds h₀ s h → Store.applyAll ok ops s = some (rs, s') →
    ∃ h', execAll ok ops h = some (rs, h') ∧ Holds h₀ s' h' := by
  induction ops with
  | nil =>
    intro s s' rs h holds happly
    cases happly
    exact ⟨h, rfl, holds⟩
  | cons op ops ih =>
    intro s s' rs h holds happly
    simp only [Store.applyAll, Option.bind_eq_bind, Option.bind_eq_some_iff] at happly
    obtain ⟨⟨r, s₁⟩, hone, ⟨rs', s₂⟩, hrest, heq⟩ := happly
    cases heq
    obtain ⟨h₁, hexec, holds₁⟩ := exec_step ok op s s₁ r h holds hone
    obtain ⟨h₂, hexecAll, holds₂⟩ := ih s₁ _ rs' h₁ holds₁ hrest
    refine ⟨h₂, ?_, holds₂⟩
    rw [execAll, hexec]
    simp only [Option.bind_eq_bind, Option.bind_some, hexecAll]

theorem holds_start (h₀ : Memory) : Holds h₀ ⟨h₀.next, [], []⟩ h₀ := by
  refine ⟨rfl, ?_, trivial⟩
  rw [show rootCells [] + leakedCells [] = 0 from add_zero _]
  exact Heap.owns_self h₀

/-- `cJSON_ReplaceItemInObject` leaves the old name of the new item allocated, and no node
of the client has it. -/
theorem replaceItemInObject_leaks (ok : ℕ → Bool) (object : ℕ) (string : CStr) (newitem : ℕ)
    (s : Store) (i : Node) (cs rest : List Node) (name : Str) (h : Memory) (holds : Holds h₀ s h)
    (htake : take newitem s.roots = some (i, rest)) (hchild : childAt object rest = some cs)
    (hfound : cs.findIdx (named string) < cs.length) (hname : i.label.string = some name) :
    ∃ h' roots, exec ok (.replaceItemInObject object string newitem) h = some (none, h') ∧
      Holds h₀ ⟨s.next + 1, roots, name :: s.leaked⟩ h' ∧
      h'.cell name.addr = some (.text name.block) := by
  have happly : Store.apply ok (.replaceItemInObject object string newitem) s =
      some (none, ⟨s.next + 1, edits object (·.set (cs.findIdx (named string))
        (i.rename (dup ok s.next string))) rest, name :: s.leaked⟩) := by
    simp only [Store.apply, htake, hchild, Option.bind_eq_bind, Option.bind_some, if_pos hfound,
      hname]
    rfl
  obtain ⟨h', hexec, holds'⟩ := exec_step ok _ s _ none h holds happly
  refine ⟨h', _, hexec, holds', ?_⟩
  have owns := holds'.owns
  rw [show leakedCells (name :: s.leaked) = Str.cells (some name) + leakedCells s.leaked from
    List.sum_cons, add_left_comm] at owns
  exact owns.read

/-! ### Reading in every state -/

theorem tolower_zero (c : Byte) : tolower c = 0 ↔ c = 0 := by
  unfold tolower
  split
  next hletter =>
    refine ⟨fun h0 => ?_, fun h0 => ?_⟩
    · have hval := congrArg Fin.val h0
      rw [Fin.val_add] at hval
      simp at hval
      omega
    · rw [h0] at hletter
      simp at hletter
  next => exact Iff.rfl

theorem strcasecmpBytes_zero (s1 : List Byte) : ∀ s2 : List Byte, 0 ∉ s1 → 0 ∉ s2 →
    (strcasecmpBytes s1 s2 = 0 ↔ s1.map tolower = s2.map tolower) := by
  induction s1 with
  | nil =>
    intro s2 _ hs2
    cases s2 with
    | nil => simp [strcasecmpBytes]
    | cons c2 s2 =>
      have hc2 : tolower c2 ≠ 0 := by
        rw [Ne, tolower_zero]
        intro h0
        exact hs2 (h0 ▸ List.mem_cons_self ..)
      have hval : (tolower c2).val ≠ 0 := fun h0 => hc2 (Fin.ext h0)
      simp [strcasecmpBytes]
      omega
  | cons c1 s1 ih =>
    intro s2 hs1 hs2
    rw [List.mem_cons, not_or] at hs1
    cases s2 with
    | nil =>
      have hc1 : tolower c1 ≠ 0 := by
        rw [Ne, tolower_zero]
        exact fun h0 => hs1.1 h0.symm
      have hval : (tolower c1).val ≠ 0 := fun h0 => hc1 (Fin.ext h0)
      simp [strcasecmpBytes]
      omega
    | cons c2 s2 =>
      rw [List.mem_cons, not_or] at hs2
      rw [strcasecmpBytes, List.map_cons, List.map_cons, List.cons.injEq]
      by_cases heq : tolower c1 = tolower c2
      · rw [if_pos heq, ih s2 hs1.2 hs2.2]
        simp [heq]
      · rw [if_neg heq]
        have hval : (tolower c1).val ≠ (tolower c2).val := fun h => heq (Fin.ext h)
        simp only [heq, false_and, iff_false]
        omega

theorem zero_notMem_load (block : List (Option Byte)) (text : List Byte)
    (hload : loadString block = some text) : 0 ∉ text := by
  induction block generalizing text with
  | nil => cases hload
  | cons b block ih =>
    cases b with
    | none => cases hload
    | some b =>
      rw [loadString] at hload
      by_cases hb : b = 0
      · rw [if_pos hb] at hload
        cases hload
        exact List.not_mem_nil
      · rw [if_neg hb] at hload
        obtain ⟨rest, hrest, rfl⟩ := Option.map_eq_some_iff.mp hload
        rw [List.mem_cons, not_or]
        exact ⟨Ne.symm hb, ih rest hrest⟩

/-- The names match as ASCII letters of either case do; a node without a name has none. -/
theorem named_iff (string : CStr) (n : Node) :
    named string n = true ↔
      (nameOf n).map (List.map tolower) = some (string.bytes.map tolower) := by
  unfold named
  rw [decide_eq_true_iff]
  cases hname : nameOf n with
  | none => simp [strcasecmp]
  | some name =>
    have hnul : 0 ∉ name := by
      obtain ⟨s, -, hload⟩ := Option.bind_eq_some_iff.mp hname
      exact zero_notMem_load s.block name hload
    rw [strcasecmp, strcasecmpBytes_zero name string.bytes hnul string.zero_notMem]
    simp

theorem getArraySize_holds (a : ℕ) (s : Store) (cs : List Node) (h : Memory)
    (holds : Holds h₀ s h) (hchild : childAt a s.roots = some cs) :
    getArraySize a h = some cs.length := by
  have owns := holds.owns
  obtain ⟨g, rest, hg, owns', -⟩ := open_at a cs s.roots hchild owns
  unfold getArraySize
  rw [getNode_spec owns']
  simp only [Option.bind_eq_bind, Option.bind_some, hg]
  exact sizeWithin_spec cs h.next none _ (length_le cs none none owns'.second) owns'.second

theorem getArrayItem_holds (a : ℕ) (item : ℤ) (s : Store) (cs : List Node) (h : Memory)
    (holds : Holds h₀ s h) (hchild : childAt a s.roots = some cs) :
    getArrayItem (some a) item h = some ((cs[item.toNat]?).map Node.addr) := by
  have owns := holds.owns
  obtain ⟨g, rest, hg, owns', -⟩ := open_at a cs s.roots hchild owns
  unfold getArrayItem
  simp only [getNode_spec owns', Option.bind_eq_bind, Option.bind_some, hg]
  rw [walk_spec cs item.toNat none _ owns'.second, head, List.head?_drop]

theorem getObjectItem_holds (a : ℕ) (string : CStr) (s : Store) (cs : List Node) (h : Memory)
    (holds : Holds h₀ s h) (hchild : childAt a s.roots = some cs) :
    getObjectItem (some a) string h = some ((cs.find? (named string)).map Node.addr) := by
  have owns := holds.owns
  obtain ⟨o, ho, hfind⟩ := find_holds a string cs s.roots holds.readable hchild owns
  unfold getObjectItem
  simp only [ho, Option.bind_eq_bind, Option.bind_some, hfind]
  rw [List.find?_eq_getElem?_findIdx]
  rfl

/-- In every state that a client can reach, the functions that read a list see the list
of the tree, and the name is searched without regard to case. -/
theorem reads_refine (ok : ℕ → Bool) (ops : List Op) (h₀ : Memory) (s : Store)
    (rs : List (Option ℕ)) (hrun : Store.applyAll ok ops ⟨h₀.next, [], []⟩ = some (rs, s)) :
    ∃ h, execAll ok ops h₀ = some (rs, h) ∧ ∀ a cs, childAt a s.roots = some cs →
      getArraySize a h = some cs.length ∧
      (∀ item : ℤ, getArrayItem (some a) item h = some ((cs[item.toNat]?).map Node.addr)) ∧
      ∀ string : CStr, getObjectItem (some a) string h = some ((cs.find? fun n =>
        (nameOf n).map (List.map tolower) = some (string.bytes.map tolower)).map Node.addr) := by
  obtain ⟨h, hexec, holds⟩ := exec_run ok ops _ s rs h₀ (holds_start h₀) hrun
  refine ⟨h, hexec, fun a cs hchild => ⟨getArraySize_holds a s cs h holds hchild, ?_, ?_⟩⟩
  · exact fun item => getArrayItem_holds a item s cs h holds hchild
  · intro string
    have hnamed : named string = fun n : Node =>
        decide ((nameOf n).map (List.map tolower) = some (string.bytes.map tolower)) := by
      funext n
      rw [Bool.eq_iff_iff, named_iff, decide_eq_true_iff]
    rw [getObjectItem_holds a string s cs h holds hchild, hnamed]

theorem member_read_back :
    ∃ h, execAll (fun _ => true) [.create .object, .create .cNull, .addItemToObject 0 (.lit "a") 1]
        Heap.empty = some ([some 0, some 1, none], h) ∧
      ∀ a cs, childAt a [.mk 0 ⟨.object, [], none, none⟩ [.mk 1 ⟨.cNull, [], none,
          some ⟨2, [some 97, some 0]⟩⟩ []]] = some cs →
        getArraySize a h = some cs.length ∧
        (∀ item : ℤ, getArrayItem (some a) item h = some ((cs[item.toNat]?).map Node.addr)) ∧
        ∀ string : CStr, getObjectItem (some a) string h = some ((cs.find? fun n =>
          (nameOf n).map (List.map tolower) = some (string.bytes.map tolower)).map Node.addr) :=
  reads_refine (fun _ => true) _ Heap.empty ⟨3, _, []⟩ _ rfl

end Nodes
end SmbDiscover

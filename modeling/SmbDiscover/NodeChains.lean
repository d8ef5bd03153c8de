import SmbDiscover.Nodes

/-!
# Lists of nodes (cJSON.c:108-131, 1586-1846)

`Node` is the tree that a node owns: the blocks of its two strings, and the nodes of its
list of children. `chain prev next ns` are the cells of a stretch of such a list between
a cell `prev` and a cell `next`. Each function is an operation on the list.
-/

namespace SmbDiscover
open CText

namespace Nodes

/-- A block of bytes with its address. -/
structure Str where
  addr : ℕ
  block : List (Option Byte)

def Str.cells : Option Str → Multiset (ℕ × Cell)
  | none => 0
  | some s => {(s.addr, .text s.block)}

/-- What a node holds beside its links. -/
structure Label where
  kind : Kind
  number : List Byte
  valuestring : Option Str
  string : Option Str

namespace Label

def fields (l : Label) (next prev child : Option ℕ) : Fields :=
  ⟨next, prev, child, l.kind, false, false, l.valuestring.map Str.addr, l.number,
    l.string.map Str.addr⟩

def cells (l : Label) : Multiset (ℕ × Cell) := Str.cells l.valuestring + Str.cells l.string

end Label

/-- A node at its address, with its children. -/
inductive Node where
  | mk (addr : ℕ) (label : Label) (child : List Node)

namespace Node

def addr : Node → ℕ
  | mk addr _ _ => addr

def label : Node → Label
  | mk _ label _ => label

def child : Node → List Node
  | mk _ _ child => child

end Node

def head (ns : List Node) : Option ℕ := ns.head?.map Node.addr

def last (ns : List Node) : Option ℕ := ns.getLast?.map Node.addr

mutual

/-- The cells that a node owns besides its own. -/
def inner : Node → Multiset (ℕ × Cell)
  | .mk _ label child => label.cells + chain child none none

def chain : List Node → Option ℕ → Option ℕ → Multiset (ℕ × Cell)
  | [], _, _ => 0
  | .mk addr label child :: rest, prev, next =>
    {(addr, .node (label.fields ((head rest).or next) prev (head child)))} +
      (inner (.mk addr label child) + chain rest (some addr) next)

end

/-- A node in no list. -/
def alone (n : Node) : Multiset (ℕ × Cell) := chain [n] none none

/-! ### Stretches of a list -/

def fieldsOf (n : Node) (next prev : Option ℕ) : Fields := n.label.fields next prev (head n.child)

@[simp] theorem head_nil : head [] = none := rfl

@[simp] theorem head_cons (n : Node) (ns : List Node) : head (n :: ns) = some n.addr := rfl

@[simp] theorem last_nil : last [] = none := rfl

@[simp] theorem last_concat (ns : List Node) (n : Node) : last (ns ++ [n]) = some n.addr := by
  rw [last, List.getLast?_concat]
  rfl

theorem chain_cons (n : Node) (ns : List Node) (prev next : Option ℕ) :
    chain (n :: ns) prev next = {(n.addr, .node (fieldsOf n ((head ns).or next) prev))} +
      (inner n + chain ns (some n.addr) next) := by
  cases n
  rw [chain]
  rfl

theorem chain_nil (prev next : Option ℕ) : chain [] prev next = 0 := by rw [chain]

theorem inner_eq (n : Node) : inner n = n.label.cells + chain n.child none none := by
  cases n
  rw [inner]
  rfl

theorem chain_one (n : Node) (prev next : Option ℕ) :
    chain [n] prev next = {(n.addr, .node (fieldsOf n next prev))} + inner n := by
  rw [chain_cons, chain_nil, add_zero]
  rfl

theorem head_append (ns ms : List Node) : head (ns ++ ms) = (head ns).or (head ms) := by
  cases ns <;> rfl

theorem last_cons (n : Node) (ns : List Node) : last (n :: ns) = (last ns).or (some n.addr) := by
  unfold last
  rw [List.getLast?_cons]
  cases ns.getLast? <;> rfl

theorem chain_append (ns ms : List Node) (prev next : Option ℕ) :
    chain (ns ++ ms) prev next =
      chain ns prev ((head ms).or next) + chain ms ((last ns).or prev) next := by
  induction ns generalizing prev with
  | nil => rw [List.nil_append, chain_nil, zero_add, last_nil, Option.none_or]
  | cons n ns ih =>
    rw [List.cons_append, chain_cons, chain_cons, ih, head_append, Option.or_assoc, last_cons,
      Option.or_assoc, Option.some_or]
    ac_rfl

variable {h h' : Memory} {own : Multiset (ℕ × Cell)}

/-- The end of a stretch is linked to another node. -/
theorem setNext_chain (ns : List Node) (prev next next' : Option ℕ)
    (owns : h.Owns h' (chain ns prev next + own)) :
    ∃ h'', setNext h' (last ns) next' = some h'' ∧ h.Owns h'' (chain ns prev next' + own) ∧
      h''.next = h'.next := by
  rcases List.eq_nil_or_concat ns with hnil | ⟨ns, n, hconcat⟩
  · subst hnil
    exact ⟨h', rfl, owns, rfl⟩
  · rw [List.concat_eq_append] at hconcat
    subst hconcat
    rw [last_concat]
    rw [chain_append, chain_one] at owns ⊢
    rw [show chain ns prev ((head [n]).or next) + ({(n.addr, .node (fieldsOf n next
      ((last ns).or prev)))} + inner n) + own = {(n.addr, .node (fieldsOf n next
      ((last ns).or prev)))} + (chain ns prev (some n.addr) + inner n + own) by
        rw [head_cons, Option.some_or]; ac_rfl] at owns
    obtain ⟨h'', hset, owns', hnext⟩ := setNode_spec (fun item => { item with next := next' }) owns
    refine ⟨h'', hset, ?_, hnext⟩
    rw [show chain ns prev ((head [n]).or next') + ({(n.addr, .node (fieldsOf n next'
      ((last ns).or prev)))} + inner n) + own = {(n.addr, .node (fieldsOf n next'
      ((last ns).or prev)))} + (chain ns prev (some n.addr) + inner n + own) by
        rw [head_cons, Option.some_or]; ac_rfl]
    exact owns'

/-- The start of a stretch is linked to another node. -/
theorem setPrev_chain (ns : List Node) (prev prev' next : Option ℕ)
    (owns : h.Owns h' (chain ns prev next + own)) :
    ∃ h'', setPrev h' (head ns) prev' = some h'' ∧ h.Owns h'' (chain ns prev' next + own) ∧
      h''.next = h'.next := by
  cases ns with
  | nil => exact ⟨h', rfl, owns, rfl⟩
  | cons n ns =>
    rw [chain_cons, add_assoc] at owns
    obtain ⟨h'', hset, owns', hnext⟩ := setNode_spec (fun item => { item with prev := prev' }) owns
    refine ⟨h'', hset, ?_, hnext⟩
    rw [chain_cons, add_assoc]
    exact owns'

theorem chain_head (n : Node) (ns : List Node) (prev next : Option ℕ)
    (owns : h.Owns h' (chain (n :: ns) prev next + own)) :
    getNode h' n.addr = some (fieldsOf n ((head ns).or next) prev) ∧
    h.Owns h' (chain ns (some n.addr) next +
      ({(n.addr, .node (fieldsOf n ((head ns).or next) prev))} + inner n + own)) := by
  rw [chain_cons] at owns
  rw [show {(n.addr, .node (fieldsOf n ((head ns).or next) prev))} +
    (inner n + chain ns (some n.addr) next) + own =
    {(n.addr, .node (fieldsOf n ((head ns).or next) prev))} +
    (inner n + chain ns (some n.addr) next + own) by ac_rfl] at owns
  refine ⟨getNode_spec owns, ?_⟩
  rw [show chain ns (some n.addr) next +
    ({(n.addr, .node (fieldsOf n ((head ns).or next) prev))} + inner n + own) =
    {(n.addr, .node (fieldsOf n ((head ns).or next) prev))} +
    (inner n + chain ns (some n.addr) next + own) by ac_rfl]
  exact owns

/-! ### Deleting a list -/

theorem freeIf_spec (s : Option Str) (owns : h.Owns h' (Str.cells s + own)) :
    ∃ h'', freeIf h' (s.map Str.addr) = some h'' ∧ h.Owns h'' own ∧ h''.next = h'.next := by
  cases s with
  | none =>
    rw [Str.cells, zero_add] at owns
    exact ⟨h', rfl, owns, rfl⟩
  | some s => exact owns.free

theorem deleteWithin_spec (n : ℕ) : ∀ (ns : List Node) (prev : Option ℕ)
    (own : Multiset (ℕ × Cell)) (h' : Memory), (chain ns prev none).card ≤ n →
    h.Owns h' (chain ns prev none + own) →
    ∃ h'', deleteWithin n (head ns) h' = some h'' ∧ h.Owns h'' own ∧ h''.next = h'.next := by
  induction n with
  | zero =>
    intro ns prev own h' hcard owns
    cases ns with
    | nil =>
      rw [chain_nil, zero_add] at owns
      exact ⟨h', rfl, owns, rfl⟩
    | cons m ns =>
      rw [chain_cons, Multiset.card_add, Multiset.card_singleton] at hcard
      omega
  | succ n ih =>
    intro ns prev own h' hcard owns
    cases ns with
    | nil =>
      rw [chain_nil, zero_add] at owns
      exact ⟨h', rfl, owns, rfl⟩
    | cons m ns =>
      have hread := (chain_head m ns prev none owns).1
      rw [chain_cons, inner_eq] at hcard owns
      simp only [Multiset.card_add, Multiset.card_singleton] at hcard
      rw [show {(m.addr, .node (fieldsOf m ((head ns).or none) prev))} +
        (m.label.cells + chain m.child none none + chain ns (some m.addr) none) + own =
        chain m.child none none + ({(m.addr, .node (fieldsOf m ((head ns).or none) prev))} +
        (m.label.cells + chain ns (some m.addr) none + own)) by ac_rfl] at owns
      obtain ⟨h₁, hdelete₁, owns₁, hnext₁⟩ := ih m.child none _ h' (by omega) owns
      rw [show {(m.addr, .node (fieldsOf m ((head ns).or none) prev))} +
        (m.label.cells + chain ns (some m.addr) none + own) = Str.cells m.label.valuestring +
        (Str.cells m.label.string + ({(m.addr, .node (fieldsOf m ((head ns).or none) prev))} +
        (chain ns (some m.addr) none + own))) by rw [Label.cells]; ac_rfl] at owns₁
      obtain ⟨h₂, hfree₂, owns₂, hnext₂⟩ := freeIf_spec _ owns₁
      obtain ⟨h₃, hfree₃, owns₃, hnext₃⟩ := freeIf_spec _ owns₂
      obtain ⟨h₄, hfree₄, owns₄, hnext₄⟩ := owns₃.free
      obtain ⟨h₅, hdelete₅, owns₅, hnext₅⟩ := ih ns (some m.addr) own h₄ (by omega) owns₄
      refine ⟨h₅, ?_, owns₅, by omega⟩
      rw [head_cons, deleteWithin, hread]
      simp only [Option.bind_eq_bind, Option.bind_some, fieldsOf, Label.fields,
        Bool.false_eq_true, if_false, hdelete₁, hfree₂, hfree₃, hfree₄, Option.or_none]
      exact hdelete₅

/-- `cJSON_Delete` frees the cells of the list, each once, and nothing else. -/
theorem delete_spec (ns : List Node) (prev : Option ℕ)
    (owns : h.Owns h' (chain ns prev none + own)) :
    ∃ h'', delete (head ns) h' = some h'' ∧ h.Owns h'' own ∧ h''.next = h'.next := by
  have hcard := owns.card_le
  rw [Multiset.card_add] at hcard
  exact deleteWithin_spec h'.next ns prev own h' (by omega) owns

/-! ### Reading a list -/

theorem card_chain (ns : List Node) (prev next : Option ℕ) :
    ns.length ≤ (chain ns prev next).card := by
  induction ns generalizing prev with
  | nil => exact Nat.zero_le _
  | cons n ns ih =>
    have htail := ih (some n.addr)
    rw [chain_cons, Multiset.card_add, Multiset.card_add, Multiset.card_singleton, List.length_cons]
    omega

theorem length_le (ns : List Node) (prev next : Option ℕ)
    (owns : h.Owns h' (chain ns prev next + own)) : ns.length ≤ h'.next := by
  have hcard := owns.card_le
  have hlen := card_chain ns prev next
  rw [Multiset.card_add] at hcard
  omega

theorem sizeWithin_spec (ns : List Node) : ∀ (n : ℕ) (prev : Option ℕ)
    (own : Multiset (ℕ × Cell)), ns.length ≤ n → h.Owns h' (chain ns prev none + own) →
    sizeWithin h' n (head ns) = some ns.length := by
  induction ns with
  | nil =>
    intro n _ _ _ _
    cases n <;> rfl
  | cons m ns ih =>
    intro n prev own hlen owns
    obtain ⟨hread, owns'⟩ := chain_head m ns prev none owns
    cases n with
    | zero => cases hlen
    | succ n =>
      have hrest := ih n (some m.addr) _ (Nat.le_of_succ_le_succ hlen) owns'
      rw [head_cons, sizeWithin, hread]
      simp only [Option.bind_eq_bind, Option.bind_some, fieldsOf, Label.fields, Option.or_none,
        hrest]
      rfl

theorem walk_spec (ns : List Node) : ∀ (which : ℕ) (prev : Option ℕ)
    (own : Multiset (ℕ × Cell)), h.Owns h' (chain ns prev none + own) →
    walk h' which (head ns) = some (head (ns.drop which)) := by
  induction ns with
  | nil =>
    intro which _ _ _
    rw [List.drop_nil]
    cases which <;> rfl
  | cons m ns ih =>
    intro which prev own owns
    obtain ⟨hread, owns'⟩ := chain_head m ns prev none owns
    cases which with
    | zero => rfl
    | succ which =>
      have hrest := ih which (some m.addr) _ owns'
      rw [head_cons, walk, hread, List.drop_succ_cons]
      simp only [Option.bind_eq_bind, Option.bind_some, fieldsOf, Label.fields, Option.or_none]
      exact hrest

theorem lastWithin_spec (m : Node) (ns : List Node) : ∀ (n : ℕ) (prev : Option ℕ)
    (own : Multiset (ℕ × Cell)), ns.length < n → h.Owns h' (chain (m :: ns) prev none + own) →
    lastWithin h' n m.addr = last (m :: ns) := by
  induction ns generalizing m with
  | nil =>
    intro n prev own hlen owns
    obtain ⟨hread, -⟩ := chain_head m [] prev none owns
    cases n with
    | zero => cases hlen
    | succ n =>
      rw [lastWithin, hread]
      rfl
  | cons m' ns ih =>
    intro n prev own hlen owns
    obtain ⟨hread, owns'⟩ := chain_head m (m' :: ns) prev none owns
    cases n with
    | zero => cases hlen
    | succ n =>
      have hrest := ih m' n (some m.addr) _ (Nat.lt_of_succ_lt_succ hlen) owns'
      rw [lastWithin, hread, last_cons, ← hrest]
      simp only [Option.bind_eq_bind, Option.bind_some, fieldsOf, Label.fields, Option.or_none,
        head_cons]
      rw [hrest, last_cons, Option.or_assoc, Option.some_or]

/-! ### Editing a list -/

theorem getNode_one (n : Node) (prev next : Option ℕ)
    (owns : h.Owns h' (chain [n] prev next + own)) :
    getNode h' n.addr = some (fieldsOf n next prev) := (chain_head n [] prev next owns).1

theorem chain_split (xs ys : List Node) (c : Node) :
    chain (xs ++ c :: ys) none none = chain xs none (some c.addr) +
      (chain [c] (last xs) (head ys) + chain ys (some c.addr) none) := by
  rw [chain_append, head_cons, Option.some_or, Option.or_none, ← List.singleton_append (x := c),
    chain_append, Option.or_none]
  rfl

theorem setChild_spec (array : ℕ) (f : Fields) (child : Option ℕ)
    (owns : h.Owns h' ({(array, .node f)} + own)) :
    ∃ h'', setChild h' array child = some h'' ∧
      h.Owns h'' ({(array, .node { f with child := child })} + own) ∧ h''.next = h'.next :=
  setNode_spec (fun item => { item with child := child }) owns

theorem addItemToArray_spec (array : ℕ) (f : Fields) (ns : List Node) (item : Node)
    (hchild : f.child = head ns)
    (owns : h.Owns h' ({(array, .node f)} + (chain ns none none + (alone item + own)))) :
    ∃ h'', addItemToArray array (some item.addr) h' = some h'' ∧
      h.Owns h'' ({(array, .node { f with child := head (ns ++ [item]) })} +
        (chain (ns ++ [item]) none none + own)) ∧ h''.next = h'.next := by
  unfold addItemToArray
  rw [getNode_spec owns]
  simp only [Option.bind_eq_bind, Option.bind_some, hchild]
  cases ns with
  | nil =>
    obtain ⟨h₁, hset, owns₁, hnext₁⟩ := setChild_spec array f (some item.addr) owns
    rw [chain_nil, zero_add] at owns₁
    exact ⟨h₁, hset, owns₁, hnext₁⟩
  | cons n ns =>
    have hlen := length_le (n :: ns) none none owns.second
    rw [List.length_cons] at hlen
    have hlast := lastWithin_spec n ns h'.next none _ (by omega) owns.second
    obtain ⟨h₁, hset₁, owns₁, hnext₁⟩ := setNext_chain (n :: ns) none none (some item.addr) owns.second
    obtain ⟨h₂, hset₂, owns₂, hnext₂⟩ := setPrev_chain [item] none (last (n :: ns)) none owns₁.third
    refine ⟨h₂, ?_, ?_, hnext₂.trans hnext₁⟩
    · rw [head_cons]
      simp only
      have hend : ∃ c, last (n :: ns) = some c := by
        rw [last_cons]
        cases last ns <;> exact ⟨_, rfl⟩
      obtain ⟨c, hc⟩ := hend
      rw [hc] at hlast hset₁ hset₂
      rw [hlast]
      simp only [Option.bind_some, suffixObject, Option.bind_eq_bind, hset₁]
      exact hset₂
    · rw [chain_append, head_cons, Option.some_or, Option.or_none]
      rw [show {(array, .node { f with child := head (n :: ns ++ [item]) })} +
        (chain (n :: ns) none (some item.addr) + chain [item] (last (n :: ns)) none + own) =
        chain [item] (last (n :: ns)) none + (chain (n :: ns) none (some item.addr) +
        ({(array, .node { f with child := head (n :: ns ++ [item]) })} + own)) by ac_rfl]
      rw [head_append, head_cons, Option.some_or, ← head_cons n ns, ← hchild]
      exact owns₂

theorem head_ne (xs ys : List Node) (c : Node) (hne : xs ≠ [])
    (owns : h.Owns h' (chain xs none (some c.addr) +
      (chain [c] (last xs) (head ys) + own))) : some c.addr ≠ head (xs ++ c :: ys) := by
  cases xs with
  | nil => exact absurd rfl hne
  | cons x xs =>
    rw [chain_cons, chain_one] at owns
    simp only [add_assoc] at owns
    rw [List.cons_append, head_cons]
    intro heq
    exact owns.fourth.distinct (Option.some.inj heq)

theorem walk_split (xs ys : List Node) (c : Node) (which : ℤ) (hwhich : which.toNat = xs.length)
    (owns : h.Owns h' (chain (xs ++ c :: ys) none none + own)) :
    walk h' which.toNat (head (xs ++ c :: ys)) = some (some c.addr) := by
  rw [walk_spec _ _ none own owns, hwhich, List.drop_left]
  rfl

theorem detachItemFromArray_spec (array : ℕ) (f : Fields) (xs ys : List Node) (c : Node)
    (which : ℤ) (hchild : f.child = head (xs ++ c :: ys)) (hwhich : which.toNat = xs.length)
    (owns : h.Owns h' ({(array, .node f)} + (chain (xs ++ c :: ys) none none + own))) :
    ∃ h'', detachItemFromArray array which h' = some (some c.addr, h'') ∧
      h.Owns h'' ({(array, .node { f with child := head (xs ++ ys) })} +
        (chain (xs ++ ys) none none + (alone c + own))) ∧ h''.next = h'.next := by
  have hread := getNode_spec owns
  have hwalk := walk_split xs ys c which hwhich owns.second
  rw [chain_split, add_assoc, add_assoc] at owns
  have hc := getNode_one c _ _ owns.third
  obtain ⟨h₁, hset₁, owns₁, hnext₁⟩ := setNext_chain xs none _ (head ys) owns.second
  have hc₁ := getNode_one c _ _ owns₁.third
  obtain ⟨h₂, hset₂, owns₂, hnext₂⟩ := setPrev_chain ys _ (last xs) none owns₁.fourth
  have hc₂ := getNode_one c _ _ owns₂.fourth
  have hread₂ := getNode_spec owns₂.third
  have hstep : ∃ h₃, (if some c.addr = f.child then setChild h₂ array (head ys) else some h₂) =
      some h₃ ∧ h.Owns h₃ ({(array, .node { f with child := head (xs ++ ys) })} +
        (chain ys (last xs) none + (chain xs none (head ys) +
          (chain [c] (last xs) (head ys) + own)))) ∧ h₃.next = h₂.next := by
    by_cases hxs : xs = []
    · subst hxs
      rw [if_pos (by rw [hchild]; rfl)]
      exact setChild_spec array f (head ys) owns₂.third
    · rw [if_neg (hchild ▸ head_ne xs ys c hxs owns.second.third.second)]
      refine ⟨h₂, rfl, ?_, rfl⟩
      have hsame : head (xs ++ ys) = f.child := by
        rw [hchild, head_append, head_append]
        cases xs with
        | nil => exact absurd rfl hxs
        | cons x xs => rfl
      rw [hsame]
      exact owns₂.third
  obtain ⟨h₃, hset₃, owns₃, hnext₃⟩ := hstep
  have owns₃ := owns₃.fourth
  rw [chain_one, add_assoc] at owns₃
  obtain ⟨h₄, hset₄, owns₄, hnext₄⟩ :=
    setNode_spec (fun item => { item with prev := none, next := none }) owns₃
  refine ⟨h₄, ?_, ?_, by omega⟩
  · unfold detachItemFromArray
    rw [hread]
    simp only [Option.bind_eq_bind, Option.bind_some, hchild, hwalk, hc, fieldsOf, Label.fields,
      hset₁, hc₁, hset₂, hc₂, hread₂]
    rw [← hchild, hset₃]
    simp only [Option.bind_some, hset₄]
    rfl
  · rw [chain_append, Option.or_none, Option.or_none, alone, chain_one]
    rw [show {(array, .node { f with child := head (xs ++ ys) })} +
      (chain xs none (head ys) + chain ys (last xs) none +
      ({(c.addr, .node (fieldsOf c none none))} + inner c + own)) =
      {(c.addr, .node (fieldsOf c none none))} + (inner c +
      ({(array, .node { f with child := head (xs ++ ys) })} +
      (chain ys (last xs) none + (chain xs none (head ys) + own)))) by ac_rfl]
    exact owns₄

theorem head_concat (xs zs : List Node) (n : Node) : head (xs ++ n :: zs) = head (xs ++ [n]) := by
  rw [head_append, head_append]
  rfl

/-- What came before `c` leads to `newitem`, whose `prev` is set. -/
theorem linkPrev_spec (array : ℕ) (f : Fields) (xs ys : List Node) (c newitem : Node)
    (prev next next' : Option ℕ) (hchild : f.child = head (xs ++ c :: ys))
    (owns : h.Owns h' ({(array, .node f)} + (chain xs none (some c.addr) +
      (chain [c] prev next + (chain [newitem] (last xs) next' + own))))) :
    ∃ h'', linkPrev array c.addr newitem.addr h' = some h'' ∧
      h.Owns h'' ({(array, .node { f with child := head (xs ++ [newitem]) })} +
        (chain xs none (some newitem.addr) + (chain [c] prev next +
          (chain [newitem] (last xs) next' + own)))) ∧ h''.next = h'.next := by
  have hread := getNode_spec owns
  have hnew := getNode_one newitem _ _ owns.fourth
  unfold linkPrev
  rw [hread]
  simp only [Option.bind_eq_bind, Option.bind_some]
  cases xs with
  | nil =>
    rw [if_pos (by rw [hchild]; rfl)]
    rw [chain_nil] at owns ⊢
    exact setChild_spec array f (some newitem.addr) owns
  | cons x xs =>
    have hne : c.addr ≠ x.addr := by
      rw [chain_cons, chain_one] at owns
      simp only [add_assoc] at owns
      exact owns.second.fifth.distinct
    rw [if_neg (by rw [hchild]; exact fun heq => hne (Option.some.inj heq))]
    obtain ⟨h₁, hset₁, owns₁, hnext₁⟩ :=
      setNext_chain (x :: xs) none _ (some newitem.addr) owns.second
    refine ⟨h₁, ?_, ?_, hnext₁⟩
    · rw [hnew]
      simp only [Option.bind_some, fieldsOf, Label.fields]
      have hend : ∃ p, last (x :: xs) = some p := by
        rw [last_cons]
        cases last xs <;> exact ⟨_, rfl⟩
      obtain ⟨p, hp⟩ := hend
      rw [hp] at hset₁ ⊢
      exact hset₁
    · have hsame : head (x :: xs ++ [newitem]) = f.child := hchild.symm
      rw [hsame]
      exact owns₁.second

theorem insertItemInArray_spec (array : ℕ) (f : Fields) (xs ys : List Node) (c newitem : Node)
    (which : ℤ) (hchild : f.child = head (xs ++ c :: ys)) (hwhich : which.toNat = xs.length)
    (owns : h.Owns h' ({(array, .node f)} + (chain (xs ++ c :: ys) none none +
      (alone newitem + own)))) :
    ∃ h'', insertItemInArray array which newitem.addr h' = some h'' ∧
      h.Owns h'' ({(array, .node { f with child := head (xs ++ newitem :: c :: ys) })} +
        (chain (xs ++ newitem :: c :: ys) none none + own)) ∧ h''.next = h'.next := by
  have hread := getNode_spec owns
  have hwalk := walk_split xs ys c which hwhich owns.second
  rw [chain_split, add_assoc, add_assoc] at owns
  obtain ⟨h₁, hset₁, owns₁, hnext₁⟩ :=
    setNext_chain [newitem] none none (some c.addr) owns.fifth
  have hc := getNode_one c _ _ owns₁.fourth
  obtain ⟨h₂, hset₂, owns₂, hnext₂⟩ := setPrev_chain [newitem] none (last xs) _ owns₁
  obtain ⟨h₃, hset₃, owns₃, hnext₃⟩ := setPrev_chain [c] _ (some newitem.addr) _ owns₂.fourth
  rw [show chain [c] (some newitem.addr) (head ys) + (chain [newitem] (last xs) (some c.addr) +
    ({(array, .node f)} + (chain xs none (some c.addr) + (chain ys (some c.addr) none + own)))) =
    {(array, .node f)} + (chain xs none (some c.addr) + (chain [c] (some newitem.addr) (head ys) +
    (chain [newitem] (last xs) (some c.addr) + (chain ys (some c.addr) none + own)))) by
      ac_rfl] at owns₃
  obtain ⟨h₄, hlink, owns₄, hnext₄⟩ := linkPrev_spec array f xs ys c newitem _ _ _ hchild owns₃
  refine ⟨h₄, ?_, ?_, by omega⟩
  · unfold insertItemInArray
    rw [hread]
    have hset₁ : setNext h' (some newitem.addr) (some c.addr) = some h₁ := hset₁
    have hset₂ : setPrev h₁ (some newitem.addr) (last xs) = some h₂ := hset₂
    have hset₃ : setPrev h₂ (some c.addr) (some newitem.addr) = some h₃ := hset₃
    simp only [Option.bind_eq_bind, Option.bind_some, hchild, hwalk, hset₁, hc, fieldsOf,
      Label.fields, hset₂, hset₃, hlink]
  · rw [chain_split, head_cons, head_concat, ← List.singleton_append (x := c), chain_append,
      Option.or_none]
    rw [show {(array, .node { f with child := head (xs ++ [newitem]) })} +
      (chain xs none (some newitem.addr) + (chain [newitem] (last xs) (some c.addr) +
      (chain [c] (some newitem.addr) (head ys) + chain ys ((last [c]).or (some newitem.addr)) none)) +
      own) = {(array, .node { f with child := head (xs ++ [newitem]) })} +
      (chain xs none (some newitem.addr) + (chain [c] (some newitem.addr) (head ys) +
      (chain [newitem] (last xs) (some c.addr) +
      (chain ys ((last [c]).or (some newitem.addr)) none + own)))) by ac_rfl]
    exact owns₄

theorem replaceItemInArray_spec (array : ℕ) (f : Fields) (xs ys : List Node) (c newitem : Node)
    (which : ℤ) (hchild : f.child = head (xs ++ c :: ys)) (hwhich : which.toNat = xs.length)
    (owns : h.Owns h' ({(array, .node f)} + (chain (xs ++ c :: ys) none none +
      (alone newitem + own)))) :
    ∃ h'', replaceItemInArray array which newitem.addr h' = some h'' ∧
      h.Owns h'' ({(array, .node { f with child := head (xs ++ newitem :: ys) })} +
        (chain (xs ++ newitem :: ys) none none + own)) ∧ h''.next = h'.next := by
  have hread := getNode_spec owns
  have hwalk := walk_split xs ys c which hwhich owns.second
  rw [chain_split, add_assoc, add_assoc] at owns
  have hc := getNode_one c _ _ owns.third
  obtain ⟨h₁, hset₁, owns₁, hnext₁⟩ := setNext_chain [newitem] none none (head ys) owns.fifth
  have hc₁ := getNode_one c _ _ owns₁.fourth
  obtain ⟨h₂, hset₂, owns₂, hnext₂⟩ := setPrev_chain [newitem] none (last xs) _ owns₁
  have hnew := getNode_one newitem _ _ owns₂
  obtain ⟨h₃, hset₃, owns₃, hnext₃⟩ := setPrev_chain ys _ (some newitem.addr) none owns₂.fifth
  rw [show chain ys (some newitem.addr) none + (chain [newitem] (last xs) (head ys) +
    ({(array, .node f)} + (chain xs none (some c.addr) + (chain [c] (last xs) (head ys) + own)))) =
    {(array, .node f)} + (chain xs none (some c.addr) + (chain [c] (last xs) (head ys) +
    (chain [newitem] (last xs) (head ys) + (chain ys (some newitem.addr) none + own)))) by
      ac_rfl] at owns₃
  obtain ⟨h₄, hlink, owns₄, hnext₄⟩ := linkPrev_spec array f xs ys c newitem _ _ _ hchild owns₃
  have owns₄ := owns₄.third
  rw [chain_one, add_assoc] at owns₄
  obtain ⟨h₅, hset₅, owns₅, hnext₅⟩ :=
    setNode_spec (fun item => { item with next := none, prev := none }) owns₄
  rw [← add_assoc] at owns₅
  have hdelete := delete_spec [c] none (by
    rw [chain_one]
    exact owns₅)
  obtain ⟨h₆, hdelete, owns₆, hnext₆⟩ := hdelete
  refine ⟨h₆, ?_, ?_, by omega⟩
  · unfold replaceItemInArray
    rw [hread]
    have hset₁ : setNext h' (some newitem.addr) (head ys) = some h₁ := hset₁
    have hset₂ : setPrev h₁ (some newitem.addr) (last xs) = some h₂ := hset₂
    have hdelete : delete (some c.addr) h₅ = some h₆ := hdelete
    simp only [Option.bind_eq_bind, Option.bind_some, hchild, hwalk, hc, fieldsOf, Label.fields,
      hset₁, hc₁, hset₂, hnew, hset₃, hlink, hset₅, hdelete]
  · rw [chain_split, head_concat]
    rw [show {(array, .node { f with child := head (xs ++ [newitem]) })} +
      (chain xs none (some newitem.addr) + (chain [newitem] (last xs) (head ys) +
      chain ys (some newitem.addr) none) + own) =
      {(array, .node { f with child := head (xs ++ [newitem]) })} +
      (chain xs none (some newitem.addr) + (chain [newitem] (last xs) (head ys) +
      (chain ys (some newitem.addr) none + own))) by ac_rfl]
    exact owns₆

end Nodes
end SmbDiscover

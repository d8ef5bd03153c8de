import SmbDiscover.NodeChains

/-!
# Edits inside a tree (cJSON.c:1586-1846)

The node that a function is called on may stand anywhere in a tree. `edits` replaces its
list of children, and the cells of the tree are those of the node and its children, and
cells that do not depend on them.
-/

namespace SmbDiscover
open CText

namespace Nodes

/-! ### The node at an address -/

mutual

/-- The addresses of a tree. -/
def addrsOf : Node → List ℕ
  | .mk addr _ child => addr :: addrs child

def addrs : List Node → List ℕ
  | [] => []
  | n :: rest => addrsOf n ++ addrs rest

end

mutual

/-- The children of the node at `a`. -/
def childOf (a : ℕ) : Node → Option (List Node)
  | .mk addr _ child => if addr = a then some child else childAt a child

def childAt (a : ℕ) : List Node → Option (List Node)
  | [] => none
  | n :: rest => (childOf a n).or (childAt a rest)

end

mutual

/-- The child list of the node at `a` is changed. -/
def edit (a : ℕ) (f : List Node → List Node) : Node → Node
  | .mk addr label child => .mk addr label (if addr = a then f child else edits a f child)

def edits (a : ℕ) (f : List Node → List Node) : List Node → List Node
  | [] => []
  | n :: rest => edit a f n :: edits a f rest

end

theorem addr_edit (a : ℕ) (f : List Node → List Node) (n : Node) : (edit a f n).addr = n.addr := by
  cases n
  rw [edit]
  rfl

theorem head_edits (a : ℕ) (f : List Node → List Node) (ns : List Node) :
    head (edits a f ns) = head ns := by
  cases ns with
  | nil => rw [edits]
  | cons n ns => rw [edits, head_cons, head_cons, addr_edit]

mutual

theorem childOf_none (a : ℕ) : ∀ n : Node, a ∉ addrsOf n → childOf a n = none
  | .mk addr _ child, hmem => by
    rw [addrsOf, List.mem_cons, not_or] at hmem
    rw [childOf, if_neg (Ne.symm hmem.1)]
    exact childAt_none a child hmem.2

theorem childAt_none (a : ℕ) : ∀ ns : List Node, a ∉ addrs ns → childAt a ns = none
  | [], _ => by rw [childAt]
  | n :: rest, hmem => by
    rw [addrs, List.mem_append, not_or] at hmem
    rw [childAt, childOf_none a n hmem.1, childAt_none a rest hmem.2, Option.or_none]

end

mutual

theorem edit_none (a : ℕ) (f : List Node → List Node) : ∀ n : Node, childOf a n = none →
    edit a f n = n
  | .mk addr label child, hnone => by
    rw [childOf] at hnone
    by_cases haddr : addr = a
    · rw [if_pos haddr] at hnone
      cases hnone
    · rw [if_neg haddr] at hnone
      rw [edit, if_neg haddr, edits_none a f child hnone]

theorem edits_none (a : ℕ) (f : List Node → List Node) : ∀ ns : List Node, childAt a ns = none →
    edits a f ns = ns
  | [], _ => by rw [edits]
  | n :: rest, hnone => by
    rw [childAt, Option.or_eq_none_iff] at hnone
    rw [edits, edit_none a f n hnone.1, edits_none a f rest hnone.2]

end

mutual

theorem edit_same (a : ℕ) : ∀ n : Node, edit a id n = n
  | .mk addr label child => by rw [edit, edits_same a child, id_eq, ite_self]

theorem edits_same (a : ℕ) : ∀ ns : List Node, edits a id ns = ns
  | [] => by rw [edits]
  | n :: rest => by rw [edits, edit_same a n, edits_same a rest]

end

/-! ### Cells around a node -/

/-- The cells, as they depend on the children `cs` of the node at `a`. -/
def Around (a : ℕ) (cs : List Node) (cells : (List Node → List Node) → Multiset (ℕ × Cell)) :
    Prop :=
  ∃ (g : Fields) (rest : Multiset (ℕ × Cell)), g.child = head cs ∧ ∀ f, cells f =
    {(a, .node { g with child := head (f cs) })} + (chain (f cs) none none + rest)

theorem around_add (a : ℕ) (cs : List Node) (m : Multiset (ℕ × Cell))
    (cells cells' : (List Node → List Node) → Multiset (ℕ × Cell)) (around : Around a cs cells)
    (h : ∀ f, cells' f = m + cells f) : Around a cs cells' := by
  obtain ⟨g, rest, hg, hcells⟩ := around
  refine ⟨g, m + rest, hg, fun f => ?_⟩
  rw [h, hcells]
  ac_rfl

mutual

theorem around_one (a : ℕ) (cs : List Node) : ∀ (n : Node) (prev next : Option ℕ),
    (addrsOf n).Nodup → childOf a n = some cs →
    Around a cs fun f => chain [edit a f n] prev next
  | .mk addr label child, prev, next, hnodup, hchild => by
    rw [addrsOf, List.nodup_cons] at hnodup
    rw [childOf] at hchild
    by_cases haddr : addr = a
    · rw [if_pos haddr] at hchild
      cases hchild
      refine ⟨label.fields next prev (head cs), label.cells, rfl, fun f => ?_⟩
      show chain [edit a f (.mk addr label cs)] prev next = _
      rw [edit, if_pos haddr, chain_one, inner_eq, haddr, add_comm (Label.cells _)]
      rfl
    · rw [if_neg haddr] at hchild
      refine around_add a cs ({(addr, .node (label.fields next prev (head child)))} + label.cells) _ _
        (around_list a cs child none none hnodup.2 hchild) fun f => ?_
      rw [edit, if_neg haddr, chain_one, inner_eq, fieldsOf, ← head_edits a f child, add_assoc]
      rfl

theorem around_list (a : ℕ) (cs : List Node) : ∀ (ns : List Node) (prev next : Option ℕ),
    (addrs ns).Nodup → childAt a ns = some cs → Around a cs fun f => chain (edits a f ns) prev next
  | [], prev, next, hnodup, hchild => by
    rw [childAt] at hchild
    cases hchild
  | n :: rest, prev, next, hnodup, hchild => by
    rw [addrs, List.nodup_append] at hnodup
    obtain ⟨hn, hrest, hdisjoint⟩ := hnodup
    have hsplit : ∀ f, chain (edits a f (n :: rest)) prev next =
        chain [edit a f n] prev ((head rest).or next) +
          chain (edits a f rest) (some n.addr) next := by
      intro f
      rw [edits, ← List.singleton_append (x := edit a f n), chain_append, head_edits]
      rw [show last [edit a f n] = some n.addr from congrArg some (addr_edit a f n), Option.some_or]
    rw [childAt] at hchild
    cases hone : childOf a n with
    | some cs' =>
      rw [hone, Option.some_or] at hchild
      cases hchild
      have hmem : a ∈ addrsOf n := by
        by_contra hmem
        rw [childOf_none a n hmem] at hone
        cases hone
      have hnone : childAt a rest = none :=
        childAt_none a rest fun hrest => hdisjoint a hmem a hrest rfl
      refine around_add a cs (chain rest (some n.addr) next) _ _
        (around_one a cs n prev ((head rest).or next) hn hone) fun f => ?_
      rw [hsplit, edits_none a f rest hnone, add_comm]
    | none =>
      rw [hone, Option.none_or] at hchild
      refine around_add a cs (chain [n] prev ((head rest).or next)) _ _
        (around_list a cs rest (some n.addr) next hrest hchild) fun f => ?_
      rw [hsplit, edit_none a f n hone]

end

/-! ### The trees of a client -/

/-- The trees that no list holds. -/
def rootCells (roots : List Node) : Multiset (ℕ × Cell) := (roots.map alone).sum

theorem rootCells_cons (n : Node) (roots : List Node) :
    rootCells (n :: roots) = alone n + rootCells roots := List.sum_cons

mutual

theorem addrsOf_le : ∀ (n : Node) (prev next : Option ℕ),
    (addrsOf n : Multiset ℕ) ≤ (chain [n] prev next).map Prod.fst
  | .mk addr label child, prev, next => by
    have hchild := addrs_le child none none
    rw [chain_one, inner_eq, addrsOf, ← Multiset.cons_coe, Multiset.map_add, Multiset.map_singleton,
      Multiset.singleton_add, Multiset.map_add]
    exact Multiset.cons_le_cons _ (hchild.trans (Multiset.le_add_left ..))

theorem addrs_le : ∀ (ns : List Node) (prev next : Option ℕ),
    (addrs ns : Multiset ℕ) ≤ (chain ns prev next).map Prod.fst
  | [], prev, next => Multiset.zero_le _
  | n :: rest, prev, next => by
    have hone := addrsOf_le n prev ((head rest).or next)
    have hrest := addrs_le rest (some n.addr) next
    rw [← List.singleton_append (x := n), chain_append, Multiset.map_add, List.singleton_append,
      addrs, ← Multiset.coe_add]
    exact add_le_add hone hrest

end

theorem addrs_roots_le (roots : List Node) :
    (addrs roots : Multiset ℕ) ≤ (rootCells roots).map Prod.fst := by
  induction roots with
  | nil => exact Multiset.zero_le _
  | cons n roots ih =>
    rw [rootCells_cons, Multiset.map_add, addrs, ← Multiset.coe_add]
    exact add_le_add (addrsOf_le n none none) ih

variable {h h' : Memory} {own : Multiset (ℕ × Cell)}

theorem addrs_nodup (roots : List Node) (owns : h.Owns h' (rootCells roots + own)) :
    (addrs roots).Nodup := by
  have hnodup := owns.nodup
  rw [Multiset.map_add] at hnodup
  have hle := (addrs_roots_le roots).trans (Multiset.le_add_right _ (own.map Prod.fst))
  exact Multiset.coe_nodup.mp (Multiset.nodup_of_le hle hnodup)

theorem around_roots (a : ℕ) (cs roots : List Node) (hnodup : (addrs roots).Nodup)
    (hchild : childAt a roots = some cs) : Around a cs fun f => rootCells (edits a f roots) := by
  induction roots with
  | nil =>
    rw [childAt] at hchild
    cases hchild
  | cons n roots ih =>
    rw [addrs, List.nodup_append] at hnodup
    obtain ⟨hn, hrest, hdisjoint⟩ := hnodup
    rw [childAt] at hchild
    cases hone : childOf a n with
    | some cs' =>
      rw [hone, Option.some_or] at hchild
      cases hchild
      have hmem : a ∈ addrsOf n := by
        by_contra hmem
        rw [childOf_none a n hmem] at hone
        cases hone
      have hnone : childAt a roots = none :=
        childAt_none a roots fun hrest => hdisjoint a hmem a hrest rfl
      refine around_add a cs (rootCells roots) _ _ (around_one a cs n none none hn hone) fun f => ?_
      rw [edits, edits_none a f roots hnone, rootCells_cons, alone, add_comm]
    | none =>
      rw [hone, Option.none_or] at hchild
      refine around_add a cs (alone n) _ _ (ih hrest hchild) fun f => ?_
      rw [edits, edit_none a f n hone, rootCells_cons]

end Nodes
end SmbDiscover

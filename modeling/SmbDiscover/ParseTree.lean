import SmbDiscover.ParseSteps

/-!
# `cJSON_ParseWithOpts` (cJSON.c:790-838)

The parser returns for every text. Either it returns NULL and has given back every block
that it took, or it returns a tree that holds what the text says, and nothing else is
left in memory.
-/

namespace SmbDiscover
open CText JsonText

namespace Parse
open Nodes

/-- The value that a text starts with, and what is behind it. -/
def readRoot (value : Option CStr) : Option (Json × Ptr) :=
  value.bind fun text => (skip text.withNul).bind fun start =>
    readValue (2 * text.withNul.length + 2) start

def accepted (value : Option CStr) (requireNull : Bool) : Option (Json × Ptr) :=
  (readRoot value).bind fun p =>
    if requireNull then
      (skip p.2).bind fun e => if e.head? = some 0 then some (p.1, e) else none
    else some p

def Within (value : Option CStr) (p : Ptr) : Prop := ∃ text, value = some text ∧ p <:+ text.withNul

variable {h h₁ : Memory} {ok : ℕ → Bool}

theorem text_of (text : CStr) (hshort : text.length + 1 ≤ intMax) : Text text.withNul := by
  refine ⟨terminated_withNul text.bytes fun hmem => text.nulFree 0 hmem rfl, ?_⟩
  rw [CStr.length_withNul]
  exact hshort

theorem root_spec (ok : ℕ → Bool) (value : Option CStr) (c : ℕ)
    (hshort : ∀ text, value = some text → text.length + 1 ≤ intMax)
    (owns : h.Owns h₁ ({(c, .node ((blank .unset none).fields none none none))} + 0)) :
    ∃ start p tree, skipNull (value.map CStr.withNul) = some start ∧
      parseValue ok (2 * ((value.map CStr.withNul).getD []).length + 2) c start none h₁ = some p ∧
      Node.addr tree = c ∧ h.Owns p.h (alone tree) ∧ h₁.next ≤ p.h.next ∧
      (∀ q, p.ep = some q → Within value q) ∧
      (p.res = none → readRoot value = none ∨ ¬ Heap.Clean ok h₁.next p.h.next) ∧
      ∀ e, p.res = some e → Heap.Clean ok h₁.next p.h.next ∧ Within value e ∧ Text e ∧
        Readable tree ∧ ∃ v, json tree = some v ∧ readRoot value = some (v, e) := by
  cases value with
  | none =>
    refine ⟨none, ⟨none, none, h₁⟩, .mk c (blank .unset none) [], rfl, by rw [Option.map_none,
      parseValue], rfl, ?_, le_rfl, fun q hq => (by cases hq), fun _ => Or.inl rfl,
      fun e he => (by cases he)⟩
    have fills : Fills h h₁ (Str.cells none + 0) c (blank .unset none) [] none none :=
      fills_leaf c _ none none rfl (by rwa [Str.cells, zero_add])
    have owns₁ := fills_chain c (blank .unset none) [] none none fills
    rwa [add_zero] at owns₁
  | some text =>
    obtain ⟨start, hskip, hstart, hsuffix⟩ := skip_spec text.withNul (text_of text (hshort text rfl))
    have hlen := hsuffix.length_le
    obtain ⟨p, label, child, hparse, out, hlabel, fills, hdone⟩ :=
      (all_specs ok (2 * text.withNul.length + 2)).1 h h₁ 0 c start none .unset none none none
        hstart (by omega) owns
    have hroot : readRoot (some text) = readValue (2 * text.withNul.length + 2) start := by
      rw [readRoot, Option.bind_some, hskip, Option.bind_some]
    refine ⟨some start, p, .mk c label child, ?_, hparse, rfl, ?_, out.next, ?_, ?_, ?_⟩
    · rw [Option.map_some, skipNull, hskip]
      rfl
    · have owns₁ := fills_chain c label child none none (by
        rw [hlabel, Str.cells, zero_add]
        exact fills)
      rwa [add_zero] at owns₁
    · intro q hq
      rcases out.ep with hep | ⟨q', hep, hq'⟩
      · rw [hq] at hep
        cases hep
      · rw [hq] at hep
        cases hep
        exact ⟨text, rfl, hq'.trans hsuffix⟩
    · rw [hroot]
      exact out.fail
    · intro e he
      obtain ⟨hclean, htext, hsuffix', -⟩ := out.read e he
      obtain ⟨⟨v, hjson, hread⟩, hstring, hreadable⟩ := hdone e he
      refine ⟨hclean, ⟨text, rfl, hsuffix'.trans hsuffix⟩, htext, ⟨hstring, ?_, hreadable⟩, v, hjson,
        by rw [hroot, hread]⟩
      rw [hlabel]
      trivial

theorem delete_root (tree : Node) (owns : h.Owns h₁ (alone tree)) :
    ∃ h', delete (some tree.addr) h₁ = some h' ∧ h'.cell = h.cell ∧ h'.next = h₁.next := by
  rw [← add_zero (alone tree)] at owns
  obtain ⟨h', hdelete, owns', hnext⟩ := delete_spec [tree] none owns
  exact ⟨h', hdelete, owns'.nothing, hnext⟩

theorem end_within {value : Option CStr} {ep : Option Ptr} {e : Ptr} (returnParseEnd : Bool)
    (hep : ∀ q, ep = some q → Within value q) (he : Within value e) :
    ∀ q, (if returnParseEnd then some e else ep) = some q → Within value q := by
  intro q hq
  cases returnParseEnd with
  | false => exact hep q hq
  | true =>
    cases hq
    exact he

theorem parseWithOpts_spec (ok : ℕ → Bool) (value : Option CStr)
    (returnParseEnd requireNull : Bool) (h : Memory)
    (hshort : ∀ text, value = some text → text.length + 1 ≤ intMax) :
    ∃ res ep h', parseWithOpts ok value returnParseEnd requireNull h = some (res, ep, h') ∧
      (res = none ↔ accepted value requireNull = none ∨ ¬ Heap.Clean ok h.next h'.next) ∧
      (res = none → h'.cell = h.cell) ∧
      (∀ c, res = some c → ∃ tree v e, Node.addr tree = c ∧ h.Owns h' (alone tree) ∧
        Readable tree ∧ json tree = some v ∧ accepted value requireNull = some (v, e) ∧
        (returnParseEnd = true → ep = some e)) ∧
      ∀ p, ep = some p → Within value p := by
  cases hok : ok h.next with
  | false =>
    obtain ⟨h₁, hmalloc, owns, hnext⟩ := (Heap.owns_self h).mallocFailed ok (.node .zero) hok
    refine ⟨none, none, h₁, ?_, ?_, fun _ => owns.nothing, fun c hc => (by cases hc),
      fun p hp => (by cases hp)⟩
    · unfold parseWithOpts
      simp only [newItem, hmalloc]
    · rw [hnext, Heap.clean_one, hok]
      simp
  | true =>
    obtain ⟨h₁, hmalloc, owns, hnext⟩ := (Heap.owns_self h).malloc ok (.node .zero) hok
    have hclean := (Heap.clean_one ok h.next).mpr hok
    rw [← hnext] at hclean
    obtain ⟨start, p, tree, hskip, hparse, haddr, owns', hle, hep, hfail, hread⟩ :=
      root_spec ok value h.next hshort owns
    have hboth := Heap.clean_trans ok h.next h₁.next p.h.next (by omega) hle
    cases hres : p.res with
    | none =>
      obtain ⟨h₂, hdelete, hcell, hnext₂⟩ := delete_root tree owns'
      rw [haddr] at hdelete
      refine ⟨none, p.ep, h₂, ?_, ?_, fun _ => hcell, fun c hc => (by cases hc), hep⟩
      · unfold parseWithOpts
        simp only [newItem, hmalloc, hskip, hparse, hres, hdelete, Option.bind_eq_bind,
          Option.bind_some]
      · rw [hnext₂]
        simp only [true_iff]
        rcases hfail hres with hnone | hdirty
        · left
          rw [accepted, hnone, Option.bind_none]
        · exact Or.inr fun hc => hdirty (hboth.mp hc).2
    | some e =>
      obtain ⟨hclean', hwithin, htext, hreadable, v, hjson, hroot⟩ := hread e hres
      have hall := hboth.mpr ⟨hclean, hclean'⟩
      obtain ⟨text, rfl, hsuffix⟩ := hwithin
      cases requireNull with
      | false =>
        have haccepted : accepted (some text) false = some (v, e) := by
          rw [accepted, hroot, Option.bind_some]
          rfl
        refine ⟨some h.next, if returnParseEnd then some e else p.ep, p.h, ?_, ?_,
          fun hnone => (by cases hnone), ?_, ?_⟩
        · unfold parseWithOpts
          simp only [newItem, hmalloc, hskip, hparse, hres, Option.bind_eq_bind, Option.bind_some]
          simp
        · rw [haccepted]
          simp [hall]
        · intro c hc
          cases hc
          exact ⟨tree, v, e, haddr, owns', hreadable, hjson, haccepted, fun heq => if_pos heq⟩
        · exact end_within returnParseEnd hep ⟨text, rfl, hsuffix⟩
      | true =>
        obtain ⟨e', hskip', -, hsuffix'⟩ := skip_spec e htext
        have hwithin : Within (some text) e' := ⟨text, rfl, hsuffix'.trans hsuffix⟩
        by_cases hend : e'.head? = some 0
        · have haccepted : accepted (some text) true = some (v, e') := by
            rw [accepted, hroot, Option.bind_some, if_pos rfl, hskip', Option.bind_some,
              if_pos hend]
          refine ⟨some h.next, if returnParseEnd then some e' else p.ep, p.h, ?_, ?_,
            fun hnone => (by cases hnone), ?_, ?_⟩
          · unfold parseWithOpts
            simp only [newItem, hmalloc, hskip, hparse, hres, hskip', hend, Option.bind_eq_bind,
              Option.bind_some, if_true]
            simp
          · rw [haccepted]
            simp [hall]
          · intro c hc
            cases hc
            exact ⟨tree, v, e', haddr, owns', hreadable, hjson, haccepted, fun heq => if_pos heq⟩
          · exact end_within returnParseEnd hep hwithin
        · obtain ⟨h₂, hdelete, hcell, hnext₂⟩ := delete_root tree owns'
          rw [haddr] at hdelete
          have haccepted : accepted (some text) true = none := by
            rw [accepted, hroot, Option.bind_some, if_pos rfl, hskip', Option.bind_some,
              if_neg hend]
          refine ⟨none, some e', h₂, ?_, by simp [haccepted], fun _ => hcell,
            fun c hc => (by cases hc), ?_⟩
          · unfold parseWithOpts
            simp only [newItem, hmalloc, hskip, hparse, hres, hskip', Option.bind_eq_bind,
              Option.bind_some, if_true]
            simp [hend, hdelete]
          · intro q hq
            cases hq
            exact hwithin

/-- Whatever the flags and the failing allocations are: on a text whose length fits an
`int`, the parser ends inside the text and its own blocks, keeps nothing on failure, and
otherwise exactly the tree. -/
theorem parse_memorySafe (ok : ℕ → Bool) (value : Option CStr)
    (returnParseEnd requireNull : Bool) (h : Memory)
    (hshort : ∀ text, value = some text → text.length + 1 ≤ intMax) :
    ∃ res ep h', parseWithOpts ok value returnParseEnd requireNull h = some (res, ep, h') ∧
      (res = none ↔ accepted value requireNull = none ∨
        ∃ k, h.next ≤ k ∧ k < h'.next ∧ ok k = false) ∧
      (res = none → h'.cell = h.cell) ∧
      (∀ c, res = some c → ∃ tree v e, Node.addr tree = c ∧ h.Owns h' (alone tree) ∧
        Readable tree ∧ json tree = some v ∧ accepted value requireNull = some (v, e) ∧
        (returnParseEnd = true → ep = some e)) ∧
      ∀ p, ep = some p → Within value p := by
  obtain ⟨res, ep, h', hparse, hnone, hrest⟩ :=
    parseWithOpts_spec ok value returnParseEnd requireNull h hshort
  refine ⟨res, ep, h', hparse, ?_, hrest⟩
  rw [hnone]
  simp [Heap.Clean]

theorem pair_parsed : ∃ res ep h', parseWithOpts (fun _ => true) (some (.lit "[[],\"a\"]")) true false
      Heap.empty = some (res, ep, h') ∧
    (res = none ↔ accepted (some (.lit "[[],\"a\"]")) false = none ∨
      ∃ k, 0 ≤ k ∧ k < h'.next ∧ true = false) ∧
    (res = none → h'.cell = fun _ => none) ∧
    (∀ c, res = some c → ∃ tree v e, Node.addr tree = c ∧ Heap.empty.Owns h' (alone tree) ∧
      Readable tree ∧ json tree = some v ∧
      accepted (some (.lit "[[],\"a\"]")) false = some (v, e) ∧ (true = true → ep = some e)) ∧
    ∀ p, ep = some p → Within (some (.lit "[[],\"a\"]")) p :=
  parse_memorySafe (fun _ => true) _ true false Heap.empty fun text htext => by
    cases htext
    decide +kernel

end Parse
end SmbDiscover

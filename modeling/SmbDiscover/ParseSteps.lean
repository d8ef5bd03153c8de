import SmbDiscover.Parsing

/-!
# The parser step by step (cJSON.c:414-616, 856-901, 972-1050, 1218-1311)

Each function of the parser keeps `Built`: the node at `item` owns what was read into it,
and the pointer is the one behind the value that the text has there. When an allocation
fails, or the text has no value there, the pointer is NULL.
-/

namespace SmbDiscover
open CText JsonText

namespace Parse
open Nodes

/-! ### Values of nodes -/

def textOf : Option Str → Option (List Byte)
  | none => none
  | some s => loadString s.block

mutual

/-- The JSON value of a node; a node that was not filled has none. -/
def json : Node → Option Json
  | .mk _ label child =>
    match label.kind with
    | .unset => none
    | .cFalse => some (.bool false)
    | .cTrue => some (.bool true)
    | .cNull => some .null
    | .number => some (.num label.number)
    | .string => (textOf label.valuestring).map .str
    | .array => (jsons child).map .arr
    | .object => (jsonMembers child).map .obj

def jsons : List Node → Option (List Json)
  | [] => some []
  | n :: rest => (json n).bind fun v => (jsons rest).map fun vs => v :: vs

def jsonMembers : List Node → Option (List (List Byte × Json))
  | [] => some []
  | n :: rest =>
    (nameOf n).bind fun name => (json n).bind fun v =>
      (jsonMembers rest).map fun vs => (name, v) :: vs

end

theorem textOf_readable (s : Option Str) (bs : List Byte) (h : textOf s = some bs) :
    Str.Readable s := by
  cases s with
  | none => trivial
  | some s => exact ⟨bs, h⟩

theorem textOf_name (item : ℕ) (label : Label) (child : List Node) :
    nameOf (.mk item label child) = textOf label.string := by
  unfold nameOf
  show label.string.bind (fun s => loadString s.block) = textOf label.string
  cases label.string <;> rfl

variable {h₀ h : Memory} {own : Multiset (ℕ × Cell)} {ok : ℕ → Bool}

/-! ### Outcomes, one after the other -/

def EpIn (value : Ptr) (ep ep' : Option Ptr) : Prop := ep' = ep ∨ ∃ p, ep' = some p ∧ p <:+ value

theorem epIn_self (value : Ptr) (ep : Option Ptr) : EpIn value ep ep := Or.inl rfl

theorem epIn_here (value : Ptr) (ep : Option Ptr) : EpIn value ep (some value) :=
  Or.inr ⟨value, rfl, List.suffix_rfl⟩

theorem EpIn.trans {value value' : Ptr} {ep ep₁ ep₂ : Option Ptr} (h₁ : EpIn value ep ep₁)
    (h₂ : EpIn value' ep₁ ep₂) (hsuffix : value' <:+ value) : EpIn value ep ep₂ := by
  rcases h₂ with rfl | ⟨p, rfl, hp⟩
  · exact h₁
  · exact Or.inr ⟨p, rfl, hp.trans hsuffix⟩

/-- What a function that has read `value` may leave, if the text has `expected` there. -/
structure Outcome {α : Type} (ok : ℕ → Bool) (value : Ptr) (ep : Option Ptr) (h : Memory)
    (expected : Option (α × Ptr)) (p : Parsed) : Prop where
  next : h.next ≤ p.h.next
  ep : EpIn value ep p.ep
  read : ∀ q, p.res = some q → Heap.Clean ok h.next p.h.next ∧ Text q ∧ q <:+ value ∧
    q.length < value.length ∧ ∃ v, expected = some (v, q)
  fail : p.res = none → expected = none ∨ ¬ Heap.Clean ok h.next p.h.next

section

variable {α β : Type} {value value₁ : Ptr} {ep ep₁ : Option Ptr} {h₁ : Memory} {p : Parsed}
  {expected : Option (α × Ptr)} {expected₁ : Option (β × Ptr)}

theorem outcome_malloc (hok : ok h.next = false) (hnext : h₁.next = h.next + 1) :
    Outcome ok value ep h expected ⟨none, ep, h₁⟩ := by
  refine ⟨?_, epIn_self _ _, fun q hq => (by cases hq), fun _ => Or.inr ?_⟩
  · show h.next ≤ h₁.next
    omega
  · show ¬ Heap.Clean ok h.next h₁.next
    rw [hnext, Heap.clean_one, hok]
    exact Bool.false_ne_true

theorem outcome_malformed (hle : h.next ≤ h₁.next) (hep : EpIn value ep ep₁)
    (hnone : expected = none) : Outcome ok value ep h expected ⟨none, ep₁, h₁⟩ :=
  ⟨hle, hep, fun q hq => (by cases hq), fun _ => Or.inl hnone⟩

theorem outcome_done (v : α) (q : Ptr) (hq : Text q) (hsuffix : q <:+ value)
    (hless : q.length < value.length) (hnext : h₁.next = h.next)
    (hsome : expected = some (v, q)) : Outcome ok value ep h expected ⟨some q, ep, h₁⟩ := by
  refine ⟨hnext.ge, epIn_self _ _, ?_, fun hnone => (by cases hnone)⟩
  intro q' hq'
  cases hq'
  refine ⟨?_, hq, hsuffix, hless, v, hsome⟩
  show Heap.Clean ok h.next h₁.next
  rw [hnext]
  exact Heap.clean_self ok h.next

/-- What the function around a call makes of the value. -/
theorem Outcome.map (out : Outcome ok value ep h expected₁ p) (f : β → α)
    (hread : expected = expected₁.map fun q => (f q.1, q.2)) :
    Outcome ok value ep h expected p := by
  subst hread
  refine ⟨out.next, out.ep, ?_, ?_⟩
  · intro q hq
    obtain ⟨hclean, htext, hsuffix, hless, v, hv⟩ := out.read q hq
    exact ⟨hclean, htext, hsuffix, hless, f v, by rw [hv, Option.map_some]⟩
  · intro hres
    rcases out.fail hres with hfail | hfail
    · exact Or.inl (by rw [hfail, Option.map_none])
    · exact Or.inr hfail

/-- A call behind others that went well. -/
theorem Outcome.behind (out : Outcome ok value₁ ep₁ h₁ expected p)
    (hclean : Heap.Clean ok h.next h₁.next) (hle : h.next ≤ h₁.next) (hep : EpIn value ep ep₁)
    (hsuffix : value₁ <:+ value) : Outcome ok value ep h expected p := by
  have hboth := Heap.clean_trans ok h.next h₁.next p.h.next hle out.next
  refine ⟨hle.trans out.next, hep.trans out.ep hsuffix, ?_, ?_⟩
  · intro q hq
    obtain ⟨hclean₁, htext, hsuffix₁, hless, hread⟩ := out.read q hq
    exact ⟨hboth.mpr ⟨hclean, hclean₁⟩, htext, hsuffix₁.trans hsuffix,
      lt_of_lt_of_le hless hsuffix.length_le, hread⟩
  · intro hres
    rcases out.fail hres with hfail | hfail
    · exact Or.inl hfail
    · exact Or.inr fun hc => hfail (hboth.mp hc).2

/-- A call that failed ends the one around it. -/
theorem Outcome.ends (out : Outcome ok value₁ ep₁ h₁ expected₁ p) (hres : p.res = none)
    (hle : h.next ≤ h₁.next) (hep : EpIn value ep ep₁) (hsuffix : value₁ <:+ value)
    (hnone : expected₁ = none → expected = none) :
    Outcome ok value ep h expected ⟨none, p.ep, p.h⟩ := by
  have hboth := Heap.clean_trans ok h.next h₁.next p.h.next hle out.next
  refine ⟨hle.trans out.next, hep.trans out.ep hsuffix, fun q hq => (by cases hq), fun _ => ?_⟩
  rcases out.fail hres with hfail | hfail
  · exact Or.inl (hnone hfail)
  · exact Or.inr fun hc => hfail (hboth.mp hc).2

/-- Two calls, the second where the first one ends. -/
theorem Outcome.andThen {q : Ptr} {ep' : Option Ptr} {h' : Memory}
    (out : Outcome ok value₁ ep₁ h₁ expected₁ ⟨some q, ep', h'⟩)
    (out' : Outcome ok q ep' h' expected p) : Outcome ok value₁ ep₁ h₁ expected p := by
  obtain ⟨hclean, -, hsuffix, -, -⟩ := out.read q rfl
  exact out'.behind hclean out.next out.ep hsuffix

end

/-! ### `parse_string` -/

theorem store_owns (out : ℕ) (w bs : List Byte) (junk : List (Option Byte))
    (hfit : bs.length ≤ junk.length)
    (owns : h₀.Owns h ({(out, .text (w.map some ++ junk))} + own)) :
    ∃ h', store h out w.length bs = some h' ∧
      h₀.Owns h' ({(out, .text ((w ++ bs).map some ++ junk.drop bs.length))} + own) ∧
      h'.next = h.next := by
  obtain ⟨h', hwrite, owns', hnext⟩ :=
    owns.write (.text ((w ++ bs).map some ++ junk.drop bs.length))
  refine ⟨h', ?_, owns', hnext⟩
  unfold store
  simp only [owns.read, storeBytes_at w bs junk hfit, Option.bind_some]
  exact hwrite

/-- The buffer has room for what is decoded, whatever the escapes are. -/
theorem copyChars_spec (out : ℕ) (e : Ptr) : ∀ (n : ℕ) (ptr : Ptr) (m : ℕ) (w : List Byte)
    (junk : List (Option Byte)) (h : Memory), Text ptr → Scans ptr m e → m ≤ junk.length →
    ptr.length < e.length + n →
    h₀.Owns h ({(out, .text (w.map some ++ junk))} + own) →
    ∃ r h', copyChars e.length out n w.length ptr h = some (r, h') ∧ h'.next = h.next ∧
      (decode e.length n ptr = none → r = none ∧ ∃ block, h₀.Owns h' ({(out, .text block)} + own)) ∧
      ∀ bs q, decode e.length n ptr = some (bs, q) → q = e ∧ 0 ∉ bs ∧
        r = some ((w ++ bs).length, e) ∧ bs.length ≤ m ∧
        h₀.Owns h' ({(out, .text ((w ++ bs).map some ++ junk.drop bs.length))} + own) := by
  intro n
  induction n with
  | zero =>
    intro ptr m w junk h _ hscans _ hfuel _
    have hle := (scans_suffix ptr m e hscans).2.2.1
    omega
  | succ n ih =>
    intro ptr m w junk h htext hscans hroom hfuel owns
    obtain ⟨hsuffix, hzero, hle, -⟩ := scans_suffix ptr m e hscans
    rw [copyChars, decode]
    by_cases hend : ptr.length ≤ e.length
    · rw [if_pos hend, if_pos hend]
      have hptr : ptr = e := (hsuffix.eq_of_length (by omega)).symm
      refine ⟨_, h, rfl, rfl, fun hnone => (by cases hnone), ?_⟩
      intro bs q hsome
      cases hsome
      rw [List.append_nil, List.length_nil, List.drop_zero]
      exact ⟨hptr, List.not_mem_nil, by rw [hptr], Nat.zero_le m, owns⟩
    · rw [if_neg hend, if_neg hend]
      obtain ⟨r, hstep, hsteps⟩ := charStep_spec ptr e m htext hscans (by omega)
      rw [hstep]
      cases r with
      | none =>
        refine ⟨none, h, rfl, rfl, fun _ => ⟨rfl, _, owns⟩, fun bs q hsome => (by cases hsome)⟩
      | some r =>
        obtain ⟨bs, q⟩ := r
        obtain ⟨m', hscans', hroom', htext', hless, hnul⟩ := hsteps bs q rfl
        obtain ⟨h₁, hstore, owns₁, hnext₁⟩ := store_owns out w bs junk (by omega) owns
        obtain ⟨r, h₂, hcopy, hnext₂, hnone, hsome⟩ := ih q m' (w ++ bs) (junk.drop bs.length) h₁
          htext' hscans' (by rw [List.length_drop]; omega) (by omega) owns₁
        rw [List.length_append] at hcopy
        simp only [Option.bind_eq_bind, Option.bind_some, hstore]
        refine ⟨r, h₂, hcopy, hnext₂.trans hnext₁, ?_, ?_⟩
        · intro hmap
          exact hnone (Option.map_eq_none_iff.mp hmap)
        · intro bs' q' hmap
          obtain ⟨⟨bs₁, q₁⟩, hdecode, heq⟩ := Option.map_eq_some_iff.mp hmap
          dsimp only at heq
          cases heq
          obtain ⟨hq, hnul₁, hr, hlen₁, owns₂⟩ := hsome bs₁ _ hdecode
          rw [List.append_assoc] at hr owns₂
          rw [List.drop_drop, ← List.length_append] at owns₂
          refine ⟨hq, ?_, hr, ?_, owns₂⟩
          · rw [List.mem_append, not_or]
            exact ⟨hnul, hnul₁⟩
          · rw [List.length_append]
            omega

/-- `*ep` is what it was, or points into the text. -/
theorem scans_text (p : Ptr) (m : ℕ) (e : Ptr) (h : Scans p m e) (htext : Text p) : Text e := by
  induction h with
  | stop b rest hb => exact htext
  | char b rest e m h34 h0 h92 h ih => exact ih (text_cons b rest htext h0)
  | escape c rest e m h0 h ih =>
    exact ih (text_cons c rest (text_cons 92 _ htext (by decide)) h0)

/-- A node that nothing was read into. -/
def blank (kind : Kind) (string : Option Str) : Label := ⟨kind, [], none, string⟩

theorem parseString_spec (item : ℕ) (str : Ptr) (ep : Option Ptr) (kind : Kind)
    (string : Option Str) (next prev : Option ℕ) (htext : Text str)
    (owns : h₀.Owns h ({(item, .node ((blank kind string).fields next prev none))} + own)) :
    ∃ p kind' v, parseString ok item str ep h = some p ∧
      Outcome ok str ep h (readString str) p ∧
      h₀.Owns p.h ({(item, .node (Label.fields ⟨kind', [], v, string⟩ next prev none))} +
        (Str.cells v + own)) ∧
      ∀ q, p.res = some q → kind' = .string ∧ ∃ bs, textOf v = some bs ∧
        readString str = some (bs, q) := by
  obtain ⟨b, rest, rfl⟩ := text_ne_nil str htext
  have hempty : h₀.Owns h ({(item, .node (Label.fields ⟨kind, [], none, string⟩ next prev none))} +
      (Str.cells none + own)) := by
    rw [Str.cells, zero_add]
    exact owns
  by_cases hb : b = 34
  · subst hb
    have hrest := text_cons 34 rest htext (by decide)
    rcases findEnd_spec 0 rest hrest (by rw [Nat.zero_add]; exact hrest.fits) with
      ⟨hnone, hend⟩ | ⟨len, e, hfind, hend, hscans⟩
    · have hread : readString (34 :: rest) = none := by
        simp only [readString, hend]
      refine ⟨⟨none, ep, h⟩, kind, none, ?_, outcome_malformed le_rfl (epIn_self _ _) hread, hempty,
        fun q hq => (by cases hq)⟩
      rw [parseString]
      simp only [hnone, Option.bind_eq_bind, Option.bind_some]
    rw [Nat.zero_add] at hfind
    obtain ⟨hsuffix, -, hlen, b, t, rfl, -⟩ := scans_suffix rest len _ hscans
    have hadd : intAdd len 1 = some (len + 1) := by
      have hfits := hrest.fits
      rw [List.length_cons] at hlen
      exact intAdd_of_le (by omega)
    cases hok : ok h.next with
    | false =>
      obtain ⟨h₁, hmalloc, owns₁, hnext₁⟩ :=
        hempty.mallocFailed ok (.text (List.replicate (len + 1) none)) hok
      refine ⟨⟨none, ep, h₁⟩, kind, none, ?_, outcome_malloc hok hnext₁, owns₁,
        fun q hq => (by cases hq)⟩
      rw [parseString]
      simp only [hfind, hadd, Option.bind_eq_bind, Option.bind_some, mallocText, hmalloc]
    | true =>
      obtain ⟨h₁, hmalloc, owns₁, hnext₁⟩ :=
        owns.malloc ok (.text (List.replicate (len + 1) none)) hok
      obtain ⟨h₂, hset, owns₂, hnext₂⟩ := setNode_spec
        (fun i => { i with valuestring := some h.next, kind := .string }) owns₁.second
      obtain ⟨r, h₃, hcopy, hnext₃, hnone, hsome⟩ := copyChars_spec h.next (b :: t) rest.length rest
        len [] (List.replicate (len + 1) none) h₂ hrest hscans (by rw [List.length_replicate]; omega)
        (by rw [List.length_cons]; omega) owns₂.second
      have hclean : Heap.Clean ok h.next h₃.next := by
        rw [hnext₃, hnext₂, hnext₁]
        exact (Heap.clean_one ok h.next).mpr hok
      have hcopy : copyChars (b :: t).length h.next rest.length 0 rest h₂ = some (r, h₃) := hcopy
      cases hdecode : decode (b :: t).length rest.length rest with
      | none =>
        obtain ⟨rfl, block, owns₃⟩ := hnone hdecode
        have hread : readString (34 :: rest) = none := by
          simp only [readString, hend, hdecode, Option.bind_none]
        refine ⟨⟨none, some (34 :: rest), h₃⟩, .string, some ⟨h.next, block⟩, ?_,
          outcome_malformed (by omega) (epIn_here _ _) hread, owns₃.second,
          fun q hq => (by cases hq)⟩
        rw [parseString]
        simp only [hfind, hadd, Option.bind_eq_bind, Option.bind_some, mallocText, hmalloc, hset,
          hcopy]
      | some p =>
        obtain ⟨bs, q⟩ := p
        obtain ⟨rfl, hnul, rfl, hroom, owns₃⟩ := hsome bs q hdecode
        obtain ⟨h₄, hstore, owns₄, hnext₄⟩ := store_owns h.next bs [0]
          ((List.replicate (len + 1) none).drop bs.length)
          (by rw [List.length_drop, List.length_replicate, List.length_singleton]; omega) owns₃
        obtain ⟨q, hskip, hq, hsuffix'⟩ :=
          skipIf_spec (· = 34) (b :: t) rfl (scans_text rest len _ hscans hrest)
        have hread : readString (34 :: rest) = some (bs, q) := by
          simp only [readString, hend, hdecode, Option.bind_some, hskip, Option.map_some]
        have hbelow := hsuffix'.trans hsuffix
        have hdone : Outcome ok (34 :: rest) ep h₃ (readString (34 :: rest)) ⟨some q, ep, h₄⟩ :=
          outcome_done bs q hq (hbelow.trans (List.suffix_cons 34 rest))
            (Nat.lt_succ_of_le hbelow.length_le) hnext₄ hread
        refine ⟨⟨some q, ep, h₄⟩, .string, some ⟨h.next, _⟩, ?_,
          hdone.behind hclean (by omega) (epIn_self _ _) List.suffix_rfl, owns₄.second, ?_⟩
        · rw [parseString]
          simp only [hfind, hadd, Option.bind_eq_bind, Option.bind_some, mallocText, hmalloc, hset,
            hcopy, List.nil_append, hstore, hskip]
        · intro q' hq'
          cases hq'
          exact ⟨rfl, bs, loadString_text bs _ hnul, hread⟩
  · have hread : readString (b :: rest) = none := by
      rw [readString]
      exact fun _ heq => hb (List.cons.inj heq).1
    refine ⟨⟨none, some (b :: rest), h⟩, kind, none, ?_, outcome_malformed le_rfl (epIn_here _ _) hread,
      hempty, fun q hq => (by cases hq)⟩
    rw [parseString]
    · simp
    · exact fun _ heq => hb (List.cons.inj heq).1

/-! ### What each function owes -/

/-- The node at `item` with what was read into it. -/
def Fills (h₀ h : Memory) (own : Multiset (ℕ × Cell)) (item : ℕ) (label : Label)
    (child : List Node) (next prev : Option ℕ) : Prop :=
  h₀.Owns h ({(item, .node (label.fields next prev (head child)))} +
    (Str.cells label.valuestring + (chain child none none + own)))

def ValueSpec (ok : ℕ → Bool) (n : ℕ) : Prop :=
  ∀ (h₀ h : Memory) (own : Multiset (ℕ × Cell)) (item : ℕ) (value : Ptr) (ep : Option Ptr)
    (kind : Kind) (string : Option Str) (next prev : Option ℕ), Text value →
    2 * value.length + 2 ≤ n →
    h₀.Owns h ({(item, .node ((blank kind string).fields next prev none))} + own) →
    ∃ p label child, parseValue ok n item (some value) ep h = some p ∧
      Outcome ok value ep h (readValue n value) p ∧ label.string = string ∧
      Fills h₀ p.h own item label child next prev ∧
      ∀ q, p.res = some q → (∃ v, json (.mk item label child) = some v ∧
        readValue n value = some (v, q)) ∧ Str.Readable label.valuestring ∧ AllReadable child

def ArraySpec (ok : ℕ → Bool) (n : ℕ) : Prop :=
  ∀ (h₀ h : Memory) (own : Multiset (ℕ × Cell)) (item : ℕ) (value : Ptr) (ep : Option Ptr)
    (kind : Kind) (string : Option Str) (next prev : Option ℕ), Text value →
    2 * value.length + 1 ≤ n →
    h₀.Owns h ({(item, .node ((blank kind string).fields next prev none))} + own) →
    ∃ p kind' child, parseArray ok n item value ep h = some p ∧
      Outcome ok value ep h (readArray n value) p ∧
      Fills h₀ p.h own item (blank kind' string) child next prev ∧
      ∀ q, p.res = some q → kind' = .array ∧ (∃ vs, jsons child = some vs ∧
        readArray n value = some (vs, q)) ∧ AllReadable child

def ElementsSpec (ok : ℕ → Bool) (n : ℕ) : Prop :=
  ∀ (h₀ h : Memory) (own : Multiset (ℕ × Cell)) (child : ℕ) (ns : List Node) (value : Ptr)
    (ep : Option Ptr), Text value → 2 * value.length + 1 ≤ n → last ns = some child →
    h₀.Owns h (chain ns none none + own) →
    ∃ p more, parseElements ok n child value ep h = some p ∧
      Outcome ok value ep h (readElements n value) p ∧
      h₀.Owns p.h (chain (ns ++ more) none none + own) ∧
      ∀ q, p.res = some q → (∃ vs, jsons more = some vs ∧
        readElements n value = some (vs, q)) ∧ AllReadable more

def MemberSpec (ok : ℕ → Bool) (n : ℕ) : Prop :=
  ∀ (h₀ h : Memory) (own : Multiset (ℕ × Cell)) (child : ℕ) (value : Ptr) (ep : Option Ptr)
    (prev : Option ℕ), Text value → 2 * value.length + 1 ≤ n →
    h₀.Owns h ({(child, .node ((blank .unset none).fields none prev none))} + own) →
    ∃ p m, parseMember ok n child value ep h = some p ∧ Node.addr m = child ∧
      Outcome ok value ep h (readMember n value) p ∧
      h₀.Owns p.h (chain [m] prev none + own) ∧
      ∀ q, p.res = some q → (∃ name v, nameOf m = some name ∧ json m = some v ∧
        readMember n value = some ((name, v), q)) ∧ Readable m

def ObjectSpec (ok : ℕ → Bool) (n : ℕ) : Prop :=
  ∀ (h₀ h : Memory) (own : Multiset (ℕ × Cell)) (item : ℕ) (value : Ptr) (ep : Option Ptr)
    (kind : Kind) (string : Option Str) (next prev : Option ℕ), Text value →
    2 * value.length + 1 ≤ n →
    h₀.Owns h ({(item, .node ((blank kind string).fields next prev none))} + own) →
    ∃ p kind' child, parseObject ok n item value ep h = some p ∧
      Outcome ok value ep h (readObject n value) p ∧
      Fills h₀ p.h own item (blank kind' string) child next prev ∧
      ∀ q, p.res = some q → kind' = .object ∧ (∃ vs, jsonMembers child = some vs ∧
        readObject n value = some (vs, q)) ∧ AllReadable child

def MembersSpec (ok : ℕ → Bool) (n : ℕ) : Prop :=
  ∀ (h₀ h : Memory) (own : Multiset (ℕ × Cell)) (child : ℕ) (ns : List Node) (value : Ptr)
    (ep : Option Ptr), Text value → 2 * value.length + 1 ≤ n → last ns = some child →
    h₀.Owns h (chain ns none none + own) →
    ∃ p more, parseMembers ok n child value ep h = some p ∧
      Outcome ok value ep h (readMembers n value) p ∧
      h₀.Owns p.h (chain (ns ++ more) none none + own) ∧
      ∀ q, p.res = some q → (∃ vs, jsonMembers more = some vs ∧
        readMembers n value = some (vs, q)) ∧ AllReadable more

/-! ### `parse_value` -/

theorem text_append (s t : List Byte) (hs : 0 ∉ s) (h : Text (s ++ t)) : Text t := by
  induction s with
  | nil => exact h
  | cons b s ih =>
    rw [List.mem_cons, not_or] at hs
    exact ih hs.2 (text_cons b _ h (Ne.symm hs.1))

theorem parseLiteral_spec (value : Ptr) (htext : Text value) :
    ∃ r, parseLiteral value = some r ∧ ∀ kind k, r = some (kind, k) →
      Text (value.drop k) ∧ (value.drop k).length < value.length ∧
      (kind = .cNull ∨ kind = .cFalse ∨ kind = .cTrue) := by
  have hdrop : ∀ s : List Byte, 0 ∉ s → s ≠ [] → s <+: value →
      Text (value.drop s.length) ∧ (value.drop s.length).length < value.length := by
    rintro s hs hne ⟨t, rfl⟩
    rw [List.drop_left]
    refine ⟨text_append s t hs htext, ?_⟩
    have hpos := List.length_pos_of_ne_nil hne
    rw [List.length_append]
    omega
  have hnull := startsWith_spec (ascii "null") (by decide) value htext
  have hfalse := startsWith_spec (ascii "false") (by decide) value htext
  have htrue := startsWith_spec (ascii "true") (by decide) value htext
  unfold parseLiteral
  simp only [hnull, hfalse, htrue, Option.bind_eq_bind, Option.bind_some, decide_eq_true_eq]
  by_cases h1 : ascii "null" <+: value
  · rw [if_pos h1]
    refine ⟨_, rfl, fun kind k heq => ?_⟩
    cases heq
    obtain ⟨ht, hlt⟩ := hdrop _ (by decide) (by decide) h1
    exact ⟨ht, hlt, Or.inl rfl⟩
  · rw [if_neg h1]
    by_cases h2 : ascii "false" <+: value
    · rw [if_pos h2]
      refine ⟨_, rfl, fun kind k heq => ?_⟩
      cases heq
      obtain ⟨ht, hlt⟩ := hdrop _ (by decide) (by decide) h2
      exact ⟨ht, hlt, Or.inr (Or.inl rfl)⟩
    · rw [if_neg h2]
      by_cases h3 : ascii "true" <+: value
      · rw [if_pos h3]
        refine ⟨_, rfl, fun kind k heq => ?_⟩
        cases heq
        obtain ⟨ht, hlt⟩ := hdrop _ (by decide) (by decide) h3
        exact ⟨ht, hlt, Or.inr (Or.inr rfl)⟩
      · rw [if_neg h3]
        refine ⟨none, rfl, fun kind k heq => ?_⟩
        cases heq

theorem json_literal (item : ℕ) (kind : Kind) (string : Option Str)
    (h : kind = .cNull ∨ kind = .cFalse ∨ kind = .cTrue) :
    json (.mk item (blank kind string) []) = some (literalValue kind) := by
  rcases h with rfl | rfl | rfl <;> rfl

theorem fills_leaf (item : ℕ) (label : Label) (next prev : Option ℕ)
    (hnone : label.valuestring = none)
    (owns : h₀.Owns h ({(item, .node (label.fields next prev none))} + own)) :
    Fills h₀ h own item label [] next prev := by
  unfold Fills
  rw [hnone, Str.cells, chain_nil, zero_add, zero_add]
  exact owns

/-- What `ValueSpec` says of one call. -/
def ReadsValue (ok : ℕ → Bool) (n : ℕ) (h₀ h : Memory) (own : Multiset (ℕ × Cell)) (item : ℕ)
    (value : Ptr) (ep : Option Ptr) (string : Option Str) (next prev : Option ℕ) : Prop :=
  ∃ p label child, parseValue ok n item (some value) ep h = some p ∧
    Outcome ok value ep h (readValue n value) p ∧ label.string = string ∧
    Fills h₀ p.h own item label child next prev ∧
    ∀ q, p.res = some q → (∃ v, json (.mk item label child) = some v ∧
      readValue n value = some (v, q)) ∧ Str.Readable label.valuestring ∧ AllReadable child

section Dispatch
variable {n item : ℕ} {b : Byte} {rest : Ptr} {ep : Option Ptr} {kind : Kind}
  {string : Option Str} {next prev : Option ℕ}

theorem value_literal (kind' : Kind) (k : ℕ)
    (hliteral : parseLiteral (b :: rest) = some (some (kind', k)))
    (hq : Text ((b :: rest).drop k)) (hless : ((b :: rest).drop k).length < (b :: rest).length)
    (hkind : kind' = .cNull ∨ kind' = .cFalse ∨ kind' = .cTrue)
    (owns : h₀.Owns h ({(item, .node ((blank kind string).fields next prev none))} + own)) :
    ReadsValue ok (n + 1) h₀ h own item (b :: rest) ep string next prev := by
  obtain ⟨h₁, hset, owns₁, hnext₁⟩ := setNode_spec (fun i => { i with kind := kind' }) owns
  have hvalue : readValue (n + 1) (b :: rest) =
      some (literalValue kind', (b :: rest).drop k) := by
    rw [readValue]
    simp only [hliteral]
  refine ⟨⟨some ((b :: rest).drop k), ep, h₁⟩, blank kind' string, [], ?_,
    outcome_done _ _ hq (List.drop_suffix k _) hless hnext₁ hvalue, rfl,
    fills_leaf item _ next prev rfl owns₁, ?_⟩
  · rw [parseValue]
    simp only [hliteral, Option.bind_eq_bind, Option.bind_some, hset]
  · intro q hq'
    cases hq'
    exact ⟨⟨_, json_literal item kind' string hkind, hvalue⟩, trivial, trivial⟩

theorem value_string (htext : Text (34 :: rest))
    (hliteral : parseLiteral (34 :: rest) = some none)
    (owns : h₀.Owns h ({(item, .node ((blank kind string).fields next prev none))} + own)) :
    ReadsValue ok (n + 1) h₀ h own item (34 :: rest) ep string next prev := by
  obtain ⟨p, kind', v, hparse, out, owns₁, hdone⟩ :=
    parseString_spec item (34 :: rest) ep kind string next prev htext owns
  have hvalue : readValue (n + 1) (34 :: rest) =
      (readString (34 :: rest)).map fun p => (.str p.1, p.2) := by
    rw [readValue]
    simp only [hliteral, if_true]
  refine ⟨p, ⟨kind', [], v, string⟩, [], ?_, out.map .str hvalue, rfl, ?_, ?_⟩
  · rw [parseValue]
    simp only [hliteral, Option.bind_eq_bind, Option.bind_some, if_true]
    exact hparse
  · unfold Fills
    rw [chain_nil, zero_add]
    exact owns₁
  · intro q hq
    obtain ⟨rfl, bs, htextOf, hsome⟩ := hdone q hq
    refine ⟨⟨.str bs, ?_, by rw [hvalue, hsome, Option.map_some]⟩, textOf_readable v bs htextOf,
      trivial⟩
    rw [json]
    dsimp only
    rw [htextOf, Option.map_some]

theorem value_number (htext : Text (b :: rest))
    (hliteral : parseLiteral (b :: rest) = some none) (hstring : b ≠ 34)
    (hnumber : b = 45 ∨ (48 ≤ b.val ∧ b.val ≤ 57))
    (owns : h₀.Owns h ({(item, .node ((blank kind string).fields next prev none))} + own)) :
    ReadsValue ok (n + 1) h₀ h own item (b :: rest) ep string next prev := by
  obtain ⟨q, hparse, hq, hsuffix⟩ := parseNumber_spec b rest htext hnumber
  obtain ⟨h₁, hset, owns₁, hnext₁⟩ := setNode_spec (fun i =>
    { i with number := (b :: rest).take ((b :: rest).length - q.length), kind := .number })
    owns
  have hvalue : readValue (n + 1) (b :: rest) =
      some (.num ((b :: rest).take ((b :: rest).length - q.length)), q) := by
    rw [readValue]
    simp only [hliteral, if_neg hstring, if_pos hnumber, hparse, Option.map_some]
  refine ⟨⟨some q, ep, h₁⟩, ⟨.number, _, none, string⟩, [], ?_,
    outcome_done _ q hq (hsuffix.trans (List.suffix_cons b rest))
      (Nat.lt_succ_of_le hsuffix.length_le) hnext₁ hvalue, rfl,
    fills_leaf item _ next prev rfl owns₁, ?_⟩
  · rw [parseValue]
    simp only [hliteral, Option.bind_eq_bind, Option.bind_some, if_neg hstring,
      if_pos hnumber, hparse, hset]
  · intro q' hq'
    cases hq'
    exact ⟨⟨_, rfl, hvalue⟩, trivial, trivial⟩

theorem value_array (harray : ArraySpec ok n) (htext : Text (91 :: rest))
    (hfuel : 2 * (91 :: rest).length + 1 ≤ n) (hliteral : parseLiteral (91 :: rest) = some none)
    (owns : h₀.Owns h ({(item, .node ((blank kind string).fields next prev none))} + own)) :
    ReadsValue ok (n + 1) h₀ h own item (91 :: rest) ep string next prev := by
  obtain ⟨p, kind', child, hparse, out, owns₁, hdone⟩ :=
    harray h₀ h own item (91 :: rest) ep kind string next prev htext hfuel owns
  have hvalue : readValue (n + 1) (91 :: rest) =
      (readArray n (91 :: rest)).map fun p => (.arr p.1, p.2) := by
    rw [readValue]
    simp [hliteral]
  refine ⟨p, blank kind' string, child, ?_, out.map .arr hvalue, rfl, owns₁, ?_⟩
  · rw [parseValue]
    simp only [hliteral, Option.bind_eq_bind, Option.bind_some]
    exact hparse
  · intro q hq
    obtain ⟨rfl, ⟨vs, hjsons, hsome⟩, hreadable⟩ := hdone q hq
    refine ⟨⟨.arr vs, ?_, by rw [hvalue, hsome, Option.map_some]⟩, trivial, hreadable⟩
    rw [json, blank]
    dsimp only
    rw [hjsons, Option.map_some]

theorem value_object (hobject : ObjectSpec ok n) (htext : Text (123 :: rest))
    (hfuel : 2 * (123 :: rest).length + 1 ≤ n) (hliteral : parseLiteral (123 :: rest) = some none)
    (owns : h₀.Owns h ({(item, .node ((blank kind string).fields next prev none))} + own)) :
    ReadsValue ok (n + 1) h₀ h own item (123 :: rest) ep string next prev := by
  obtain ⟨p, kind', child, hparse, out, owns₁, hdone⟩ :=
    hobject h₀ h own item (123 :: rest) ep kind string next prev htext hfuel owns
  have hvalue : readValue (n + 1) (123 :: rest) =
      (readObject n (123 :: rest)).map fun p => (.obj p.1, p.2) := by
    rw [readValue]
    simp [hliteral]
  refine ⟨p, blank kind' string, child, ?_, out.map .obj hvalue, rfl, owns₁, ?_⟩
  · rw [parseValue]
    simp only [hliteral, Option.bind_eq_bind, Option.bind_some]
    exact hparse
  · intro q hq
    obtain ⟨rfl, ⟨vs, hjsons, hsome⟩, hreadable⟩ := hdone q hq
    refine ⟨⟨.obj vs, ?_, by rw [hvalue, hsome, Option.map_some]⟩, trivial, hreadable⟩
    rw [json, blank]
    dsimp only
    rw [hjsons, Option.map_some]

/-- A byte that starts no value. -/
theorem value_other (hliteral : parseLiteral (b :: rest) = some none) (hstring : b ≠ 34)
    (hnumber : ¬ (b = 45 ∨ (48 ≤ b.val ∧ b.val ≤ 57))) (harr : b ≠ 91) (hobj : b ≠ 123)
    (owns : h₀.Owns h ({(item, .node ((blank kind string).fields next prev none))} + own)) :
    ReadsValue ok (n + 1) h₀ h own item (b :: rest) ep string next prev := by
  have hvalue : readValue (n + 1) (b :: rest) = none := by
    rw [readValue]
    simp only [hliteral, if_neg hstring, if_neg hnumber, if_neg harr, if_neg hobj]
  refine ⟨⟨none, some (b :: rest), h⟩, blank kind string, [], ?_,
    outcome_malformed le_rfl (epIn_here _ _) hvalue, rfl,
    fills_leaf item _ next prev rfl owns, fun q hq => (by cases hq)⟩
  rw [parseValue]
  simp only [hliteral, Option.bind_eq_bind, Option.bind_some, if_neg hstring,
    if_neg hnumber, if_neg harr, if_neg hobj]

end Dispatch

theorem value_succ (n : ℕ) (harray : ArraySpec ok n) (hobject : ObjectSpec ok n) :
    ValueSpec ok (n + 1) := by
  intro h₀ h own item value ep kind string next prev htext hfuel owns
  obtain ⟨b, rest, rfl⟩ := text_ne_nil value htext
  obtain ⟨r, hliteral, hread⟩ := parseLiteral_spec (b :: rest) htext
  cases r with
  | some r =>
    obtain ⟨kind', k⟩ := r
    obtain ⟨hq, hless, hkind⟩ := hread kind' k rfl
    exact value_literal kind' k hliteral hq hless hkind owns
  | none =>
    by_cases hstring : b = 34
    · subst hstring
      exact value_string htext hliteral owns
    by_cases hnumber : b = 45 ∨ (48 ≤ b.val ∧ b.val ≤ 57)
    · exact value_number htext hliteral hstring hnumber owns
    by_cases harr : b = 91
    · subst harr
      exact value_array harray htext (by omega) hliteral owns
    by_cases hobj : b = 123
    · subst hobj
      exact value_object hobject htext (by omega) hliteral owns
    · exact value_other hliteral hstring hnumber harr hobj owns

/-! ### The cells around a call -/

/-- The node of `item` behind others in its list. -/
theorem fills_chain (item : ℕ) (label : Label) (child : List Node) (next prev : Option ℕ)
    (fills : Fills h₀ h (Str.cells label.string + own) item label child next prev) :
    h₀.Owns h (chain [.mk item label child] prev next + own) := by
  have hcells : chain [.mk item label child] prev next + own =
      {(item, .node (label.fields next prev (head child)))} +
        (Str.cells label.valuestring + (chain child none none + (Str.cells label.string + own))) := by
    rw [chain_one, inner_eq]
    show {(item, .node (label.fields next prev (head child)))} +
      (Str.cells label.valuestring + Str.cells label.string + chain child none none) + own = _
    ac_rfl
  rw [hcells]
  exact fills

theorem first_child (item : ℕ) (f : Fields) (hok : ok h.next = true)
    (owns : h₀.Owns h ({(item, .node f)} + own)) :
    ∃ h₁ h₂, newItem ok h = (some h.next, h₁) ∧ setChild h₁ item (some h.next) = some h₂ ∧
      h₂.next = h.next + 1 ∧
      h₀.Owns h₂ ({(h.next, .node ((blank .unset none).fields none none none))} +
        ({(item, .node { f with child := some h.next })} + own)) := by
  obtain ⟨h₁, hmalloc, owns₁, hnext₁⟩ := owns.malloc ok (.node .zero) hok
  obtain ⟨h₂, hset, owns₂, hnext₂⟩ := setChild_spec item f (some h.next) owns₁.second
  exact ⟨h₁, h₂, hmalloc, hset, hnext₂.trans hnext₁, owns₂.second⟩

theorem next_sibling (ns : List Node) (child : ℕ) (hlast : last ns = some child)
    (hok : ok h.next = true) (owns : h₀.Owns h (chain ns none none + own)) :
    ∃ h₁ h₂, newItem ok h = (some h.next, h₁) ∧ suffixObject child h.next h₁ = some h₂ ∧
      h₂.next = h.next + 1 ∧
      h₀.Owns h₂ ({(h.next, .node ((blank .unset none).fields none (some child) none))} +
        (chain ns none (some h.next) + own)) := by
  obtain ⟨h₁, hmalloc, owns₁, hnext₁⟩ := owns.malloc ok (.node .zero) hok
  obtain ⟨h₂, hlink, owns₂, hnext₂⟩ := setNext_chain ns none none (some h.next) owns₁.second
  obtain ⟨h₃, hset, owns₃, hnext₃⟩ :=
    setNode_spec (fun item => { item with prev := some child }) owns₂.second
  rw [hlast] at hlink
  refine ⟨h₁, h₃, hmalloc, ?_, hnext₃.trans (hnext₂.trans hnext₁), owns₃⟩
  unfold suffixObject
  simp only [hlink, Option.bind_eq_bind, Option.bind_some]
  exact hset

/-- A stretch of a list and the node that was read behind it. -/
theorem chain_concat (ns : List Node) (child : ℕ) (m : Node) (hlast : last ns = some child)
    (owns : h₀.Owns h (chain [m] (some child) none + (chain ns none (some m.addr) + own))) :
    h₀.Owns h (chain (ns ++ [m]) none none + own) := by
  have hcells : chain (ns ++ [m]) none none + own =
      chain [m] (some child) none + (chain ns none (some m.addr) + own) := by
    rw [chain_append, hlast, head_cons, Option.some_or, Option.some_or]
    ac_rfl
  rw [hcells]
  exact owns

theorem fills_children (item : ℕ) (kind : Kind) (string : Option Str) (child : List Node)
    (next prev : Option ℕ) (owns : h₀.Owns h (chain child none none +
      ({(item, .node ((blank kind string).fields next prev (head child)))} + own))) :
    Fills h₀ h own item (blank kind string) child next prev := by
  unfold Fills
  rw [blank, Str.cells, zero_add]
  exact owns.second

/-! ### One value and the space around it -/

def spaced (n : ℕ) (value : Ptr) : Option (Json × Ptr) :=
  (skip value).bind fun value => (readValue n value).bind fun p => (skip p.2).map fun q => (p.1, q)

theorem spaced_bind {α : Type} (n : ℕ) (value : Ptr) (f : Json × Ptr → Option α) :
    (spaced n value).bind f = (skip value).bind fun value =>
      (readValue n value).bind fun p => (skip p.2).bind fun q => f (p.1, q) := by
  simp only [spaced, Option.bind_assoc, Option.bind_map, Function.comp_def]

theorem spaced_value (n : ℕ) (hvalue : ValueSpec ok n) (item : ℕ) (value : Ptr)
    (ep : Option Ptr) (kind : Kind) (string : Option Str) (next prev : Option ℕ)
    (htext : Text value) (hfuel : 2 * value.length + 2 ≤ n)
    (owns : h₀.Owns h ({(item, .node ((blank kind string).fields next prev none))} + own)) :
    ∃ v p res label child, skip value = some v ∧ parseValue ok n item (some v) ep h = some p ∧
      skipNull p.res = some res ∧ Outcome ok value ep h (spaced n value) ⟨res, p.ep, p.h⟩ ∧
      label.string = string ∧ Fills h₀ p.h own item label child next prev ∧
      ∀ q, res = some q → (∃ v, json (.mk item label child) = some v ∧
        spaced n value = some (v, q)) ∧ Str.Readable label.valuestring ∧ AllReadable child := by
  obtain ⟨v, hskip, hv, hsuffix⟩ := skip_spec value htext
  have hlen := hsuffix.length_le
  obtain ⟨p, label, child, hparse, out, hlabel, fills, hdone⟩ :=
    hvalue h₀ h own item v ep kind string next prev hv (by omega) owns
  cases hres : p.res with
  | none =>
    refine ⟨v, p, none, label, child, hskip, hparse, by rw [hres]; rfl,
      out.ends hres le_rfl (epIn_self _ _) hsuffix ?_, hlabel, fills, fun q hq => (by cases hq)⟩
    intro hnone
    rw [spaced, hskip, Option.bind_some, hnone, Option.bind_none]
  | some q =>
    obtain ⟨hclean, hq, hsuffix₁, hless, -⟩ := out.read q hres
    obtain ⟨⟨w, hjson, hread⟩, hreadable⟩ := hdone q hres
    obtain ⟨q', hskip', hq', hsuffix'⟩ := skip_spec q hq
    have hlen' := hsuffix'.length_le
    have hspaced : spaced n value = some (w, q') := by
      rw [spaced, hskip, Option.bind_some, hread, Option.bind_some, hskip', Option.map_some]
    refine ⟨v, p, some q', label, child, hskip, hparse, by rw [hres, skipNull, hskip']; rfl,
      ⟨out.next, (epIn_self _ _).trans out.ep hsuffix, ?_, fun hnone => (by cases hnone)⟩, hlabel,
      fills, ?_⟩
    · intro q'' heq
      cases heq
      exact ⟨hclean, hq', hsuffix'.trans (hsuffix₁.trans hsuffix), by omega, w, hspaced⟩
    · intro q'' heq
      cases heq
      exact ⟨⟨w, hjson, hspaced⟩, hreadable⟩

/-! ### `parse_array` -/

theorem readArray_cons (n : ℕ) (rest : Ptr) (c : Byte) (t : Ptr) (hskip : skip rest = some (c :: t))
    (hc : c ≠ 93) : readArray (n + 1) (91 :: rest) =
      (spaced n (c :: t)).bind fun p => (readElements n p.2).map fun q => (p.1 :: q.1, q.2) := by
  rw [readArray, hskip, spaced_bind]
  split
  · next heq => exact absurd (List.cons.inj (Option.some.inj heq)).1 hc
  · next heq =>
    cases heq
    rfl
  · next heq => cases heq

theorem array_succ (n : ℕ) (hvalue : ValueSpec ok n) (helements : ElementsSpec ok n) :
    ArraySpec ok (n + 1) := by
  intro h₀ h own item value ep kind string next prev htext hfuel owns
  obtain ⟨b, rest, rfl⟩ := text_ne_nil value htext
  rw [List.length_cons] at hfuel
  by_cases hb : b = 91
  · subst hb
    obtain ⟨q, hskip, hq, hsuffix⟩ := skip_spec rest (text_cons 91 rest htext (by decide))
    have hlen := hsuffix.length_le
    have hbelow := hsuffix.trans (List.suffix_cons 91 rest)
    obtain ⟨h₁, hset, owns₁, hnext₁⟩ := setNode_spec (fun i => { i with kind := .array }) owns
    obtain ⟨c, t, rfl⟩ := text_ne_nil q hq
    by_cases hc : c = 93
    · subst hc
      have hread : readArray (n + 1) (91 :: rest) = some ([], t) := by
        rw [readArray]
        simp only [hskip]
      refine ⟨⟨some t, ep, h₁⟩, .array, [], ?_, outcome_done [] t (text_cons 93 t hq (by decide))
        ((List.suffix_cons 93 t).trans hbelow) ?_ hnext₁ hread, fills_leaf item _ next prev rfl
        owns₁, ?_⟩
      · rw [parseArray]
        simp only [hset, hskip, Option.bind_eq_bind, Option.bind_some]
      · rw [List.length_cons] at hlen ⊢
        omega
      · intro q hq'
        cases hq'
        exact ⟨rfl, ⟨[], by rw [jsons], hread⟩, trivial⟩
    have hread := readArray_cons n rest c t hskip hc
    cases hok : ok h.next with
    | false =>
      rw [← hnext₁] at hok
      obtain ⟨h₂, hmalloc, owns₂, hnext₂⟩ := owns₁.mallocFailed ok (.node .zero) hok
      refine ⟨⟨none, ep, h₂⟩, .array, [], ?_, outcome_malloc (by rwa [← hnext₁]) (by omega),
        fills_leaf item _ next prev rfl owns₂, fun q hq => (by cases hq)⟩
      rw [parseArray]
      simp only [hset, hskip, newItem, hmalloc, Option.bind_eq_bind, Option.bind_some]
      split
      · next heq => exact absurd (List.cons.inj heq).1 hc
      · rfl
    | true =>
      have hclean := (Heap.clean_one ok h.next).mpr hok
      rw [← hnext₁] at hok
      obtain ⟨h₂, h₃, hmalloc, hchild, hnext₃, owns₃⟩ := first_child item _ hok owns₁
      rw [← hnext₁, ← hnext₃, hnext₁] at hclean
      obtain ⟨v, p, res, label, child, hskip', hparse, hres, out, hlabel, fills, hdone⟩ :=
        spaced_value n hvalue h₁.next (c :: t) ep .unset none none none hq (by omega) owns₃
      have owns₄ := fills_chain h₁.next label child none none (by
        rw [hlabel, Str.cells, zero_add]
        exact fills)
      cases res with
      | none =>
        refine ⟨⟨none, p.ep, p.h⟩, .array, [.mk h₁.next label child], ?_,
          out.ends rfl (by omega) (epIn_self _ _) hbelow ?_,
          fills_children item .array string _ next prev owns₄, fun q hq => (by cases hq)⟩
        · rw [parseArray]
          simp only [hset, hskip, hmalloc, hchild, Option.bind_eq_bind, Option.bind_some]
          split
          · next heq => exact absurd (List.cons.inj heq).1 hc
          · simp only [hskip', hparse, hres, Option.bind_some]
        · intro hnone
          rw [hread, hnone, Option.bind_none]
      | some q =>
        obtain ⟨-, hq', hsuffix', -⟩ := out.read q rfl
        obtain ⟨⟨w, hjson, hspaced⟩, hstring, hreadable⟩ := hdone q rfl
        have hlen' := hsuffix'.length_le
        rw [hspaced, Option.bind_some] at hread
        obtain ⟨p', more, hparse', out', owns₅, hdone'⟩ := helements h₀ p.h _ h₁.next
          [.mk h₁.next label child] q p.ep hq' (by omega) rfl owns₄
        have hboth := out.andThen (out'.map (w :: ·) hread)
        refine ⟨p', .array, .mk h₁.next label child :: more, ?_,
          hboth.behind hclean (by omega) (epIn_self _ _) hbelow,
          fills_children item .array string _ next prev owns₅, ?_⟩
        · rw [parseArray]
          simp only [hset, hskip, hmalloc, hchild, Option.bind_eq_bind, Option.bind_some]
          split
          · next heq => exact absurd (List.cons.inj heq).1 hc
          · simp only [hskip', hparse, hres, hparse', Option.bind_some]
        · intro q' hq'
          obtain ⟨⟨vs, hjsons, hsome⟩, hreadable'⟩ := hdone' q' hq'
          refine ⟨rfl, ⟨w :: vs, ?_, by rw [hread, hsome, Option.map_some]⟩, ⟨hstring, ?_, hreadable⟩,
            hreadable'⟩
          · rw [jsons, hjson, hjsons, Option.bind_some, Option.map_some]
          · rw [hlabel]
            trivial
  · have hread : readArray (n + 1) (b :: rest) = none := by
      rw [readArray]
      simp [hb]
    refine ⟨⟨none, some (b :: rest), h⟩, kind, [], ?_, outcome_malformed le_rfl (epIn_here _ _) hread,
      fills_leaf item _ next prev rfl owns, fun q hq => (by cases hq)⟩
    rw [parseArray]
    · simp
    · exact fun _ heq => hb (List.cons.inj heq).1

theorem readElements_comma (n : ℕ) (rest : Ptr) : readElements (n + 1) (44 :: rest) =
    (spaced n rest).bind fun p => (readElements n p.2).map fun q => (p.1 :: q.1, q.2) := by
  rw [readElements, spaced_bind]

theorem elements_succ (n : ℕ) (hvalue : ValueSpec ok n) (helements : ElementsSpec ok n) :
    ElementsSpec ok (n + 1) := by
  intro h₀ h own child ns value ep htext hfuel hlast owns
  obtain ⟨b, rest, rfl⟩ := text_ne_nil value htext
  rw [List.length_cons] at hfuel
  by_cases hb : b = 44
  · subst hb
    have hrest := text_cons 44 rest htext (by decide)
    have hread := readElements_comma n rest
    cases hok : ok h.next with
    | false =>
      obtain ⟨h₁, hmalloc, owns₁, hnext₁⟩ := owns.mallocFailed ok (.node .zero) hok
      refine ⟨⟨none, ep, h₁⟩, [], ?_, outcome_malloc hok hnext₁, by rwa [List.append_nil],
        fun q hq => (by cases hq)⟩
      rw [parseElements]
      simp only [newItem, hmalloc]
    | true =>
      have hclean := (Heap.clean_one ok h.next).mpr hok
      obtain ⟨h₁, h₂, hmalloc, hlink, hnext₂, owns₂⟩ := next_sibling ns child hlast hok owns
      rw [← hnext₂] at hclean
      obtain ⟨v, p, res, label, cs, hskip, hparse, hres, out, hlabel, fills, hdone⟩ :=
        spaced_value n hvalue h.next rest ep .unset none none (some child) hrest (by omega) owns₂
      have owns₃ := fills_chain h.next label cs none (some child) (by
        rw [hlabel, Str.cells, zero_add]
        exact fills)
      have owns₄ := chain_concat ns child (.mk h.next label cs) hlast owns₃
      cases res with
      | none =>
        refine ⟨⟨none, p.ep, p.h⟩, [.mk h.next label cs], ?_,
          out.ends rfl (by omega) (epIn_self _ _) (List.suffix_cons 44 rest) ?_, owns₄,
          fun q hq => (by cases hq)⟩
        · rw [parseElements]
          simp only [hmalloc, hlink, hskip, hparse, hres, Option.bind_eq_bind, Option.bind_some]
        · intro hnone
          rw [hread, hnone, Option.bind_none]
      | some q =>
        obtain ⟨-, hq, hsuffix, -⟩ := out.read q rfl
        obtain ⟨⟨w, hjson, hspaced⟩, hstring, hreadable⟩ := hdone q rfl
        have hlen := hsuffix.length_le
        rw [hspaced, Option.bind_some] at hread
        obtain ⟨p', more, hparse', out', owns₅, hdone'⟩ := helements h₀ p.h own h.next
          (ns ++ [.mk h.next label cs]) q p.ep hq (by omega) (last_concat ns _) owns₄
        rw [List.append_assoc, List.singleton_append] at owns₅
        have hboth := out.andThen (out'.map (w :: ·) hread)
        refine ⟨p', .mk h.next label cs :: more, ?_,
          hboth.behind hclean (by omega) (epIn_self _ _) (List.suffix_cons 44 rest), owns₅, ?_⟩
        · rw [parseElements]
          simp only [hmalloc, hlink, hskip, hparse, hres, hparse', Option.bind_eq_bind,
            Option.bind_some]
        · intro q' hq'
          obtain ⟨⟨vs, hjsons, hsome⟩, hreadable'⟩ := hdone' q' hq'
          refine ⟨⟨w :: vs, ?_, by rw [hread, hsome, Option.map_some]⟩, ⟨hstring, ?_, hreadable⟩,
            hreadable'⟩
          · rw [jsons, hjson, hjsons, Option.bind_some, Option.map_some]
          · rw [hlabel]
            trivial
  · have owns₁ : h₀.Owns h (chain (ns ++ []) none none + own) := by
      rw [List.append_nil]
      exact owns
    by_cases hend : b = 93
    · subst hend
      have hread : readElements (n + 1) (93 :: rest) = some ([], rest) := by rw [readElements]
      refine ⟨⟨some rest, ep, h⟩, [], by rw [parseElements],
        outcome_done [] rest (text_cons 93 rest htext (by decide)) (List.suffix_cons 93 rest)
          (Nat.lt_succ_self _) rfl hread, owns₁, ?_⟩
      intro q hq
      cases hq
      exact ⟨⟨[], by rw [jsons], hread⟩, trivial⟩
    · have hread : readElements (n + 1) (b :: rest) = none := by
        rw [readElements]
        · simp [hb]
        · simp [hend]
      refine ⟨⟨none, some (b :: rest), h⟩, [], ?_, outcome_malformed le_rfl (epIn_here _ _) hread,
        owns₁, fun q hq => (by cases hq)⟩
      rw [parseElements]
      · simp
      · simp [hb]
      · simp [hend]

/-! ### `parse_object` -/

theorem readMember_colon (n : ℕ) (value v : Ptr) (name : List Byte) (q rest : Ptr)
    (hskip : skip value = some v) (hstring : readString v = some (name, q))
    (hskip' : skip q = some (58 :: rest)) :
    readMember (n + 1) value = (spaced n rest).map fun p => ((name, p.1), p.2) := by
  rw [readMember, hskip, Option.bind_some, hstring, Option.bind_some, hskip', Option.bind_some]
  simp only [spaced, Option.map_bind, Option.map_map, Function.comp_def]

theorem member_succ (n : ℕ) (hvalue : ValueSpec ok n) : MemberSpec ok (n + 1) := by
  intro h₀ h own child value ep prev htext hfuel owns
  obtain ⟨v, hskip, hv, hsuffix⟩ := skip_spec value htext
  obtain ⟨p, kind, s, hparse, out, owns₁, hdone⟩ :=
    parseString_spec child v ep .unset none none prev hv owns
  have hname : readString v = none → readMember (n + 1) value = none := by
    intro hnone
    rw [readMember, hskip, Option.bind_some, hnone, Option.bind_none]
  cases hres : p.res with
  | none =>
    refine ⟨⟨none, p.ep, p.h⟩, .mk child ⟨kind, [], s, none⟩ [], ?_, rfl,
      out.ends hres le_rfl (epIn_self _ _) hsuffix hname, ?_, fun q hq => (by cases hq)⟩
    · rw [parseMember]
      simp only [hskip, hparse, hres, skipNull, Option.bind_eq_bind, Option.bind_some]
    · apply fills_chain
      unfold Fills
      rw [chain_nil, Str.cells, zero_add, zero_add]
      exact owns₁
  | some q =>
    obtain ⟨hclean, hq, hsuffix₁, hless, -⟩ := out.read q hres
    obtain ⟨rfl, name, hname', hread⟩ := hdone q hres
    obtain ⟨r, hskip', hr, hsuffix₂⟩ := skip_spec q hq
    obtain ⟨h₂, hset, owns₂, hnext₂⟩ := setNode_spec
      (fun i => { i with string := i.valuestring, valuestring := none }) owns₁
    have hle := out.next
    have hlen := hsuffix.length_le
    have hlen₂ := hsuffix₂.length_le
    have hbelow := hsuffix₂.trans (hsuffix₁.trans hsuffix)
    have owns₃ : h₀.Owns h₂ ({(child, .node ((blank .string s).fields none prev none))} +
        (Str.cells s + own)) := owns₂
    obtain ⟨b, rest, rfl⟩ := text_ne_nil r hr
    rw [List.length_cons] at hlen₂
    have hnull : skipNull p.res = some (some (b :: rest)) := by
      rw [hres, skipNull, hskip']
      rfl
    by_cases hb : b = 58
    · subst hb
      have hmember := readMember_colon n value v name q rest hskip hread hskip'
      obtain ⟨v', p', res, label, cs, hskip'', hparse', hres', out', hlabel, fills, hdone'⟩ :=
        spaced_value n hvalue child rest p.ep .string s none prev (text_cons 58 rest hr (by decide))
          (by omega) owns₃
      rw [← hlabel] at fills hname'
      have hclean₂ : Heap.Clean ok h.next h₂.next := by rwa [hnext₂]
      refine ⟨⟨res, p'.ep, p'.h⟩, .mk child label cs, ?_, rfl,
        (out'.map (fun v => (name, v)) hmember).behind hclean₂ (by omega)
          ((epIn_self _ _).trans out.ep hsuffix) ((List.suffix_cons 58 rest).trans hbelow),
        fills_chain child label cs none prev fills, ?_⟩
      · rw [parseMember]
        simp only [hskip, hparse, hnull, hset, hskip'', hparse', hres', Option.bind_eq_bind,
          Option.bind_some]
      · intro r hr'
        obtain ⟨⟨w, hjson, hsome⟩, hstring, hreadable⟩ := hdone' r hr'
        refine ⟨⟨name, w, ?_, hjson, by rw [hmember, hsome, Option.map_some]⟩, hstring,
          textOf_readable _ name hname', hreadable⟩
        rw [textOf_name]
        exact hname'
    · have hmember : readMember (n + 1) value = none := by
        rw [readMember, hskip, Option.bind_some, hread, Option.bind_some, hskip', Option.bind_some]
        simp [hb]
      refine ⟨⟨none, some (b :: rest), h₂⟩, .mk child (blank .string s) [], ?_, rfl,
        outcome_malformed (by omega) (Or.inr ⟨_, rfl, hbelow⟩) hmember, ?_,
        fun q hq => (by cases hq)⟩
      · rw [parseMember]
        simp only [hskip, hparse, hnull, hset, Option.bind_eq_bind, Option.bind_some]
        split
        · next heq => cases heq
        · next heq => exact absurd (List.cons.inj heq).1 hb
        · rfl
      · exact fills_chain child _ [] none prev (fills_leaf child _ none prev rfl owns₃)

theorem readObject_cons (n : ℕ) (rest : Ptr) (c : Byte) (t : Ptr)
    (hskip : skip rest = some (c :: t)) (hc : c ≠ 125) : readObject (n + 1) (123 :: rest) =
      (readMember n (c :: t)).bind fun p =>
        (readMembers n p.2).map fun q => (p.1 :: q.1, q.2) := by
  rw [readObject, hskip]
  split
  · next heq => exact absurd (List.cons.inj (Option.some.inj heq)).1 hc
  · next heq =>
    cases heq
    rfl
  · next heq => cases heq

theorem object_succ (n : ℕ) (hmember : MemberSpec ok n) (hmembers : MembersSpec ok n) :
    ObjectSpec ok (n + 1) := by
  intro h₀ h own item value ep kind string next prev htext hfuel owns
  obtain ⟨b, rest, rfl⟩ := text_ne_nil value htext
  rw [List.length_cons] at hfuel
  by_cases hb : b = 123
  · subst hb
    obtain ⟨q, hskip, hq, hsuffix⟩ := skip_spec rest (text_cons 123 rest htext (by decide))
    have hlen := hsuffix.length_le
    have hbelow := hsuffix.trans (List.suffix_cons 123 rest)
    obtain ⟨h₁, hset, owns₁, hnext₁⟩ := setNode_spec (fun i => { i with kind := .object }) owns
    obtain ⟨c, t, rfl⟩ := text_ne_nil q hq
    by_cases hc : c = 125
    · subst hc
      have hread : readObject (n + 1) (123 :: rest) = some ([], t) := by
        rw [readObject]
        simp only [hskip]
      refine ⟨⟨some t, ep, h₁⟩, .object, [], ?_, outcome_done [] t (text_cons 125 t hq (by decide))
        ((List.suffix_cons 125 t).trans hbelow) ?_ hnext₁ hread, fills_leaf item _ next prev rfl
        owns₁, ?_⟩
      · rw [parseObject]
        simp only [hset, hskip, Option.bind_eq_bind, Option.bind_some]
      · rw [List.length_cons] at hlen ⊢
        omega
      · intro q hq'
        cases hq'
        exact ⟨rfl, ⟨[], by rw [jsonMembers], hread⟩, trivial⟩
    have hread := readObject_cons n rest c t hskip hc
    cases hok : ok h.next with
    | false =>
      rw [← hnext₁] at hok
      obtain ⟨h₂, hmalloc, owns₂, hnext₂⟩ := owns₁.mallocFailed ok (.node .zero) hok
      refine ⟨⟨none, ep, h₂⟩, .object, [], ?_, outcome_malloc (by rwa [← hnext₁]) (by omega),
        fills_leaf item _ next prev rfl owns₂, fun q hq => (by cases hq)⟩
      rw [parseObject]
      simp only [hset, hskip, newItem, hmalloc, Option.bind_eq_bind, Option.bind_some]
      split
      · next heq => exact absurd (List.cons.inj heq).1 hc
      · rfl
    | true =>
      have hclean := (Heap.clean_one ok h.next).mpr hok
      rw [← hnext₁] at hok
      obtain ⟨h₂, h₃, hmalloc, hchild, hnext₃, owns₃⟩ := first_child item _ hok owns₁
      rw [← hnext₁, ← hnext₃, hnext₁] at hclean
      obtain ⟨p, m, hparse, haddr, out, owns₄, hdone⟩ :=
        hmember h₀ h₃ _ h₁.next (c :: t) ep none hq (by omega) owns₃
      rw [← haddr] at owns₄
      cases hres : p.res with
      | none =>
        refine ⟨⟨none, p.ep, p.h⟩, .object, [m], ?_,
          out.ends hres (by omega) (epIn_self _ _) hbelow ?_,
          fills_children item .object string _ next prev owns₄, fun q hq => (by cases hq)⟩
        · rw [parseObject]
          simp only [hset, hskip, hmalloc, hchild, Option.bind_eq_bind, Option.bind_some]
          split
          · next heq => exact absurd (List.cons.inj heq).1 hc
          · simp only [hparse, hres, Option.bind_some]
        · intro hnone
          rw [hread, hnone, Option.bind_none]
      | some q =>
        obtain ⟨-, hq', hsuffix', -⟩ := out.read q hres
        obtain ⟨⟨name, w, hname, hjson, hsome⟩, hreadable⟩ := hdone q hres
        have hlen' := hsuffix'.length_le
        rw [hsome, Option.bind_some] at hread
        obtain ⟨p', more, hparse', out', owns₅, hdone'⟩ := hmembers h₀ p.h _ h₁.next [m] q p.ep
          hq' (by omega) (by rw [← haddr]; rfl) owns₄
        obtain ⟨res, ep', h'⟩ := p
        dsimp only at hres
        subst hres
        have hboth := out.andThen (out'.map ((name, w) :: ·) hread)
        refine ⟨p', .object, m :: more, ?_,
          hboth.behind hclean (by omega) (epIn_self _ _) hbelow,
          fills_children item .object string _ next prev owns₅, ?_⟩
        · rw [parseObject]
          simp only [hset, hskip, hmalloc, hchild, Option.bind_eq_bind, Option.bind_some]
          split
          · next heq => exact absurd (List.cons.inj heq).1 hc
          · simp only [hparse, hparse', Option.bind_some]
        · intro q' hq'
          obtain ⟨⟨vs, hjsons, hsome⟩, hreadable'⟩ := hdone' q' hq'
          refine ⟨rfl, ⟨(name, w) :: vs, ?_, by rw [hread, hsome, Option.map_some]⟩, hreadable,
            hreadable'⟩
          rw [jsonMembers, hname, hjson, hjsons, Option.bind_some, Option.bind_some,
            Option.map_some]
  · have hread : readObject (n + 1) (b :: rest) = none := by
      rw [readObject]
      simp [hb]
    refine ⟨⟨none, some (b :: rest), h⟩, kind, [], ?_, outcome_malformed le_rfl (epIn_here _ _) hread,
      fills_leaf item _ next prev rfl owns, fun q hq => (by cases hq)⟩
    rw [parseObject]
    · simp
    · exact fun _ heq => hb (List.cons.inj heq).1

theorem members_succ (n : ℕ) (hmember : MemberSpec ok n) (hmembers : MembersSpec ok n) :
    MembersSpec ok (n + 1) := by
  intro h₀ h own child ns value ep htext hfuel hlast owns
  obtain ⟨b, rest, rfl⟩ := text_ne_nil value htext
  rw [List.length_cons] at hfuel
  by_cases hb : b = 44
  · subst hb
    have hrest := text_cons 44 rest htext (by decide)
    have hread : readMembers (n + 1) (44 :: rest) = (readMember n rest).bind fun p =>
        (readMembers n p.2).map fun q => (p.1 :: q.1, q.2) := by rw [readMembers]
    cases hok : ok h.next with
    | false =>
      obtain ⟨h₁, hmalloc, owns₁, hnext₁⟩ := owns.mallocFailed ok (.node .zero) hok
      refine ⟨⟨none, ep, h₁⟩, [], ?_, outcome_malloc hok hnext₁, by rwa [List.append_nil],
        fun q hq => (by cases hq)⟩
      rw [parseMembers]
      simp only [newItem, hmalloc]
    | true =>
      have hclean := (Heap.clean_one ok h.next).mpr hok
      obtain ⟨h₁, h₂, hmalloc, hlink, hnext₂, owns₂⟩ := next_sibling ns child hlast hok owns
      rw [← hnext₂] at hclean
      obtain ⟨p, m, hparse, haddr, out, owns₃, hdone⟩ :=
        hmember h₀ h₂ _ h.next rest ep (some child) hrest (by omega) owns₂
      rw [← haddr] at owns₃
      have owns₄ := chain_concat ns child m hlast owns₃
      cases hres : p.res with
      | none =>
        refine ⟨⟨none, p.ep, p.h⟩, [m], ?_,
          out.ends hres (by omega) (epIn_self _ _) (List.suffix_cons 44 rest) ?_, owns₄,
          fun q hq => (by cases hq)⟩
        · rw [parseMembers]
          simp only [hmalloc, hlink, hparse, hres, Option.bind_eq_bind, Option.bind_some]
        · intro hnone
          rw [hread, hnone, Option.bind_none]
      | some q =>
        obtain ⟨-, hq, hsuffix, -⟩ := out.read q hres
        obtain ⟨⟨name, w, hname, hjson, hsome⟩, hreadable⟩ := hdone q hres
        have hlen := hsuffix.length_le
        rw [hsome, Option.bind_some] at hread
        obtain ⟨p', more, hparse', out', owns₅, hdone'⟩ := hmembers h₀ p.h own h.next (ns ++ [m]) q
          p.ep hq (by omega) (by rw [← haddr]; exact last_concat ns m) owns₄
        rw [List.append_assoc, List.singleton_append] at owns₅
        obtain ⟨res, ep', h'⟩ := p
        dsimp only at hres
        subst hres
        have hboth := out.andThen (out'.map ((name, w) :: ·) hread)
        refine ⟨p', m :: more, ?_,
          hboth.behind hclean (by omega) (epIn_self _ _) (List.suffix_cons 44 rest), owns₅, ?_⟩
        · rw [parseMembers]
          simp only [hmalloc, hlink, hparse, hparse', Option.bind_eq_bind, Option.bind_some]
        · intro q' hq'
          obtain ⟨⟨vs, hjsons, hsome⟩, hreadable'⟩ := hdone' q' hq'
          refine ⟨⟨(name, w) :: vs, ?_, by rw [hread, hsome, Option.map_some]⟩, hreadable,
            hreadable'⟩
          rw [jsonMembers, hname, hjson, hjsons, Option.bind_some, Option.bind_some,
            Option.map_some]
  · have owns₁ : h₀.Owns h (chain (ns ++ []) none none + own) := by
      rw [List.append_nil]
      exact owns
    by_cases hend : b = 125
    · subst hend
      have hread : readMembers (n + 1) (125 :: rest) = some ([], rest) := by rw [readMembers]
      refine ⟨⟨some rest, ep, h⟩, [], by rw [parseMembers],
        outcome_done [] rest (text_cons 125 rest htext (by decide)) (List.suffix_cons 125 rest)
          (Nat.lt_succ_self _) rfl hread, owns₁, ?_⟩
      intro q hq
      cases hq
      exact ⟨⟨[], by rw [jsonMembers], hread⟩, trivial⟩
    · have hread : readMembers (n + 1) (b :: rest) = none := by
        rw [readMembers]
        · simp [hb]
        · simp [hend]
      refine ⟨⟨none, some (b :: rest), h⟩, [], ?_, outcome_malformed le_rfl (epIn_here _ _) hread,
        owns₁, fun q hq => (by cases hq)⟩
      rw [parseMembers]
      · simp
      · simp [hb]
      · simp [hend]

/-! ### All of them -/

theorem all_specs (ok : ℕ → Bool) (n : ℕ) : ValueSpec ok n ∧ ArraySpec ok n ∧ ElementsSpec ok n ∧
    MemberSpec ok n ∧ ObjectSpec ok n ∧ MembersSpec ok n := by
  induction n with
  | zero =>
    refine ⟨?_, ?_, ?_, ?_, ?_, ?_⟩
    · intro _ _ _ _ _ _ _ _ _ _ _ hfuel
      omega
    · intro _ _ _ _ _ _ _ _ _ _ _ hfuel
      omega
    · intro _ _ _ _ _ _ _ _ hfuel
      omega
    · intro _ _ _ _ _ _ _ _ hfuel
      omega
    · intro _ _ _ _ _ _ _ _ _ _ _ hfuel
      omega
    · intro _ _ _ _ _ _ _ _ hfuel
      omega
  | succ n ih =>
    obtain ⟨hvalue, harray, helements, hmember, hobject, hmembers⟩ := ih
    exact ⟨value_succ n harray hobject, array_succ n hvalue helements,
      elements_succ n hvalue helements, member_succ n hvalue, object_succ n hmember hmembers,
      members_succ n hmember hmembers⟩

end Parse
end SmbDiscover

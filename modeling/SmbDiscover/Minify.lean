import SmbDiscover.RoundTrip

/-!
# `cJSON_Minify` (cJSON.c:2132-2194)

The text is rewritten in its own block, with `into` behind `json`. A read or a store
outside the block is `none`.
-/

namespace SmbDiscover
open CText JsonText

namespace Minify

structure State where
  block : List Byte
  json : ℕ
  into : ℕ

/-- `*into++ = *json++` -/
def copy (st : State) : Option State := do
  let b ← st.block[st.json]?
  if st.into < st.block.length then some ⟨st.block.set st.into b, st.json + 1, st.into + 1⟩
  else none

def next (st : State) : State := { st with json := st.json + 1 }

def skipLine : ℕ → State → Option State
  | 0, _ => none
  | n + 1, st => do
    let b ← st.block[st.json]?
    if b ≠ 0 ∧ b ≠ 10 then skipLine n (next st) else some st

def skipComment : ℕ → State → Option State
  | 0, _ => none
  | n + 1, st => do
    let b ← st.block[st.json]?
    if b = 0 then some st
    else if b = 42 then do
      let c ← st.block[st.json + 1]?
      if c = 47 then some st else skipComment n (next st)
    else skipComment n (next st)

def copyString : ℕ → State → Option State
  | 0, _ => none
  | n + 1, st => do
    let b ← st.block[st.json]?
    if b = 0 ∨ b = 34 then some st
    else if b = 92 then do
      let st ← copy st
      let st ← copy st
      copyString n st
    else do
      let st ← copy st
      copyString n st

def loop : ℕ → State → Option State
  | 0, _ => none
  | n + 1, st => do
    let b ← st.block[st.json]?
    if b = 0 then some st
    else if b = 32 ∨ b = 9 ∨ b = 13 ∨ b = 10 then loop n (next st)
    else if b = 47 then do
      let c ← st.block[st.json + 1]?
      if c = 47 then do
        let st ← skipLine n st
        loop n st
      else if c = 42 then do
        let st ← skipComment n st
        loop n (next (next st))
      else do
        let st ← copy st
        loop n st
    else if b = 34 then do
      let st ← copy st
      let st ← copyString n st
      let st ← copy st
      loop n st
    else do
      let st ← copy st
      loop n st

/-- Every round reads a byte further on, so the fuel is enough inside the block. -/
def minify (block : List Byte) : Option (List Byte) := do
  let st ← loop (block.length + 1) ⟨block, 0, 0⟩
  if st.into < st.block.length then some (st.block.set st.into 0) else none

/-! ### Rounds over a text without comments -/

/-- The text between two quotes. -/
inductive Quoted : List Byte → Prop where
  | nil : Quoted []
  | char (b : Byte) (raw : List Byte) (h0 : b ≠ 0) (h34 : b ≠ 34) (h92 : b ≠ 92)
      (h : Quoted raw) : Quoted (b :: raw)
  | escape (c : Byte) (raw : List Byte) (h : Quoted raw) : Quoted (92 :: c :: raw)

def Ordinary (b : Byte) : Prop := b ≠ 0 ∧ isWs b = false ∧ b ≠ 47 ∧ b ≠ 34

instance (b : Byte) : Decidable (Ordinary b) :=
  inferInstanceAs (Decidable (b ≠ 0 ∧ isWs b = false ∧ b ≠ 47 ∧ b ≠ 34))

/-- From `p` the loop comes to `q`, and has copied `w`. -/
inductive Emits : List Byte → List Byte → List Byte → Prop where
  | done (p : List Byte) : Emits p [] p
  | space (b : Byte) (p w q : List Byte) (hb : isWs b = true) (h : Emits p w q) :
      Emits (b :: p) w q
  | plain (b : Byte) (p w q : List Byte) (hb : Ordinary b) (h : Emits p w q) :
      Emits (b :: p) (b :: w) q
  | string (raw p w q : List Byte) (hraw : Quoted raw) (h : Emits p w q) :
      Emits (34 :: (raw ++ 34 :: p)) (34 :: (raw ++ 34 :: w)) q

theorem Emits.trans {p w q w' r : List Byte} (h : Emits p w q) (h' : Emits q w' r) :
    Emits p (w ++ w') r := by
  induction h with
  | done p => exact h'
  | space b p w q hb h ih => exact .space b p _ r hb (ih h')
  | plain b p w q hb h ih => exact .plain b p _ r hb (ih h')
  | string raw p w q hraw h ih =>
    rw [List.cons_append, List.append_assoc, List.cons_append]
    exact .string raw p _ r hraw (ih h')

/-- What was copied stays as it is. -/
theorem Emits.again {p w q : List Byte} (h : Emits p w q) (t : List Byte) :
    Emits (w ++ t) w t := by
  induction h with
  | done p => exact .done t
  | space b p w q hb h ih => exact ih
  | plain b p w q hb h ih => exact .plain b _ w t hb ih
  | string raw p w q hraw h ih =>
    rw [List.cons_append, List.append_assoc, List.cons_append]
    exact .string raw _ w t hraw ih

/-! ### A round in the block -/

/-- `w` was copied, and `p` is the text from `json` on. -/
structure At (st : State) (w p : List Byte) : Prop where
  copied : st.block.take st.into = w
  rest : st.block.drop st.json = p
  behind : st.into ≤ st.json

variable {st : State} {w p : List Byte} {b : Byte}

theorem At.read (h : At st w (b :: p)) : st.block[st.json]? = some b := by
  have hread := congrArg (fun l : List Byte => l[0]?) h.rest
  simpa using hread

theorem At.next (h : At st w (b :: p)) : At (next st) w p := by
  refine ⟨h.copied, ?_, Nat.le_succ_of_le h.behind⟩
  have hdrop := congrArg (List.drop 1) h.rest
  rwa [List.drop_drop, List.drop_succ_cons, List.drop_zero] at hdrop

theorem At.copy (h : At st w (b :: p)) :
    ∃ st', Minify.copy st = some st' ∧ At st' (w ++ [b]) p ∧
      st'.block.length = st.block.length := by
  have hread := h.read
  have hlt : st.json < st.block.length := (List.getElem?_eq_some_iff.mp hread).1
  have hinto : st.into < st.block.length := lt_of_le_of_lt h.behind hlt
  refine ⟨⟨st.block.set st.into b, st.json + 1, st.into + 1⟩, ?_, ⟨?_, ?_, ?_⟩,
    List.length_set ..⟩
  · unfold Minify.copy
    simp only [hread, Option.bind_eq_bind, Option.bind_some, if_pos hinto]
  · show (st.block.set st.into b).take (st.into + 1) = w ++ [b]
    rw [List.take_add_one, List.take_set_of_le (le_refl _), h.copied, List.getElem?_set_self hinto]
    rfl
  · show (st.block.set st.into b).drop (st.json + 1) = p
    rw [List.drop_set_of_lt (Nat.lt_succ_of_le h.behind)]
    exact h.next.rest
  · exact Nat.succ_le_succ h.behind

theorem isWs_iff (b : Byte) : isWs b = true ↔ b = 32 ∨ b = 9 ∨ b = 13 ∨ b = 10 := by
  simp only [isWs, Bool.or_eq_true, decide_eq_true_eq]
  tauto

theorem copyString_spec (raw : List Byte) (hraw : Quoted raw) : ∀ (st : State) (w p : List Byte)
    (n : ℕ), At st w (raw ++ 34 :: p) → raw.length < n →
    ∃ st', copyString n st = some st' ∧ At st' (w ++ raw) (34 :: p) ∧
      st'.block.length = st.block.length := by
  induction hraw with
  | nil =>
    intro st w p n h hn
    obtain ⟨n, rfl⟩ := Nat.exists_eq_succ_of_ne_zero (by omega : n ≠ 0)
    refine ⟨st, ?_, by rwa [List.append_nil], rfl⟩
    have hread := h.read
    rw [copyString]
    simp only [hread, Option.bind_eq_bind, Option.bind_some, or_true, if_true]
  | char b raw h0 h34 h92 hraw ih =>
    intro st w p n h hn
    rw [List.length_cons] at hn
    obtain ⟨n, rfl⟩ := Nat.exists_eq_succ_of_ne_zero (by omega : n ≠ 0)
    have hread := h.read
    obtain ⟨st₁, hcopy, h₁, hlen₁⟩ := h.copy
    obtain ⟨st₂, hrest, h₂, hlen₂⟩ := ih st₁ (w ++ [b]) p n h₁ (by omega)
    rw [List.append_assoc, List.singleton_append] at h₂
    refine ⟨st₂, ?_, h₂, hlen₂.trans hlen₁⟩
    rw [copyString]
    simp only [hread, Option.bind_eq_bind, Option.bind_some, h0, h34, h92, or_self, if_false, hcopy,
      hrest]
  | escape c raw hraw ih =>
    intro st w p n h hn
    rw [List.length_cons, List.length_cons] at hn
    obtain ⟨n, rfl⟩ := Nat.exists_eq_succ_of_ne_zero (by omega : n ≠ 0)
    have hread := h.read
    obtain ⟨st₁, hcopy₁, h₁, hlen₁⟩ := h.copy
    obtain ⟨st₂, hcopy₂, h₂, hlen₂⟩ := h₁.copy
    obtain ⟨st₃, hrest, h₃, hlen₃⟩ := ih st₂ _ p n h₂ (by omega)
    rw [List.append_assoc, List.append_assoc, List.singleton_append, List.singleton_append] at h₃
    refine ⟨st₃, ?_, h₃, hlen₃.trans (hlen₂.trans hlen₁)⟩
    rw [copyString, hread]
    simp only [Option.bind_eq_bind, Option.bind_some]
    rw [if_neg (by decide), if_pos trivial, hcopy₁, Option.bind_some, hcopy₂, Option.bind_some]
    exact hrest

/-- The loop goes on behind the text that it has gone over. -/
theorem loop_emits {q u : List Byte} (hemits : Emits p u q) : ∀ (st : State) (w : List Byte)
    (n : ℕ), At st w p → p.length < n →
    ∃ st' m, loop n st = loop m st' ∧ At st' (w ++ u) q ∧ q.length < m ∧
      st'.block.length = st.block.length := by
  induction hemits with
  | done p =>
    intro st w n h hn
    exact ⟨st, n, rfl, by rwa [List.append_nil], hn, rfl⟩
  | space b p u q hb hemits ih =>
    intro st w n h hn
    rw [List.length_cons] at hn
    obtain ⟨n, rfl⟩ := Nat.exists_eq_succ_of_ne_zero (by omega : n ≠ 0)
    obtain ⟨st', m, hloop, h', hm, hlen⟩ := ih (Minify.next st) w n h.next (by omega)
    refine ⟨st', m, ?_, h', hm, hlen⟩
    have hread := h.read
    have h0 := (Parse.isWs_skipped b hb).1.1
    rw [loop, hread]
    simp only [Option.bind_eq_bind, Option.bind_some]
    rw [if_neg h0, if_pos ((isWs_iff b).mp hb)]
    exact hloop
  | plain b p u q hb hemits ih =>
    intro st w n h hn
    rw [List.length_cons] at hn
    obtain ⟨n, rfl⟩ := Nat.exists_eq_succ_of_ne_zero (by omega : n ≠ 0)
    obtain ⟨st₁, hcopy, h₁, hlen₁⟩ := h.copy
    obtain ⟨st', m, hloop, h', hm, hlen⟩ := ih st₁ (w ++ [b]) n h₁ (by omega)
    rw [List.append_assoc, List.singleton_append] at h'
    refine ⟨st', m, ?_, h', hm, hlen.trans hlen₁⟩
    have hread := h.read
    obtain ⟨h0, hws, h47, h34⟩ := hb
    have hspace : ¬ (b = 32 ∨ b = 9 ∨ b = 13 ∨ b = 10) := fun hspace =>
      Bool.false_ne_true (hws.symm.trans ((isWs_iff b).mpr hspace))
    rw [loop, hread]
    simp only [Option.bind_eq_bind, Option.bind_some]
    rw [if_neg h0, if_neg hspace, if_neg h47, if_neg h34, hcopy, Option.bind_some]
    exact hloop
  | string raw p u q hraw hemits ih =>
    intro st w n h hn
    rw [List.length_cons, List.length_append, List.length_cons] at hn
    obtain ⟨n, rfl⟩ := Nat.exists_eq_succ_of_ne_zero (by omega : n ≠ 0)
    obtain ⟨st₁, hcopy₁, h₁, hlen₁⟩ := h.copy
    obtain ⟨st₂, hstring, h₂, hlen₂⟩ := copyString_spec raw hraw st₁ _ p n h₁ (by omega)
    obtain ⟨st₃, hcopy₃, h₃, hlen₃⟩ := h₂.copy
    obtain ⟨st', m, hloop, h', hm, hlen⟩ := ih st₃ _ n h₃ (by omega)
    refine ⟨st', m, ?_, ?_, hm, hlen.trans (hlen₃.trans (hlen₂.trans hlen₁))⟩
    · have hread := h.read
      rw [loop, hread]
      simp only [Option.bind_eq_bind, Option.bind_some]
      rw [if_neg (by decide), if_neg (by decide), if_neg (by decide), if_pos trivial, hcopy₁,
        Option.bind_some, hstring, Option.bind_some, hcopy₃, Option.bind_some]
      exact hloop
    · simpa using h'

/-- The terminator is stored behind what was copied; what stood behind the text stays. -/
theorem minify_end {block out junk : List Byte}
    (hloop : loop (block.length + 1) ⟨block, 0, 0⟩ = some st) (hat : At st out (0 :: junk))
    (hlen : st.block.length = block.length) :
    ∃ tail, minify block = some (out ++ 0 :: tail) ∧
      (out ++ 0 :: tail).length = block.length ∧ junk <:+ tail := by
  have hlt : st.json < st.block.length := (List.getElem?_eq_some_iff.mp hat.read).1
  have hinto : st.into < st.block.length := lt_of_le_of_lt hat.behind hlt
  have hset : st.block.set st.into 0 = out ++ 0 :: st.block.drop (st.into + 1) := by
    rw [List.set_eq_take_append_cons_drop, if_pos hinto, hat.copied]
  refine ⟨st.block.drop (st.into + 1), ?_, ?_, ?_⟩
  · unfold minify
    rw [hloop, ← hset]
    simp only [Option.bind_eq_bind, Option.bind_some, if_pos hinto]
  · rw [← hset, List.length_set]
    exact hlen
  · have hjunk : st.block.drop (st.json + 1) = junk := by
      rw [← List.drop_drop, hat.rest]
      rfl
    rw [← hjunk]
    exact List.drop_suffix_drop_left _ (Nat.succ_le_succ hat.behind)

theorem minify_emits (block out junk : List Byte) (h : Emits block out (0 :: junk)) :
    ∃ tail, minify block = some (out ++ 0 :: tail) ∧
      (out ++ 0 :: tail).length = block.length ∧ junk <:+ tail := by
  obtain ⟨st, m, hloop, hat, hm, hlen⟩ := loop_emits h ⟨block, 0, 0⟩ [] (block.length + 1)
    ⟨rfl, rfl, le_rfl⟩ (Nat.lt_succ_self _)
  rw [List.nil_append] at hat
  obtain ⟨m, rfl⟩ := Nat.exists_eq_succ_of_ne_zero (by omega : m ≠ 0)
  have hend : loop (m + 1) st = some st := by
    rw [loop, hat.read]
    rfl
  exact minify_end (hloop.trans hend) hat hlen

end Minify
end SmbDiscover

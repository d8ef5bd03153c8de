import SmbDiscover.Lib.Numeric

/-!
# JSON texts over bytes

A decoder for JSON texts whose strings are byte strings. Bytes from `0x80` on
are ordinary string characters; `\uXXXX` is decoded to UTF-8, a surrogate pair to
one code point, and a lone surrogate is not decodable. A string literal is read in
two passes: `closeQuote` finds its closing quote, `unescape` decodes what stands
before it. Nesting is by fuel, and `Decodes` says that some fuel is enough.
-/

namespace JsonText
open CText

/-- A number is the text of its literal. -/
inductive Json where
  | null
  | bool (b : Bool)
  | num (text : List Byte)
  | str (s : List Byte)
  | arr (elems : List Json)
  | obj (members : List (List Byte × Json))

/-! ### String literals -/

/-- A byte that stands for itself inside a JSON string. -/
def Plain (c : Byte) : Prop := 32 ≤ c.val ∧ c ≠ 34 ∧ c ≠ 92

instance (c : Byte) : Decidable (Plain c) :=
  inferInstanceAs (Decidable (32 ≤ c.val ∧ c ≠ 34 ∧ c ≠ 92))

def PlainText (s : List Byte) : Prop := ∀ c ∈ s, Plain c

instance (s : List Byte) : Decidable (PlainText s) := List.decidableBAll (p := Plain) (l := s)

/-- Split at the closing quote; a backslash carries the byte after it along. -/
def closeQuote : List Byte → Option (List Byte × List Byte)
  | [] => none
  | 34 :: rest => some ([], rest)
  | 92 :: c :: rest => (closeQuote rest).map fun p => (92 :: c :: p.1, p.2)
  | c :: rest => (closeQuote rest).map fun p => (c :: p.1, p.2)

/-- The code unit of four hexadecimal digits. -/
def hex4 (a b c d : Byte) : Option ℕ :=
  match digitValue 16 a, digitValue 16 b, digitValue 16 c, digitValue 16 d with
  | some a, some b, some c, some d => some (4096 * a + 256 * b + 16 * c + d)
  | _, _, _, _ => none

/-- The UTF-8 bytes of a code point. -/
def utf8 (u : ℕ) : List Byte :=
  if u < 0x80 then [Fin.ofNat 256 u]
  else if u < 0x800 then [Fin.ofNat 256 (0xC0 + u / 64), Fin.ofNat 256 (0x80 + u % 64)]
  else if u < 0x10000 then
    [Fin.ofNat 256 (0xE0 + u / 4096), Fin.ofNat 256 (0x80 + u / 64 % 64),
      Fin.ofNat 256 (0x80 + u % 64)]
  else
    [Fin.ofNat 256 (0xF0 + u / 262144), Fin.ofNat 256 (0x80 + u / 4096 % 64),
      Fin.ofNat 256 (0x80 + u / 64 % 64), Fin.ofNat 256 (0x80 + u % 64)]

def simpleEscape : Byte → Option Byte
  | 34 => some 34
  | 92 => some 92
  | 47 => some 47
  | 98 => some 8
  | 102 => some 12
  | 110 => some 10
  | 114 => some 13
  | 116 => some 9
  | _ => none

/-- The bytes that the inside of a string literal stands for. -/
def unescape : List Byte → Option (List Byte)
  | [] => some []
  | 92 :: 117 :: a :: b :: c :: d :: rest =>
    match hex4 a b c d with
    | none => none
    | some u =>
      if 0xD800 ≤ u ∧ u < 0xDC00 then
        match rest with
        | 92 :: 117 :: a' :: b' :: c' :: d' :: rest' =>
          match hex4 a' b' c' d' with
          | none => none
          | some v =>
            if 0xDC00 ≤ v ∧ v < 0xE000 then
              (unescape rest').map (utf8 (0x10000 + (u - 0xD800) * 1024 + (v - 0xDC00)) ++ ·)
            else none
        | _ => none
      else if 0xDC00 ≤ u ∧ u < 0xE000 then none
      else (unescape rest).map (utf8 u ++ ·)
  | 92 :: c :: rest =>
    match simpleEscape c with
    | none => none
    | some e => (unescape rest).map (e :: ·)
  | c :: rest => if Plain c then (unescape rest).map (c :: ·) else none

/-- The value of a string literal behind its opening quote, and what follows it. -/
def lexString (s : List Byte) : Option (List Byte × List Byte) :=
  match closeQuote s with
  | none => none
  | some (raw, rest) => (unescape raw).map fun d => (d, rest)

/-! ### Numbers, white space and nesting -/

def isDigit (c : Byte) : Bool := 48 ≤ c && c ≤ 57

def lexInt : List Byte → Option (List Byte × List Byte)
  | 48 :: rest => some ([48], rest)
  | s => if (s.takeWhile isDigit).isEmpty then none
    else some (s.takeWhile isDigit, s.dropWhile isDigit)

def lexDigits (before s : List Byte) : Option (List Byte × List Byte) :=
  if (s.takeWhile isDigit).isEmpty then none
  else some (before ++ s.takeWhile isDigit, s.dropWhile isDigit)

def lexFrac : List Byte → Option (List Byte × List Byte)
  | 46 :: rest => lexDigits [46] rest
  | s => some ([], s)

def lexExp : List Byte → Option (List Byte × List Byte)
  | c :: rest =>
    if c = 101 ∨ c = 69 then
      match rest with
      | 43 :: rest' => lexDigits [c, 43] rest'
      | 45 :: rest' => lexDigits [c, 45] rest'
      | _ => lexDigits [c] rest
    else some ([], c :: rest)
  | [] => some ([], [])

def lexSign : List Byte → List Byte × List Byte
  | 45 :: rest => ([45], rest)
  | s => ([], s)

/-- The text of a number and what follows it. -/
def lexNumber (s : List Byte) : Option (List Byte × List Byte) :=
  match lexInt (lexSign s).2 with
  | none => none
  | some (int, t) =>
    match lexFrac t with
    | none => none
    | some (frac, t) => (lexExp t).map fun p => ((lexSign s).1 ++ int ++ frac ++ p.1, p.2)

def isWs (c : Byte) : Bool := c = 32 || c = 9 || c = 10 || c = 13

def skipWs (s : List Byte) : List Byte := s.dropWhile isWs

/-- A member name up to its colon. -/
def lexKey (s : List Byte) : Option (List Byte × List Byte) :=
  match skipWs s with
  | 34 :: rest =>
    match lexString rest with
    | none => none
    | some (key, rest) =>
      match skipWs rest with
      | 58 :: rest => some (key, rest)
      | _ => none
  | _ => none

mutual

def parseValue : ℕ → List Byte → Option (Json × List Byte)
  | 0, _ => none
  | fuel + 1, s =>
    match skipWs s with
    | 34 :: rest => (lexString rest).map fun p => (.str p.1, p.2)
    | 123 :: rest =>
      match skipWs rest with
      | 125 :: rest' => some (.obj [], rest')
      | rest' => (parseMembers fuel rest').map fun p => (.obj p.1, p.2)
    | 91 :: rest =>
      match skipWs rest with
      | 93 :: rest' => some (.arr [], rest')
      | rest' => (parseElems fuel rest').map fun p => (.arr p.1, p.2)
    | 116 :: 114 :: 117 :: 101 :: rest => some (.bool true, rest)
    | 102 :: 97 :: 108 :: 115 :: 101 :: rest => some (.bool false, rest)
    | 110 :: 117 :: 108 :: 108 :: rest => some (.null, rest)
    | rest => (lexNumber rest).map fun p => (.num p.1, p.2)

def parseElems : ℕ → List Byte → Option (List Json × List Byte)
  | 0, _ => none
  | fuel + 1, s =>
    match parseValue fuel s with
    | none => none
    | some (v, rest) =>
      match skipWs rest with
      | 44 :: rest => (parseElems fuel rest).map fun p => (v :: p.1, p.2)
      | 93 :: rest => some ([v], rest)
      | _ => none

def parseMembers : ℕ → List Byte → Option (List (List Byte × Json) × List Byte)
  | 0, _ => none
  | fuel + 1, s =>
    match lexKey s with
    | none => none
    | some (key, rest) =>
      match parseValue fuel rest with
      | none => none
      | some (v, rest) =>
        match skipWs rest with
        | 44 :: rest => (parseMembers fuel rest).map fun p => ((key, v) :: p.1, p.2)
        | 125 :: rest => some ([(key, v)], rest)
        | _ => none

end

/-- The text is one JSON value, with white space around it. -/
def Decodes (s : List Byte) (v : Json) : Prop :=
  ∃ fuel rest, parseValue fuel s = some (v, rest) ∧ skipWs rest = []

/-! ### Plain string literals -/

theorem closeQuote_cons (c : Byte) (rest : List Byte) (hq : c ≠ 34) (hb : c ≠ 92) :
    closeQuote (c :: rest) = (closeQuote rest).map fun p => (c :: p.1, p.2) := by
  rw [closeQuote]
  · exact hq
  · exact fun _ _ h _ => hb h

theorem closeQuote_plain (s rest : List Byte) (h : PlainText s) :
    closeQuote (s ++ 34 :: rest) = some (s, rest) := by
  induction s with
  | nil => rfl
  | cons c s ih =>
    have hc : Plain c := h c (List.mem_cons_self ..)
    have hs : PlainText s := fun x hx => h x (List.mem_cons_of_mem _ hx)
    rw [List.cons_append, closeQuote_cons c _ hc.2.1 hc.2.2, ih hs]
    rfl

theorem unescape_cons (c : Byte) (rest : List Byte) (h : Plain c) :
    unescape (c :: rest) = (unescape rest).map (c :: ·) := by
  rw [unescape]
  · rw [if_pos h]
  · exact fun _ _ _ _ _ hc _ => h.2.2 hc
  · exact fun _ _ hc _ => h.2.2 hc

theorem unescape_plain (s : List Byte) (h : PlainText s) : unescape s = some s := by
  induction s with
  | nil => rfl
  | cons c s ih =>
    have hs : PlainText s := fun x hx => h x (List.mem_cons_of_mem _ hx)
    rw [unescape_cons c s (h c (List.mem_cons_self ..)), ih hs]
    rfl

theorem lexString_plain (s rest : List Byte) (h : PlainText s) :
    lexString (s ++ 34 :: rest) = some (s, rest) := by
  simp only [lexString, closeQuote_plain s rest h, unescape_plain s h, Option.map_some]

theorem utf8_length (u : ℕ) : (utf8 u).length ≤ 4 ∧ (u < 0x10000 → (utf8 u).length ≤ 3) := by
  unfold utf8
  split_ifs <;> simp
  omega

theorem hex4_lt (a b c d : Byte) (u : ℕ) (h : hex4 a b c d = some u) : u < 0x10000 := by
  unfold hex4 at h
  split at h
  next ha hb hc hd =>
    have := digitValue_lt 16 _ _ ha
    have := digitValue_lt 16 _ _ hb
    have := digitValue_lt 16 _ _ hc
    have := digitValue_lt 16 _ _ hd
    cases h
    omega
  · cases h

theorem unescape_shorter (out tail raw d : List Byte)
    (ih : ∀ t, unescape tail = some t → t.length ≤ tail.length)
    (hout : out.length + tail.length < raw.length)
    (hd : (unescape tail).map (out ++ ·) = some d) : d.length < raw.length := by
  obtain ⟨t, ht, rfl⟩ := Option.map_eq_some_iff.mp hd
  have hlen := ih t ht
  rw [List.length_append]
  omega

theorem unescape_length (raw : List Byte) :
    ∀ d, unescape raw = some d → d.length ≤ raw.length ∧
      (d.length = raw.length → raw = d ∧ PlainText d) := by
  fun_induction unescape raw with
  | case1 =>
    intro d hd
    cases hd
    exact ⟨le_rfl, fun _ => ⟨rfl, fun c hc => absurd hc (by simp)⟩⟩
  | case4 a b c e u hu hhigh a' b' c' e' rest' v hv hlow ih =>
    intro d hd
    have hutf := (utf8_length (0x10000 + (u - 0xD800) * 1024 + (v - 0xDC00))).1
    have hlt := unescape_shorter _ rest' (92 :: 117 :: a :: b :: c :: e :: 92 :: 117 :: a' :: b' ::
      c' :: e' :: rest') d (fun t ht => (ih t ht).1) (by simp only [List.length_cons]; omega) hd
    exact ⟨hlt.le, fun h => absurd h hlt.ne⟩
  | case8 a b c e rest u hu hhigh hlow ih =>
    intro d hd
    have hutf := (utf8_length u).2 (hex4_lt _ _ _ _ _ hu)
    have hlt := unescape_shorter _ rest (92 :: 117 :: a :: b :: c :: e :: rest) d
      (fun t ht => (ih t ht).1) (by simp only [List.length_cons]; omega) hd
    exact ⟨hlt.le, fun h => absurd h hlt.ne⟩
  | case10 c rest hshape e he ih =>
    intro d hd
    have hlt := unescape_shorter [e] rest (92 :: c :: rest) d (fun t ht => (ih t ht).1)
      (by simp only [List.length_cons, List.length_nil]; omega) hd
    exact ⟨hlt.le, fun h => absurd h hlt.ne⟩
  | case11 c rest hu hb hplain ih =>
    intro d hd
    obtain ⟨t, ht, rfl⟩ := Option.map_eq_some_iff.mp hd
    obtain ⟨hle, heq⟩ := ih t ht
    refine ⟨Nat.succ_le_succ hle, fun h => ?_⟩
    obtain ⟨rfl, hp⟩ := heq (Nat.succ.inj h)
    exact ⟨rfl, List.forall_mem_cons.mpr ⟨hplain, hp⟩⟩
  | _ =>
    intro d hd
    cases hd

/-! ### A string literal that decodes to its own source -/

theorem closeQuote_eq (s raw rest : List Byte) (h : closeQuote s = some (raw, rest)) :
    s = raw ++ 34 :: rest := by
  induction s using closeQuote.induct generalizing raw with
  | case1 => cases h
  | case2 tail =>
    simp only [closeQuote, Option.some.injEq, Prod.mk.injEq] at h
    rw [← h.1, ← h.2]
    rfl
  | case3 c tail ih =>
    simp only [closeQuote, Option.map_eq_some_iff] at h
    obtain ⟨⟨raw', rest'⟩, hrec, heq⟩ := h
    cases heq
    rw [ih raw' hrec]
    rfl
  | case4 c tail hq hb ih =>
    rw [closeQuote.eq_4 c tail hq hb] at h
    obtain ⟨⟨raw', rest'⟩, hrec, heq⟩ := Option.map_eq_some_iff.mp h
    cases heq
    rw [ih raw' hrec]
    rfl

-- The quote behind `x` closes the literal unless a backslash at the end of `x`
-- escapes it; then the literal is closed by the first closing quote behind it.
theorem closeQuote_append_quote (x t raw rest : List Byte)
    (h : closeQuote (x ++ 34 :: t) = some (raw, rest)) :
    raw.length ≤ x.length ∨ ∃ raw', closeQuote t = some (raw', rest) := by
  induction x using closeQuote.induct generalizing raw with
  | case1 =>
    cases h
    exact Or.inl le_rfl
  | case2 tail =>
    cases h
    exact Or.inl (Nat.zero_le _)
  | case3 c tail ih =>
    obtain ⟨⟨raw', rest'⟩, hrec, heq⟩ := Option.map_eq_some_iff.mp h
    cases heq
    rcases ih raw' hrec with hle | hrun
    · left
      simp only [List.length_cons]
      omega
    · exact Or.inr hrun
  | case4 c tail hq hb ih =>
    cases tail with
    | nil =>
      by_cases hc : c = 92
      · subst hc
        obtain ⟨⟨raw', rest'⟩, hrec, heq⟩ := Option.map_eq_some_iff.mp h
        cases heq
        exact Or.inr ⟨raw', hrec⟩
      · rw [List.cons_append, closeQuote_cons c _ hq hc] at h
        cases h
        exact Or.inl le_rfl
    | cons c' tail' =>
      have hc : c ≠ 92 := fun hc => hb c' tail' hc rfl
      rw [List.cons_append, closeQuote_cons c _ hq hc] at h
      obtain ⟨⟨raw', rest'⟩, hrec, heq⟩ := Option.map_eq_some_iff.mp h
      cases heq
      rcases ih raw' hrec with hle | hrun
      · left
        simp only [List.length_cons] at hle ⊢
        omega
      · exact Or.inr hrun

theorem lexString_eq_self (s t rest : List Byte)
    (h : lexString (s ++ 34 :: t) = some (s, rest)) :
    (PlainText s ∧ rest = t) ∨ ∃ raw, closeQuote t = some (raw, rest) := by
  unfold lexString at h
  split at h
  · cases h
  next raw rest' hclose =>
    obtain ⟨d, hd, heq⟩ := Option.map_eq_some_iff.mp h
    cases heq
    rcases closeQuote_append_quote s t raw rest hclose with hle | hrun
    · obtain ⟨hge, hself⟩ := unescape_length raw s hd
      obtain ⟨hraw, hplain⟩ := hself (le_antisymm hge hle)
      subst hraw
      have htext := closeQuote_eq _ _ _ hclose
      have htail := List.append_cancel_left htext
      exact Or.inl ⟨hplain, ((List.cons.inj htail).2).symm⟩
    · exact Or.inr hrun

/-! ### Members with string values -/

theorem skipWs_cons (c : Byte) (rest : List Byte) (h : isWs c = false) :
    skipWs (c :: rest) = c :: rest := by
  simp only [skipWs, List.dropWhile_cons, h, Bool.false_eq_true, ite_false]

theorem lexKey_plain (key rest : List Byte) (h : PlainText key) :
    lexKey (34 :: (key ++ 34 :: 58 :: rest)) = some (key, rest) := by
  unfold lexKey
  rw [skipWs_cons 34 _ rfl]
  simp only [lexString_plain key _ h]
  rw [skipWs_cons 58 _ rfl]
  rfl

theorem parseValue_quote (fuel : ℕ) (body : List Byte) :
    parseValue (fuel + 1) (34 :: body) = (lexString body).map fun p => (.str p.1, p.2) := by
  rw [parseValue, skipWs_cons 34 _ rfl]
  rfl

theorem parseMembers_key (fuel : ℕ) (key body : List Byte) (h : PlainText key) :
    parseMembers (fuel + 1) (34 :: (key ++ 34 :: 58 :: body)) =
      match parseValue fuel body with
      | none => none
      | some (v, rest) =>
        match skipWs rest with
        | 44 :: rest => (parseMembers fuel rest).map fun p => ((key, v) :: p.1, p.2)
        | 125 :: rest => some ([(key, v)], rest)
        | _ => none := by
  rw [parseMembers, lexKey_plain key body h]

theorem parseMembers_string_inv (fuel : ℕ) (key body rest : List Byte)
    (ms : List (List Byte × Json)) (hk : PlainText key)
    (h : parseMembers fuel (34 :: (key ++ 34 :: 58 :: 34 :: body)) = some (ms, rest)) :
    ∃ d after tail, lexString body = some (d, after) ∧ ms = (key, .str d) :: tail ∧
      ((∃ rest' fuel', skipWs after = 44 :: rest' ∧ parseMembers fuel' rest' = some (tail, rest)) ∨
        ∃ rest', skipWs after = 125 :: rest') := by
  match fuel with
  | 0 => cases h
  | 1 =>
    rw [parseMembers_key 0 key _ hk] at h
    cases h
  | fuel + 2 =>
    rw [parseMembers_key (fuel + 1) key _ hk, parseValue_quote] at h
    cases hlex : lexString body with
    | none =>
      rw [hlex] at h
      cases h
    | some p =>
      obtain ⟨d, after⟩ := p
      rw [hlex] at h
      simp only [Option.map_some] at h
      split at h
      next rest' hws =>
        obtain ⟨⟨tail, r⟩, hrec, heq⟩ := Option.map_eq_some_iff.mp h
        cases heq
        exact ⟨d, after, tail, rfl, rfl, Or.inl ⟨rest', fuel + 1, hws, hrec⟩⟩
      next rest' hws =>
        cases h
        exact ⟨d, after, [], rfl, rfl, Or.inr ⟨rest, hws⟩⟩
      · cases h

/-- A member with a string value and the comma behind it, as a format string writes
it. -/
def stringMember (key s rest : List Byte) : List Byte :=
  34 :: (key ++ 34 :: 58 :: 34 :: (s ++ 34 :: 44 :: rest))

theorem parseMembers_stringMember (fuel : ℕ) (key s rest : List Byte) (hk : PlainText key)
    (hs : PlainText s) :
    parseMembers (fuel + 2) (stringMember key s rest) =
      (parseMembers (fuel + 1) rest).map fun p => ((key, .str s) :: p.1, p.2) := by
  unfold stringMember
  rw [parseMembers_key (fuel + 1) key _ hk, parseValue_quote, lexString_plain s _ hs]
  simp only [Option.map_some]
  rw [skipWs_cons 44 _ rfl]
  rfl

theorem stringMember_inv (fuel : ℕ) (key s rest r : List Byte) (ms : List (List Byte × Json))
    (hk : PlainText key) (hs : PlainText s)
    (h : parseMembers fuel (stringMember key s rest) = some (ms, r)) :
    ∃ fuel' tail, ms = (key, .str s) :: tail ∧ parseMembers fuel' rest = some (tail, r) := by
  obtain ⟨d, after, tail, hlex, hms, hnext⟩ := parseMembers_string_inv fuel key _ r ms hk h
  rw [lexString_plain s _ hs] at hlex
  cases hlex
  rcases hnext with ⟨rest', fuel', hws, hrec⟩ | ⟨rest', hws⟩
  · rw [skipWs_cons 44 _ rfl] at hws
    cases hws
    exact ⟨fuel', tail, hms, hrec⟩
  · rw [skipWs_cons 44 _ rfl] at hws
    cases hws

-- When the literal runs past its closing quote it is closed by the opening quote of
-- the next member, and the first byte of that member's name follows it.
theorem stringMember_self (fuel : ℕ) (key s rest r : List Byte) (c : Byte)
    (ms : List (List Byte × Json)) (hk : PlainText key)
    (hc : isWs c = false ∧ c ≠ 44 ∧ c ≠ 125) (hkeys : (ms.map Prod.fst).Nodup)
    (hself : (key, .str s) ∈ ms)
    (h : parseMembers fuel (stringMember key s (34 :: c :: rest)) = some (ms, r)) :
    PlainText s := by
  obtain ⟨d, after, tail, hlex, hms, hnext⟩ := parseMembers_string_inv fuel key _ r ms hk h
  have hd : d = s := by
    have hhead : (key, Json.str d) ∈ ms := hms ▸ List.mem_cons_self ..
    have heq := List.inj_on_of_nodup_map hkeys hhead hself rfl
    simpa using heq
  subst hd
  rcases lexString_eq_self d _ after hlex with ⟨hplain, -⟩ | ⟨raw, hover⟩
  · exact hplain
  · have hafter : after = c :: rest := by
      rw [closeQuote_cons 44 _ (by decide) (by decide)] at hover
      cases hover
      rfl
    rw [hafter, skipWs_cons c rest hc.1] at hnext
    rcases hnext with ⟨rest', fuel', hws, -⟩ | ⟨rest', hws⟩
    · exact absurd (List.cons.inj hws).1 hc.2.1
    · exact absurd (List.cons.inj hws).1 hc.2.2

theorem decodes_object_iff (rest : List Byte) (ms : List (List Byte × Json)) :
    Decodes (123 :: 34 :: rest) (.obj ms) ↔
      ∃ fuel r, parseMembers fuel (34 :: rest) = some (ms, r) ∧ skipWs r = [] := by
  have hvalue : ∀ fuel, parseValue (fuel + 1) (123 :: 34 :: rest) =
      (parseMembers fuel (34 :: rest)).map fun p => (.obj p.1, p.2) := by
    intro fuel
    rw [parseValue, skipWs_cons 123 _ rfl]
    simp only
    rw [skipWs_cons 34 _ rfl]
    rfl
  constructor
  · intro h
    obtain ⟨fuel, r, hparse, hend⟩ := h
    cases fuel with
    | zero => cases hparse
    | succ fuel =>
      rw [hvalue fuel] at hparse
      obtain ⟨p, hmembers, heq⟩ := Option.map_eq_some_iff.mp hparse
      cases heq
      exact ⟨fuel, p.2, hmembers, hend⟩
  · intro h
    obtain ⟨fuel, r, hmembers, hend⟩ := h
    exact ⟨fuel + 1, r, by rw [hvalue fuel, hmembers, Option.map_some], hend⟩

/-! ### Numbers -/

theorem isDigit_iff (c : Byte) : isDigit c = true ↔ 48 ≤ c.val ∧ c.val ≤ 57 := by
  simp [isDigit, Fin.le_def]

theorem lexSign_of_ne (c : Byte) (rest : List Byte) (h : c ≠ 45) :
    lexSign (c :: rest) = ([], c :: rest) := by
  rw [lexSign]
  intro t ht
  exact h (List.cons.inj ht).1

theorem lexInt_decimal (n : ℕ) (c : Byte) (rest : List Byte) (hc : isDigit c = false) :
    lexInt (decimalBytes n ++ c :: rest) = some (decimalBytes n, c :: rest) := by
  by_cases hn : n = 0
  · subst hn
    rfl
  · obtain ⟨d, tail, hd, hlo, -⟩ := decimalBytes_head n hn
    have hdigit : ∀ x ∈ decimalBytes n, isDigit x = true := by
      intro x hx
      exact (isDigit_iff x).mpr (decimalBytes_digit n x hx)
    have htake : (decimalBytes n ++ c :: rest).takeWhile isDigit = decimalBytes n := by
      rw [List.takeWhile_append_of_pos hdigit, List.takeWhile_cons_of_neg (by simp [hc]),
        List.append_nil]
    have hdrop : (decimalBytes n ++ c :: rest).dropWhile isDigit = c :: rest := by
      rw [List.dropWhile_append_of_pos hdigit, List.dropWhile_cons_of_neg (by simp [hc])]
    rw [lexInt, htake, hdrop]
    · rw [hd]
      rfl
    · intro t ht
      rw [hd] at ht
      have h48 : d = 48 := (List.cons.inj ht).1
      subst h48
      simp at hlo

def EndsNumber (c : Byte) : Prop := isDigit c = false ∧ c ≠ 46 ∧ c ≠ 101 ∧ c ≠ 69

theorem lexFrac_end (c : Byte) (rest : List Byte) (h : EndsNumber c) :
    lexFrac (c :: rest) = some ([], c :: rest) := by
  rw [lexFrac]
  intro t ht
  exact h.2.1 (List.cons.inj ht).1

theorem lexExp_end (c : Byte) (rest : List Byte) (h : EndsNumber c) :
    lexExp (c :: rest) = some ([], c :: rest) := by
  have hne : ¬ (c = 101 ∨ c = 69) := by
    rintro (he | he)
    · exact h.2.2.1 he
    · exact h.2.2.2 he
  unfold lexExp
  exact if_neg hne

theorem lexNumber_decimal (s sign : List Byte) (n : ℕ) (c : Byte) (rest : List Byte)
    (hs : lexSign s = (sign, decimalBytes n ++ c :: rest)) (h : EndsNumber c) :
    lexNumber s = some (sign ++ decimalBytes n, c :: rest) := by
  simp only [lexNumber, hs, lexInt_decimal n c rest h.1, lexFrac_end c rest h,
    lexExp_end c rest h, Option.map_some, List.append_nil]

theorem lit_minus : (CStr.lit "-").bytes = [45] := by decide

theorem lexNumber_formatInt (i : ℤ) (c : Byte) (rest : List Byte) (h : EndsNumber c) :
    lexNumber ((formatInt i).bytes ++ c :: rest) = some ((formatInt i).bytes, c :: rest) := by
  unfold formatInt
  split
  · rw [CStr.bytes_append, lit_minus]
    exact lexNumber_decimal _ [45] i.natAbs c rest rfl h
  · refine lexNumber_decimal _ [] i.natAbs c rest ?_ h
    show lexSign (decimalBytes i.natAbs ++ c :: rest) = ([], decimalBytes i.natAbs ++ c :: rest)
    cases hd : decimalBytes i.natAbs with
    | nil => exact absurd hd (decimal_ne_empty i.natAbs)
    | cons d tail =>
      have hlo := (decimalBytes_digit i.natAbs d (by rw [hd]; exact List.mem_cons_self ..)).1
      apply lexSign_of_ne
      intro h45
      subst h45
      simp at hlo

theorem formatInt_head (i : ℤ) :
    ∃ c rest, (formatInt i).bytes = c :: rest ∧ (c = 45 ∨ 48 ≤ c.val ∧ c.val ≤ 57) := by
  unfold formatInt
  split
  · rw [CStr.bytes_append, lit_minus]
    exact ⟨45, _, rfl, Or.inl rfl⟩
  · cases hd : decimalBytes i.natAbs with
    | nil => exact absurd hd (decimal_ne_empty i.natAbs)
    | cons d tail =>
      have hdigit := decimalBytes_digit i.natAbs d (by rw [hd]; exact List.mem_cons_self ..)
      exact ⟨d, tail, hd, Or.inr hdigit⟩

theorem parseValue_formatInt (fuel : ℕ) (i : ℤ) (c : Byte) (rest : List Byte)
    (h : EndsNumber c) :
    parseValue (fuel + 1) ((formatInt i).bytes ++ c :: rest) =
      some (.num (formatInt i).bytes, c :: rest) := by
  have hnum := lexNumber_formatInt i c rest h
  obtain ⟨d, tail, hd, hrange⟩ := formatInt_head i
  rw [hd, List.cons_append] at hnum ⊢
  have hws : isWs d = false := by
    rcases hrange with rfl | hrange
    · rfl
    · simp [isWs, Fin.ext_iff]
      omega
  rw [parseValue, skipWs_cons d _ hws]
  have hne : ∀ k : Byte, k ≠ 45 → ¬ (48 ≤ k.val ∧ k.val ≤ 57) → d ≠ k := by
    rintro k h45 hk rfl
    rcases hrange with hr | hr
    · exact h45 hr
    · exact hk hr
  split
  next heq => exact absurd (List.cons.inj heq).1 (hne 34 (by decide) (by decide))
  next heq => exact absurd (List.cons.inj heq).1 (hne 123 (by decide) (by decide))
  next heq => exact absurd (List.cons.inj heq).1 (hne 91 (by decide) (by decide))
  next heq => exact absurd (List.cons.inj heq).1 (hne 116 (by decide) (by decide))
  next heq => exact absurd (List.cons.inj heq).1 (hne 102 (by decide) (by decide))
  next heq => exact absurd (List.cons.inj heq).1 (hne 110 (by decide) (by decide))
  next => rw [hnum, Option.map_some]

theorem parseMembers_number (fuel : ℕ) (key : List Byte) (i : ℤ) (rest : List Byte)
    (hk : PlainText key) :
    parseMembers (fuel + 2) (34 :: (key ++ 34 :: 58 :: ((formatInt i).bytes ++ 125 :: rest))) =
      some ([(key, .num (formatInt i).bytes)], rest) := by
  have hend : EndsNumber 125 := ⟨by decide, by decide, by decide, by decide⟩
  rw [parseMembers_key (fuel + 1) key _ hk, parseValue_formatInt fuel i 125 rest hend]
  simp only
  rw [skipWs_cons 125 _ rfl]
  rfl

/-! ### White space in front of a value -/

theorem skipWs_append (w s : List Byte) (h : ∀ c ∈ w, isWs c = true) :
    skipWs (w ++ s) = skipWs s := by
  unfold skipWs
  exact List.dropWhile_append_of_pos h

theorem parseValue_ws (fuel : ℕ) (w s : List Byte) (h : ∀ c ∈ w, isWs c = true) :
    parseValue fuel (w ++ s) = parseValue fuel s := by
  cases fuel with
  | zero => rfl
  | succ fuel =>
    rw [parseValue, parseValue, skipWs_append w s h]

theorem parseElems_ws (fuel : ℕ) (w s : List Byte) (h : ∀ c ∈ w, isWs c = true) :
    parseElems fuel (w ++ s) = parseElems fuel s := by
  cases fuel with
  | zero => rfl
  | succ fuel => rw [parseElems, parseElems, parseValue_ws fuel w s h]

theorem parseMembers_ws (fuel : ℕ) (w s : List Byte) (h : ∀ c ∈ w, isWs c = true) :
    parseMembers fuel (w ++ s) = parseMembers fuel s := by
  cases fuel with
  | zero => rfl
  | succ fuel => rw [parseMembers, parseMembers, lexKey, lexKey, skipWs_append w s h]

theorem byte_ws (c : Byte) (h : isWs c = true) : ∀ b ∈ [c], isWs b = true := by
  intro b hb
  rw [List.mem_singleton.mp hb]
  exact h

/-! ### Enough fuel -/

theorem parse_succ (fuel : ℕ) :
    (∀ s r, parseValue fuel s = some r → parseValue (fuel + 1) s = some r) ∧
    (∀ s r, parseElems fuel s = some r → parseElems (fuel + 1) s = some r) ∧
    (∀ s r, parseMembers fuel s = some r → parseMembers (fuel + 1) s = some r) := by
  induction fuel with
  | zero =>
    refine ⟨?_, ?_, ?_⟩ <;>
    · intro s r h
      cases h
  | succ fuel ih =>
    obtain ⟨hvalue, helems, hmembers⟩ := ih
    refine ⟨?_, ?_, ?_⟩
    · intro s r h
      rw [parseValue] at h ⊢
      split at h
      · exact h
      · split at h
        · exact h
        next =>
          obtain ⟨p, hp, heq⟩ := Option.map_eq_some_iff.mp h
          rw [hmembers _ _ hp, Option.map_some, heq]
      · split at h
        · exact h
        next =>
          obtain ⟨p, hp, heq⟩ := Option.map_eq_some_iff.mp h
          rw [helems _ _ hp, Option.map_some, heq]
      · exact h
      · exact h
      · exact h
      · exact h
    · intro s r h
      rw [parseElems] at h ⊢
      split at h
      · cases h
      next v rest hv =>
        rw [hvalue _ _ hv]
        simp only
        split at h
        next =>
          obtain ⟨p, hp, heq⟩ := Option.map_eq_some_iff.mp h
          rw [helems _ _ hp, Option.map_some, heq]
        · exact h
        · cases h
    · intro s r h
      rw [parseMembers] at h ⊢
      split at h
      · cases h
      next key rest hkey =>
        split at h
        · cases h
        next v rest hv =>
          rw [hvalue _ _ hv]
          simp only
          split at h
          next =>
            obtain ⟨p, hp, heq⟩ := Option.map_eq_some_iff.mp h
            rw [hmembers _ _ hp, Option.map_some, heq]
          · exact h
          · cases h

theorem parseValue_mono (fuel fuel' : ℕ) (s : List Byte) (r : Json × List Byte)
    (hle : fuel ≤ fuel') (h : parseValue fuel s = some r) : parseValue fuel' s = some r := by
  induction hle with
  | refl => exact h
  | step _ ih => exact (parse_succ _).1 s r ih

/-- A text decodes to one value at most. -/
theorem decodes_unique (s : List Byte) (v w : Json) (hv : Decodes s v) (hw : Decodes s w) :
    v = w := by
  obtain ⟨fuel, rest, hparse, -⟩ := hv
  obtain ⟨fuel', rest', hparse', -⟩ := hw
  have hleft := parseValue_mono fuel (max fuel fuel') s _ (le_max_left ..) hparse
  have hright := parseValue_mono fuel' (max fuel fuel') s _ (le_max_right ..) hparse'
  rw [hleft] at hright
  exact congrArg Prod.fst (Option.some.inj hright)

end JsonText

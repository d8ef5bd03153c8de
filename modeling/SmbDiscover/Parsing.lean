import SmbDiscover.NodeRuns
import SmbDiscover.Scanning

/-!
# The parser (cJSON.c:414-616, 790-838, 856-901, 972-1050, 1218-1311)

`cJSON_ParseWithOpts` fills the nodes in place: a value that was not read leaves a tree
of what came before it, and the root is deleted. `ok` tells which allocations succeed,
and `fuel` bounds the nesting and the loops.
-/

namespace SmbDiscover
open CText JsonText

namespace Parse
open Nodes

/-- What a function returns and leaves: its pointer, `*ep`, and the memory. -/
structure Parsed where
  res : Option Ptr
  ep : Option Ptr
  h : Memory

def skipNull : Option Ptr → Option (Option Ptr)
  | none => some none
  | some p => (skip p).map some

/-! ### `parse_string` -/

/-- The second loop, up to the pointer and the offset where it ends. -/
def copyChars (endLen out : ℕ) : ℕ → ℕ → Ptr → Memory → Option (Option (ℕ × Ptr) × Memory)
  | 0, _, _, _ => none
  | n + 1, off, ptr, h =>
    if ptr.length ≤ endLen then some (some (off, ptr), h)
    else do
      match ← charStep endLen ptr with
      | none => some (none, h)
      | some (bs, ptr) =>
        let h ← store h out off bs
        copyChars endLen out n (off + bs.length) ptr h

def parseString (ok : ℕ → Bool) (item : ℕ) (str : Ptr) (ep : Option Ptr) (h : Memory) :
    Option Parsed :=
  match str with
  | [] => none
  | 34 :: rest => do
    match ← findEnd 0 rest with
    | none => some ⟨none, ep, h⟩
    | some (len, e) => do
      let size ← intAdd len 1
      match mallocText ok h size with
      | (none, h) => some ⟨none, ep, h⟩
      | (some out, h) => do
        let h ← setNode h item fun i => { i with valuestring := some out, kind := .string }
        match ← copyChars e.length out rest.length 0 rest h with
        | (none, h) => some ⟨none, some str, h⟩
        | (some (off, ptr), h) =>
          let h ← store h out off [0]
          let ptr ← skipIf (· = 34) ptr
          some ⟨some ptr, ep, h⟩
  | str => some ⟨none, some str, h⟩

/-! ### `parse_value` -/

/-- The three `strncmp` of `parse_value`. -/
def parseLiteral (value : Ptr) : Option (Option (Kind × ℕ)) := do
  if ← startsWith (ascii "null") value then some (some (.cNull, 4))
  else if ← startsWith (ascii "false") value then some (some (.cFalse, 5))
  else if ← startsWith (ascii "true") value then some (some (.cTrue, 4))
  else some none

mutual

def parseValue (ok : ℕ → Bool) : ℕ → ℕ → Option Ptr → Option Ptr → Memory → Option Parsed
  | _, _, none, ep, h => some ⟨none, ep, h⟩
  | 0, _, some _, _, _ => none
  | n + 1, item, some value, ep, h => do
    match ← parseLiteral value with
    | some (kind, k) =>
      let h ← setNode h item fun i => { i with kind := kind }
      some ⟨some (value.drop k), ep, h⟩
    | none =>
      match value with
      | [] => none
      | b :: _ =>
        if b = 34 then parseString ok item value ep h
        else if b = 45 ∨ (48 ≤ b.val ∧ b.val ≤ 57) then do
          let num ← parseNumber value
          let h ← setNode h item fun i =>
            { i with number := value.take (value.length - num.length), kind := .number }
          some ⟨some num, ep, h⟩
        else if b = 91 then parseArray ok n item value ep h
        else if b = 123 then parseObject ok n item value ep h
        else some ⟨none, some value, h⟩

def parseArray (ok : ℕ → Bool) : ℕ → ℕ → Ptr → Option Ptr → Memory → Option Parsed
  | 0, _, _, _, _ => none
  | _ + 1, _, [], _, _ => none
  | n + 1, item, 91 :: rest, ep, h => do
    let h ← setNode h item fun i => { i with kind := .array }
    match ← skip rest with
    | 93 :: rest => some ⟨some rest, ep, h⟩
    | value =>
      match newItem ok h with
      | (none, h) => some ⟨none, ep, h⟩
      | (some child, h) => do
        let h ← setChild h item (some child)
        let value ← skip value
        let p ← parseValue ok n child (some value) ep h
        match ← skipNull p.res with
        | none => some ⟨none, p.ep, p.h⟩
        | some value => parseElements ok n child value p.ep p.h
  | _ + 1, _, value, _, h => some ⟨none, some value, h⟩

/-- The loop of `parse_array` and what follows it. -/
def parseElements (ok : ℕ → Bool) : ℕ → ℕ → Ptr → Option Ptr → Memory → Option Parsed
  | 0, _, _, _, _ => none
  | _ + 1, _, [], _, _ => none
  | n + 1, child, 44 :: rest, ep, h =>
    match newItem ok h with
    | (none, h) => some ⟨none, ep, h⟩
    | (some next, h) => do
      let h ← suffixObject child next h
      let value ← skip rest
      let p ← parseValue ok n next (some value) ep h
      match ← skipNull p.res with
      | none => some ⟨none, p.ep, p.h⟩
      | some value => parseElements ok n next value p.ep p.h
  | _ + 1, _, 93 :: rest, ep, h => some ⟨some rest, ep, h⟩
  | _ + 1, _, value, _, h => some ⟨none, some value, h⟩

/-- The name and the value of one member, which the source has twice: in front of the
loop and in it. -/
def parseMember (ok : ℕ → Bool) : ℕ → ℕ → Ptr → Option Ptr → Memory → Option Parsed
  | 0, _, _, _, _ => none
  | n + 1, child, value, ep, h => do
    let value ← skip value
    let p ← parseString ok child value ep h
    match ← skipNull p.res with
    | none => some ⟨none, p.ep, p.h⟩
    | some value =>
      let h ← setNode p.h child fun i => { i with string := i.valuestring, valuestring := none }
      match value with
      | [] => none
      | 58 :: rest => do
        let value ← skip rest
        let p ← parseValue ok n child (some value) p.ep h
        let res ← skipNull p.res
        some ⟨res, p.ep, p.h⟩
      | value => some ⟨none, some value, h⟩

def parseObject (ok : ℕ → Bool) : ℕ → ℕ → Ptr → Option Ptr → Memory → Option Parsed
  | 0, _, _, _, _ => none
  | _ + 1, _, [], _, _ => none
  | n + 1, item, 123 :: rest, ep, h => do
    let h ← setNode h item fun i => { i with kind := .object }
    match ← skip rest with
    | 125 :: rest => some ⟨some rest, ep, h⟩
    | value =>
      match newItem ok h with
      | (none, h) => some ⟨none, ep, h⟩
      | (some child, h) => do
        let h ← setChild h item (some child)
        let p ← parseMember ok n child value ep h
        match p.res with
        | none => some ⟨none, p.ep, p.h⟩
        | some value => parseMembers ok n child value p.ep p.h
  | _ + 1, _, value, _, h => some ⟨none, some value, h⟩

/-- The loop of `parse_object` and what follows it. -/
def parseMembers (ok : ℕ → Bool) : ℕ → ℕ → Ptr → Option Ptr → Memory → Option Parsed
  | 0, _, _, _, _ => none
  | _ + 1, _, [], _, _ => none
  | n + 1, child, 44 :: rest, ep, h =>
    match newItem ok h with
    | (none, h) => some ⟨none, ep, h⟩
    | (some next, h) => do
      let h ← suffixObject child next h
      let p ← parseMember ok n next rest ep h
      match p.res with
      | none => some ⟨none, p.ep, p.h⟩
      | some value => parseMembers ok n next value p.ep p.h
  | _ + 1, _, 125 :: rest, ep, h => some ⟨some rest, ep, h⟩
  | _ + 1, _, value, _, h => some ⟨none, some value, h⟩

end

/-- The result, `*ep` and the memory. With a `return_parse_end`, `ep` is that pointer. -/
def parseWithOpts (ok : ℕ → Bool) (value : Option CStr) (returnParseEnd requireNull : Bool)
    (h : Memory) : Option (Option ℕ × Option Ptr × Memory) :=
  match newItem ok h with
  | (none, h) => some (none, none, h)
  | (some c, h) => do
    let text := value.map CStr.withNul
    let start ← skipNull text
    let p ← parseValue ok (2 * (text.getD []).length + 2) c start none h
    match p.res with
    | none =>
      let h ← delete (some c) p.h
      some (none, p.ep, h)
    | some e =>
      let e ← (if requireNull then skip e else some e : Option Ptr)
      if requireNull ∧ e.head? ≠ some 0 then do
        let h ← delete (some c) p.h
        some (none, some e, h)
      else some (some c, if returnParseEnd then some e else p.ep, p.h)

def parse (ok : ℕ → Bool) (value : Option CStr) (h : Memory) :
    Option (Option ℕ × Option Ptr × Memory) := parseWithOpts ok value false false h

/-! ### What the parser accepts -/

def decode (endLen : ℕ) : ℕ → Ptr → Option (List Byte × Ptr)
  | 0, _ => none
  | n + 1, ptr =>
    if ptr.length ≤ endLen then some ([], ptr)
    else match charStep endLen ptr with
      | some (some (bs, ptr)) => (decode endLen n ptr).map fun p => (bs ++ p.1, p.2)
      | _ => none

def readString : Ptr → Option (List Byte × Ptr)
  | 34 :: rest =>
    match literalEnd rest with
    | some e =>
      (decode e.length rest.length rest).bind fun p => (skipIf (· = 34) p.2).map fun q => (p.1, q)
    | _ => none
  | _ => none

def literalValue : Kind → Json
  | .cFalse => .bool false
  | .cTrue => .bool true
  | _ => .null

mutual

def readValue : ℕ → Ptr → Option (Json × Ptr)
  | 0, _ => none
  | n + 1, value =>
    match parseLiteral value with
    | some (some (kind, k)) => some (literalValue kind, value.drop k)
    | _ =>
      match value with
      | [] => none
      | b :: _ =>
        if b = 34 then (readString value).map fun p => (.str p.1, p.2)
        else if b = 45 ∨ (48 ≤ b.val ∧ b.val ≤ 57) then
          (parseNumber value).map fun num => (.num (value.take (value.length - num.length)), num)
        else if b = 91 then (readArray n value).map fun p => (.arr p.1, p.2)
        else if b = 123 then (readObject n value).map fun p => (.obj p.1, p.2)
        else none

def readArray : ℕ → Ptr → Option (List Json × Ptr)
  | n + 1, 91 :: rest =>
    match skip rest with
    | some (93 :: rest) => some ([], rest)
    | some value =>
      (skip value).bind fun value =>
      (readValue n value).bind fun p =>
      (skip p.2).bind fun value => (readElements n value).map fun q => (p.1 :: q.1, q.2)
    | none => none
  | _, _ => none

def readElements : ℕ → Ptr → Option (List Json × Ptr)
  | n + 1, 44 :: rest =>
    (skip rest).bind fun value =>
    (readValue n value).bind fun p =>
    (skip p.2).bind fun value => (readElements n value).map fun q => (p.1 :: q.1, q.2)
  | _ + 1, 93 :: rest => some ([], rest)
  | _, _ => none

def readMember : ℕ → Ptr → Option ((List Byte × Json) × Ptr)
  | 0, _ => none
  | n + 1, value =>
    (skip value).bind fun value =>
    (readString value).bind fun s =>
    (skip s.2).bind fun value =>
      match value with
      | 58 :: rest =>
        (skip rest).bind fun value =>
        (readValue n value).bind fun p => (skip p.2).map fun q => ((s.1, p.1), q)
      | _ => none

def readObject : ℕ → Ptr → Option (List (List Byte × Json) × Ptr)
  | n + 1, 123 :: rest =>
    match skip rest with
    | some (125 :: rest) => some ([], rest)
    | some value =>
      (readMember n value).bind fun p => (readMembers n p.2).map fun q => (p.1 :: q.1, q.2)
    | none => none
  | _, _ => none

def readMembers : ℕ → Ptr → Option (List (List Byte × Json) × Ptr)
  | n + 1, 44 :: rest =>
    (readMember n rest).bind fun p => (readMembers n p.2).map fun q => (p.1 :: q.1, q.2)
  | _ + 1, 125 :: rest => some ([], rest)
  | _, _ => none

end

end Parse
end SmbDiscover

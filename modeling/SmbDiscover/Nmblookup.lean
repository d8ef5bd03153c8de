import SmbDiscover.Acceptance
import SmbDiscover.Samba

/-!
# The nmblookup utility (`util_nmblookup`, util_nmblookup.c:74-227)

`_list_IP_in_workgroup` for one workgroup and the loop over the members of the
`computers` object. A read through a NULL pointer or behind an address list is
`none`. No branch of the source sets `isSystemError`, so no response of this
utility has a `fail` member.
-/

namespace SmbDiscover
open CText CJson ListText

/-! ### `_list_IP_in_workgroup` -/

/-- The variables of the interface loop (util_nmblookup.c:78-84) and the queries made. -/
structure Scan where
  statusIsOk : Bool
  ipList : Option (List CStr)
  smbIpCount : ℕ
  queries : List SambaCall

/-- The loop over the interfaces. `*broadcast` is read before `broadcast` is tested. -/
def scanIfaces (k : ℕ) (workgroupName : CStr) : List (Option Iface) → Scan → Option Scan
  | [], st => some st
  | broadcast :: rest, st =>
    if st.ipList.isSome then some st
    else match broadcast with
      | none => none
      | some iface =>
        let answer := iface.nameQuery k workgroupName
        scanIfaces k workgroupName rest
          ⟨answer.statusIsOk, answer.ipList, answer.smbIpCount,
            st.queries ++ [.nameQuery workgroupName iface.broadcast]⟩

/-- util_nmblookup.c:112-116 -/
def listAddresses (env : NmblookupEnv) (k : ℕ) (ipList : List CStr) :
    ℕ → ℕ → List CJson → Option (List CJson)
  | _, 0, jsonArray => some jsonArray
  | tmp, count + 1, jsonArray =>
    match ipList[tmp]? with
    | none => none
    | some addr =>
      listAddresses env k ipList (tmp + 1) count
        (addItemToArray jsonArray (create (env.json (.address k tmp)) (.string addr)))

/-- util_nmblookup.c:74-125 -/
def listIPInWorkgroup (env : NmblookupEnv) (k : ℕ) (workgroupName : CStr)
    (jsonArray : List CJson) : Option (List CJson × List SambaCall) :=
  match scanIfaces k workgroupName env.ifaces ⟨false, none, 0, []⟩ with
  | none => none
  | some st =>
    if st.statusIsOk && st.smbIpCount ≠ 0 then
      (listAddresses env k (st.ipList.getD []) 0 st.smbIpCount jsonArray).map fun arr =>
        (arr, st.queries)
    else some (jsonArray, st.queries)

/-! ### `util_nmblookup` -/

/-- An empty array for each listed name (util_nmblookup.c:168-173). -/
def addNames (env : NmblookupEnv) : ℕ → List CStr → Members → Members
  | _, [], retNameObject => retNameObject
  | k, eachName :: rest, retNameObject =>
    addNames env (k + 1) rest
      (addItemToObject retNameObject eachName (create (env.json (.array k)) (.array [])))

/-- The loop over the members of `computers` (util_nmblookup.c:193-201). -/
def lookupNames (env : NmblookupEnv) : ℕ → Members → Option (Members × List SambaCall)
  | _, [] => some ([], [])
  | k, (name, .array jsonArray) :: rest =>
    match listIPInWorkgroup env k name jsonArray, lookupNames env (k + 1) rest with
    | some (jsonArray, calls), some (rest, later) =>
      some ((name, .array jsonArray) :: rest, calls ++ later)
    | _, _ => none
  | k, item :: rest => (lookupNames env (k + 1) rest).map fun p => (item :: p.1, p.2)

def computersObject (env : NmblookupEnv) (allNames : List CStr) :
    Option (Members × List SambaCall) :=
  let retNameObject := addNames env 0 allNames []
  if env.stackframe then lookupNames env 0 retNameObject else some (retNameObject, [])

/-- util_nmblookup.c:130-227 -/
def utilNmblookup (env : NmblookupEnv) (ctx : Context) :
    Option (Option CJson × List SambaCall) :=
  if env.json .response then
    let response := addStringToObject (env.json .command) [] (.lit "command") (.lit "nmblookup")
    match ctx.smbWorkgroups with
    | none => some (some (.object response), [])
    | some allNames =>
      if env.json .computers then
        (computersObject env allNames).map fun p =>
          (some (.object (addItemToObject response (.lit "computers") (some (.object p.1)))), p.2)
      else some (some (.object response), [])
  else some (none, [])

/-! ### Members of `computers` -/

theorem addNames_eq (env : NmblookupEnv) (names : List CStr) (k : ℕ) (obj : Members) :
    addNames env k names obj =
      obj ++ (kept (fun i => env.json (.array i)) k names).map fun name => (name, .array []) := by
  induction names generalizing k obj with
  | nil => simp [addNames, kept]
  | cons name rest ih =>
    rw [addNames, ih]
    cases hok : env.json (.array k) with
    | true => simp [kept, hok]
    | false => simp [kept, hok]

/-- The lookups keep the members, and put into each array what its own lookup finds with
its own calls. -/
theorem lookupNames_spec (env : NmblookupEnv) (names : List CStr) (k : ℕ) (ms : Members)
    (calls : List SambaCall)
    (h : lookupNames env k (names.map fun name => (name, .array [])) = some (ms, calls)) :
    ms.map Prod.fst = names ∧ ∀ i name, names[i]? = some name → ∃ arr qs,
      listIPInWorkgroup env (k + i) name [] = some (arr, qs) ∧ (name, .array arr) ∈ ms ∧
        qs <:+: calls := by
  induction names generalizing k ms calls with
  | nil =>
    cases h
    exact ⟨rfl, fun i name hi => by simp at hi⟩
  | cons name rest ih =>
    simp only [List.map_cons, lookupNames] at h
    split at h
    next arr qs ms' later hhead htail =>
      cases h
      obtain ⟨hkeys, hget⟩ := ih (k + 1) ms' later htail
      refine ⟨by rw [List.map_cons, hkeys], ?_⟩
      intro i n hi
      cases i with
      | zero =>
        cases hi
        exact ⟨arr, qs, hhead, List.mem_cons_self .., List.infix_append_left⟩
      | succ i =>
        obtain ⟨arr', qs', hlist, hmem, hcalls⟩ := hget i n hi
        rw [Nat.add_right_comm] at hlist
        exact ⟨arr', qs', hlist, List.mem_cons_of_mem _ hmem,
          hcalls.trans List.infix_append_right⟩
    · cases h

theorem computersObject_spec (env : NmblookupEnv) (names : List CStr) (ms : Members)
    (calls : List SambaCall) (h : computersObject env names = some (ms, calls)) :
    ms.map Prod.fst = kept (fun i => env.json (.array i)) 0 names ∧
      (env.stackframe = true → ∀ i name, (ms.map Prod.fst)[i]? = some name → ∃ arr qs,
        listIPInWorkgroup env i name [] = some (arr, qs) ∧ (name, .array arr) ∈ ms ∧
          qs <:+: calls) := by
  unfold computersObject at h
  rw [addNames_eq, List.nil_append] at h
  split at h
  · obtain ⟨hkeys, hget⟩ := lookupNames_spec env _ 0 ms calls h
    refine ⟨hkeys, fun _ i name hi => ?_⟩
    rw [hkeys] at hi
    obtain ⟨arr, qs, hlist, hmem, hcalls⟩ := hget i name hi
    rw [Nat.zero_add] at hlist
    exact ⟨arr, qs, hlist, hmem, hcalls⟩
  next hframe =>
    cases h
    refine ⟨?_, fun htrue => absurd htrue hframe⟩
    rw [List.map_map]
    exact List.map_id _

theorem utilNmblookup_computers (env : NmblookupEnv) (ctx : Context) (child computers : Members)
    (calls : List SambaCall) (names : List CStr) (hnames : ctx.smbWorkgroups = some names)
    (hrun : utilNmblookup env ctx = some (some (.object child), calls))
    (hmem : (.lit "computers", .object computers) ∈ child) :
    computersObject env names = some (computers, calls) := by
  have hcommand : Lacks (addStringToObject (env.json .command) [] (.lit "command")
      (.lit "nmblookup")) (.lit "computers") :=
    lacks_addString _ _ _ _ _ (lacks_nil _) (by decide)
  unfold utilNmblookup at hrun
  split at hrun
  · rw [hnames] at hrun
    simp only at hrun
    split at hrun
    · obtain ⟨⟨ms, qs⟩, hobj, heq⟩ := Option.map_eq_some_iff.mp hrun
      cases heq
      rcases List.mem_append.mp hmem with hold | hnew
      · exact absurd rfl (hcommand _ hold)
      · rw [List.mem_singleton] at hnew
        cases hnew
        exact hobj
    · cases hrun
      exact absurd rfl (hcommand _ hmem)
  · cases hrun

def firstAnswered : NmblookupEnv where
  json _ := true
  stackframe := true
  ifaces := [some ⟨0xc0a801ff, fun k _ =>
    if k = 0 then ⟨true, some [.lit "192.168.1.7"], 1⟩ else ⟨false, none, 0⟩⟩]

end SmbDiscover

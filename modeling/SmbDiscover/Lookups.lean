import SmbDiscover.Nmblookup

/-!
# Lookups of the requested workgroups (`util_nmblookup`, util_nmblookup.c:74-227)

The answer of the whole run as a map over the requested names, when nothing
fails, and what an invoker can tell from a response when a stage does fail:
`isSystemError` is never set, so a run that stops early looks like one that found an
empty network.
-/

namespace SmbDiscover
open CText CJson ListText

/-! ### One workgroup (util_nmblookup.c:74-125) -/

/-- `name_query` answers with a status, a list and its length, or with an error and
no list. -/
def QueryAnswer.Documented (answer : QueryAnswer) : Prop :=
  (answer.statusIsOk = true ∧ ∃ addresses, answer.ipList = some addresses ∧ addresses ≠ [] ∧
    answer.smbIpCount = addresses.length) ∨
  (answer.statusIsOk = false ∧ answer.ipList = none)

def firstList (k : ℕ) (name : CStr) (ifaces : List Iface) : List CStr :=
  (ifaces.findSome? fun iface => (iface.nameQuery k name).ipList).getD []

/-- The interfaces up to the first that answers with a list. -/
def queriedIfaces (k : ℕ) (name : CStr) (ifaces : List Iface) : List Iface :=
  ifaces.take (ifaces.findIdx (fun iface => (iface.nameQuery k name).ipList.isSome) + 1)

def queriesOf (k : ℕ) (name : CStr) (ifaces : List Iface) : List SambaCall :=
  (queriedIfaces k name ifaces).map fun iface => .nameQuery name iface.broadcast

theorem scanIfaces_done (k : ℕ) (name : CStr) (ifaces : List (Option Iface)) (st : Scan)
    (h : st.ipList.isSome = true) : scanIfaces k name ifaces st = some st := by
  cases ifaces with
  | nil => rfl
  | cons broadcast rest => simp [scanIfaces, h]

theorem scanIfaces_cons (k : ℕ) (name : CStr) (iface : Iface) (rest : List (Option Iface))
    (st : Scan) (hnone : st.ipList = none) :
    scanIfaces k name (some iface :: rest) st = scanIfaces k name rest
      ⟨(iface.nameQuery k name).statusIsOk, (iface.nameQuery k name).ipList,
        (iface.nameQuery k name).smbIpCount, st.queries ++ [.nameQuery name iface.broadcast]⟩ := by
  simp [scanIfaces, hnone]

def Scan.answer (st : Scan) : QueryAnswer := ⟨st.statusIsOk, st.ipList, st.smbIpCount⟩

theorem scanIfaces_spec (k : ℕ) (name : CStr) (ifaces : List Iface) (st : Scan)
    (contract : ∀ iface ∈ ifaces, (iface.nameQuery k name).Documented)
    (hnone : st.ipList = none) (hst : st.answer.Documented) :
    ∃ st', scanIfaces k name (ifaces.map some) st = some st' ∧ st'.answer.Documented ∧
      st'.ipList.getD [] = firstList k name ifaces ∧
      st'.queries = st.queries ++ queriesOf k name ifaces := by
  induction ifaces generalizing st with
  | nil =>
    refine ⟨st, rfl, hst, ?_, ?_⟩
    · rw [hnone]
      rfl
    · simp [queriesOf, queriedIfaces]
  | cons iface rest ih =>
    have hanswer := contract iface (List.mem_cons_self ..)
    have hrest := fun i hi => contract i (List.mem_cons_of_mem _ hi)
    have hread := scanIfaces_cons k name iface (rest.map some) st hnone
    cases hlist : (iface.nameQuery k name).ipList with
    | none =>
      obtain ⟨st', hscan, hdoc, hfirst, hqueries⟩ := ih
        ⟨_, _, _, st.queries ++ [.nameQuery name iface.broadcast]⟩ hrest hlist hanswer
      refine ⟨st', hread.trans hscan, hdoc, ?_, ?_⟩
      · rw [hfirst]
        simp [firstList, hlist]
      · rw [hqueries]
        simp [queriesOf, queriedIfaces, List.findIdx_cons, hlist]
    | some addresses =>
      have hdone : (iface.nameQuery k name).ipList.isSome = true := by
        rw [hlist]
        rfl
      refine ⟨_, hread.trans (scanIfaces_done k name _ _ hdone), hanswer, ?_, ?_⟩
      · simp [firstList, hlist]
      · simp [queriesOf, queriedIfaces, List.findIdx_cons, hlist]

theorem listAddresses_kept (env : NmblookupEnv) (k : ℕ) (rest : List CStr) :
    ∀ (ipList : List CStr) (tmp : ℕ) (arr : List CJson), ipList.drop tmp = rest →
      listAddresses env k ipList tmp rest.length arr =
        some (arr ++ (kept (fun i => env.json (.address k i)) tmp rest).map .string) := by
  induction rest with
  | nil =>
    intro ipList tmp arr _
    simp [listAddresses, kept]
  | cons addr rest ih =>
    intro ipList tmp arr hdrop
    have hget : ipList[tmp]? = some addr := by
      have hhead := List.head?_drop (l := ipList) (i := tmp)
      rw [hdrop] at hhead
      exact hhead.symm
    have hnext : ipList.drop (tmp + 1) = rest := by
      rw [← List.drop_drop, hdrop]
      rfl
    simp only [List.length_cons, listAddresses, hget]
    rw [ih ipList (tmp + 1) _ hnext]
    cases hok : env.json (.address k tmp) with
    | false => simp [kept, hok]
    | true => simp [kept, hok]

theorem listIPInWorkgroup_of_scan (env : NmblookupEnv) (k : ℕ) (name : CStr)
    (jsonArray : List CJson) (st : Scan)
    (hscan : scanIfaces k name env.ifaces ⟨false, none, 0, []⟩ = some st)
    (hdoc : st.answer.Documented) :
    listIPInWorkgroup env k name jsonArray =
      some (jsonArray ++
        (kept (fun i => env.json (.address k i)) 0 (st.ipList.getD [])).map .string,
        st.queries) := by
  unfold listIPInWorkgroup
  rw [hscan]
  rcases hdoc with ⟨hok, addresses, hlist, hne, hcount⟩ | ⟨hok, hlist⟩
  · have hok : st.statusIsOk = true := hok
    have hlist : st.ipList = some addresses := hlist
    have hcount : st.smbIpCount = addresses.length := hcount
    have hpos : addresses.length ≠ 0 := fun h0 => hne (List.length_eq_zero_iff.mp h0)
    simp only [hok, hlist, hcount, Option.getD_some, ne_eq, hpos, not_false_eq_true, decide_true,
      Bool.and_self, if_true]
    rw [listAddresses_kept env k addresses addresses 0 jsonArray rfl]
    rfl
  · have hok : st.statusIsOk = false := hok
    have hlist : st.ipList = none := hlist
    simp [hok, hlist, kept]

/-- The addresses of the first interface that answers, and the queries up to it. -/
theorem listIPInWorkgroup_spec (env : NmblookupEnv) (k : ℕ) (name : CStr) (ifaces : List Iface)
    (alloc : ∀ site, env.json site = true) (hifaces : env.ifaces = ifaces.map some)
    (contract : ∀ iface ∈ ifaces, (iface.nameQuery k name).Documented) :
    listIPInWorkgroup env k name [] =
      some ((firstList k name ifaces).map .string, queriesOf k name ifaces) := by
  obtain ⟨st, hscan, hdoc, hfirst, hqueries⟩ := scanIfaces_spec k name ifaces ⟨false, none, 0, []⟩
    contract rfl (Or.inr ⟨rfl, rfl⟩)
  rw [← hifaces] at hscan
  rw [listIPInWorkgroup_of_scan env k name [] st hscan hdoc, kept_all _ fun i => alloc _, hfirst,
    hqueries]
  rfl

/-! ### The whole run -/

def foundMember (ifaces : List Iface) (p : CStr × ℕ) : CStr × CJson :=
  (p.1, .array ((firstList p.2 p.1 ifaces).map .string))

theorem lookupNames_all (env : NmblookupEnv) (ifaces : List Iface)
    (alloc : ∀ site, env.json site = true) (hifaces : env.ifaces = ifaces.map some)
    (contract : ∀ iface ∈ ifaces, ∀ k name, (iface.nameQuery k name).Documented)
    (names : List CStr) (k : ℕ) :
    lookupNames env k (names.map fun name => (name, .array [])) =
      some ((names.zipIdx k).map (foundMember ifaces),
        (names.zipIdx k).flatMap fun p => queriesOf p.2 p.1 ifaces) := by
  induction names generalizing k with
  | nil => rfl
  | cons name rest ih =>
    have hlist := listIPInWorkgroup_spec env k name ifaces alloc hifaces
      fun iface hi => contract iface hi k name
    simp only [List.map_cons, lookupNames, hlist, ih (k + 1), List.zipIdx_cons, List.flatMap_cons]
    rfl

/-- Every listed name gets the addresses of the first interface that answers to it, and
no interface behind that one is queried for it. -/
theorem nmblookup_pointwise (env : NmblookupEnv) (ctx : Context) (names : List CStr)
    (ifaces : List Iface) (hnames : ctx.smbWorkgroups = some names)
    (alloc : ∀ site, env.json site = true) (hframe : env.stackframe = true)
    (hifaces : env.ifaces = ifaces.map some)
    (contract : ∀ iface ∈ ifaces, ∀ k name, (iface.nameQuery k name).Documented) :
    utilNmblookup env ctx =
      some (some (.object [(.lit "command", .string (.lit "nmblookup")),
          (.lit "computers", .object (names.zipIdx.map (foundMember ifaces)))]),
        names.zipIdx.flatMap fun p => queriesOf p.2 p.1 ifaces) := by
  have hkept := kept_all (fun i => env.json (.array i)) (fun i => alloc _) names 0
  have hobj : computersObject env names = some (names.zipIdx.map (foundMember ifaces),
      names.zipIdx.flatMap fun p => queriesOf p.2 p.1 ifaces) := by
    rw [computersObject, if_pos hframe, addNames_eq, hkept, List.nil_append]
    exact lookupNames_all env ifaces alloc hifaces contract names 0
  unfold utilNmblookup
  simp only [alloc, if_true, hnames, hobj]
  rfl

def silentIface : Iface := ⟨0x0a0000ff, fun _ _ => ⟨false, none, 0⟩⟩

def homeIface : Iface := ⟨0xc0a801ff, fun k _ =>
  if k = 0 then ⟨true, some [.lit "192.168.1.7", .lit "192.168.1.9"], 2⟩ else ⟨false, none, 0⟩⟩

theorem homeIface_documented (k : ℕ) (name : CStr) :
    (homeIface.nameQuery k name).Documented := by
  by_cases hk : k = 0
  · subst hk
    exact Or.inl ⟨rfl, _, rfl, by simp, rfl⟩
  · have hanswer : homeIface.nameQuery k name = ⟨false, none, 0⟩ := if_neg hk
    rw [hanswer]
    exact Or.inr ⟨rfl, rfl⟩

def twoIfaces : NmblookupEnv where
  json _ := true
  stackframe := true
  ifaces := [some silentIface, some homeIface, some silentIface]

theorem home_answered : utilNmblookup twoIfaces
    { Context.zero with smbWorkgroups := some [.lit "HOME", .lit "WORK"] } =
      some (some (.object [(.lit "command", .string (.lit "nmblookup")),
          (.lit "computers", .object
            [(.lit "HOME", .array [.string (.lit "192.168.1.7"), .string (.lit "192.168.1.9")]),
              (.lit "WORK", .array [])])]),
        [.nameQuery (.lit "HOME") 0x0a0000ff, .nameQuery (.lit "HOME") 0xc0a801ff,
          .nameQuery (.lit "WORK") 0x0a0000ff, .nameQuery (.lit "WORK") 0xc0a801ff,
          .nameQuery (.lit "WORK") 0x0a0000ff]) := by
  refine nmblookup_pointwise twoIfaces _ [.lit "HOME", .lit "WORK"]
    [silentIface, homeIface, silentIface] rfl (fun _ => rfl) rfl rfl ?_
  intro iface hi k name
  simp only [List.mem_cons, List.not_mem_nil, or_false] at hi
  rcases hi with rfl | rfl | rfl
  · exact Or.inr ⟨rfl, rfl⟩
  · exact homeIface_documented k name
  · exact Or.inr ⟨rfl, rfl⟩

/-! ### Runs that stop early (util_nmblookup.c:149-190) -/

/-- The run gets to the loop over the members of `computers`. -/
def LoopReached (env : NmblookupEnv) (ctx : Context) : Prop :=
  ctx.smbWorkgroups.isSome = true ∧ env.json .computers = true ∧ env.stackframe = true

def LookedUp (env : NmblookupEnv) (computers : Members) (calls : List SambaCall)
    (name : CStr) : Prop :=
  ∃ k arr qs, listIPInWorkgroup env k name [] = some (arr, qs) ∧
    (name, .array arr) ∈ computers ∧ qs <:+: calls

/-- A response without `fail` has the result of a lookup for each requested name. -/
def FailureShown (env : NmblookupEnv) (ctx : Context) (child : Members)
    (calls : List SambaCall) : Prop :=
  Lacks child (.lit "fail") → LoopReached env ctx ∧ ∃ names computers,
    ctx.smbWorkgroups = some names ∧ (.lit "computers", .object computers) ∈ child ∧
      ∀ name ∈ names, LookedUp env computers calls name

theorem utilNmblookup_lacks (env : NmblookupEnv) (ctx : Context) (child : Members)
    (calls : List SambaCall) (hrun : utilNmblookup env ctx = some (some (.object child), calls)) :
    Lacks child (.lit "fail") := by
  have hcommand : Lacks (addStringToObject (env.json .command) [] (.lit "command")
      (.lit "nmblookup")) (.lit "fail") :=
    lacks_addString _ _ _ _ _ (lacks_nil _) (by decide)
  have hname : CStr.lit "computers" ≠ CStr.lit "fail" := by decide
  unfold utilNmblookup at hrun
  split at hrun
  · split at hrun
    · cases hrun
      exact hcommand
    · split at hrun
      · obtain ⟨p, -, heq⟩ := Option.map_eq_some_iff.mp hrun
        cases heq
        exact (lacks_append _ _ _ _).mpr ⟨hcommand, hname⟩
      · cases hrun
        exact hcommand
  · cases hrun

theorem utilNmblookup_reached (env : NmblookupEnv) (ctx : Context) (child : Members)
    (calls : List SambaCall) (h : LoopReached env ctx)
    (hrun : utilNmblookup env ctx = some (some (.object child), calls)) :
    ∃ names computers, ctx.smbWorkgroups = some names ∧
      (.lit "computers", .object computers) ∈ child ∧
      computersObject env names = some (computers, calls) := by
  obtain ⟨hgroups, halloc, -⟩ := h
  obtain ⟨names, hnames⟩ := Option.isSome_iff_exists.mp hgroups
  unfold utilNmblookup at hrun
  simp only [hnames, halloc, if_true] at hrun
  split at hrun
  · obtain ⟨p, hobj, heq⟩ := Option.map_eq_some_iff.mp hrun
    cases heq
    exact ⟨names, p.1, hnames, List.mem_append_right _ (List.mem_singleton.mpr rfl), hobj⟩
  · cases hrun

/-- Every requested name has an occurrence whose array is allocated. -/
def ArraysAllocated (env : NmblookupEnv) (names : List CStr) : Prop :=
  ∀ name ∈ names, ∃ k, names[k]? = some name ∧ env.json (.array k) = true

theorem lookedUp_iff (env : NmblookupEnv) (names : List CStr) (computers : Members)
    (calls : List SambaCall) (hframe : env.stackframe = true)
    (hobj : computersObject env names = some (computers, calls)) (name : CStr) :
    LookedUp env computers calls name ↔ ∃ k, names[k]? = some name ∧ env.json (.array k) = true := by
  obtain ⟨hkeys, hget⟩ := computersObject_spec env names computers calls hobj
  have hkept := mem_kept (fun i => env.json (.array i)) names 0 name
  simp only [Nat.zero_add] at hkept
  rw [← hkept, ← hkeys]
  refine ⟨?_, ?_⟩
  · intro hlooked
    obtain ⟨k, arr, qs, -, hmem, -⟩ := hlooked
    exact List.mem_map_of_mem hmem
  · intro hmem
    obtain ⟨i, hi⟩ := List.mem_iff_getElem?.mp hmem
    obtain ⟨arr, qs, hlist, hin, hcalls⟩ := hget hframe i name hi
    exact ⟨i, arr, qs, hlist, hin, hcalls⟩

/-- A run shows its failures exactly when there are none: it gets to the lookups, and
no requested name lost its array. -/
theorem failureShown_iff (env : NmblookupEnv) (ctx : Context) (child : Members)
    (calls : List SambaCall) (hrun : utilNmblookup env ctx = some (some (.object child), calls)) :
    FailureShown env ctx child calls ↔ LoopReached env ctx ∧
      ∀ names, ctx.smbWorkgroups = some names → ArraysAllocated env names := by
  have hlacks := utilNmblookup_lacks env ctx child calls hrun
  refine ⟨?_, ?_⟩
  · intro hshown
    obtain ⟨hloop, names, computers, hnames, hmem, hall⟩ := hshown hlacks
    have hobj := utilNmblookup_computers env ctx child computers calls names hnames hrun hmem
    refine ⟨hloop, fun names' hnames' name hname => ?_⟩
    rw [hnames] at hnames'
    cases hnames'
    exact (lookedUp_iff env names computers calls hloop.2.2 hobj name).mp (hall name hname)
  · intro h _
    obtain ⟨hloop, harrays⟩ := h
    obtain ⟨names, computers, hnames, hmem, hobj⟩ :=
      utilNmblookup_reached env ctx child calls hloop hrun
    refine ⟨hloop, names, computers, hnames, hmem, fun name hname => ?_⟩
    exact (lookedUp_iff env names computers calls hloop.2.2 hobj name).mpr
      (harrays names hnames name hname)

def homeOnly : Context := { Context.zero with smbWorkgroups := some [.lit "HOME"] }

theorem lost_frame_silent : ∃ child calls,
    utilNmblookup { twoIfaces with stackframe := false } homeOnly =
      some (some (.object child), calls) ∧
      ¬ FailureShown { twoIfaces with stackframe := false } homeOnly child calls := by
  refine ⟨_, _, rfl, fun hshown => ?_⟩
  have hlacks := utilNmblookup_lacks { twoIfaces with stackframe := false } homeOnly _ _ rfl
  have hframe := (hshown hlacks).1.2.2
  cases hframe

theorem home_looked_up : ∃ child calls, utilNmblookup twoIfaces homeOnly =
    some (some (.object child), calls) ∧ FailureShown twoIfaces homeOnly child calls := by
  refine ⟨_, _, rfl, (failureShown_iff twoIfaces homeOnly _ _ rfl).mpr ⟨⟨rfl, rfl, rfl⟩, ?_⟩⟩
  intro names hnames name hname
  cases hnames
  exact ⟨0, by rw [List.mem_singleton.mp hname]; rfl, rfl⟩

end SmbDiscover

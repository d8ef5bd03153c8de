import SmbDiscover.Samba

/-!
# The smbtree utility (`util_smbtree`, util_smbtree.c:84-243)

`_each_workgroup_callback` and the three exits of `util_smbtree`: the two `goto`s
after a failed preparation and after a failed array, and the end of the function.
Only the second and a missing master browser set a flag.
-/

namespace SmbDiscover
open CText CJson

/-- `g_localWorkgroup` (util_smbtree.c:77). -/
def localWorkgroup : CStr := .lit "WORKGROUP"

/-- One call of the callback for each name of the enumeration (util_smbtree.c:84-95). -/
def eachWorkgroupCallback (env : SmbtreeEnv) : ℕ → List CStr → List CJson → List CJson
  | _, [], jsonWorkgroups => jsonWorkgroups
  | k, workgroup :: rest, jsonWorkgroups =>
    eachWorkgroupCallback env (k + 1) rest
      (addItemToArray jsonWorkgroups (create (env.json (.name k)) (.string workgroup)))

/-- `response` and the two flags. -/
structure SmbtreeState where
  response : Members
  isConnectMasterBrowserFailed : Bool
  isSystemError : Bool

/-- The four pointers of util_smbtree.c:131. -/
def SmbtreeEnv.prepared (env : SmbtreeEnv) : Bool :=
  env.stackframe && env.userAuthInfoInit && env.tallocTos && env.tallocStrdup

def smbtreeStart (env : SmbtreeEnv) : SmbtreeState where
  response := addStringToObject (env.json .command) [] (.lit "command") (.lit "smbtree")
  isConnectMasterBrowserFailed := false
  isSystemError := false

/-! ### The stages (util_smbtree.c:161-188, 190-211, 218-230) -/

/-- A failed broadcast sets a flag, and the run goes on. -/
def searchMasterBrowser (env : SmbtreeEnv) (st : SmbtreeState) : SmbtreeState :=
  match env.master with
  | none => { st with isConnectMasterBrowserFailed := true }
  | some master =>
    let response := addStringToObject (env.json .masterBrowser) st.response
      (.lit "master browser") master.serverIP
    { st with response }

/-- A failed `cli_NetServerEnum` sets no flag (util_smbtree.c:207). -/
def enumWorkgroups (env : SmbtreeEnv) (st : SmbtreeState) : SmbtreeState :=
  if env.json .workgroups then
    let jsonWorkgroups :=
      if env.master.isSome then eachWorkgroupCallback env 0 env.callbacks [] else []
    let response := addItemToObject st.response (.lit "workgroups")
      (some (.array jsonWorkgroups))
    { st with response }
  else { st with isSystemError := true }

def smbtreeEnd (env : SmbtreeEnv) : SmbtreeState :=
  if env.prepared then enumWorkgroups env (searchMasterBrowser env (smbtreeStart env))
  else smbtreeStart env

/-- The tests behind `ENDS` (util_smbtree.c:221-229). -/
def smbtreeFail (env : SmbtreeEnv) (st : SmbtreeState) : Members :=
  if st.isConnectMasterBrowserFailed then
    addStringToObject (env.json .fail) st.response (.lit "fail") (.lit "no master browser")
  else if st.isSystemError then
    addStringToObject (env.json .fail) st.response (.lit "fail") (.lit "system error")
  else st.response

/-- The calls that carry data to Samba, in order. -/
def smbtreeCalls (env : SmbtreeEnv) : List SambaCall :=
  let connect := SambaCall.getIpcConnectMaster ⟨.lit "root", .empty⟩ localWorkgroup
  match env.master with
  | some master =>
    if env.json .workgroups then [connect, .netServerEnum master.workgroup] else [connect]
  | none => [connect]

/-- util_smbtree.c:100-243 -/
def utilSmbtree (env : SmbtreeEnv) (_ctx : Context) : Option CJson × List SambaCall :=
  if env.json .response then
    (some (.object (smbtreeFail env (smbtreeEnd env))),
      if env.prepared then smbtreeCalls env else [])
  else (none, [])

/-! ### What a response without `fail` holds -/

theorem eachWorkgroupCallback_all (env : SmbtreeEnv) (names : List CStr) (k : ℕ)
    (acc : List CJson) (alloc : ∀ i, env.json (.name i) = true) :
    eachWorkgroupCallback env k names acc = acc ++ names.map .string := by
  induction names generalizing k acc with
  | nil => simp [eachWorkgroupCallback]
  | cons workgroup rest ih =>
    have hnext := ih (k + 1) (acc ++ [.string workgroup])
    simp only [eachWorkgroupCallback, alloc k, create_true, addItemToArray_some, hnext,
      List.map_cons, List.append_assoc, List.singleton_append]

/-- The response lacks `fail` only with the names of a successful enumeration. -/
def WorkgroupsReported (env : SmbtreeEnv) (ctx : Context) : Prop :=
  ∀ child, (utilSmbtree env ctx).1 = some (.object child) → Lacks child (.lit "fail") →
    env.invokeOK = true ∧ (.lit "workgroups", .array (env.callbacks.map .string)) ∈ child

theorem smbtreeStart_lacks (env : SmbtreeEnv) (name : CStr) (h : .lit "command" ≠ name) :
    Lacks (smbtreeStart env).response name :=
  lacks_addString _ _ _ _ _ (lacks_nil _) h

theorem smbtree_child (env : SmbtreeEnv) (ctx : Context) (hresponse : env.json .response = true) :
    (utilSmbtree env ctx).1 = some (.object (smbtreeFail env (smbtreeEnd env))) := by
  unfold utilSmbtree
  rw [if_pos hresponse]

theorem smbtree_unprepared (env : SmbtreeEnv) (h : env.prepared = false) :
    smbtreeFail env (smbtreeEnd env) = (smbtreeStart env).response := by
  simp [smbtreeFail, smbtreeEnd, h, smbtreeStart]

theorem smbtreeFail_flagged (env : SmbtreeEnv) (st : SmbtreeState) (hfail : env.json .fail = true)
    (h : st.isConnectMasterBrowserFailed = true ∨ st.isSystemError = true) :
    ¬ Lacks (smbtreeFail env st) (.lit "fail") := by
  unfold smbtreeFail
  rw [hfail]
  split
  · exact not_lacks_addString _ _ _
  next hmaster =>
    rw [if_pos (h.resolve_left hmaster)]
    exact not_lacks_addString _ _ _

theorem smbtree_flagged (env : SmbtreeEnv) (hfail : env.json .fail = true)
    (hprepared : env.prepared = true) (h : env.master = none ∨ env.json .workgroups = false) :
    ¬ Lacks (smbtreeFail env (smbtreeEnd env)) (.lit "fail") := by
  apply smbtreeFail_flagged env _ hfail
  unfold smbtreeEnd
  rw [if_pos hprepared]
  rcases h with hmaster | hgroups
  · left
    cases hgroups : env.json .workgroups <;>
      simp [enumWorkgroups, searchMasterBrowser, hmaster, hgroups]
  · right
    simp [enumWorkgroups, hgroups]

theorem smbtree_enumerated (env : SmbtreeEnv) (master : MasterBrowser)
    (hprepared : env.prepared = true) (hmaster : env.master = some master)
    (hgroups : env.json .workgroups = true) (alloc : ∀ i, env.json (.name i) = true) :
    smbtreeFail env (smbtreeEnd env) =
      addStringToObject (env.json .masterBrowser) (smbtreeStart env).response
        (.lit "master browser") master.serverIP ++
        [(.lit "workgroups", .array (env.callbacks.map .string))] := by
  simp [smbtreeFail, smbtreeEnd, enumWorkgroups, searchMasterBrowser, smbtreeStart, hprepared,
    hmaster, hgroups, eachWorkgroupCallback_all env _ _ _ alloc]

theorem smbtree_silent_iff (env : SmbtreeEnv) (ctx : Context) (master : MasterBrowser)
    (hresponse : env.json .response = true) (hprepared : env.prepared = true)
    (hmaster : env.master = some master) (hgroups : env.json .workgroups = true)
    (alloc : ∀ i, env.json (.name i) = true) :
    WorkgroupsReported env ctx ↔ env.invokeOK = true := by
  have hchild := smbtree_child env ctx hresponse
  rw [smbtree_enumerated env master hprepared hmaster hgroups alloc] at hchild
  have hlacks := (lacks_append _ (.lit "workgroups") (.lit "fail")
    (.array (env.callbacks.map .string))).mpr
      ⟨lacks_addString (env.json .masterBrowser) _ (.lit "master browser") _ master.serverIP
        (smbtreeStart_lacks env (.lit "fail") (by decide)) (by decide), by decide⟩
  constructor
  · intro h
    exact (h _ hchild hlacks).1
  · intro hok child hchild' _
    rw [hchild] at hchild'
    cases hchild'
    exact ⟨hok, List.mem_append_right _ (List.mem_singleton.mpr rfl)⟩

/-- `util_smbtree` reports its failures but for a failed preparation and a failed
enumeration. -/
theorem smbtree_workgroupsReported_iff (env : SmbtreeEnv) (ctx : Context)
    (alloc : ∀ site, site ≠ .workgroups → env.json site = true) :
    WorkgroupsReported env ctx ↔ env.prepared = true ∧
      (env.master = none ∨ env.json .workgroups = false ∨ env.invokeOK = true) := by
  have hresponse := alloc .response (by decide)
  have hfail := alloc .fail (by decide)
  have hnames : ∀ i, env.json (.name i) = true := fun i => alloc (.name i) (by simp)
  have hchild := smbtree_child env ctx hresponse
  cases hprepared : env.prepared with
  | false =>
    rw [smbtree_unprepared env hprepared] at hchild
    constructor
    · intro h
      have hmem := (h _ hchild (smbtreeStart_lacks env (.lit "fail") (by decide))).2
      exact absurd rfl (smbtreeStart_lacks env (.lit "workgroups") (by decide) _ hmem)
    · intro h
      cases h.1
  | true =>
    by_cases hflag : env.master = none ∨ env.json .workgroups = false
    · have hfails := smbtree_flagged env hfail hprepared hflag
      refine ⟨fun _ => ⟨rfl, hflag.imp_right Or.inl⟩, fun _ child hchild' hlacks => ?_⟩
      rw [hchild] at hchild'
      cases hchild'
      exact absurd hlacks hfails
    · rw [not_or, Bool.not_eq_false] at hflag
      obtain ⟨master, hmaster⟩ := Option.ne_none_iff_exists'.mp hflag.1
      rw [smbtree_silent_iff env ctx master hresponse hprepared hmaster hflag.2 hnames]
      simp [hmaster, hflag.2]

def brokenEnumeration : SmbtreeEnv where
  json _ := true
  stackframe := true
  userAuthInfoInit := true
  tallocTos := true
  tallocStrdup := true
  master := some ⟨.lit "10.0.0.1", localWorkgroup⟩
  callbacks := [.lit "HOME"]
  invokeOK := false

def groupsContext : Context := { Context.zero with isListWorkgroupMode := true }

theorem brokenEnumeration_silent : ¬ WorkgroupsReported brokenEnumeration groupsContext := by
  intro h
  have hok := (smbtree_silent_iff brokenEnumeration groupsContext _ rfl rfl rfl rfl
    fun _ => rfl).mp h
  cases hok

theorem enumeration_reported :
    WorkgroupsReported { brokenEnumeration with invokeOK := true } groupsContext :=
  (smbtree_workgroupsReported_iff _ groupsContext fun _ _ => rfl).mpr ⟨rfl, Or.inr (Or.inr rfl)⟩

end SmbDiscover

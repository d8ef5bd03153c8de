import SmbDiscover.Configs
import SmbDiscover.Samba

/-!
# The smbclient utility (`util_smbclient`, util_smbclient.c:107-394)

`_smbc_browse_dir` and `util_smbclient` with its four flags. The share loop counts
the objects it created in `dirCount`. Times are computed with 32-bit `long` and
`time_t`.
-/

namespace SmbDiscover
open CText CJson

/-! ### `_smbc_browse_dir` -/

def stypeDisktree : BitVec 32 := 0

/-- A disk share with a name that does not end in a dollar sign (util_smbclient.c:160-198). -/
def shouldShowDir (dirInfo : ShareInfo) : Bool :=
  dirInfo.type &&& 7 = stypeDisktree &&
    match dirInfo.name with
    | none => false
    | some name => name ≠ .empty && name.bytes.getLast? ≠ some 36

/-- util_smbclient.c:208-212 -/
def dirObject (env : SmbclientEnv) (tmp : ℕ) (dirInfo : ShareInfo) : CJson :=
  let dirObj := addStringToObject (env.json (.dirName tmp)) [] (.lit "name")
    (dirInfo.name.getD .empty)
  match dirInfo.comment with
  | none => .object dirObj
  | some comment =>
    if comment = .empty then .object dirObj
    else .object (addStringToObject (env.json (.dirComment tmp)) dirObj (.lit "comment") comment)

/-- The share loop (util_smbclient.c:152-216). -/
def browseLoop (env : SmbclientEnv) (maxDirCount : ℕ) :
    ℕ → ℕ → List ShareInfo → List CJson → List CJson
  | _, _, [], responseArray => responseArray
  | tmp, dirCount, dirInfo :: rest, responseArray =>
    if dirCount < maxDirCount then
      if shouldShowDir dirInfo then
        match create (env.json (.dirObj tmp)) (dirObject env tmp dirInfo) with
        | some dirObj =>
          browseLoop env maxDirCount (tmp + 1) (dirCount + 1) rest
            (addItemToArray responseArray (some dirObj))
        | none => browseLoop env maxDirCount (tmp + 1) dirCount rest responseArray
      else browseLoop env maxDirCount (tmp + 1) dirCount rest responseArray
    else responseArray

/-- `_smbc_browse_dir` up to `ENDS`, with the value of `ret`. -/
def browseShares (env : SmbclientEnv) (maxDirCount : ℕ) (responseArray : List CJson) :
    ℤ × List CJson :=
  if env.pipeOpenNoauth = false then (-1, responseArray)
  else if env.ntStatusIsOk = false ∨ env.wErrorIsOk = false then (-1, responseArray)
  else (0, browseLoop env maxDirCount 0 0 env.shares responseArray)

/-- `_smbc_browse_dir` ends with `return 0`, whatever `ret` is. -/
def smbcBrowseDir (env : SmbclientEnv) (maxDirCount : ℕ) (responseArray : List CJson) :
    ℤ × List CJson :=
  let ends := browseShares env maxDirCount responseArray
  (0, ends.2)

/-! ### `util_smbclient` -/

/-- The value of a 32-bit `long` or `time_t`. -/
def long32 (x : ℤ) : ℤ := x.bmod 4294967296

/-- util_smbclient.c:319-322 -/
def borrow (callStartTime callEndTime : Timespec) : Timespec :=
  if callEndTime.tvNsec < callStartTime.tvNsec then
    ⟨long32 (callEndTime.tvSec - 1), long32 (callEndTime.tvNsec + 1000000000)⟩
  else callEndTime

/-- util_smbclient.c:324-326 -/
def milisecDiff (callStartTime callEndTime : Timespec) : ℤ :=
  let callEndTime := borrow callStartTime callEndTime
  let tvSec := long32 (callEndTime.tvSec - callStartTime.tvSec)
  let tvNsec := long32 (callEndTime.tvNsec - callStartTime.tvNsec)
  long32 (long32 (tvSec * 1000) + tvNsec.tdiv 1000000)

/-- `response`, the four flags, and whether `cli` is a connection. -/
structure SmbclientState where
  response : Members
  isTimeout : Bool
  isAuthFail : Bool
  isSysErr : Bool
  isSvcNotEnabled : Bool
  cli : Bool

/-- `smbUserInfo` with its credentials, or NULL (util_smbclient.c:266-294). -/
def smbUserInfo (env : SmbclientEnv) (ctx : Context) : Option Credentials :=
  if env.stackframe && env.userAuthInfoInit then
    some ⟨ctx.smbUsername.str, ctx.smbPassword.str⟩
  else none

/-- util_smbclient.c:281-285 -/
def authCalls : Option Credentials → List SambaCall
  | some auth => [.setUsername auth.username, .setPassword auth.password, .getpass,
      .setUseKerberos false, .setSigningState (.lit "auto")]
  | none => []

/-! ### Preparation, connection, listing (util_smbclient.c:252-294, 297-335, 337-354) -/

def prepareSmbclient (env : SmbclientEnv) (ctx : Context) : SmbclientState where
  response := addStringToObject (env.json .command) [] (.lit "command") (.lit "smbclient")
  isTimeout := false
  isAuthFail := false
  isSysErr := !env.stackframe || (smbUserInfo env ctx).isNone
  isSvcNotEnabled := false
  cli := false

def connectSmbclient (env : SmbclientEnv) (ctx : Context) (st : SmbclientState) :
    SmbclientState × List SambaCall :=
  if env.stackframe then
    let cli := env.cliCmOpen ctx.smbIpv4Url.str (smbUserInfo env ctx)
    let isTimeout := 1000 ≤ milisecDiff env.callStartTime env.callEndTime
    ({ st with
        cli
        isTimeout := !cli && isTimeout
        isAuthFail := !cli && !isTimeout },
      [.cliCmOpen ctx.smbIpv4Url.str (.lit "IPC$") (smbUserInfo env ctx)])
  else (st, [])

def listSmbclient (env : SmbclientEnv) (ctx : Context) (st : SmbclientState) : SmbclientState :=
  if st.cli then
    if env.json .dirs then
      let listStat := smbcBrowseDir env ctx.smbMaxDirCount.toNat []
      { st with
        response := addItemToObject st.response (.lit "dirs") (some (.array listStat.2))
        isSysErr := st.isSysErr || listStat.1 ≠ 0 }
    else { st with isSysErr := true }
  else st

/-- The first flag that is set names the failure (util_smbclient.c:359-373). -/
def SmbclientState.fail (st : SmbclientState) : Option CStr :=
  if st.isTimeout then some (.lit "timeout")
  else if st.isAuthFail then some (.lit "auth")
  else if st.isSvcNotEnabled then some (.lit "no svc")
  else if st.isSysErr then some (.lit "system")
  else none

def addFail (allocated : Bool) (response : Members) : Option CStr → Members
  | some text => addStringToObject allocated response (.lit "fail") text
  | none => response

/-- util_smbclient.c:237-394 -/
def utilSmbclient (env : SmbclientEnv) (ctx : Context) : Option CJson × List SambaCall :=
  if env.json .response then
    let opened := connectSmbclient env ctx (prepareSmbclient env ctx)
    let st := listSmbclient env ctx opened.1
    (some (.object (addFail (env.json .fail) st.response st.fail)),
      authCalls (smbUserInfo env ctx) ++ opened.2)
  else (none, [])

/-! ### Which stages leave a `fail` member -/

def smbclientEnd (env : SmbclientEnv) (ctx : Context) : SmbclientState :=
  listSmbclient env ctx (connectSmbclient env ctx (prepareSmbclient env ctx)).1

def Connected (env : SmbclientEnv) (ctx : Context) : Prop :=
  env.stackframe = true ∧ env.userAuthInfoInit = true ∧
    env.cliCmOpen ctx.smbIpv4Url.str (some ⟨ctx.smbUsername.str, ctx.smbPassword.str⟩) = true ∧
    env.json .dirs = true

def Enumerated (env : SmbclientEnv) : Prop :=
  env.pipeOpenNoauth = true ∧ env.ntStatusIsOk = true ∧ env.wErrorIsOk = true

theorem smbcBrowseDir_status (env : SmbclientEnv) (maxDirCount : ℕ) (arr : List CJson) :
    (smbcBrowseDir env maxDirCount arr).1 = 0 := rfl

theorem smbcBrowseDir_enumerated (env : SmbclientEnv) (maxDirCount : ℕ) (arr : List CJson)
    (h : Enumerated env) :
    (smbcBrowseDir env maxDirCount arr).2 = browseLoop env maxDirCount 0 0 env.shares arr := by
  obtain ⟨hpipe, hstatus, hwerr⟩ := h
  simp [smbcBrowseDir, browseShares, hpipe, hstatus, hwerr]

theorem fail_eq_none_iff (st : SmbclientState) :
    st.fail = none ↔ st.isTimeout = false ∧ st.isAuthFail = false ∧
      st.isSvcNotEnabled = false ∧ st.isSysErr = false := by
  unfold SmbclientState.fail
  split_ifs <;> simp_all

theorem addFail_lacks (response : Members) (text : Option CStr)
    (h : Lacks response (.lit "fail")) :
    Lacks (addFail true response text) (.lit "fail") ↔ text = none := by
  cases text with
  | none => simp [addFail, h]
  | some text => simp [addFail, addStringToObject]

theorem mem_addFail (allocated : Bool) (response : Members) (text : Option CStr)
    (m : CStr × CJson) (h : m ∈ addFail allocated response text) :
    m ∈ response ∨ m.1 = .lit "fail" := by
  cases text with
  | none => exact Or.inl h
  | some text =>
    cases allocated with
    | false => exact Or.inl h
    | true =>
      rcases List.mem_append.mp h with hold | hnew
      · exact Or.inl hold
      · rw [List.mem_singleton.mp hnew]
        exact Or.inr rfl

theorem smbUserInfo_prepared (env : SmbclientEnv) (ctx : Context) (hframe : env.stackframe = true)
    (hauth : env.userAuthInfoInit = true) :
    smbUserInfo env ctx = some ⟨ctx.smbUsername.str, ctx.smbPassword.str⟩ := by
  rw [smbUserInfo, hframe, hauth]
  rfl

/-- `cli` behind `cli_cm_open`. -/
def cliOpened (env : SmbclientEnv) (ctx : Context) : Bool :=
  env.stackframe && env.cliCmOpen ctx.smbIpv4Url.str (smbUserInfo env ctx)

theorem connectSmbclient_cli (env : SmbclientEnv) (ctx : Context) :
    (connectSmbclient env ctx (prepareSmbclient env ctx)).1.cli = cliOpened env ctx := by
  unfold connectSmbclient cliOpened
  cases env.stackframe <;> rfl

theorem smbclientEnd_response (env : SmbclientEnv) (ctx : Context) :
    (smbclientEnd env ctx).response =
      addItemToObject (prepareSmbclient env ctx).response (.lit "dirs")
        (create (cliOpened env ctx && env.json .dirs)
          (.array (smbcBrowseDir env ctx.smbMaxDirCount.toNat []).2)) := by
  have hopen : (connectSmbclient env ctx (prepareSmbclient env ctx)).1.response =
      (prepareSmbclient env ctx).response := by
    unfold connectSmbclient
    split <;> rfl
  unfold smbclientEnd listSmbclient
  rw [connectSmbclient_cli, hopen]
  cases cliOpened env ctx with
  | false => exact hopen
  | true =>
    cases env.json .dirs <;> rfl

theorem smbclientEnd_lacks (env : SmbclientEnv) (ctx : Context) :
    Lacks (smbclientEnd env ctx).response (.lit "fail") := by
  have hcommand : Lacks (prepareSmbclient env ctx).response (.lit "fail") :=
    lacks_addString _ _ _ _ _ (lacks_nil _) (by decide)
  have hdirs : CStr.lit "dirs" ≠ CStr.lit "fail" := by decide
  rw [smbclientEnd_response]
  cases cliOpened env ctx && env.json .dirs with
  | false => exact hcommand
  | true => exact (lacks_append _ _ _ _).mpr ⟨hcommand, hdirs⟩

/-- The flags behind the last stage; a listing always succeeds. -/
theorem smbclientEnd_flags (env : SmbclientEnv) (ctx : Context) :
    ((smbclientEnd env ctx).isTimeout || (smbclientEnd env ctx).isAuthFail) =
      (env.stackframe && !cliOpened env ctx) ∧
    (smbclientEnd env ctx).isSvcNotEnabled = false ∧
    (smbclientEnd env ctx).isSysErr =
      (!env.stackframe || (smbUserInfo env ctx).isNone || cliOpened env ctx && !env.json .dirs) := by
  unfold smbclientEnd listSmbclient
  rw [connectSmbclient_cli]
  unfold connectSmbclient cliOpened
  cases hframe : env.stackframe with
  | false => simp [prepareSmbclient, hframe]
  | true =>
    cases env.cliCmOpen ctx.smbIpv4Url.str (smbUserInfo env ctx) <;> cases env.json .dirs <;>
      simp [prepareSmbclient, hframe, smbcBrowseDir_status]

theorem smbclientEnd_fail (env : SmbclientEnv) (ctx : Context) :
    (smbclientEnd env ctx).fail = none ↔ Connected env ctx := by
  obtain ⟨hconn, hsvc, hsys⟩ := smbclientEnd_flags env ctx
  have hnoConn : (smbclientEnd env ctx).isTimeout = false ∧
      (smbclientEnd env ctx).isAuthFail = false ↔ (env.stackframe && !cliOpened env ctx) = false := by
    rw [← hconn, Bool.or_eq_false_iff]
  rw [fail_eq_none_iff, ← and_assoc, hnoConn, hsvc, hsys, cliOpened, Connected]
  cases hframe : env.stackframe with
  | false => simp
  | true =>
    cases hauth : env.userAuthInfoInit with
    | false => simp [smbUserInfo, hauth]
    | true =>
      rw [smbUserInfo_prepared env ctx hframe hauth]
      cases env.cliCmOpen ctx.smbIpv4Url.str
        (some ⟨ctx.smbUsername.str, ctx.smbPassword.str⟩) <;> simp

theorem smbclientEnd_dirs (env : SmbclientEnv) (ctx : Context) (h : Connected env ctx) :
    (.lit "dirs", .array (smbcBrowseDir env ctx.smbMaxDirCount.toNat []).2) ∈
      (smbclientEnd env ctx).response := by
  obtain ⟨hframe, hauth, hcli, hdirs⟩ := h
  have hinfo := smbUserInfo_prepared env ctx hframe hauth
  have hopened : cliOpened env ctx = true := by rw [cliOpened, hframe, hinfo, hcli]; rfl
  rw [smbclientEnd_response, hopened, hdirs]
  exact List.mem_append_right _ (List.mem_singleton.mpr rfl)

/-- Any `dirs` of the response was filled by `_smbc_browse_dir`. -/
theorem utilSmbclient_dirs (env : SmbclientEnv) (ctx : Context) (child : Members) (item : CJson)
    (hrun : (utilSmbclient env ctx).1 = some (.object child)) (hmem : (.lit "dirs", item) ∈ child) :
    cliOpened env ctx = true ∧
      item = .array (smbcBrowseDir env ctx.smbMaxDirCount.toNat []).2 := by
  have hcommand : Lacks (prepareSmbclient env ctx).response (.lit "dirs") :=
    lacks_addString _ _ _ _ _ (lacks_nil _) (by decide)
  unfold utilSmbclient at hrun
  split at hrun
  · cases hrun
    rcases mem_addFail _ _ _ _ hmem with hend | hfail
    · have hresponse : (.lit "dirs", item) ∈ (smbclientEnd env ctx).response := hend
      rw [smbclientEnd_response] at hresponse
      cases hopened : cliOpened env ctx && env.json .dirs with
      | false =>
        rw [hopened] at hresponse
        exact absurd rfl (hcommand _ hresponse)
      | true =>
        rw [hopened] at hresponse
        rcases List.mem_append.mp hresponse with hold | hnew
        · exact absurd rfl (hcommand _ hold)
        · cases List.mem_singleton.mp hnew
          exact ⟨(Bool.and_eq_true _ _ ▸ hopened).1, rfl⟩
    · have hname : CStr.lit "dirs" ≠ CStr.lit "fail" := by decide
      exact absurd hfail hname
  · cases hrun

/-- The response has no `fail` member exactly when every stage succeeded, and then
its `dirs` come from the share table of the server. -/
def FailureReported (env : SmbclientEnv) (ctx : Context) : Prop :=
  ∃ child, (utilSmbclient env ctx).1 = some (.object child) ∧
    (Lacks child (.lit "fail") ↔ Connected env ctx ∧ Enumerated env) ∧
    (Lacks child (.lit "fail") →
      (.lit "dirs", .array (browseLoop env ctx.smbMaxDirCount.toNat 0 0 env.shares [])) ∈ child)

theorem utilSmbclient_response (env : SmbclientEnv) (ctx : Context)
    (hresponse : env.json .response = true) :
    (utilSmbclient env ctx).1 = some (.object
      (addFail (env.json .fail) (smbclientEnd env ctx).response (smbclientEnd env ctx).fail)) := by
  unfold utilSmbclient
  rw [if_pos hresponse]
  rfl

theorem utilSmbclient_lacks (env : SmbclientEnv) (ctx : Context) (hfail : env.json .fail = true) :
    Lacks (addFail (env.json .fail) (smbclientEnd env ctx).response (smbclientEnd env ctx).fail)
      (.lit "fail") ↔ Connected env ctx := by
  rw [hfail, addFail_lacks _ _ (smbclientEnd_lacks env ctx), smbclientEnd_fail]

theorem failureReported_of (env : SmbclientEnv) (ctx : Context)
    (hresponse : env.json .response = true) (hfail : env.json .fail = true)
    (h : Connected env ctx → Enumerated env) : FailureReported env ctx := by
  refine ⟨_, utilSmbclient_response env ctx hresponse, ?_, ?_⟩
  · rw [utilSmbclient_lacks env ctx hfail]
    exact ⟨fun hc => ⟨hc, h hc⟩, And.left⟩
  · rw [utilSmbclient_lacks env ctx hfail]
    intro hc
    have hdirs := smbclientEnd_dirs env ctx hc
    rw [smbcBrowseDir_enumerated env _ _ (h hc)] at hdirs
    rw [(smbclientEnd_fail env ctx).mpr hc]
    exact hdirs

theorem enumerated_of_reported (env : SmbclientEnv) (ctx : Context)
    (hresponse : env.json .response = true) (hfail : env.json .fail = true)
    (h : FailureReported env ctx) (hc : Connected env ctx) : Enumerated env := by
  obtain ⟨child, hchild, hiff, -⟩ := h
  rw [utilSmbclient_response env ctx hresponse] at hchild
  cases hchild
  exact (hiff.mp ((utilSmbclient_lacks env ctx hfail).mpr hc)).2

/-- `util_smbclient` reports every failure but those inside `_smbc_browse_dir`. -/
theorem smbclient_failureReported_iff (env : SmbclientEnv) (ctx : Context)
    (alloc : ∀ site, site ≠ .dirs → env.json site = true) :
    FailureReported env ctx ↔ ¬ (Connected env ctx ∧ ¬ Enumerated env) := by
  have hresponse := alloc .response (by decide)
  have hfail := alloc .fail (by decide)
  constructor
  · intro h hbad
    exact hbad.2 (enumerated_of_reported env ctx hresponse hfail h hbad.1)
  · intro h
    exact failureReported_of env ctx hresponse hfail fun hc => not_not.mp fun he => h ⟨hc, he⟩

def oneShare : SmbclientEnv where
  json _ := true
  stackframe := true
  userAuthInfoInit := true
  cliCmOpen _ _ := true
  callStartTime := ⟨0, 0⟩
  callEndTime := ⟨0, 0⟩
  pipeOpenNoauth := true
  ntStatusIsOk := true
  wErrorIsOk := true
  shares := [⟨some (.lit "music"), 0, none⟩]

theorem pipe_failure_silent :
    ¬ FailureReported { oneShare with pipeOpenNoauth := false } anonymousContext := by
  intro h
  have henum := enumerated_of_reported _ _ rfl rfl h ⟨rfl, rfl, rfl, rfl⟩
  exact absurd henum.1 (by decide)

theorem oneShare_reported : FailureReported oneShare anonymousContext :=
  (smbclient_failureReported_iff oneShare anonymousContext fun _ _ => rfl).mpr
    fun hbad => hbad.2 ⟨rfl, rfl, rfl⟩

end SmbDiscover

import SmbDiscover.Smbclient

/-!
# Causes of a failure in smbclient mode (`util_smbclient`, util_smbclient.c:237-394)

Which cause the response names for which stage. `isSysErr` of a failed preparation
does not end the run: without user information `cli_cm_open` is still called, with NULL,
and what it returns takes the place of the real cause.
-/

namespace SmbDiscover
open CText CJson

/-- The member that names the cause. -/
def FailsWith (child : Members) (text : CStr) : Prop := (.lit "fail", .string text) ∈ child

theorem smbclient_run (env : SmbclientEnv) (ctx : Context) (child : Members)
    (calls : List SambaCall)
    (hrun : utilSmbclient env ctx = (some (.object child), calls)) :
    child = addFail (env.json .fail) (smbclientEnd env ctx).response (smbclientEnd env ctx).fail ∧
      calls = authCalls (smbUserInfo env ctx) ++
        if env.stackframe then
          [.cliCmOpen ctx.smbIpv4Url.str (.lit "IPC$") (smbUserInfo env ctx)]
        else [] := by
  unfold utilSmbclient at hrun
  split at hrun
  · cases hrun
    refine ⟨rfl, ?_⟩
    unfold connectSmbclient
    split <;> rfl
  · cases hrun

theorem countP_fail_le (env : SmbclientEnv) (ctx : Context) :
    (addFail (env.json .fail) (smbclientEnd env ctx).response
      (smbclientEnd env ctx).fail).countP (fun m => m.1 = .lit "fail") ≤ 1 := by
  have hnone : (smbclientEnd env ctx).response.countP (fun m => m.1 = .lit "fail") = 0 := by
    rw [List.countP_eq_zero]
    intro m hm
    simpa using smbclientEnd_lacks env ctx m hm
  cases (smbclientEnd env ctx).fail with
  | none =>
    rw [addFail, hnone]
    omega
  | some text =>
    cases env.json .fail with
    | false =>
      rw [addFail, addStringToObject, create_false, addItemToObject_none, hnone]
      omega
    | true =>
      rw [addFail, addStringToObject, create_true, addItemToObject_some, List.countP_append, hnone]
      simp

theorem failsWith_iff (env : SmbclientEnv) (ctx : Context) (text : CStr)
    (hfail : env.json .fail = true) :
    FailsWith (addFail (env.json .fail) (smbclientEnd env ctx).response
      (smbclientEnd env ctx).fail) text ↔ (smbclientEnd env ctx).fail = some text := by
  have hlacks := smbclientEnd_lacks env ctx
  unfold FailsWith
  rw [hfail]
  cases (smbclientEnd env ctx).fail with
  | none =>
    refine ⟨fun hmem => absurd rfl (hlacks _ hmem), fun h => ?_⟩
    cases h
  | some cause =>
    simp only [addFail, addStringToObject, create_true, addItemToObject_some, List.mem_append,
      List.mem_singleton, Prod.mk.injEq, true_and, CJson.string.injEq, Option.some.injEq]
    refine ⟨fun hmem => ?_, fun heq => Or.inr heq.symm⟩
    rcases hmem with hold | hnew
    · exact absurd rfl (hlacks _ hold)
    · exact hnew.symm

theorem fail_timeout_iff (st : SmbclientState) :
    st.fail = some (.lit "timeout") ↔ st.isTimeout = true := by
  have hdistinct : CStr.lit "auth" ≠ CStr.lit "timeout" ∧ CStr.lit "no svc" ≠ CStr.lit "timeout" ∧
      CStr.lit "system" ≠ CStr.lit "timeout" := by decide
  obtain ⟨hauth, hsvc, hsys⟩ := hdistinct
  unfold SmbclientState.fail
  split_ifs <;> simp_all

theorem fail_auth_iff (st : SmbclientState) :
    st.fail = some (.lit "auth") ↔ st.isTimeout = false ∧ st.isAuthFail = true := by
  have hdistinct : CStr.lit "timeout" ≠ CStr.lit "auth" ∧ CStr.lit "no svc" ≠ CStr.lit "auth" ∧
      CStr.lit "system" ≠ CStr.lit "auth" := by decide
  obtain ⟨htimeout, hsvc, hsys⟩ := hdistinct
  unfold SmbclientState.fail
  split_ifs <;> simp_all

theorem fail_connection (st : SmbclientState)
    (h : st.fail = some (.lit "timeout") ∨ st.fail = some (.lit "auth")) :
    (st.isTimeout || st.isAuthFail) = true := by
  rw [fail_timeout_iff, fail_auth_iff] at h
  rw [Bool.or_eq_true]
  exact h.imp_right And.right

theorem unprepared_fail (env : SmbclientEnv) (ctx : Context) (hframe : env.stackframe = false) :
    (smbclientEnd env ctx).fail = some (.lit "system") := by
  simp [smbclientEnd, listSmbclient, connectSmbclient, prepareSmbclient, SmbclientState.fail,
    hframe]

/-! ### Real causes -/

/-- One cause at most; a connection is blamed only when `cli_cm_open` refused the user's
information, and a failed preparation is a system error without a connection. -/
def CauseReported (env : SmbclientEnv) (child : Members) (calls : List SambaCall) : Prop :=
  child.countP (fun m => m.1 = .lit "fail") ≤ 1 ∧
    (FailsWith child (.lit "timeout") ∨ FailsWith child (.lit "auth") →
      ∃ server share auth, .cliCmOpen server share (some auth) ∈ calls ∧
        env.cliCmOpen server (some auth) = false) ∧
    (env.stackframe = false ∨ env.userAuthInfoInit = false →
      FailsWith child (.lit "system") ∧ (∀ server share auth,
        .cliCmOpen server share auth ∉ calls) ∧ Lacks child (.lit "dirs"))

theorem authCalls_opens (info : Option Credentials) (server share : CStr)
    (auth : Option Credentials) : .cliCmOpen server share auth ∉ authCalls info := by
  cases info <;> simp [authCalls]

theorem unprepared_reported (env : SmbclientEnv) (ctx : Context) (child : Members)
    (calls : List SambaCall) (hfail : env.json .fail = true)
    (hrun : utilSmbclient env ctx = (some (.object child), calls))
    (hframe : env.stackframe = false) : CauseReported env child calls := by
  obtain ⟨rfl, rfl⟩ := smbclient_run env ctx child calls hrun
  have hcause := unprepared_fail env ctx hframe
  have hsystem := (failsWith_iff env ctx (.lit "system") hfail).mpr hcause
  have hother : CStr.lit "system" ≠ CStr.lit "timeout" ∧ CStr.lit "system" ≠ CStr.lit "auth" := by
    decide
  refine ⟨countP_fail_le env ctx, fun hconn => ?_, fun _ => ⟨hsystem, ?_, ?_⟩⟩
  · rw [failsWith_iff env ctx _ hfail, failsWith_iff env ctx _ hfail, hcause] at hconn
    rcases hconn with htimeout | hauth
    · exact absurd (Option.some.inj htimeout) hother.1
    · exact absurd (Option.some.inj hauth) hother.2
  · intro server share auth hmem
    rw [hframe] at hmem
    exact authCalls_opens _ server share auth (by simpa using hmem)
  · intro m hm hdirs
    obtain ⟨name, item⟩ := m
    cases hdirs
    have hopened := (utilSmbclient_dirs env ctx _ item (congrArg Prod.fst hrun) hm).1
    rw [cliOpened, hframe] at hopened
    cases hopened

theorem prepared_reported (env : SmbclientEnv) (ctx : Context) (child : Members)
    (calls : List SambaCall) (hfail : env.json .fail = true)
    (hrun : utilSmbclient env ctx = (some (.object child), calls))
    (hframe : env.stackframe = true) (hauth : env.userAuthInfoInit = true) :
    CauseReported env child calls := by
  obtain ⟨rfl, rfl⟩ := smbclient_run env ctx child calls hrun
  have hinfo := smbUserInfo_prepared env ctx hframe hauth
  refine ⟨countP_fail_le env ctx, fun hconn => ?_, fun hprep => ?_⟩
  · rw [failsWith_iff env ctx _ hfail, failsWith_iff env ctx _ hfail] at hconn
    have hflags := fail_connection _ hconn
    rw [(smbclientEnd_flags env ctx).1, cliOpened, hframe, hinfo] at hflags
    refine ⟨ctx.smbIpv4Url.str, .lit "IPC$", ⟨ctx.smbUsername.str, ctx.smbPassword.str⟩, ?_, ?_⟩
    · rw [hframe, hinfo]
      exact List.mem_append_right _ (List.mem_singleton.mpr rfl)
    · simpa using hflags
  · rw [hframe, hauth] at hprep
    simp at hprep

/-- The cause is the real one exactly when the preparation fails before the user
information or not at all. -/
theorem causeReported_iff (env : SmbclientEnv) (ctx : Context) (child : Members)
    (calls : List SambaCall) (hfail : env.json .fail = true)
    (hrun : utilSmbclient env ctx = (some (.object child), calls)) :
    CauseReported env child calls ↔ env.stackframe = false ∨ env.userAuthInfoInit = true := by
  refine ⟨?_, ?_⟩
  · intro hcause
    by_contra hbad
    obtain ⟨hframe, hauth⟩ := not_or.mp hbad
    rw [Bool.not_eq_false] at hframe
    rw [Bool.not_eq_true] at hauth
    obtain ⟨-, hcalls⟩ := smbclient_run env ctx child calls hrun
    refine (hcause.2.2 (Or.inr hauth)).2.1 ctx.smbIpv4Url.str (.lit "IPC$") (smbUserInfo env ctx) ?_
    rw [hcalls, hframe]
    exact List.mem_append_right _ (List.mem_singleton.mpr rfl)
  · intro hgood
    cases hframe : env.stackframe with
    | false => exact unprepared_reported env ctx child calls hfail hrun hframe
    | true =>
      have hauth : env.userAuthInfoInit = true := hgood.resolve_left (by rw [hframe]; decide)
      exact prepared_reported env ctx child calls hfail hrun hframe hauth

def noUserInfo : SmbclientEnv :=
  { oneShare with userAuthInfoInit := false, cliCmOpen := fun _ _ => false }

theorem missing_info_blamed : ∃ child calls,
    utilSmbclient noUserInfo anonymousContext = (some (.object child), calls) ∧
      FailsWith child (.lit "auth") ∧ ¬ CauseReported noUserInfo child calls := by
  refine ⟨_, _, rfl, List.mem_append_right _ (List.mem_singleton.mpr rfl), fun hcause => ?_⟩
  refine (hcause.2.2 (Or.inr rfl)).2.1 anonymousContext.smbIpv4Url.str (.lit "IPC$") none ?_
  exact List.mem_append_right _ (List.mem_singleton.mpr rfl)

theorem refused_user_reported : ∃ child calls,
    utilSmbclient { oneShare with cliCmOpen := fun _ _ => false } anonymousContext =
      (some (.object child), calls) ∧
      CauseReported { oneShare with cliCmOpen := fun _ _ => false } child calls :=
  ⟨_, _, rfl, (causeReported_iff _ anonymousContext _ _ rfl rfl).mpr (Or.inr rfl)⟩

end SmbDiscover

import SmbDiscover.Request
import SmbDiscover.Smbtree
import SmbDiscover.Nmblookup
import SmbDiscover.Smbclient

/-!
# An unused password (smb_discover.c:293-353, util_smbclient.c:276-310 and 397-417)

Two runs that differ in their `-P` options only. In the modes `-G` and `-L` the
password stays in the context but nothing reads it; in smbclient mode the checker
clears it when the username is empty. So the two runs make the same calls with the
same bytes.
-/

namespace SmbDiscover
open CText CJson ListText

/-- What the three utilities meet: their libraries, allocations and peers. -/
structure UtilityEnv where
  smbtree : SmbtreeEnv
  nmblookup : NmblookupEnv
  smbclient : SmbclientEnv

/-- The three calls of `_execute_smb_request` (smb_discover.c:418-429). -/
def UtilityEnv.utilities (env : UtilityEnv) : Utilities where
  utilSmbtree ctx := some (utilSmbtree env.smbtree ctx)
  utilNmblookup := utilNmblookup env.nmblookup
  utilSmbclient ctx := some (utilSmbclient env.smbclient ctx)

/-- The settings up to the password. -/
def Settings.withoutPassword (s : Settings) : Settings := { s with password := .empty }

/-! ### What a run reads -/

theorem openInvoker_congr (env : RequestEnv) (ctx₁ ctx₂ : Context)
    (h : ctx₁.smbSrvPath.str = ctx₂.smbSrvPath.str) : openInvoker env ctx₁ = openInvoker env ctx₂ := by
  have hfirst : ctx₁.smbSrvPath.first ≠ 0 ↔ ctx₂.smbSrvPath.first ≠ 0 := by
    rw [Ne, Ne, CharArray.first_eq_zero_iff, CharArray.first_eq_zero_iff, h]
  unfold openInvoker
  simp only [hfirst, h]

theorem utilSmbclient_congr (env : SmbclientEnv) (ctx₁ ctx₂ : Context)
    (h : ctx₁.settings = ctx₂.settings) : utilSmbclient env ctx₁ = utilSmbclient env ctx₂ := by
  have hurl : ctx₁.smbIpv4Url.str = ctx₂.smbIpv4Url.str := congrArg Settings.ipv4Url h
  have huser : ctx₁.smbUsername.str = ctx₂.smbUsername.str := congrArg Settings.username h
  have hword : ctx₁.smbPassword.str = ctx₂.smbPassword.str := congrArg Settings.password h
  have hmax : ctx₁.smbMaxDirCount = ctx₂.smbMaxDirCount := congrArg Settings.maxDirCount h
  have hinfo : smbUserInfo env ctx₁ = smbUserInfo env ctx₂ := by
    simp only [smbUserInfo, huser, hword]
  have hprepare : prepareSmbclient env ctx₁ = prepareSmbclient env ctx₂ := by
    simp only [prepareSmbclient, hinfo]
  have hconnect : ∀ st, connectSmbclient env ctx₁ st = connectSmbclient env ctx₂ st := by
    intro st
    simp only [connectSmbclient, hinfo, hurl]
  have hlist : ∀ st, listSmbclient env ctx₁ st = listSmbclient env ctx₂ st := by
    intro st
    simp only [listSmbclient, hmax]
  unfold utilSmbclient
  simp only [hinfo, hprepare, hconnect, hlist]

theorem utilNmblookup_congr (env : NmblookupEnv) (ctx₁ ctx₂ : Context)
    (h : ctx₁.smbWorkgroups = ctx₂.smbWorkgroups) :
    utilNmblookup env ctx₁ = utilNmblookup env ctx₂ := by
  unfold utilNmblookup
  rw [h]

/-- What `_execute_smb_request` reads of a context: the path, the daemon flag, the report and the
answer of the utility. -/
structure SameReads (ctx₁ ctx₂ : Context) : Prop where
  srvPath : ctx₁.smbSrvPath.str = ctx₂.smbSrvPath.str
  daemonize : ctx₁.shouldDaemonize = ctx₂.shouldDaemonize
  report : ∀ pid, reportText ctx₁ pid = reportText ctx₂ pid
  run : ∀ env : UtilityEnv, env.utilities.run ctx₁ = env.utilities.run ctx₂

/-- Runs on contexts that read alike have one trace and one status. -/
theorem SameReads.execute {ctx₁ ctx₂ : Context} (h : SameReads ctx₁ ctx₂) (util : UtilityEnv)
    (env : RequestEnv) :
    executeSmbRequest util.utilities env ctx₁ = executeSmbRequest util.utilities env ctx₂ := by
  have hopen := openInvoker_congr env ctx₁ ctx₂ h.srvPath
  have hreport : reportMsg ctx₁ env.pid = reportMsg ctx₂ env.pid := by
    rw [reportMsg, reportMsg, h.report]
  have hbefore : beforeUtility env ctx₁ = beforeUtility env ctx₂ := by
    simp only [beforeUtility, hopen, SmbDiscover.daemonize, h.daemonize, reportSelfToServer, hreport]
  unfold executeSmbRequest
  rw [h.run util, hopen, hbefore]

theorem modes_of_withoutPassword (ctx₁ ctx₂ : Context)
    (h : ctx₁.settings.withoutPassword = ctx₂.settings.withoutPassword) :
    ctx₁.smbWorkgroups = ctx₂.smbWorkgroups ∧
      ctx₁.isListWorkgroupMode = ctx₂.isListWorkgroupMode ∧
      ctx₁.isListComputerMode = ctx₂.isListComputerMode :=
  ⟨congrArg Settings.workgroups h, congrArg Settings.listWorkgroups h,
    congrArg Settings.listComputers h⟩

/-- smbclient mode: the password is read, so all settings have to agree. -/
theorem sameReads_of_settings (ctx₁ ctx₂ : Context) (h : ctx₁.settings = ctx₂.settings) :
    SameReads ctx₁ ctx₂ := by
  have hurl : ctx₁.smbIpv4Url.str = ctx₂.smbIpv4Url.str := congrArg Settings.ipv4Url h
  have huser : ctx₁.smbUsername.str = ctx₂.smbUsername.str := congrArg Settings.username h
  have hword : ctx₁.smbPassword.str = ctx₂.smbPassword.str := congrArg Settings.password h
  obtain ⟨hgroups, htree, hlookup⟩ :=
    modes_of_withoutPassword ctx₁ ctx₂ (congrArg Settings.withoutPassword h)
  refine ⟨congrArg Settings.srvPath h, congrArg Settings.daemonize h, fun pid => ?_, fun env => ?_⟩
  · simp only [reportText, hurl, huser, hword, htree, hlookup]
  · simp only [Utilities.run, UtilityEnv.utilities, htree, hlookup, utilSmbtree,
      utilNmblookup_congr env.nmblookup ctx₁ ctx₂ hgroups,
      utilSmbclient_congr env.smbclient ctx₁ ctx₂ h]

/-- In the modes `-G` and `-L` the password is never read. -/
theorem sameReads_of_other_mode (ctx₁ ctx₂ : Context) (hmode : ctx₁.settings.mode ≠ .smbclient)
    (h : ctx₁.settings.withoutPassword = ctx₂.settings.withoutPassword) :
    SameReads ctx₁ ctx₂ := by
  obtain ⟨hgroups, htree, hlookup⟩ := modes_of_withoutPassword ctx₁ ctx₂ h
  have hflags : ctx₂.isListWorkgroupMode = true ∨ ctx₂.isListComputerMode = true := by
    rw [mode_settings, htree, hlookup] at hmode
    by_contra hneither
    rw [not_or, Bool.not_eq_true, Bool.not_eq_true] at hneither
    exact hmode (by simp [hneither])
  refine ⟨congrArg Settings.srvPath h, congrArg Settings.daemonize h, fun pid => ?_, fun env => ?_⟩
  · rcases hflags with hflag | hflag <;> simp [reportText, htree, hlookup, hflag]
  · rcases hflags with hflag | hflag <;>
      simp [Utilities.run, UtilityEnv.utilities, htree, hlookup, utilSmbtree,
        utilNmblookup_congr env.nmblookup ctx₁ ctx₂ hgroups, hflag]

/-! ### Command lines that differ in `-P` -/

/-- Every option but `-P`. -/
def Opt.notPassword (o : Opt) : Bool := o.letter ≠ some .P

theorem lastSome_notPassword {β : Type} (sel : Opt → Option β) (opts₁ opts₂ : List Opt)
    (hsel : ∀ v, sel (.P v) = none)
    (same : opts₁.filter Opt.notPassword = opts₂.filter Opt.notPassword) :
    lastSome sel opts₁ = lastSome sel opts₂ := by
  have hignored : ∀ o, Opt.notPassword o = false → sel o = none := by
    intro o ho
    cases o with
    | P v => exact hsel v
    | _ => simp [Opt.notPassword, Opt.letter] at ho
  rw [← lastSome_filter sel Opt.notPassword opts₁ hignored, same,
    lastSome_filter sel Opt.notPassword opts₂ hignored]

theorem finalSettings_withoutPassword (opts₁ opts₂ : List Opt)
    (same : opts₁.filter Opt.notPassword = opts₂.filter Opt.notPassword) :
    (finalSettings opts₁).withoutPassword = (finalSettings opts₂).withoutPassword := by
  have hlast : ∀ l, l ≠ .P → lastValue l opts₁ = lastValue l opts₂ := fun l hl =>
    lastSome_notPassword (Opt.given l) opts₁ opts₂ (fun v => by
      simp only [Opt.given, Opt.letter, Option.some.injEq]
      exact if_neg hl.symm) same
  have hpath := lastSome_notPassword Opt.storedPath opts₁ opts₂ (fun _ => rfl) same
  have hsplit : lastSplit opts₁ = lastSplit opts₂ :=
    lastSome_notPassword Opt.split opts₁ opts₂ (fun _ => rfl) same
  simp only [Settings.withoutPassword, finalSettings, hlast .A (by decide), hlast .U (by decide),
    hlast .T (by decide), hlast .M (by decide), hlast .D (by decide), hlast .G (by decide),
    hlast .L (by decide), hpath, hsplit]

theorem checked_of_anonymous (s₁ s₂ : Settings) (hmode : s₁.mode = .smbclient)
    (huser : s₁.username = .empty) (h : s₁.withoutPassword = s₂.withoutPassword) :
    s₁.checked = s₂.checked := by
  have hmode₂ : s₂.mode = .smbclient := (congrArg Settings.mode h.symm).trans hmode
  have huser₂ : s₂.username = .empty := (congrArg Settings.username h.symm).trans huser
  simp only [Settings.checked, hmode, hmode₂, if_pos huser, if_pos huser₂]
  exact congrArg (fun s => { s with maxDirCount := if s.maxDirCount = 0 then 50 else s.maxDirCount }) h

/-- The runs with an unused password make the same calls with the same bytes, and
return the same status. -/
theorem unused_password_hidden (opts₁ opts₂ : List Opt) (ctx₁ ctx₂ : Context)
    (h₁ : Accepted opts₁ ctx₁) (h₂ : Accepted opts₂ ctx₂)
    (same : opts₁.filter Opt.notPassword = opts₂.filter Opt.notPassword)
    (unused : lastValue .G opts₁ ≠ none ∨ lastValue .L opts₁ ≠ none ∨
      (lastValue .U opts₁).getD .empty = .empty)
    (util : UtilityEnv) (env : RequestEnv) :
    executeSmbRequest util.utilities env ctx₁ = executeSmbRequest util.utilities env ctx₂ := by
  have hfinal := finalSettings_withoutPassword opts₁ opts₂ same
  have hset₁ := h₁.settings.2
  have hset₂ := h₂.settings.2
  by_cases hmode : (finalSettings opts₁).mode = .smbclient
  · have hflags := (mode_iff opts₁ .smbclient).mp hmode
    have huser : (finalSettings opts₁).username = .empty :=
      (unused.resolve_left (not_not.mpr hflags.1)).resolve_left (not_not.mpr hflags.2)
    have hchecked := checked_of_anonymous _ _ hmode huser hfinal
    rw [← hset₁, ← hset₂] at hchecked
    exact (sameReads_of_settings ctx₁ ctx₂ hchecked).execute util env
  · have hmode₂ : (finalSettings opts₂).mode ≠ .smbclient := fun hclient =>
      hmode ((congrArg Settings.mode hfinal).trans hclient)
    rw [checked_of_ne_smbclient _ hmode] at hset₁
    rw [checked_of_ne_smbclient _ hmode₂] at hset₂
    rw [← hset₁, ← hset₂] at hfinal
    rw [← hset₁] at hmode
    exact (sameReads_of_other_mode ctx₁ ctx₂ hmode hfinal).execute util env

def anonymousWith (password : CStr) : List Opt := [.P password, .A (.lit "10.0.0.1")]

def homeNetwork : UtilityEnv := ⟨brokenEnumeration, firstAnswered, oneShare⟩

theorem anonymous_password_hidden :
    executeSmbRequest homeNetwork.utilities quietSystem
        (acceptedContext (anonymousWith (.lit "tulip"))) =
      executeSmbRequest homeNetwork.utilities quietSystem
        (acceptedContext (anonymousWith (.lit "rose"))) := by
  have h₁ := accepted_run (anonymousWith (.lit "tulip")) (by decide +kernel)
  have h₂ := accepted_run (anonymousWith (.lit "rose")) (by decide +kernel)
  have hfilter : ∀ password, (anonymousWith password).filter Opt.notPassword =
      [.A (.lit "10.0.0.1")] := fun password => by
    simp [anonymousWith, Opt.notPassword, Opt.letter]
  have huser : lastValue .U (anonymousWith (.lit "tulip")) = none := rfl
  refine unused_password_hidden _ _ _ _ h₁ h₂ ?_ ?_ homeNetwork quietSystem
  · rw [hfilter, hfilter]
  · rw [huser]
    exact Or.inr (Or.inr rfl)

end SmbDiscover

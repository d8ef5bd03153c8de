import SmbDiscover.Options

/-!
# Configuration checks (`_configs_check`, smb_discover.c:293-304)

The three checkers of the utilities and the selection between them, then what an
accepted command line guarantees to the utility that will run.
-/

namespace SmbDiscover
open CText ListText

/-! ### The checkers (util_smbtree.c:246, util_nmblookup.c:230, util_smbclient.c:397) -/

/-- Nothing is checked and nothing is set. -/
def utilSmbtreeCheckConfig (ctx : Context) : ℤ × Context := (0, ctx)

/-- A `-L` that failed or was not given left `smb_workgroups` NULL. -/
def utilNmblookupCheckConfig (ctx : Context) : ℤ × Context :=
  if ctx.smbWorkgroups.isNone then (-1, ctx) else (0, ctx)

/-- An empty username clears the first byte of the password (util_smbclient.c:404-407). -/
def dropPassword (ctx : Context) : Context :=
  if ctx.smbUsername.first = 0 then { ctx with smbPassword := ctx.smbPassword.clearFirst }
  else ctx

/-- A limit of 0 means 50 (util_smbclient.c:409-411). -/
def defaultDirCount (ctx : Context) : Context :=
  if ctx.smbMaxDirCount = 0 then { ctx with smbMaxDirCount := 50 } else ctx

/-- The address is tested before anything is written (util_smbclient.c:397-417). -/
def utilSmbclientCheckConfig (ctx : Context) : ℤ × Context :=
  if ctx.smbIpv4Url.first = 0 then (-1, ctx) else (0, defaultDirCount (dropPassword ctx))

/-- `_configs_check` (smb_discover.c:293-304): one checker runs, chosen by the mode flags. -/
def configsCheck (ctx : Context) : ℤ × Context :=
  if ctx.isListWorkgroupMode then utilSmbtreeCheckConfig ctx
  else if ctx.isListComputerMode then utilNmblookupCheckConfig ctx
  else utilSmbclientCheckConfig ctx

/-- Both `_parse_options` and `_configs_check` return 0, and leave `ctx`. -/
def Accepted (opts : List Opt) (ctx : Context) : Prop :=
  ∃ parsed, parseOptions opts .zero = some (0, parsed) ∧ configsCheck parsed = (0, ctx)

/-- `Accepted` as a test that a command line can be run through. -/
def accepts (opts : List Opt) : Bool :=
  match parseOptions opts .zero with
  | none => false
  | some (status, ctx) => status = 0 && (configsCheck ctx).1 = 0

def acceptedContext (opts : List Opt) : Context :=
  match parseOptions opts .zero with
  | none => .zero
  | some (_, ctx) => (configsCheck ctx).2

theorem accepted_run (opts : List Opt) (h : accepts opts = true) :
    Accepted opts (acceptedContext opts) := by
  unfold accepts at h
  unfold acceptedContext
  split at h
  · cases h
  next status parsed hparse =>
    simp only [Bool.and_eq_true, decide_eq_true_eq] at h
    obtain ⟨rfl, hcheck⟩ := h
    exact ⟨parsed, hparse, Prod.ext hcheck rfl⟩

def anonymousContext : Context := acceptedContext [.A (.lit "10.0.0.1")]

/-! ### Settings after the check -/

/-- What the checker of the mode makes of the settings. -/
def Settings.checked (s : Settings) : Settings :=
  match s.mode with
  | .smbtree => s
  | .nmblookup => s
  | .smbclient =>
    { s with
      password := if s.username = .empty then .empty else s.password
      maxDirCount := if s.maxDirCount = 0 then 50 else s.maxDirCount }

/-- What the checker of the mode asks of the settings. -/
def Settings.passes (s : Settings) : Prop :=
  match s.mode with
  | .smbtree => True
  | .nmblookup => s.workgroups ≠ none
  | .smbclient => s.ipv4Url ≠ .empty

theorem checked_mode (s : Settings) : s.checked.mode = s.mode := by
  unfold Settings.checked
  split
  · rfl
  · rfl
  · rfl

theorem checked_of_ne_smbclient (s : Settings) (h : s.mode ≠ .smbclient) : s.checked = s := by
  unfold Settings.checked
  split
  · rfl
  · rfl
  next hm => exact absurd hm h

theorem mode_settings (ctx : Context) :
    ctx.settings.mode = if ctx.isListWorkgroupMode then .smbtree
      else if ctx.isListComputerMode then .nmblookup else .smbclient := rfl

theorem smbclient_flags (ctx : Context) (h : ctx.settings.mode = .smbclient) :
    ctx.isListWorkgroupMode = false ∧ ctx.isListComputerMode = false := by
  rw [mode_settings] at h
  split at h
  · cases h
  · split at h
    · cases h
    · simp_all

theorem dropPassword_settings (ctx : Context) :
    (dropPassword ctx).settings =
      { ctx.settings with
        password := if ctx.settings.username = .empty then .empty else ctx.settings.password } := by
  unfold dropPassword
  by_cases h : ctx.smbUsername.first = 0
  · have huser : ctx.settings.username = .empty := (CharArray.first_eq_zero_iff _).mp h
    rw [if_pos h, if_pos huser]
    simp only [Context.settings, CharArray.str_clearFirst]
  · have huser : ctx.settings.username ≠ .empty := fun he =>
      h ((CharArray.first_eq_zero_iff _).mpr he)
    rw [if_neg h, if_neg huser]

theorem defaultDirCount_settings (ctx : Context) :
    (defaultDirCount ctx).settings =
      { ctx.settings with
        maxDirCount := if ctx.settings.maxDirCount = 0 then 50 else ctx.settings.maxDirCount } := by
  unfold defaultDirCount
  by_cases h : ctx.smbMaxDirCount = 0
  · have hmax : ctx.settings.maxDirCount = 0 := h
    rw [if_pos h, if_pos hmax]
    rfl
  · have hmax : ctx.settings.maxDirCount ≠ 0 := h
    rw [if_neg h, if_neg hmax]

theorem smbclientCheck_settings (ctx ctx' : Context)
    (h : utilSmbclientCheckConfig ctx = (0, ctx')) :
    ctx.settings.ipv4Url ≠ .empty ∧ ctx'.settings =
      { ctx.settings with
        password := if ctx.settings.username = .empty then .empty else ctx.settings.password
        maxDirCount := if ctx.settings.maxDirCount = 0 then 50 else ctx.settings.maxDirCount } := by
  unfold utilSmbclientCheckConfig at h
  split at h
  · simp at h
  next hurl =>
    cases h
    refine ⟨fun he => hurl ((CharArray.first_eq_zero_iff _).mpr he), ?_⟩
    rw [defaultDirCount_settings, dropPassword_settings]

theorem configsCheck_smbclient (ctx : Context) (hmode : ctx.settings.mode = .smbclient)
    (hurl : ctx.settings.ipv4Url ≠ .empty) :
    ∃ ctx', configsCheck ctx = (0, ctx') ∧ utilSmbclientCheckConfig ctx = (0, ctx') := by
  have hflags := smbclient_flags ctx hmode
  have hfirst : ctx.smbIpv4Url.first ≠ 0 := fun h0 =>
    hurl ((CharArray.first_eq_zero_iff _).mp h0)
  have hcheck : utilSmbclientCheckConfig ctx = (0, defaultDirCount (dropPassword ctx)) :=
    if_neg hfirst
  refine ⟨_, ?_, hcheck⟩
  rw [configsCheck, hflags.1, hflags.2, ← hcheck]
  rfl

theorem configsCheck_settings (ctx ctx' : Context) (h : configsCheck ctx = (0, ctx')) :
    ctx.settings.passes ∧ ctx'.settings = ctx.settings.checked := by
  have hmode := mode_settings ctx
  unfold configsCheck at h
  unfold Settings.passes Settings.checked
  split at h
  next htree =>
    rw [if_pos htree] at hmode
    cases h
    simp only [hmode, and_self]
  next htree =>
    rw [if_neg htree] at hmode
    split at h
    next hlookup =>
      rw [if_pos hlookup] at hmode
      unfold utilNmblookupCheckConfig at h
      split at h
      · simp at h
      next hsome =>
        cases h
        simp only [hmode, and_true]
        intro hnone
        have hnone' : ctx.smbWorkgroups = none := hnone
        exact hsome (by rw [hnone']; rfl)
    next hlookup =>
      rw [if_neg hlookup] at hmode
      simp only [hmode]
      exact smbclientCheck_settings ctx ctx' h

theorem Accepted.settings {opts : List Opt} {ctx : Context} (h : Accepted opts ctx) :
    (finalSettings opts).passes ∧ ctx.settings = (finalSettings opts).checked := by
  obtain ⟨parsed, hparse, hcheck⟩ := h
  have hset := configsCheck_settings parsed ctx hcheck
  rw [parseOptions_settings opts parsed hparse] at hset
  exact hset

theorem Accepted.mode {opts : List Opt} {ctx : Context} (h : Accepted opts ctx) :
    ctx.settings.mode = (finalSettings opts).mode := by
  rw [h.settings.2, checked_mode]

end SmbDiscover

import SmbDiscover.Shares
import SmbDiscover.Report

/-!
# Limits of the options (smb_discover.c:206-263, smb_discover.h:56-87)

What becomes of a numeric option and of a credential between the command line and
the place that uses it: the directory limit of `-M` in `_smbc_browse_dir`, the time of
`-T`, and the credentials of `-U` and `-P` in the report to the invoker.
-/

namespace SmbDiscover
open CText CJson ListText

/-! ### Numeric options -/

def clampedLimit (opts : List Opt) : ℤ :=
  match lastValue .M opts with
  | none => 50
  | some text => if 0 < strtol text then strtol text else 50

theorem limitWord_toNat (v : ℤ) (hmin : longMin ≤ v) (hmax : v ≤ longMax) :
    ((BitVec.ofInt 32 v).toNat : ℤ) = if v < 0 then v + 4294967296 else v := by
  unfold longMin at hmin
  unfold longMax at hmax
  rw [BitVec.toNat_ofInt]
  split <;> omega

theorem limitWord_eq_zero (v : ℤ) (hmin : longMin ≤ v) (hmax : v ≤ longMax) :
    BitVec.ofInt 32 v = 0 ↔ v = 0 := by
  have hword := limitWord_toNat v hmin hmax
  refine ⟨?_, ?_⟩
  · intro hzero
    rw [hzero] at hword
    unfold longMin at hmin
    split at hword
    · simp at hword
      omega
    · simpa using hword.symm
  · intro hzero
    rw [hzero]
    rfl

/-- A negative `-M` is a limit of more than 2^31 directories. -/
theorem accepted_limit (opts : List Opt) (ctx : Context) (h : Accepted opts ctx)
    (hmode : ctx.settings.mode = .smbclient) :
    (ctx.smbMaxDirCount.toNat : ℤ) =
      match lastValue .M opts with
      | none => 50
      | some text =>
        if strtol text = 0 then 50
        else if strtol text < 0 then strtol text + 4294967296 else strtol text := by
  have hfinal : (finalSettings opts).mode = .smbclient := h.mode ▸ hmode
  have hset := congrArg Settings.maxDirCount h.settings.2
  simp only [Settings.checked, hfinal] at hset
  have hctx : ctx.smbMaxDirCount = if (finalSettings opts).maxDirCount = 0 then 50
      else (finalSettings opts).maxDirCount := hset
  rw [hctx]
  cases hM : lastValue .M opts with
  | none =>
    have hword : (finalSettings opts).maxDirCount = 0 := by simp [finalSettings, hM]
    rw [if_pos hword]
    rfl
  | some text =>
    obtain ⟨hmin, hmax⟩ := strtol_range text
    have hword : (finalSettings opts).maxDirCount = BitVec.ofInt 32 (strtol text) := by
      simp [finalSettings, hM]
    have hiff := limitWord_eq_zero (strtol text) hmin hmax
    rw [hword]
    by_cases hzero : strtol text = 0
    · rw [if_pos (hiff.mpr hzero)]
      simp [hzero]
    · rw [if_neg fun hw => hzero (hiff.mp hw), limitWord_toNat _ hmin hmax]
      simp [hzero]

theorem accepted_timeout (opts : List Opt) (ctx : Context) (h : Accepted opts ctx)
    (hmode : ctx.settings.mode = .smbclient) (text : CStr) (hT : lastValue .T opts = some text) :
    ctx.smbTimeout = max 0 (strtol text) := by
  have hfinal : (finalSettings opts).mode = .smbclient := h.mode ▸ hmode
  have hset := congrArg Settings.timeout h.settings.2
  simp only [Settings.checked, hfinal] at hset
  have hctx : ctx.smbTimeout = (finalSettings opts).timeout := hset
  rw [hctx]
  simp [finalSettings, hT]

theorem browseDir_length_le (env : SmbclientEnv) (maxDirCount : ℕ) :
    (smbcBrowseDir env maxDirCount []).2.length ≤ maxDirCount := by
  rw [smbcBrowseDir_exposed, List.nil_append, List.length_map]
  by_cases henum : Enumerated env
  · rw [exposedShares_enumerated env maxDirCount henum, List.length_take]
    exact Nat.min_le_left ..
  · rw [exposedShares_failed env maxDirCount henum]
    exact Nat.zero_le _

/-- The limit that `util_smbclient` passes on, the time, and the length of every
`dirs` that it may answer with. -/
def LimitsClamped (opts : List Opt) (ctx : Context) : Prop :=
  (ctx.smbMaxDirCount.toNat : ℤ) = clampedLimit opts ∧
    (∀ text, lastValue .T opts = some text → ctx.smbTimeout = max 0 (strtol text)) ∧
    ∀ env child dirs, (utilSmbclient env ctx).1 = some (.object child) →
      (.lit "dirs", .array dirs) ∈ child → (dirs.length : ℤ) ≤ clampedLimit opts

theorem clamped_iff (opts : List Opt) (ctx : Context) (h : Accepted opts ctx)
    (hmode : ctx.settings.mode = .smbclient) :
    (ctx.smbMaxDirCount.toNat : ℤ) = clampedLimit opts ↔
      ∀ text, lastValue .M opts = some text → 0 ≤ strtol text := by
  rw [accepted_limit opts ctx h hmode]
  unfold clampedLimit
  cases hM : lastValue .M opts with
  | none => simp
  | some text =>
    have hmin := (strtol_range text).1
    unfold longMin at hmin
    simp only [Option.some.injEq, forall_eq']
    split_ifs <;> omega

/-- The numeric options are clamped exactly when the last `-M` is not negative. -/
theorem limitsClamped_iff (opts : List Opt) (ctx : Context) (h : Accepted opts ctx)
    (hmode : ctx.settings.mode = .smbclient) :
    LimitsClamped opts ctx ↔ ∀ text, lastValue .M opts = some text → 0 ≤ strtol text := by
  have hclamped := clamped_iff opts ctx h hmode
  refine ⟨?_, ?_⟩
  · intro hlimits
    exact hclamped.mp hlimits.1
  · intro hM
    have hlimit := hclamped.mpr hM
    refine ⟨hlimit, accepted_timeout opts ctx h hmode, ?_⟩
    intro env child dirs hrun hmem
    obtain ⟨-, hdirs⟩ := utilSmbclient_dirs env ctx child _ hrun hmem
    cases hdirs
    have hle := browseDir_length_le env ctx.smbMaxDirCount.toNat
    omega

def negativeLimit : List Opt := [.A (.lit "10.0.0.1"), .M (.lit "-1")]

theorem negative_limit_unclamped : Accepted negativeLimit (acceptedContext negativeLimit) ∧
    (acceptedContext negativeLimit).settings.mode = .smbclient ∧
    ¬ LimitsClamped negativeLimit (acceptedContext negativeLimit) := by
  have h := accepted_run negativeLimit (by decide +kernel)
  have hmode : (acceptedContext negativeLimit).settings.mode = .smbclient := by decide +kernel
  refine ⟨h, hmode, fun hlimits => ?_⟩
  have hM := (clamped_iff negativeLimit _ h hmode).mp hlimits.1 (.lit "-1") rfl
  exact absurd hM (by decide +kernel)

def zeroLimit : List Opt := [.A (.lit "10.0.0.1"), .M (.lit "0"), .T (.lit "-7")]

theorem zero_limit_clamped : LimitsClamped zeroLimit (acceptedContext zeroLimit) := by
  have h := accepted_run zeroLimit (by decide +kernel)
  refine (limitsClamped_iff zeroLimit _ h (by decide +kernel)).mpr ?_
  intro text hM
  cases hM
  decide +kernel

/-! ### Credentials -/

/-- A valid address, or a credential of at most its declared maximum. -/
def Opt.WithinLimits : Opt → Prop
  | .A v => inetAddr v ≠ inaddrNone
  | .U v => v.length ≤ smbUserLenMax
  | .P v => v.length ≤ smbPassLenMax
  | _ => False

def Opt.BelowLimits : Opt → Prop
  | .U v => v.length < smbUserLenMax
  | .P v => v.length < smbPassLenMax
  | _ => True

theorem optionCase_accepts_iff (o : Opt) (ctx : Context) (h : o.WithinLimits) :
    (∃ ctx', optionCase o ctx = some (false, ctx')) ↔ o.BelowLimits := by
  cases o with
  | A v =>
    have haddr : inetAddr v ≠ inaddrNone := h
    simp [optionCase, checkStrIsIPv4AndTranslate, haddr, Opt.BelowLimits]
  | U v =>
    by_cases hfit : v.length < smbUserLenMax
    · simp [optionCase, Opt.BelowLimits, hfit]
    · simp [optionCase, Opt.BelowLimits, hfit]
  | P v =>
    by_cases hfit : v.length < smbPassLenMax
    · simp [optionCase, Opt.BelowLimits, hfit]
    · simp [optionCase, Opt.BelowLimits, hfit]
  | _ => exact absurd h id

theorem parseOptions_accepts_iff (opts : List Opt) (ctx : Context)
    (h : ∀ o ∈ opts, o.WithinLimits) :
    (∃ parsed, parseOptions opts ctx = some (0, parsed)) ↔ ∀ o ∈ opts, o.BelowLimits := by
  induction opts generalizing ctx with
  | nil => simp [parseOptions]
  | cons o rest ih =>
    have hcase := optionCase_accepts_iff o ctx (h o (List.mem_cons_self ..))
    have hrest := fun ctx' => ih ctx' fun o' ho => h o' (List.mem_cons_of_mem _ ho)
    rw [List.forall_mem_cons, ← hcase]
    refine ⟨?_, ?_⟩
    · intro haccept
      obtain ⟨parsed, hparse⟩ := haccept
      simp only [parseOptions] at hparse
      split at hparse
      · cases hparse
      next parseError ctx' hstep =>
        cases parseError with
        | true => cases hparse
        | false => exact ⟨⟨ctx', hstep⟩, (hrest ctx').mp ⟨parsed, hparse⟩⟩
    · intro hbelow
      obtain ⟨⟨ctx', hstep⟩, hall⟩ := hbelow
      obtain ⟨parsed, hparse⟩ := (hrest ctx').mpr hall
      refine ⟨parsed, ?_⟩
      simp only [parseOptions, hstep]
      exact hparse

theorem credentials_mode (opts : List Opt) (h : ∀ o ∈ opts, o.WithinLimits) :
    (finalSettings opts).mode = .smbclient := by
  refine (mode_iff opts .smbclient).mpr ⟨?_, ?_⟩
  · refine (lastSome_eq_none_iff ..).mpr fun o ho => ?_
    cases o with
    | G => exact absurd (h _ ho) id
    | _ => rfl
  · refine (lastSome_eq_none_iff ..).mpr fun o ho => ?_
    cases o with
    | L v env => exact absurd (h _ ho) id
    | _ => rfl

theorem reportText_length (ctx : Context) (pid : ℤ) (h : ctx.settings.mode = .smbclient) :
    (reportText ctx pid).length = 89 + ctx.smbIpv4Url.str.length + ctx.smbUsername.str.length +
      ctx.smbPassword.str.length + (formatInt pid).length := by
  have hkeys : (ascii "command").length = 7 ∧ (ascii "report self").length = 11 ∧
      (ascii "mode").length = 4 ∧ (ascii "smbclient").length = 9 ∧ (ascii "IPv4").length = 4 ∧
      (ascii "username").length = 8 ∧ (ascii "password").length = 8 ∧
      (ascii "pid").length = 3 := by decide
  obtain ⟨hcommand, hreport, hmode, hclient, hip, huser, hword, hpid⟩ := hkeys
  have hlen := congrArg List.length (reportText_smbclient ctx pid h)
  simp only [smbclientMembers, JsonText.stringMember, pidMember, List.length_cons,
    List.length_append, List.length_nil, hcommand, hreport, hmode, hclient, hip, huser, hword,
    hpid] at hlen
  simp only [CStr.length]
  omega

theorem reportMsg_whole_iff (ctx : Context) (pid : ℤ) :
    reportMsg ctx pid = reportText ctx pid ↔ (reportText ctx pid).length < 255 := by
  refine ⟨?_, ?_⟩
  · intro hwhole
    rw [reportMsg, CharArray.str_snprintf] at hwhole
    have hlen := congrArg CStr.length hwhole
    simp only [CStr.length, CStr.bytes_take, List.length_take, reportBuffLen] at hlen ⊢
    omega
  · intro hfit
    exact reportMsg_of_fits ctx pid hfit

/-- The options are accepted, the credentials are stored with their terminators, and
the report holds the whole text. -/
def CredentialsCarried (opts : List Opt) (user word : CStr) (pid : ℤ) : Prop :=
  ∃ parsed ctx, parseOptions opts .zero = some (0, parsed) ∧
    parsed.smbUsername.str = user ∧ parsed.smbUsername.Terminated ∧
    parsed.smbPassword.str = word ∧ parsed.smbPassword.Terminated ∧
    configsCheck parsed = (0, ctx) ∧ reportMsg ctx pid = reportText ctx pid

/-- Length of the report; a password without a username is dropped. -/
def reportSize (ip user word : CStr) (pid : ℤ) : ℕ :=
  89 + (inetNtoa (inetAddr ip)).length + user.length +
    (if user = .empty then 0 else word.length) + (formatInt pid).length

theorem credentials_lengths (opts : List Opt) (user word : CStr)
    (h : ∀ o ∈ opts, o.WithinLimits) (hU : lastValue .U opts = some user)
    (hP : lastValue .P opts = some word) :
    user.length ≤ smbUserLenMax ∧ word.length ≤ smbPassLenMax := by
  obtain ⟨o, ho, hsel⟩ := lastSome_mem _ _ _ hU
  obtain ⟨o', ho', hsel'⟩ := lastSome_mem _ _ _ hP
  have huser := h o ho
  have hword := h o' ho'
  refine ⟨?_, ?_⟩
  · cases o with
    | U v =>
      cases hsel
      exact huser
    | _ => cases hsel
  · cases o' with
    | P v =>
      cases hsel'
      exact hword
    | _ => cases hsel'

theorem credentials_checked (opts : List Opt) (ip user word : CStr) (pid : ℤ) (parsed : Context)
    (h : ∀ o ∈ opts, o.WithinLimits) (hA : lastValue .A opts = some ip)
    (hU : lastValue .U opts = some user) (hP : lastValue .P opts = some word)
    (hparse : parseOptions opts .zero = some (0, parsed)) :
    parsed.smbUsername.str = user ∧ parsed.smbPassword.str = word ∧
      ∃ ctx, configsCheck parsed = (0, ctx) ∧
        (reportText ctx pid).length = reportSize ip user word pid := by
  have hset := parseOptions_settings opts parsed hparse
  have hmode : parsed.settings.mode = .smbclient := by rw [hset, credentials_mode opts h]
  have hurl : parsed.settings.ipv4Url = inetNtoa (inetAddr ip) := by
    rw [hset]
    simp [finalSettings, hA]
  have huser : parsed.settings.username = user := by
    rw [hset]
    simp [finalSettings, hU]
  have hword : parsed.settings.password = word := by
    rw [hset]
    simp [finalSettings, hP]
  have hne : parsed.settings.ipv4Url ≠ .empty := by
    rw [hurl]
    exact (inetNtoa_dottedQuad _).ne_empty
  obtain ⟨ctx, hcheck, hclient⟩ := configsCheck_smbclient parsed hmode hne
  obtain ⟨-, hctx⟩ := smbclientCheck_settings parsed ctx hclient
  have hmode' : ctx.settings.mode = .smbclient := by
    rw [hctx]
    exact hmode
  have hurl' : ctx.smbIpv4Url.str = inetNtoa (inetAddr ip) :=
    (congrArg Settings.ipv4Url hctx).trans hurl
  have huser' : ctx.smbUsername.str = user := (congrArg Settings.username hctx).trans huser
  have hword' : ctx.smbPassword.str = if user = .empty then .empty else word := by
    rw [← huser, ← hword]
    exact congrArg Settings.password hctx
  refine ⟨huser, hword, ctx, hcheck, ?_⟩
  rw [reportText_length ctx pid hmode', hurl', huser', hword', reportSize]
  split <;> rfl

/-- Credentials within the declared maxima are carried into the report exactly when
none of them reaches its maximum and the whole text has less than 255 bytes. -/
theorem credentials_carried_iff (opts : List Opt) (ip user word : CStr) (pid : ℤ)
    (h : ∀ o ∈ opts, o.WithinLimits) (hA : lastValue .A opts = some ip)
    (hU : lastValue .U opts = some user) (hP : lastValue .P opts = some word) :
    CredentialsCarried opts user word pid ↔
      (∀ o ∈ opts, o.BelowLimits) ∧ reportSize ip user word pid < 255 := by
  refine ⟨?_, ?_⟩
  · intro hcarried
    obtain ⟨parsed, ctx, hparse, -, -, -, -, hcheck, hwhole⟩ := hcarried
    obtain ⟨-, -, ctx', hcheck', hlen⟩ :=
      credentials_checked opts ip user word pid parsed h hA hU hP hparse
    have heq : ctx = ctx' := congrArg Prod.snd (hcheck.symm.trans hcheck')
    refine ⟨(parseOptions_accepts_iff opts .zero h).mp ⟨parsed, hparse⟩, ?_⟩
    rw [← hlen, ← heq]
    exact (reportMsg_whole_iff ctx pid).mp hwhole
  · intro hfits
    obtain ⟨parsed, hparse⟩ := (parseOptions_accepts_iff opts .zero h).mpr hfits.1
    obtain ⟨huser, hword, ctx, hcheck, hlen⟩ :=
      credentials_checked opts ip user word pid parsed h hA hU hP hparse
    obtain ⟨huserLen, hwordLen⟩ := credentials_lengths opts user word h hU hP
    refine ⟨parsed, ctx, hparse, huser, ?_, hword, ?_, hcheck, ?_⟩
    · apply CharArray.terminated_of_length_lt
      rw [huser]
      omega
    · apply CharArray.terminated_of_length_lt
      rw [hword]
      omega
    · rw [reportMsg_whole_iff, hlen]
      exact hfits.2

def fullUser : CStr := .lit "abcdefghijklmnopqrstuvwxyz012345"

def fullUserLine : List Opt := [.A (.lit "10.0.0.1"), .U fullUser, .P (.lit "secret")]

theorem fullUserLine_within : ∀ o ∈ fullUserLine, o.WithinLimits := by
  have hip : inetAddr (.lit "10.0.0.1") ≠ inaddrNone := by decide +kernel
  have huser : fullUser.length ≤ smbUserLenMax := by decide +kernel
  have hword : (CStr.lit "secret").length ≤ smbPassLenMax := by decide +kernel
  intro o ho
  simp only [fullUserLine, List.mem_cons, List.not_mem_nil, or_false] at ho
  rcases ho with rfl | rfl | rfl
  · exact hip
  · exact huser
  · exact hword

theorem full_username_rejected : (∀ o ∈ fullUserLine, o.WithinLimits) ∧
    ¬ CredentialsCarried fullUserLine fullUser (.lit "secret") 7 := by
  refine ⟨fullUserLine_within, fun hcarried => ?_⟩
  obtain ⟨parsed, -, hparse, -⟩ := hcarried
  have hbelow := (parseOptions_accepts_iff _ .zero fullUserLine_within).mp ⟨parsed, hparse⟩
  have huser : fullUser.length < smbUserLenMax := hbelow (.U fullUser) (by simp [fullUserLine])
  exact absurd huser (by decide +kernel)

theorem plain_credentials_carried :
    CredentialsCarried plainLine (.lit "alice") (.lit "secret") 7 := by
  have hip : inetAddr (.lit "10.0.0.1") ≠ inaddrNone := by decide +kernel
  have huser : (CStr.lit "alice").length < smbUserLenMax := by decide +kernel
  have hword : (CStr.lit "secret").length < smbPassLenMax := by decide +kernel
  have hwithin : ∀ o ∈ plainLine, o.WithinLimits := by
    intro o ho
    simp only [plainLine, List.mem_cons, List.not_mem_nil, or_false] at ho
    rcases ho with rfl | rfl | rfl
    · exact hip
    · exact huser.le
    · exact hword.le
  refine (credentials_carried_iff plainLine (.lit "10.0.0.1") _ _ 7 hwithin rfl rfl rfl).mpr
    ⟨?_, by decide +kernel⟩
  intro o ho
  simp only [plainLine, List.mem_cons, List.not_mem_nil, or_false] at ho
  rcases ho with rfl | rfl | rfl
  · trivial
  · exact huser
  · exact hword

end SmbDiscover

import SmbDiscover.Workgroups
import SmbDiscover.Lib.Numeric

/-!
# The option loop (`_parse_options`, smb_discover.c:98-124 and 191-287)

The options as `getopt` yields them, one event an option (`missing` for ':' and
`unknown` for '?' and any other character); `optionCase` is the
`switch`, `parseOptions` the loop, which stops at the first parse error. A `-L`
event carries what its call of the splitter meets in the allocator and in memory.
`finalSettings` is the abstract meaning of an option sequence: every setting is
the last value given for it.
-/

namespace SmbDiscover
open CText ListText

/-- One turn of the `getopt` loop. -/
inductive Opt where
  | A (optarg : CStr)
  | U (optarg : CStr)
  | P (optarg : CStr)
  | T (optarg : CStr)
  | K (optarg : CStr)
  | D
  | G
  | M (optarg : CStr)
  | L (optarg : CStr) (env : SplitMemory)
  | missing
  | unknown

/-- smb_discover.c:98-124 -/
def checkStrIsIPv4AndTranslate {n : ℕ} (str : CStr) (ipStrOut : CharArray n) (ipStrBuffLen : ℕ)
    (withSmbPrefix : Bool) (h : 0 < ipStrBuffLen ∧ ipStrBuffLen ≤ n) : Bool × CharArray n :=
  let ipv4Int := inetAddr str
  if ipv4Int = inaddrNone then (false, ipStrOut)
  else
    let pureAddrStr := CharArray.strncpy (ipv4StrLenMax + 1) (inetNtoa ipv4Int)
    if withSmbPrefix then
      (true, ipStrOut.snprintf ipStrBuffLen (.lit "smb://" ++ pureAddrStr.str) h)
    else (true, ipStrOut.snprintf ipStrBuffLen pureAddrStr.str h)

/-- `parse_error` and the context behind the `switch` (smb_discover.c:191-287). -/
def optionCase (opt : Opt) (ctx : Context) : Option (Bool × Context) :=
  match opt with
  | .missing => some (true, ctx)
  | .A optarg =>
    let r := checkStrIsIPv4AndTranslate optarg ctx.smbIpv4Url (ipv4StrLenMax + 6 + 1) false
      (by decide)
    some (!r.1, { ctx with smbIpv4Url := r.2 })
  | .U optarg =>
    if h : optarg.length < smbUserLenMax + 1 - 1 then
      some (false, { ctx with smbUsername := ctx.smbUsername.strcpy optarg (by omega) })
    else some (true, ctx)
  | .P optarg =>
    if h : optarg.length < smbPassLenMax + 1 - 1 then
      some (false, { ctx with smbPassword := ctx.smbPassword.strcpy optarg (by omega) })
    else some (true, ctx)
  | .T optarg =>
    let t := strtol optarg
    some (false, { ctx with smbTimeout := if t < 0 then 0 else t })
  | .K optarg =>
    if h : optarg.length < dirNameLenMax + 1 - 1 then
      some (false, { ctx with smbSrvPath := ctx.smbSrvPath.strcpy optarg (by omega) })
    else some (false, ctx)
  | .D => some (false, { ctx with shouldDaemonize := true })
  | .G => some (false, { ctx with isListWorkgroupMode := true })
  | .M optarg =>
    -- a `long` stored in a `size_t`: the comparison with 0 is unsigned
    let m := BitVec.ofInt 32 (strtol optarg)
    some (false, { ctx with smbMaxDirCount := if m ≤ 0 then 0 else m })
  | .L optarg env =>
    match parseWorkgroups env optarg ctx with
    | none => none
    | some (status, ctx) =>
      if status = 0 then some (false, { ctx with isListComputerMode := true })
      else some (true, ctx)
  | .unknown => some (true, ctx)

/-- The loop stops behind the first option with a parse error. -/
def parseOptions : List Opt → Context → Option (ℤ × Context)
  | [], ctx => some (0, ctx)
  | opt :: rest, ctx =>
    match optionCase opt ctx with
    | none => none
    | some (parseError, ctx) => if parseError then some (-1, ctx) else parseOptions rest ctx

/-! ### Last value of every option -/

inductive Letter where
  | A
  | U
  | P
  | T
  | K
  | D
  | G
  | M
  | L
  deriving DecidableEq

namespace Opt

def letter : Opt → Option Letter
  | .A _ => some .A
  | .U _ => some .U
  | .P _ => some .P
  | .T _ => some .T
  | .K _ => some .K
  | .D => some .D
  | .G => some .G
  | .M _ => some .M
  | .L _ _ => some .L
  | .missing => none
  | .unknown => none

def optarg : Opt → CStr
  | .A v => v
  | .U v => v
  | .P v => v
  | .T v => v
  | .K v => v
  | .M v => v
  | .L v _ => v
  | .D => .empty
  | .G => .empty
  | .missing => .empty
  | .unknown => .empty

def given (l : Letter) (opt : Opt) : Option CStr :=
  if opt.letter = some l then some opt.optarg else none

def split : Opt → Option (CStr × SplitMemory)
  | .L v env => some (v, env)
  | _ => none

/-- The value of a `-K` option that `_parse_options` stores. -/
def storedPath : Opt → Option CStr
  | .K v => if v.length < dirNameLenMax then some v else none
  | _ => none

end Opt

/-- The argument of the last option with this letter. -/
def lastValue (l : Letter) (opts : List Opt) : Option CStr := lastSome (Opt.given l) opts

def lastSplit (opts : List Opt) : Option (CStr × SplitMemory) := lastSome Opt.split opts

def listedNames (p : CStr × SplitMemory) : Option (List CStr) :=
  (splitWorkgroups p.2 p.1).map Cursor.names

/-- The settings that an accepted option sequence stands for. -/
def finalSettings (opts : List Opt) : Settings where
  ipv4Url := ((lastValue .A opts).map fun v => inetNtoa (inetAddr v)).getD .empty
  username := (lastValue .U opts).getD .empty
  password := (lastValue .P opts).getD .empty
  srvPath := (lastSome Opt.storedPath opts).getD .empty
  timeout := ((lastValue .T opts).map fun v => max 0 (strtol v)).getD 0
  maxDirCount := ((lastValue .M opts).map fun v => BitVec.ofInt 32 (strtol v)).getD 0
  daemonize := ((lastValue .D opts).map fun _ => true).getD false
  listWorkgroups := ((lastValue .G opts).map fun _ => true).getD false
  listComputers := ((lastValue .L opts).map fun _ => true).getD false
  workgroups := ((lastSplit opts).map listedNames).getD none

def Settings.apply (s : Settings) : Opt → Settings
  | .A v => { s with ipv4Url := inetNtoa (inetAddr v) }
  | .U v => { s with username := v }
  | .P v => { s with password := v }
  | .T v => { s with timeout := max 0 (strtol v) }
  | .K v => { s with srvPath := if v.length < dirNameLenMax then v else s.srvPath }
  | .D => { s with daemonize := true }
  | .G => { s with listWorkgroups := true }
  | .M v => { s with maxDirCount := BitVec.ofInt 32 (strtol v) }
  | .L v env => { s with listComputers := true, workgroups := listedNames (v, env) }
  | .missing => s
  | .unknown => s

theorem foldl_given {β : Type} (proj : Settings → β) (l : Letter) (f : CStr → β)
    (h : ∀ s o, proj (Settings.apply s o) = ((o.given l).map f).getD (proj s))
    (opts : List Opt) (s : Settings) :
    proj (opts.foldl Settings.apply s) = ((lastValue l opts).map f).getD (proj s) := by
  rw [foldl_lastWins Settings.apply proj (fun o => (o.given l).map f) h, lastSome_map]
  rfl

theorem foldl_apply (opts : List Opt) :
    opts.foldl Settings.apply .initial = finalSettings opts := by
  ext1
  · exact foldl_given _ .A _ (fun s o => by cases o <;> rfl) opts .initial
  · exact foldl_lastWins _ Settings.username _ (fun s o => by cases o <;> rfl) opts .initial
  · exact foldl_lastWins _ Settings.password _ (fun s o => by cases o <;> rfl) opts .initial
  · refine foldl_lastWins _ Settings.srvPath _ (fun s o => ?_) opts .initial
    cases o with
    | K v =>
      simp only [Settings.apply, Opt.storedPath]
      split <;> rfl
    | _ => rfl
  · exact foldl_given _ .T _ (fun s o => by cases o <;> rfl) opts .initial
  · exact foldl_given _ .M _ (fun s o => by cases o <;> rfl) opts .initial
  · exact foldl_given _ .D _ (fun s o => by cases o <;> rfl) opts .initial
  · exact foldl_given _ .G _ (fun s o => by cases o <;> rfl) opts .initial
  · exact foldl_given _ .L _ (fun s o => by cases o <;> rfl) opts .initial
  · have hsel : ∀ s o, (Settings.apply s o).workgroups =
        ((Opt.split o).map listedNames).getD s.workgroups := fun s o => by cases o <;> rfl
    rw [foldl_lastWins _ Settings.workgroups _ hsel, lastSome_map]
    rfl

/-! ### The loop computes the final settings -/

theorem ipv4_stored (v : CStr) (a : CharArray (ipv4StrLenMax + 6 + 1))
    (h : 0 < ipv4StrLenMax + 6 + 1 ∧ ipv4StrLenMax + 6 + 1 ≤ ipv4StrLenMax + 6 + 1)
    (hok : (checkStrIsIPv4AndTranslate v a (ipv4StrLenMax + 6 + 1) false h).1 = true) :
    (checkStrIsIPv4AndTranslate v a (ipv4StrLenMax + 6 + 1) false h).2.str =
      inetNtoa (inetAddr v) := by
  have hlen := (inetNtoa_dottedQuad (inetAddr v)).length_le
  have hpure := (CharArray.strncpy_of_fits (n := ipv4StrLenMax + 1) (inetNtoa (inetAddr v))
    (by unfold ipv4StrLenMax; omega)).2
  unfold checkStrIsIPv4AndTranslate at hok ⊢
  by_cases hnone : inetAddr v = inaddrNone
  · simp [hnone] at hok
  · simp only [if_neg hnone, Bool.false_eq_true, ite_false, CharArray.str_snprintf, hpure]
    exact CStr.take_of_length_le _ (by unfold ipv4StrLenMax; omega)

theorem parseWorkgroups_settings (env : SplitMemory) (v : CStr) (ctx ctx' : Context)
    (h : parseWorkgroups env v ctx = some (0, ctx')) :
    v ≠ .empty ∧ listedNames (v, env) ≠ none ∧
      ctx' = { ctx with smbWorkgroups := listedNames (v, env) } := by
  unfold parseWorkgroups at h
  split at h
  · simp at h
  next hlen =>
    split at h
    · simp at h
    · split at h
      · simp at h
      · split at h
        · cases h
        next st hst =>
          have hnames : listedNames (v, env) = some st.names := by
            rw [listedNames, hst, Option.map_some]
          rw [hnames]
          cases h
          exact ⟨fun h0 => hlen ((CStr.eq_empty_iff_length v).mp h0), by simp, rfl⟩

theorem optionCase_settings (opt : Opt) (ctx ctx' : Context)
    (h : optionCase opt ctx = some (false, ctx')) : ctx'.settings = ctx.settings.apply opt := by
  cases opt with
  | A v =>
    simp only [optionCase, Option.some.injEq, Prod.mk.injEq, Bool.not_eq_eq_eq_not,
      Bool.not_false] at h
    obtain ⟨hok, rfl⟩ := h
    simp only [Context.settings, Settings.apply, ipv4_stored v _ _ hok]
  | U v =>
    simp only [optionCase] at h
    split at h
    · cases h
      simp only [Context.settings, Settings.apply, CharArray.str_strcpy]
    · cases h
  | P v =>
    simp only [optionCase] at h
    split at h
    · cases h
      simp only [Context.settings, Settings.apply, CharArray.str_strcpy]
    · cases h
  | T v =>
    cases h
    simp only [Context.settings, Settings.apply]
    congr 1
    split <;> omega
  | K v =>
    simp only [optionCase] at h
    split at h
    next hlen =>
      cases h
      have hfit : v.length < dirNameLenMax := by omega
      simp only [Context.settings, Settings.apply, CharArray.str_strcpy, if_pos hfit]
    next hlen =>
      cases h
      have hlong : ¬ v.length < dirNameLenMax := by omega
      simp only [Context.settings, Settings.apply, if_neg hlong]
  | D =>
    cases h
    rfl
  | G =>
    cases h
    rfl
  | M v =>
    cases h
    simp only [Context.settings, Settings.apply]
    congr 1
    split
    next hle => exact (BitVec.le_zero_iff.mp hle).symm
    · rfl
  | L v env =>
    simp only [optionCase] at h
    split at h
    · cases h
    next status c hsplit =>
      split at h
      next hstatus =>
        subst hstatus
        obtain ⟨-, -, rfl⟩ := parseWorkgroups_settings env v ctx c hsplit
        cases h
        rfl
      · cases h
  | missing => cases h
  | unknown => cases h

theorem parseOptions_run (opts : List Opt) (ctx ctx' : Context)
    (h : parseOptions opts ctx = some (0, ctx')) :
    ctx'.settings = opts.foldl Settings.apply ctx.settings := by
  induction opts generalizing ctx with
  | nil =>
    cases h
    rfl
  | cons opt rest ih =>
    simp only [parseOptions] at h
    split at h
    · cases h
    next parseError c hcase =>
      cases parseError with
      | true => cases h
      | false =>
        rw [ih c h, optionCase_settings opt ctx c hcase]
        rfl

/-- `_parse_options` refines last-wins. -/
theorem parseOptions_settings (opts : List Opt) (ctx : Context)
    (h : parseOptions opts .zero = some (0, ctx)) : ctx.settings = finalSettings opts := by
  rw [parseOptions_run opts .zero ctx h, settings_zero, foldl_apply]

theorem lastSplit_mem (opts : List Opt) (v : CStr) (env : SplitMemory)
    (h : lastSplit opts = some (v, env)) : Opt.L v env ∈ opts := by
  obtain ⟨o, ho, hsel⟩ := lastSome_mem Opt.split opts _ h
  cases o with
  | L v' env' =>
    cases hsel
    exact ho
  | _ => cases hsel

theorem lastValue_L (opts : List Opt) : lastValue .L opts = (lastSplit opts).map Prod.fst := by
  have hsel : Opt.given .L = fun o => (Opt.split o).map Prod.fst := by
    funext o
    cases o <;> rfl
  rw [lastValue, hsel]
  exact lastSome_map Opt.split Prod.fst opts

end SmbDiscover

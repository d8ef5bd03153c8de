import SmbDiscover.Lib.Getopt
import SmbDiscover.Limits

/-!
# The command line (`_parse_options`, smb_discover.c:191-304)

From the words of `argv` to the settings: `getopt` with the option string of the source,
the loop over its options and the check. `mem k` is what the splitter meets when the
`k`-th option is a `-L`.
-/

namespace SmbDiscover
open CText CJson ListText Getopt

def optstring : List Byte := ascii ":DGA:P:U:K:T:M:L:"

/-- The case that the `switch` takes. -/
def optOf (mem : SplitMemory) : Token → Opt
  | .missing _ => .missing
  | .unknown _ => .unknown
  | .flag c => if c = 68 then .D else if c = 71 then .G else .unknown
  | .value c optarg =>
    if c = 65 then .A optarg
    else if c = 85 then .U optarg
    else if c = 80 then .P optarg
    else if c = 84 then .T optarg
    else if c = 75 then .K optarg
    else if c = 77 then .M optarg
    else if c = 76 then .L optarg mem
    else .unknown

/-- The memory that each option meets is its own. -/
def options (mem : ℕ → SplitMemory) (tokens : List Token) : List Opt :=
  tokens.zipIdx.map fun p => optOf (mem p.2) p.1

def commandOptions (mem : ℕ → SplitMemory) (argv : List CStr) : List Opt :=
  options mem (getopt (optSpec optstring) none argv)

example : getopt (optSpec optstring) none
    [.lit "-DA", .lit "10.0.0.1", .lit "extra", .lit "-ualice", .lit "-T5", .lit "--", .lit "-G"] =
      [.flag 68, .value 65 (.lit "10.0.0.1"), .unknown 117, .unknown 97, .unknown 108,
        .unknown 105, .unknown 99, .unknown 101, .value 84 (.lit "5")] := by decide +kernel

/-! ### Options that the loop accepts -/

/-- No parse error in the case of this option. -/
def Opt.Valid : Opt → Prop
  | .A v => inetAddr v ≠ inaddrNone
  | .U v => v.length < smbUserLenMax
  | .P v => v.length < smbPassLenMax
  | .L v env => v ≠ .empty ∧ env.array = true ∧ env.copy = true
  | .missing => False
  | .unknown => False
  | _ => True

theorem parseWorkgroups_accepts_iff (env : SplitMemory) (v : CStr) (ctx : Context)
    (nul : env.after.head? = some 0) :
    (∃ ctx', parseWorkgroups env v ctx = some (0, ctx')) ↔
      v ≠ .empty ∧ env.array = true ∧ env.copy = true := by
  obtain ⟨st, hst, -⟩ := splitWorkgroups_spec env v nul
  have hempty := CStr.eq_empty_iff_length v
  unfold parseWorkgroups
  rw [hst]
  cases env.array <;> cases env.copy <;> by_cases hlen : v.length = 0 <;> simp [hlen, hempty]

theorem optionCase_valid_iff (o : Opt) (ctx : Context) (nul : o.NulBehindCopy) :
    (∃ ctx', optionCase o ctx = some (false, ctx')) ↔ o.Valid := by
  cases o with
  | A v =>
    by_cases haddr : inetAddr v = inaddrNone
    · simp [optionCase, checkStrIsIPv4AndTranslate, Opt.Valid, haddr]
    · simp [optionCase, checkStrIsIPv4AndTranslate, Opt.Valid, haddr]
  | U v =>
    by_cases hfit : v.length < smbUserLenMax
    · simp [optionCase, Opt.Valid, hfit]
    · simp [optionCase, Opt.Valid, hfit]
  | P v =>
    by_cases hfit : v.length < smbPassLenMax
    · simp [optionCase, Opt.Valid, hfit]
    · simp [optionCase, Opt.Valid, hfit]
  | K v =>
    by_cases hfit : v.length < dirNameLenMax
    · simp [optionCase, Opt.Valid, hfit]
    · simp [optionCase, Opt.Valid, hfit]
  | L v env =>
    refine Iff.trans ?_ (parseWorkgroups_accepts_iff env v ctx nul)
    simp only [optionCase]
    cases parseWorkgroups env v ctx with
    | none => simp
    | some p =>
      obtain ⟨status, c⟩ := p
      by_cases hstatus : status = 0
      · simp [hstatus]
      · simp [hstatus]
  | T v => simp [optionCase, Opt.Valid]
  | M v => simp [optionCase, Opt.Valid]
  | D => simp [optionCase, Opt.Valid]
  | G => simp [optionCase, Opt.Valid]
  | missing => simp [optionCase, Opt.Valid]
  | unknown => simp [optionCase, Opt.Valid]

theorem parseOptions_valid_iff (opts : List Opt) (ctx : Context)
    (nul : ∀ o ∈ opts, o.NulBehindCopy) :
    (∃ parsed, parseOptions opts ctx = some (0, parsed)) ↔ ∀ o ∈ opts, o.Valid := by
  induction opts generalizing ctx with
  | nil => simp [parseOptions]
  | cons o rest ih =>
    have hcase := optionCase_valid_iff o ctx (nul o (List.mem_cons_self ..))
    have hrest := fun ctx' => ih ctx' fun o' ho => nul o' (List.mem_cons_of_mem _ ho)
    rw [List.forall_mem_cons, ← hcase]
    refine ⟨?_, ?_⟩
    · intro haccept
      obtain ⟨parsed, hparse⟩ := haccept
      simp only [parseOptions] at hparse
      split at hparse
      · cases hparse
      next parseError ctx' hstep =>
        cases parseError with
        | true => cases hparse
        | false => exact ⟨⟨ctx', hstep⟩, (hrest ctx').mp ⟨parsed, hparse⟩⟩
    · intro hvalid
      obtain ⟨⟨ctx', hstep⟩, hall⟩ := hvalid
      obtain ⟨parsed, hparse⟩ := (hrest ctx').mpr hall
      refine ⟨parsed, ?_⟩
      simp only [parseOptions, hstep]
      exact hparse

/-! ### Accepted command lines -/

/-- One of the options that choose a utility, or an address for the default one. -/
def SelectsMode (opts : List Opt) : Prop :=
  lastValue .A opts ≠ none ∨ lastValue .G opts ≠ none ∨ lastValue .L opts ≠ none

theorem configsCheck_passes (ctx : Context) (h : ctx.settings.passes) :
    ∃ ctx', configsCheck ctx = (0, ctx') := by
  have hmode := mode_settings ctx
  unfold Settings.passes at h
  unfold configsCheck
  by_cases htree : ctx.isListWorkgroupMode = true
  · rw [if_pos htree]
    exact ⟨ctx, rfl⟩
  · rw [if_neg htree]
    rw [if_neg htree] at hmode
    by_cases hlookup : ctx.isListComputerMode = true
    · rw [if_pos hlookup] at hmode
      simp only [hmode] at h
      rw [if_pos hlookup, utilNmblookupCheckConfig]
      have hsome : ctx.smbWorkgroups.isNone = false := by
        cases hgroups : ctx.smbWorkgroups with
        | none => exact absurd hgroups h
        | some names => rfl
      rw [hsome]
      exact ⟨ctx, rfl⟩
    · rw [if_neg hlookup] at hmode
      simp only [hmode] at h
      rw [if_neg hlookup, utilSmbclientCheckConfig]
      have hfirst : ctx.smbIpv4Url.first ≠ 0 := fun h0 =>
        h ((CharArray.first_eq_zero_iff _).mp h0)
      rw [if_neg hfirst]
      exact ⟨_, rfl⟩

theorem finalSettings_passes_iff (opts : List Opt) (nul : ∀ o ∈ opts, o.NulBehindCopy) :
    (finalSettings opts).passes ↔ SelectsMode opts := by
  unfold Settings.passes SelectsMode
  cases hmode : (finalSettings opts).mode with
  | smbtree =>
    have hG := (mode_iff opts .smbtree).mp hmode
    exact ⟨fun _ => Or.inr (Or.inl hG), fun _ => trivial⟩
  | nmblookup =>
    have hL := ((mode_iff opts .nmblookup).mp hmode).2
    refine ⟨fun _ => Or.inr (Or.inr hL), fun _ => ?_⟩
    rw [lastValue_L] at hL
    cases hsplit : lastSplit opts with
    | none => exact absurd (by rw [hsplit]; rfl) hL
    | some p =>
      obtain ⟨v, env⟩ := p
      obtain ⟨names, hlisted, -⟩ := listedNames_spec v env (lastSplit_nul opts v env nul hsplit)
      simp [finalSettings, hsplit, hlisted]
  | smbclient =>
    obtain ⟨hG, hL⟩ := (mode_iff opts .smbclient).mp hmode
    simp only [hG, hL, ne_eq, not_true_eq_false, or_false]
    cases hA : lastValue .A opts with
    | none => simp [finalSettings, hA]
    | some v =>
      have hne : inetNtoa (inetAddr v) ≠ .empty := (inetNtoa_dottedQuad _).ne_empty
      simp [finalSettings, hA, hne]

theorem accepted_iff (opts : List Opt) (s : Settings) (nul : ∀ o ∈ opts, o.NulBehindCopy) :
    (∃ ctx, Accepted opts ctx ∧ ctx.settings = s) ↔
      (∀ o ∈ opts, o.Valid) ∧ SelectsMode opts ∧ s = (finalSettings opts).checked := by
  refine ⟨?_, ?_⟩
  · intro haccepted
    obtain ⟨ctx, hctx, hs⟩ := haccepted
    obtain ⟨hpass, hset⟩ := hctx.settings
    obtain ⟨parsed, hparse, -⟩ := hctx
    refine ⟨(parseOptions_valid_iff opts .zero nul).mp ⟨parsed, hparse⟩, ?_, ?_⟩
    · exact (finalSettings_passes_iff opts nul).mp hpass
    · rw [← hs, hset]
  · intro hvalid
    obtain ⟨hall, hmode, hs⟩ := hvalid
    obtain ⟨parsed, hparse⟩ := (parseOptions_valid_iff opts .zero nul).mpr hall
    have hset := parseOptions_settings opts parsed hparse
    have hpass := (finalSettings_passes_iff opts nul).mpr hmode
    rw [← hset] at hpass
    obtain ⟨ctx, hcheck⟩ := configsCheck_passes parsed hpass
    refine ⟨ctx, ⟨parsed, hparse, hcheck⟩, ?_⟩
    rw [(configsCheck_settings parsed ctx hcheck).2, hset, hs]

theorem options_nul (mem : ℕ → SplitMemory) (tokens : List Token)
    (nul : ∀ k, (mem k).after.head? = some 0) : ∀ o ∈ options mem tokens, o.NulBehindCopy := by
  intro o ho
  obtain ⟨p, -, rfl⟩ := List.mem_map.mp ho
  obtain ⟨token, k⟩ := p
  cases token with
  | flag c =>
    simp only [optOf]
    split_ifs <;> trivial
  | value c v =>
    simp only [optOf]
    split_ifs <;> first | trivial | exact nul k
  | missing c => trivial
  | unknown c => trivial

/-- A command line is accepted exactly when it spells valid options with a mode among
them, and its settings are their last values after the check. -/
theorem commandLine_accepted_iff (mem : ℕ → SplitMemory) (argv : List CStr) (s : Settings)
    (nul : ∀ k, (mem k).after.head? = some 0) :
    (∃ ctx, Accepted (commandOptions mem argv) ctx ∧ ctx.settings = s) ↔
      ∃ tokens, Spells (optSpec optstring) argv tokens ∧
        (∀ o ∈ options mem tokens, o.Valid) ∧ SelectsMode (options mem tokens) ∧
        s = (finalSettings (options mem tokens)).checked := by
  have hread := fun tokens => getopt_iff (optSpec optstring) argv tokens
  have hiff := accepted_iff (commandOptions mem argv) s (options_nul mem _ nul)
  rw [hiff]
  refine ⟨?_, ?_⟩
  · intro haccepted
    exact ⟨_, (hread _).mp rfl, haccepted⟩
  · intro hspelled
    obtain ⟨tokens, hspells, haccepted⟩ := hspelled
    rw [commandOptions, (hread tokens).mpr hspells]
    exact haccepted

theorem clustered_flags_accepted :
    ∃ ctx, Accepted (commandOptions (fun _ => .plenty) [.lit "home", .lit "-GD"]) ctx ∧
      ctx.settings = { Settings.initial with listWorkgroups := true, daemonize := true } := by
  have hoptions : options (fun _ => .plenty) [.flag 71, .flag 68] = [.G, .D] := rfl
  refine (commandLine_accepted_iff (fun _ => .plenty) _ _ fun _ => rfl).mpr
    ⟨[.flag 71, .flag 68], (getopt_iff _ _ _).mp (by decide +kernel), ?_, ?_, ?_⟩
  · rw [hoptions]
    simp [Opt.Valid]
  · rw [hoptions]
    exact Or.inr (Or.inl (by decide))
  · rw [hoptions]
    rfl

end SmbDiscover

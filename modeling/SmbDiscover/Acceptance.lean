import SmbDiscover.Configs

/-!
# What acceptance guarantees

Two results about command lines that `_parse_options` and `_configs_check` accept:
which of them satisfy the precondition of the utility they select, and that the
settings depend on the last value of every option only. Both assume that a NUL
follows each copy that the splitter makes.
-/

namespace SmbDiscover
open CText ListText

/-- A NUL follows the copy in the splitter's call for this option. -/
def Opt.NulBehindCopy : Opt → Prop
  | .L _ env => env.after.head? = some 0
  | _ => True

theorem listedNames_spec (v : CStr) (env : SplitMemory) (h : env.after.head? = some 0) :
    ∃ names, listedNames (v, env) = some names ∧
      names.map CStr.bytes = kept env.string 0 (fields 58 v.bytes) := by
  obtain ⟨st, hst, hnames⟩ := splitWorkgroups_spec env v h
  refine ⟨st.names, ?_, hnames⟩
  rw [listedNames, hst, Option.map_some]

theorem lastSplit_nul (opts : List Opt) (v : CStr) (env : SplitMemory)
    (nul : ∀ o ∈ opts, o.NulBehindCopy) (h : lastSplit opts = some (v, env)) :
    env.after.head? = some 0 := nul _ (lastSplit_mem opts v env h)

/-! ### Preconditions of the utilities -/

def Usable (ctx : Context) : Prop :=
  match ctx.settings.mode with
  | .smbtree => True
  | .nmblookup => ∃ names, ctx.smbWorkgroups = some names ∧ names ≠ [] ∧
      ∀ n ∈ names, n ≠ .empty ∧ 58 ∉ n.bytes
  | .smbclient => DottedQuad ctx.smbIpv4Url.str ∧ ctx.smbIpv4Url.str.length ≤ 15 ∧
      1 ≤ ctx.smbMaxDirCount.toNat ∧ (ctx.smbUsername.str = .empty → ctx.smbPassword.str = .empty)

/-- Unless `-G` is given, the last `-L` has a field whose string is allocated. -/
def NamesWorkgroup (opts : List Opt) : Prop :=
  lastValue .G opts = none → ∀ v env, lastSplit opts = some (v, env) →
    ∃ i < (fields 58 v.bytes).length, env.string i = true

theorem listed_wellFormed (v : CStr) (env : SplitMemory) (names : List CStr)
    (hnames : names.map CStr.bytes = kept env.string 0 (fields 58 v.bytes)) :
    ∀ n ∈ names, n ≠ .empty ∧ 58 ∉ n.bytes := by
  intro n hn
  have hmem : n.bytes ∈ kept env.string 0 (fields 58 v.bytes) := by
    rw [← hnames]
    exact List.mem_map_of_mem hn
  have hfield := mem_fields 58 v.bytes n.bytes ((kept_sublist env.string _ 0).subset hmem)
  exact ⟨fun h => hfield.1 ((CStr.eq_empty_iff n).mp h), hfield.2⟩

/-- The options that select a mode. -/
def Selects (opts : List Opt) : Mode → Prop
  | .smbtree => lastValue .G opts ≠ none
  | .nmblookup => lastValue .G opts = none ∧ lastValue .L opts ≠ none
  | .smbclient => lastValue .G opts = none ∧ lastValue .L opts = none

theorem mode_iff (opts : List Opt) (m : Mode) : (finalSettings opts).mode = m ↔ Selects opts m := by
  cases m <;> cases hG : lastValue .G opts <;> cases hL : lastValue .L opts <;>
    simp [Selects, finalSettings, Settings.mode, hG, hL]

theorem smbclient_usable (opts : List Opt) (ctx : Context) (h : Accepted opts ctx)
    (hmode : ctx.settings.mode = .smbclient) :
    DottedQuad ctx.smbIpv4Url.str ∧ ctx.smbIpv4Url.str.length ≤ 15 ∧
      1 ≤ ctx.smbMaxDirCount.toNat ∧
      (ctx.smbUsername.str = .empty → ctx.smbPassword.str = .empty) := by
  obtain ⟨hpass, hset⟩ := h.settings
  have hfinal : (finalSettings opts).mode = .smbclient := h.mode ▸ hmode
  simp only [Settings.passes, Settings.checked, hfinal] at hpass hset
  have hurl : ctx.smbIpv4Url.str = (finalSettings opts).ipv4Url := congrArg Settings.ipv4Url hset
  have huser : ctx.smbUsername.str = (finalSettings opts).username :=
    congrArg Settings.username hset
  have hword := congrArg Settings.password hset
  have hmax := congrArg Settings.maxDirCount hset
  have hquad : DottedQuad ctx.smbIpv4Url.str := by
    rw [hurl]
    cases hA : lastValue .A opts with
    | none => exact absurd (by simp [finalSettings, hA]) hpass
    | some v =>
      have heq : (finalSettings opts).ipv4Url = inetNtoa (inetAddr v) := by
        simp [finalSettings, hA]
      rw [heq]
      exact inetNtoa_dottedQuad _
  refine ⟨hquad, hquad.length_le, ?_, ?_⟩
  · show 1 ≤ ctx.settings.maxDirCount.toNat
    rw [hmax]
    dsimp only
    split
    · decide
    next hne =>
      have hpos : (finalSettings opts).maxDirCount.toNat ≠ 0 := fun h0 =>
        hne (BitVec.eq_of_toNat_eq h0)
      omega
  · intro hempty
    show ctx.settings.password = .empty
    rw [hword]
    exact if_pos (huser ▸ hempty)

theorem nmblookup_usable (opts : List Opt) (ctx : Context) (h : Accepted opts ctx)
    (nul : ∀ o ∈ opts, o.NulBehindCopy) (hmode : ctx.settings.mode = .nmblookup) :
    ∃ v env names, lastSplit opts = some (v, env) ∧ ctx.smbWorkgroups = some names ∧
      names.map CStr.bytes = kept env.string 0 (fields 58 v.bytes) := by
  obtain ⟨-, hset⟩ := h.settings
  have hfinal : (finalSettings opts).mode = .nmblookup := h.mode ▸ hmode
  rw [checked_of_ne_smbclient _ (by rw [hfinal]; decide)] at hset
  have hL := ((mode_iff opts .nmblookup).mp hfinal).2
  rw [lastValue_L] at hL
  cases hsplit : lastSplit opts with
  | none => exact absurd (by rw [hsplit]; rfl) hL
  | some p =>
    obtain ⟨v, env⟩ := p
    obtain ⟨names, hlisted, hbytes⟩ :=
      listedNames_spec v env (lastSplit_nul opts v env nul hsplit)
    refine ⟨v, env, names, rfl, ?_, hbytes⟩
    have hgroups : ctx.smbWorkgroups = (finalSettings opts).workgroups :=
      congrArg Settings.workgroups hset
    rw [hgroups, finalSettings, hsplit]
    exact hlisted

/-- Accepted configurations are usable exactly when a workgroup is named. -/
theorem accepted_usable_iff (opts : List Opt) (ctx : Context) (h : Accepted opts ctx)
    (nul : ∀ o ∈ opts, o.NulBehindCopy) : Usable ctx ↔ NamesWorkgroup opts := by
  have hmode := h.mode
  unfold Usable
  split
  next htree =>
    rw [htree] at hmode
    have hG := (mode_iff opts .smbtree).mp hmode.symm
    exact ⟨fun _ hnone => absurd hnone hG, fun _ => trivial⟩
  next hlookup =>
    obtain ⟨v, env, names, hsplit, hgroups, hbytes⟩ := nmblookup_usable opts ctx h nul hlookup
    have hG := ((mode_iff opts .nmblookup).mp (hmode ▸ hlookup)).1
    have hne : names ≠ [] ↔ ∃ i < (fields 58 v.bytes).length, env.string i = true := by
      have hkept := kept_ne_nil_iff env.string (fields 58 v.bytes) 0
      simp only [Nat.zero_add] at hkept
      rw [← hkept, ← hbytes]
      exact not_congr List.map_eq_nil_iff.symm
    constructor
    · rintro ⟨names', hgroups', hne', -⟩ - v' env' hsplit'
      rw [hgroups] at hgroups'
      rw [hsplit] at hsplit'
      cases hgroups'
      cases hsplit'
      exact hne.mp hne'
    · intro hnamed
      exact ⟨names, hgroups, hne.mpr (hnamed hG v env hsplit),
        listed_wellFormed v env names hbytes⟩
  next hclient =>
    have hL := ((mode_iff opts .smbclient).mp (hmode ▸ hclient)).2
    rw [lastValue_L, Option.map_eq_none_iff] at hL
    have hsat := smbclient_usable opts ctx h hclient
    refine ⟨fun _ _ v env hsplit => ?_, fun _ => hsat⟩
    rw [hL] at hsplit
    cases hsplit

theorem colon_accepted_unusable :
    ∃ ctx, Accepted [.L (.lit ":") .plenty] ctx ∧ ¬ Usable ctx := by
  refine ⟨{ Context.zero with isListComputerMode := true, smbWorkgroups := some [] },
    ⟨_, rfl, rfl⟩, ?_⟩
  intro h
  obtain ⟨names, hnames, hne, -⟩ := h
  cases hnames
  exact hne rfl

theorem two_names_usable :
    ∃ ctx, Accepted [.L (.lit "HOME:WORK") .plenty] ctx ∧ Usable ctx := by
  have h := accepted_run [.L (.lit "HOME:WORK") .plenty] (by decide +kernel)
  have nul : ∀ o ∈ [Opt.L (.lit "HOME:WORK") .plenty], o.NulBehindCopy := by
    intro o ho
    rw [List.mem_singleton.mp ho]
    rfl
  refine ⟨_, h, (accepted_usable_iff _ _ h nul).mpr ?_⟩
  intro _ v env hsplit
  cases hsplit
  exact ⟨0, by decide +kernel, rfl⟩

/-! ### Only the last value of an option matters -/

def lastStrings (opts : List Opt) : Option (ℕ → Bool) :=
  (lastSplit opts).map fun p => p.2.string

theorem listedNames_congr (v : CStr) (env₁ env₂ : SplitMemory)
    (h₁ : env₁.after.head? = some 0) (h₂ : env₂.after.head? = some 0)
    (hstrings : env₁.string = env₂.string) :
    listedNames (v, env₁) = listedNames (v, env₂) := by
  obtain ⟨names₁, hlisted₁, hbytes₁⟩ := listedNames_spec v env₁ h₁
  obtain ⟨names₂, hlisted₂, hbytes₂⟩ := listedNames_spec v env₂ h₂
  have hbytes : names₁.map CStr.bytes = names₂.map CStr.bytes := by
    rw [hbytes₁, hbytes₂, hstrings]
  rw [hlisted₁, hlisted₂, List.map_injective_iff.mpr CStr.bytes_injective hbytes]

theorem listed_congr (opts₁ opts₂ : List Opt)
    (same : lastValue .L opts₁ = lastValue .L opts₂)
    (strings : lastStrings opts₁ = lastStrings opts₂)
    (nul₁ : ∀ o ∈ opts₁, o.NulBehindCopy) (nul₂ : ∀ o ∈ opts₂, o.NulBehindCopy) :
    (finalSettings opts₁).workgroups = (finalSettings opts₂).workgroups := by
  rw [lastValue_L, lastValue_L] at same
  unfold lastStrings at strings
  simp only [finalSettings]
  cases h₁ : lastSplit opts₁ with
  | none =>
    rw [h₁, Option.map_none, eq_comm, Option.map_eq_none_iff] at same
    rw [same]
  | some p₁ =>
    cases h₂ : lastSplit opts₂ with
    | none =>
      rw [h₁, h₂] at same
      cases same
    | some p₂ =>
      obtain ⟨v₁, env₁⟩ := p₁
      obtain ⟨v₂, env₂⟩ := p₂
      simp only [h₁, h₂, Option.map_some, Option.some.injEq] at same strings
      subst same
      exact listedNames_congr v₁ env₁ env₂ (lastSplit_nul opts₁ v₁ env₁ nul₁ h₁)
        (lastSplit_nul opts₂ v₁ env₂ nul₂ h₂) strings

theorem storedPath_none (opts : List Opt) (noK : ∀ o ∈ opts, o.letter ≠ some .K) :
    lastSome Opt.storedPath opts = none := by
  rw [lastSome_eq_none_iff]
  intro o ho
  have hK := noK o ho
  cases o with
  | K v => exact absurd rfl hK
  | _ => rfl

/-- Two accepted command lines without `-K` that agree in the last value of every
option leave the same settings, whatever came before and in whatever order. -/
theorem parseOptions_lastWins (opts₁ opts₂ : List Opt) (ctx₁ ctx₂ : Context)
    (h₁ : parseOptions opts₁ .zero = some (0, ctx₁))
    (h₂ : parseOptions opts₂ .zero = some (0, ctx₂))
    (noK : ∀ o ∈ opts₁ ++ opts₂, o.letter ≠ some .K)
    (same : ∀ l, lastValue l opts₁ = lastValue l opts₂)
    (strings : lastStrings opts₁ = lastStrings opts₂)
    (nul : ∀ o ∈ opts₁ ++ opts₂, o.NulBehindCopy) :
    ctx₁.settings = ctx₂.settings := by
  have hpath₁ := storedPath_none opts₁ fun o ho => noK o (List.mem_append_left _ ho)
  have hpath₂ := storedPath_none opts₂ fun o ho => noK o (List.mem_append_right _ ho)
  have hgroups := listed_congr opts₁ opts₂ (same .L) strings
    (fun o ho => nul o (List.mem_append_left _ ho))
    (fun o ho => nul o (List.mem_append_right _ ho))
  rw [parseOptions_settings opts₁ ctx₁ h₁, parseOptions_settings opts₂ ctx₂ h₂]
  ext1
  · simp only [finalSettings, same .A]
  · simp only [finalSettings, same .U]
  · simp only [finalSettings, same .P]
  · simp only [finalSettings, hpath₁, hpath₂]
  · simp only [finalSettings, same .T]
  · simp only [finalSettings, same .M]
  · simp only [finalSettings, same .D]
  · simp only [finalSettings, same .G]
  · simp only [finalSettings, same .L]
  · exact hgroups

def orderedLine : List Opt :=
  [.U (.lit "alice"), .L (.lit "HOME") .plenty, .A (.lit "10.0.0.1")]

def shuffledLine : List Opt :=
  [.A (.lit "10.0.0.9"), .L (.lit "A:B") .plenty, .A (.lit "10.0.0.1"), .U (.lit "bobby"),
    .L (.lit "HOME") .plenty, .U (.lit "alice")]

theorem shuffled_same_settings : ∃ ctx₁ ctx₂, parseOptions orderedLine .zero = some (0, ctx₁) ∧
    parseOptions shuffledLine .zero = some (0, ctx₂) ∧ ctx₁.settings = ctx₂.settings := by
  obtain ⟨ctx₁, h₁, -⟩ := accepted_run orderedLine (by decide +kernel)
  obtain ⟨ctx₂, h₂, -⟩ := accepted_run shuffledLine (by decide +kernel)
  have hletters : ∀ o ∈ orderedLine ++ shuffledLine, o.letter ≠ some .K := by
    simp [orderedLine, shuffledLine, Opt.letter]
  have nul : ∀ o ∈ orderedLine ++ shuffledLine, o.NulBehindCopy := by
    simp [orderedLine, shuffledLine, Opt.NulBehindCopy, SplitMemory.plenty]
  have same : ∀ l, lastValue l orderedLine = lastValue l shuffledLine := by
    intro l
    cases l <;> decide +kernel
  exact ⟨ctx₁, ctx₂, h₁, h₂, parseOptions_lastWins _ _ _ _ h₁ h₂ hletters same rfl nul⟩

end SmbDiscover

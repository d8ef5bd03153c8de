import SmbDiscover.Request

/-!
# The way to the invoker (smb_discover.c:244-248 and 362-399)

What becomes of a `-K` value. `_parse_options` drops it without an error when it
has 255 bytes or more, and `strncpy` into `sun_path` leaves no terminator when it
has 108 bytes or more.
-/

namespace SmbDiscover
open CText ListText

theorem connect_mem_iff (util : Utilities) (env : RequestEnv) (ctx : Context) (fd : ℕ)
    (sunPath : CharArray sunPathSize) (connected : Bool) :
    .connect fd sunPath connected ∈ (executeSmbRequest util env ctx).2 ↔
      .connect fd sunPath connected ∈ (openInvoker env ctx).2 := by
  have hbefore : Event.connect fd sunPath connected ∈ beforeUtility env ctx ↔
      Event.connect fd sunPath connected ∈ (openInvoker env ctx).2 := by
    simp only [beforeUtility, daemonize, reportSelfToServer, writeTo, List.mem_append]
    split <;> simp
  unfold executeSmbRequest
  cases util.run ctx with
  | none => exact hbefore
  | some p =>
    obtain ⟨response, calls⟩ := p
    have hsent : Event.connect fd sunPath connected ∉
        (sendResponse env (openInvoker env ctx).1 response).2 := by
      cases response with
      | none => simp [sendResponse]
      | some response =>
        simp only [sendResponse]
        split <;> simp [writeTo]
    have hclose : Event.connect fd sunPath connected ∉ closeInvoker (openInvoker env ctx).1 := by
      unfold closeInvoker
      split <;> simp
    simp only [List.mem_append, hbefore, hsent, hclose, or_false, List.mem_map, reduceCtorEq,
      and_false, exists_false]

theorem openInvoker_connect (env : RequestEnv) (ctx : Context) (fd : ℕ)
    (sunPath : CharArray sunPathSize) (connected : Bool)
    (h : .connect fd sunPath connected ∈ (openInvoker env ctx).2) :
    env.socket = some fd ∧ sunPath = .strncpy sunPathSize ctx.smbSrvPath.str := by
  unfold openInvoker at h
  split at h
  · split at h
    · simp at h
    next n hsock =>
      rw [hsock]
      split at h
      · simp at h
        exact ⟨by rw [h.1], h.2.1⟩
      · split at h
        · simp at h
          exact ⟨by rw [h.1], h.2.1⟩
        · simp at h
          exact ⟨by rw [h.1], h.2.1⟩
  · simp at h

theorem openInvoker_connects (env : RequestEnv) (ctx : Context) (fd : ℕ)
    (hpath : ctx.smbSrvPath.first ≠ 0) (hsock : env.socket = some fd) :
    .connect fd (.strncpy sunPathSize ctx.smbSrvPath.str) env.connect ∈
      (openInvoker env ctx).2 := by
  unfold openInvoker
  rw [if_pos hpath]
  simp only [hsock]
  split_ifs <;> simp

theorem openInvoker_stdout (env : RequestEnv) (ctx : Context)
    (hpath : ctx.smbSrvPath.first ≠ 0) (h : (openInvoker env ctx).1 = 1) :
    env.socket = some 1 := by
  unfold openInvoker at h
  rw [if_pos hpath] at h
  cases hsock : env.socket with
  | none => simp [hsock] at h
  | some fd =>
    simp only [hsock] at h
    split at h
    · exact congrArg some (by omega)
    · split at h
      · simp at h
      · exact congrArg some (by omega)

/-- `connect` gets a terminated address with this path, and nothing is written to
descriptor 1 unless `socket` returned it. -/
def Routed (util : Utilities) (env : RequestEnv) (ctx : Context) (path : CStr) : Prop :=
  (∃ fd sunPath connected, .connect fd sunPath connected ∈ (executeSmbRequest util env ctx).2 ∧
    sunPath.Terminated ∧ sunPath.str = path) ∧
  ∀ msg buffer written, .write msg 1 buffer written ∈ (executeSmbRequest util env ctx).2 →
    env.socket = some 1

theorem routed_fits (util : Utilities) (env : RequestEnv) (ctx : Context) (path : CStr)
    (h : Routed util env ctx path) : env.socket ≠ none ∧ path.length < sunPathSize := by
  obtain ⟨⟨fd, sunPath, connected, hmem, hterm, hstr⟩, -⟩ := h
  rw [connect_mem_iff] at hmem
  obtain ⟨hsock, rfl⟩ := openInvoker_connect env ctx fd sunPath connected hmem
  have hfits : ctx.smbSrvPath.str.length < sunPathSize := by
    by_contra hlong
    exact CharArray.strncpy_of_long _ (not_lt.mp hlong) hterm
  rw [(CharArray.strncpy_of_fits _ hfits).2] at hstr
  exact ⟨by rw [hsock]; simp, hstr ▸ hfits⟩

theorem write_fd (util : Utilities) (env : RequestEnv) (ctx : Context) (msg : Message) (fd : ℤ)
    (buffer : List Byte) (written : Option ℕ)
    (h : .write msg fd buffer written ∈ (executeSmbRequest util env ctx).2) :
    (openInvoker env ctx).1 = fd := by
  rcases (write_mem_iff util env ctx msg fd buffer written).mp h with hreport | ⟨text, -, htext⟩
  · simp only [reportSelfToServer, writeTo, Event.write.injEq] at hreport
    exact hreport.2.1.symm
  · simp only [writeTo, Event.write.injEq] at htext
    exact htext.2.1.symm

theorem routed_of_stored (util : Utilities) (env : RequestEnv) (ctx : Context)
    (hne : ctx.smbSrvPath.str ≠ .empty) (hsock : env.socket ≠ none)
    (hfits : ctx.smbSrvPath.str.length < sunPathSize) :
    Routed util env ctx ctx.smbSrvPath.str := by
  have hpath : ctx.smbSrvPath.first ≠ 0 := fun h0 =>
    hne ((CharArray.first_eq_zero_iff _).mp h0)
  obtain ⟨fd, hfd⟩ := Option.ne_none_iff_exists'.mp hsock
  obtain ⟨hterm, hstr⟩ := CharArray.strncpy_of_fits _ hfits
  constructor
  · exact ⟨fd, _, env.connect, (connect_mem_iff ..).mpr (openInvoker_connects env ctx fd hpath hfd),
      hterm, hstr⟩
  · intro msg buffer written hmem
    exact openInvoker_stdout env ctx hpath (write_fd util env ctx msg 1 buffer written hmem)

/-! ### The stored path -/

theorem configsCheck_srvPath (ctx : Context) :
    (configsCheck ctx).2.smbSrvPath = ctx.smbSrvPath := by
  unfold configsCheck utilSmbtreeCheckConfig utilNmblookupCheckConfig utilSmbclientCheckConfig
    defaultDirCount dropPassword
  split_ifs <;> rfl

theorem storedPath_eq : Opt.storedPath = fun o =>
    (Opt.given .K o).filter fun v => decide (v.length < dirNameLenMax) := by
  funext o
  cases o with
  | K v =>
    have hgiven : Opt.given .K (.K v) = some v := rfl
    rw [hgiven, Option.filter_some]
    simp [Opt.storedPath]
  | _ => rfl

theorem stored_srvPath (opts : List Opt) (ctx : Context) (path : CStr)
    (h : parseOptions opts .zero = some (0, ctx)) (hK : lastValue .K opts = some path)
    (hfits : path.length < dirNameLenMax) : ctx.smbSrvPath.str = path := by
  have hset : ctx.smbSrvPath.str = (finalSettings opts).srvPath :=
    congrArg Settings.srvPath (parseOptions_settings opts ctx h)
  have hlast : lastSome Opt.storedPath opts = some path := by
    rw [storedPath_eq]
    exact lastSome_of_passes _ _ opts path hK (decide_eq_true hfits)
  rw [hset, finalSettings, hlast, Option.getD_some]

/-- The path of the last `-K` reaches `connect` exactly when it fits into
`sun_path` with its terminator. -/
theorem srvPath_routed_iff (opts : List Opt) (ctx : Context) (path : CStr)
    (h : parseOptions opts .zero = some (0, ctx)) (hK : lastValue .K opts = some path)
    (hne : path ≠ .empty) (util : Utilities) (env : RequestEnv) :
    Routed util env (configsCheck ctx).2 path ↔
      env.socket ≠ none ∧ path.length < sunPathSize := by
  constructor
  · exact routed_fits util env _ path
  · intro hfits
    have hstored := stored_srvPath opts ctx path h hK (by
      have := hfits.2
      unfold sunPathSize at this
      unfold dirNameLenMax nameMax
      omega)
    rw [← configsCheck_srvPath] at hstored
    have hrouted := routed_of_stored util env (configsCheck ctx).2 (by rw [hstored]; exact hne)
      hfits.1 (by rw [hstored]; exact hfits.2)
    rw [hstored] at hrouted
    exact hrouted

def longPath : CStr := ⟨List.replicate 255 97, fun b hb => by
  rw [List.eq_of_mem_replicate hb]
  decide⟩

theorem long_path_dropped : ∃ ctx,
    parseOptions [.A (.lit "10.0.0.1"), .K longPath] .zero = some (0, ctx) ∧
      ¬ Routed (returning none) quietSystem (configsCheck ctx).2 longPath := by
  obtain ⟨ctx, hparse, -⟩ :=
    accepted_run [.A (.lit "10.0.0.1"), .K longPath] (by decide +kernel)
  refine ⟨ctx, hparse, fun hrouted => ?_⟩
  have hlen : ¬ longPath.length < sunPathSize := by decide +kernel
  exact hlen (routed_fits _ _ _ _ hrouted).2

theorem short_path_routed : ∃ ctx,
    parseOptions [.A (.lit "10.0.0.1"), .K (.lit "/tmp/smb")] .zero = some (0, ctx) ∧
      Routed (returning none) quietSystem (configsCheck ctx).2 (.lit "/tmp/smb") := by
  obtain ⟨ctx, hparse, -⟩ :=
    accepted_run [.A (.lit "10.0.0.1"), .K (.lit "/tmp/smb")] (by decide +kernel)
  refine ⟨ctx, hparse, ?_⟩
  exact (srvPath_routed_iff _ ctx _ hparse rfl (by decide +kernel) _ quietSystem).mpr
    ⟨by simp [quietSystem], by decide +kernel⟩

end SmbDiscover

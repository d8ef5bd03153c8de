import SmbDiscover.Printing
import SmbDiscover.Request

/-!
# What the invoker decodes (smb_discover.c:307-486)

The invoker cuts what it receives at NUL bytes and decodes each complete message as a
JSON text. Whenever a run is cut short, the messages that it has are the first of: the
report, the response.
-/

namespace SmbDiscover
open CText CJson JsonText ChannelText

/-! ### The report -/

def reportMembers (mode : String) (pid : ℤ) : List (List Byte × Json) :=
  [(ascii "command", .str (ascii "report self")), (ascii "mode", .str (ascii mode)),
    (ascii "pid", .num (formatInt pid).bytes)]

/-- The value of the report that is not cut. -/
def reportValue (ctx : Context) (pid : ℤ) : Json :=
  match ctx.settings.mode with
  | .smbtree => .obj (reportMembers "smbtree" pid)
  | .nmblookup => .obj (reportMembers "nmblookup" pid)
  | .smbclient => .obj (decodedMembers ctx.smbIpv4Url.str.bytes ctx.smbUsername.str.bytes
      ctx.smbPassword.str.bytes pid)

/-- The report is not cut, and in smbclient mode it inserts plain texts only. -/
def ReportReadable (ctx : Context) (pid : ℤ) : Prop :=
  (reportText ctx pid).length < 255 ∧ (ctx.settings.mode = .smbclient →
    PlainText ctx.smbIpv4Url.str.bytes ∧ PlainText ctx.smbUsername.str.bytes ∧
      PlainText ctx.smbPassword.str.bytes)

def modeMembers (mode : String) (pid : ℤ) : List Byte :=
  stringMember (ascii "command") (ascii "report self")
    (stringMember (ascii "mode") (ascii mode) (pidMember pid))

theorem modeMembers_decode (mode : String) (pid : ℤ) (hmode : PlainText (ascii mode)) :
    Decodes (123 :: modeMembers mode pid) (.obj (reportMembers mode pid)) := by
  refine (decodes_object_iff _ _).mpr ⟨4, [], ?_, rfl⟩
  show parseMembers 4 (modeMembers mode pid) = some (reportMembers mode pid, [])
  unfold modeMembers
  rw [parseMembers_stringMember 2 _ _ _ (by decide) (by decide),
    parseMembers_stringMember 1 _ _ _ (by decide) hmode, pidMember,
    parseMembers_number 0 _ pid [] (by decide)]
  rfl

theorem smbtree_flag (ctx : Context) (h : ctx.settings.mode = .smbtree) :
    ctx.isListWorkgroupMode = true := by
  rw [mode_settings] at h
  split at h
  next hg => exact hg
  next => split at h <;> cases h

theorem nmblookup_flags (ctx : Context) (h : ctx.settings.mode = .nmblookup) :
    ctx.isListWorkgroupMode = false ∧ ctx.isListComputerMode = true := by
  rw [mode_settings] at h
  split at h
  next => cases h
  next hg =>
    split at h
    next hl => exact ⟨Bool.eq_false_iff.mpr hg, hl⟩
    next => cases h

theorem reportText_smbtree (ctx : Context) (pid : ℤ) (h : ctx.settings.mode = .smbtree) :
    (reportText ctx pid).bytes = 123 :: modeMembers "smbtree" pid := by
  have hflag := smbtree_flag ctx h
  have htext : (CStr.lit "\x7b\"command\":\"report self\",\"mode\":\"smbtree\",\"pid\":").bytes =
      123 :: stringMember (ascii "command") (ascii "report self")
        (stringMember (ascii "mode") (ascii "smbtree") (34 :: (ascii "pid" ++ [34, 58]))) := by
    decide +kernel
  have hend : (CStr.lit "\x7d").bytes = [125] := by decide +kernel
  rw [reportText, if_pos hflag]
  simp only [CStr.bytes_append, htext, hend, modeMembers, stringMember, pidMember,
    List.append_assoc, List.cons_append, List.nil_append]

theorem reportText_nmblookup (ctx : Context) (pid : ℤ) (h : ctx.settings.mode = .nmblookup) :
    (reportText ctx pid).bytes = 123 :: modeMembers "nmblookup" pid := by
  have hflags := nmblookup_flags ctx h
  have htext : (CStr.lit "\x7b\"command\":\"report self\",\"mode\":\"nmblookup\",\"pid\":").bytes =
      123 :: stringMember (ascii "command") (ascii "report self")
        (stringMember (ascii "mode") (ascii "nmblookup") (34 :: (ascii "pid" ++ [34, 58]))) := by
    decide +kernel
  have hend : (CStr.lit "\x7d").bytes = [125] := by decide +kernel
  rw [reportText, hflags.1, hflags.2]
  simp only [Bool.false_eq_true, ite_false, ite_true, CStr.bytes_append, htext, hend, modeMembers,
    stringMember, pidMember, List.append_assoc, List.cons_append, List.nil_append]

theorem report_decodes (ctx : Context) (pid : ℤ) (h : ReportReadable ctx pid) :
    Decodes (reportMsg ctx pid).bytes (reportValue ctx pid) := by
  obtain ⟨hfit, hplain⟩ := h
  rw [reportMsg_of_fits ctx pid hfit]
  unfold reportValue
  cases hmode : ctx.settings.mode with
  | smbtree =>
    rw [reportText_smbtree ctx pid hmode]
    exact modeMembers_decode "smbtree" pid (by decide)
  | nmblookup =>
    rw [reportText_nmblookup ctx pid hmode]
    exact modeMembers_decode "nmblookup" pid (by decide)
  | smbclient =>
    obtain ⟨hip, huser, hword⟩ := hplain hmode
    have hparse := smbclientMembers_forward _ _ _ pid hip huser hword
    rw [reportText_smbclient ctx pid hmode]
    exact (decodes_object_iff _ _).mpr ⟨7, [], hparse, rfl⟩

/-! ### Both messages -/

def responseValue (util : Utilities) (env : RequestEnv) (ctx : Context) : Option Json :=
  match util.run ctx with
  | none => none
  | some (none, _) => none
  | some (some response, _) => if env.print then some response.value else none

/-- The values of the messages in the order of the run. -/
def messageValues (util : Utilities) (env : RequestEnv) (ctx : Context) : List Json :=
  reportValue ctx env.pid :: (responseValue util env ctx).toList

def messageTexts (util : Utilities) (env : RequestEnv) (ctx : Context) : List (List Byte) :=
  (reportMsg ctx env.pid).bytes :: ((responseText util env ctx).map CStr.bytes).toList

/-- The complete messages of `s` are texts of these values. -/
def Reads (s : List Byte) (values : List Json) : Prop := List.Forall₂ Decodes (frames 0 s) values

theorem frames_invokerStream (util : Utilities) (env : RequestEnv) (ctx : Context) :
    frames 0 (invokerStream util env ctx) = messageTexts util env ctx := by
  have hreport := (reportMsg ctx env.pid).zero_notMem
  unfold invokerStream messageTexts
  rw [CStr.withNul, List.append_assoc, List.singleton_append, frames_cut 0 _ _ hreport]
  cases responseText util env ctx with
  | none => rfl
  | some text =>
    show _ :: frames 0 (text.bytes ++ 0 :: []) = _
    rw [frames_cut 0 _ _ text.zero_notMem]
    rfl

theorem messageTexts_decode (util : Utilities) (env : RequestEnv) (ctx : Context)
    (h : ReportReadable ctx env.pid) :
    List.Forall₂ Decodes (messageTexts util env ctx) (messageValues util env ctx) := by
  refine List.Forall₂.cons (report_decodes ctx env.pid h) ?_
  unfold responseText responseValue
  cases util.run ctx with
  | none => exact List.Forall₂.nil
  | some p =>
    obtain ⟨response, calls⟩ := p
    cases response with
    | none => exact List.Forall₂.nil
    | some response =>
      cases env.print with
      | false => exact List.Forall₂.nil
      | true =>
        refine List.Forall₂.cons ?_ List.Forall₂.nil
        rw [printValue_bytes response 0]
        exact printText_decodes false response

theorem reads_prefix (util : Utilities) (env : RequestEnv) (ctx : Context) (s : List Byte)
    (h : ReportReadable ctx env.pid) (hs : s <+: invokerStream util env ctx) :
    ∃ values, values <+: messageValues util env ctx ∧ Reads s values := by
  have hframes := frames_mono 0 _ _ hs
  rw [frames_invokerStream] at hframes
  refine ⟨(messageValues util env ctx).take (frames 0 s).length, List.take_prefix _ _, ?_⟩
  unfold Reads
  rw [List.prefix_iff_eq_take.mp hframes, List.length_take]
  have hlen := hframes.length_le
  rw [min_eq_left hlen]
  exact List.forall₂_take _ (messageTexts_decode util env ctx h)

def ResponseWhole (util : Utilities) (env : RequestEnv) (ctx : Context) : Prop :=
  ∀ text, responseText util env ctx = some text →
    ∃ k, env.responseWrite = some k ∧ text.length < k

theorem received_whole (util : Utilities) (env : RequestEnv) (ctx : Context) (fd : ℤ)
    (hfd : invokerFd env ctx = some fd) (hreport : ReportWhole env ctx)
    (hresponse : ResponseWhole util env ctx) :
    received (writesOn fd (executeSmbRequest util env ctx).2) = invokerStream util env ctx := by
  have hwhole := (writeOf_whole_iff (reportMsg ctx env.pid) env.reportWrite).mpr hreport
  rw [writesOn_request util env ctx fd hfd]
  unfold received invokerStream
  rw [List.flatMap_cons, Write.taken_of_whole _ hwhole]
  cases htext : responseText util env ctx with
  | none => rfl
  | some text =>
    have hlast := (writeOf_whole_iff text env.responseWrite).mpr (hresponse text htext)
    simp only [Option.map_some, Option.toList_some, List.flatMap_cons, List.flatMap_nil,
      Write.taken_of_whole _ hlast, List.append_nil, Option.getD_some]
    rfl

theorem reads_now (util : Utilities) (env : RequestEnv) (ctx : Context) (fd : ℤ)
    (hfd : invokerFd env ctx = some fd) (hreadable : ReportReadable ctx env.pid)
    (hturn : ReportWhole env ctx ∨ ResponseHeld util env ctx) (now : List Event)
    (hnow : now <+: (executeSmbRequest util env ctx).2) :
    ∃ values, values <+: messageValues util env ctx ∧
      Reads (received (writesOn fd now)) values := by
  have hpairs := (request_inTurn_iff util env ctx fd hfd).mpr hturn
  have hprefix := received_so_far _ _ hpairs (hnow.filterMap (Event.writeOn fd))
  rw [messages_request util env ctx fd hfd] at hprefix
  exact reads_prefix util env ctx _ hreadable hprefix

theorem reads_end (util : Utilities) (env : RequestEnv) (ctx : Context) (fd : ℤ)
    (hfd : invokerFd env ctx = some fd) (hreadable : ReportReadable ctx env.pid)
    (hreport : ReportWhole env ctx) (hresponse : ResponseWhole util env ctx) :
    Reads (received (writesOn fd (executeSmbRequest util env ctx).2))
      (messageValues util env ctx) := by
  unfold Reads
  rw [received_whole util env ctx fd hfd hreport hresponse, frames_invokerStream]
  exact messageTexts_decode util env ctx hreadable

/-- Over a run whose writes keep their turn the invoker decodes, at every moment, the
first of the report's and the response's values, and both when the writes are whole. -/
theorem invoker_decodes (util : Utilities) (env : RequestEnv) (ctx : Context) (fd : ℤ)
    (hfd : invokerFd env ctx = some fd) (hreadable : ReportReadable ctx env.pid)
    (hturn : ReportWhole env ctx ∨ ResponseHeld util env ctx) :
    (∀ now, now <+: (executeSmbRequest util env ctx).2 → ∃ values,
      values <+: messageValues util env ctx ∧ Reads (received (writesOn fd now)) values) ∧
    (ReportWhole env ctx → ResponseWhole util env ctx →
      Reads (received (writesOn fd (executeSmbRequest util env ctx).2))
        (messageValues util env ctx)) :=
  ⟨reads_now util env ctx fd hfd hreadable hturn, reads_end util env ctx fd hfd hreadable⟩

theorem quiet_decodes :
    (∀ now, now <+: (executeSmbRequest (returning (some (.object []))) quietSystem
        anonymousContext).2 → ∃ values,
      values <+: messageValues (returning (some (.object []))) quietSystem anonymousContext ∧
        Reads (received (writesOn 1 now)) values) ∧
    (ReportWhole quietSystem anonymousContext →
      ResponseWhole (returning (some (.object []))) quietSystem anonymousContext →
        Reads (received (writesOn 1 (executeSmbRequest (returning (some (.object [])))
            quietSystem anonymousContext).2))
          (messageValues (returning (some (.object []))) quietSystem anonymousContext)) :=
  invoker_decodes _ quietSystem anonymousContext 1 (by decide +kernel)
    ⟨by decide +kernel, fun _ => by decide +kernel⟩ (Or.inl ⟨4096, rfl, by decide +kernel⟩)

end SmbDiscover

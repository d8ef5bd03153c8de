import SmbDiscover.Report
import SmbDiscover.Samba
import SmbDiscover.Lib.Framing

/-!
# One request (`_execute_smb_request`, smb_discover.c:356-486)

Socket, daemon, report, utility, response and cleanup, as a status and the list of
the calls made in order. A utility is given as what it returns on the context; it
may crash, and then the run ends behind the report. `write` on any descriptor
accepts any number of bytes or fails.
-/

namespace SmbDiscover
open CText CJson ChannelText

/-- `sizeof(address.sun_path)` on Linux. -/
def sunPathSize : ℕ := 108

inductive Message where
  | report
  | response
  deriving DecidableEq

/-- The calls of a run that reach the system or Samba, with what they answered. -/
inductive Event where
  | socket (fd : Option ℕ)
  | connect (fd : ℕ) (sunPath : CharArray sunPathSize) (connected : Bool)
  | daemon (detached : Bool)
  | write (msg : Message) (fd : ℤ) (buffer : List Byte) (written : Option ℕ)
  | samba (call : SambaCall)
  | close (fd : ℤ)

/-- Answers of the system to one request. A `write` accepts at most this many bytes
of its buffer, or fails. -/
structure RequestEnv where
  pid : ℤ
  socket : Option ℕ
  connect : Bool
  daemon : Bool
  reportWrite : Option ℕ
  print : Bool
  responseWrite : Option ℕ

/-- What each utility returns and calls on a context, or `none` for a crash. -/
structure Utilities where
  utilSmbtree : Context → Option (Option CJson × List SambaCall)
  utilNmblookup : Context → Option (Option CJson × List SambaCall)
  utilSmbclient : Context → Option (Option CJson × List SambaCall)

/-- The choice of the utility (smb_discover.c:418-429). -/
def Utilities.run (util : Utilities) (ctx : Context) : Option (Option CJson × List SambaCall) :=
  if ctx.isListWorkgroupMode then util.utilSmbtree ctx
  else if ctx.isListComputerMode then util.utilNmblookup ctx
  else util.utilSmbclient ctx

/-- `smbSrvFd` behind the first block, and the calls of the block. A descriptor 0
whose `connect` failed is neither closed nor dropped. -/
def openInvoker (env : RequestEnv) (ctx : Context) : ℤ × List Event :=
  if ctx.smbSrvPath.first ≠ 0 then
    match env.socket with
    | none => (-1, [.socket none])
    | some fd =>
      let sunPath := CharArray.strncpy sunPathSize ctx.smbSrvPath.str
      let calls := [.socket (some fd), .connect fd sunPath env.connect]
      if env.connect then (fd, calls)
      else if 0 < fd then (-1, calls ++ [.close fd])
      else (fd, calls)
  else (1, [])

/-- smb_discover.c:402-410; the answer of `daemon` is ignored. -/
def daemonize (env : RequestEnv) (ctx : Context) : List Event :=
  if ctx.shouldDaemonize then [.daemon env.daemon] else []

/-- A `write` of the text with its terminator. -/
def writeTo (msg : Message) (fd : ℤ) (text : CStr) (accepts : Option ℕ) : Event :=
  .write msg fd text.withNul (accepts.map (min text.withNul.length))

/-- smb_discover.c:307-353 -/
def reportSelfToServer (env : RequestEnv) (ctx : Context) (fd : ℤ) : Event :=
  writeTo .report fd (reportMsg ctx env.pid) env.reportWrite

/-- `funcStatus` and the `write` of the response. A failed or short `write` and a
failed print are only logged. -/
def sendResponse (env : RequestEnv) (fd : ℤ) : Option CJson → ℤ × List Event
  | none => (-1, [])
  | some response =>
    match printUnformatted env.print response with
    | some jsonStr => (0, [writeTo .response fd jsonStr env.responseWrite])
    | none => (0, [])

/-- smb_discover.c:475-478; descriptor 1 is closed too. -/
def closeInvoker (fd : ℤ) : List Event := if 0 < fd then [.close fd] else []

def beforeUtility (env : RequestEnv) (ctx : Context) : List Event :=
  (openInvoker env ctx).2 ++ daemonize env ctx ++
    [reportSelfToServer env ctx (openInvoker env ctx).1]

/-- smb_discover.c:356-486 -/
def executeSmbRequest (util : Utilities) (env : RequestEnv) (ctx : Context) :
    Option ℤ × List Event :=
  let smbSrvFd := (openInvoker env ctx).1
  match util.run ctx with
  | none => (none, beforeUtility env ctx)
  | some (response, calls) =>
    let sent := sendResponse env smbSrvFd response
    (some sent.1,
      beforeUtility env ctx ++ calls.map .samba ++ sent.2 ++ closeInvoker smbSrvFd)

/-- The descriptor on which the invoker reads, if there is one. -/
def invokerFd (env : RequestEnv) (ctx : Context) : Option ℤ :=
  if ctx.smbSrvPath.first = 0 then some 1
  else match env.socket with
    | none => none
    | some fd => if env.connect then some (fd : ℤ) else none

def responseText (util : Utilities) (env : RequestEnv) (ctx : Context) : Option CStr :=
  match util.run ctx with
  | none => none
  | some (none, _) => none
  | some (some response, _) => printUnformatted env.print response

theorem openInvoker_fd (env : RequestEnv) (ctx : Context) (fd : ℤ)
    (h : invokerFd env ctx = some fd) : (openInvoker env ctx).1 = fd := by
  unfold invokerFd at h
  unfold openInvoker
  by_cases hpath : ctx.smbSrvPath.first = 0
  · rw [if_pos hpath] at h
    rw [if_neg (not_not.mpr hpath)]
    cases h
    rfl
  · rw [if_neg hpath] at h
    rw [if_pos hpath]
    cases hsock : env.socket with
    | none => simp [hsock] at h
    | some n =>
      simp only [hsock] at h ⊢
      split at h
      next hconn =>
        cases h
        rw [if_pos hconn]
      · cases h

/-! ### The writes of a run -/

def Event.isWrite : Event → Bool
  | .write _ _ _ _ => true
  | _ => false

def writes (events : List Event) : List Event := events.filter Event.isWrite

theorem writes_append (a b : List Event) : writes (a ++ b) = writes a ++ writes b :=
  List.filter_append ..

theorem writes_openInvoker (env : RequestEnv) (ctx : Context) :
    writes (openInvoker env ctx).2 = [] := by
  unfold openInvoker
  split
  · split
    · rfl
    · split_ifs <;> rfl
  · rfl

theorem writes_daemonize (env : RequestEnv) (ctx : Context) : writes (daemonize env ctx) = [] := by
  unfold daemonize
  split <;> rfl

theorem writes_samba (calls : List SambaCall) : writes (calls.map .samba) = [] := by
  simp [writes, Event.isWrite]

theorem writes_closeInvoker (fd : ℤ) : writes (closeInvoker fd) = [] := by
  unfold closeInvoker
  split <;> rfl

theorem writes_beforeUtility (env : RequestEnv) (ctx : Context) :
    writes (beforeUtility env ctx) = [reportSelfToServer env ctx (openInvoker env ctx).1] := by
  rw [beforeUtility, writes_append, writes_append, writes_openInvoker, writes_daemonize]
  rfl

/-- The report, then the response if there is one, on one descriptor. -/
theorem writes_request (util : Utilities) (env : RequestEnv) (ctx : Context) :
    writes (executeSmbRequest util env ctx).2 =
      reportSelfToServer env ctx (openInvoker env ctx).1 ::
        ((responseText util env ctx).map fun text =>
          writeTo .response (openInvoker env ctx).1 text env.responseWrite).toList := by
  have hbefore := writes_beforeUtility env ctx
  unfold executeSmbRequest responseText
  cases hrun : util.run ctx with
  | none => exact hbefore
  | some p =>
    obtain ⟨response, calls⟩ := p
    simp only [writes_append, writes_samba, writes_closeInvoker, hbefore, List.append_nil]
    cases response with
    | none => rfl
    | some response =>
      simp only [sendResponse]
      cases printUnformatted env.print response with
      | none => rfl
      | some text => rfl

theorem write_mem_iff (util : Utilities) (env : RequestEnv) (ctx : Context) (msg : Message)
    (fd : ℤ) (buffer : List Byte) (written : Option ℕ) :
    Event.write msg fd buffer written ∈ (executeSmbRequest util env ctx).2 ↔
      Event.write msg fd buffer written = reportSelfToServer env ctx (openInvoker env ctx).1 ∨
        ∃ text, responseText util env ctx = some text ∧ Event.write msg fd buffer written =
          writeTo .response (openInvoker env ctx).1 text env.responseWrite := by
  have hfilter : Event.write msg fd buffer written ∈ writes (executeSmbRequest util env ctx).2 ↔
      Event.write msg fd buffer written ∈ (executeSmbRequest util env ctx).2 := by
    simp [writes, Event.isWrite]
  rw [← hfilter, writes_request, List.mem_cons, Option.mem_toList, Option.map_eq_some_iff]
  simp only [eq_comm]

/-! ### What the invoker receives (smb_discover.c:307-486) -/

def Event.writeOn (fd : ℤ) : Event → Option (Write Byte)
  | .write _ fd' buffer written => if fd' = fd then some ⟨buffer, written.getD 0⟩ else none
  | _ => none

def writesOn (fd : ℤ) (events : List Event) : List (Write Byte) :=
  events.filterMap (Event.writeOn fd)

def writeOf (text : CStr) (accepts : Option ℕ) : Write Byte :=
  ⟨text.withNul, (accepts.map (min text.withNul.length)).getD 0⟩

theorem writeOn_writeTo (msg : Message) (fd : ℤ) (text : CStr) (accepts : Option ℕ) :
    (writeTo msg fd text accepts).writeOn fd = some (writeOf text accepts) := if_pos rfl

theorem writeOf_whole_iff (text : CStr) (accepts : Option ℕ) :
    (writeOf text accepts).Whole ↔ ∃ k, accepts = some k ∧ text.length < k := by
  unfold Write.Whole writeOf
  cases accepts with
  | none => simp
  | some k =>
    simp only [CStr.length_withNul, Option.map_some, Option.getD_some, Option.some.injEq,
      exists_eq_left']
    omega

theorem writeOf_taken_iff (text : CStr) (accepts : Option ℕ) :
    (writeOf text accepts).taken = [] ↔ accepts = none ∨ accepts = some 0 := by
  have hlen : text.withNul.length = text.length + 1 := CStr.length_withNul text
  unfold Write.taken writeOf
  rw [List.take_eq_nil_iff, ← List.length_eq_zero_iff, hlen]
  cases accepts with
  | none => simp
  | some k =>
    simp only [Option.map_some, Option.getD_some, reduceCtorEq, false_or, or_false,
      Option.some.injEq, Nat.add_one_ne_zero]
    omega

theorem writesOn_writes (fd : ℤ) (events : List Event) :
    writesOn fd (writes events) = writesOn fd events := by
  unfold writesOn writes
  rw [List.filterMap_filter]
  congr 1
  funext e
  cases e <;> rfl

theorem writesOn_request (util : Utilities) (env : RequestEnv) (ctx : Context) (fd : ℤ)
    (h : invokerFd env ctx = some fd) :
    writesOn fd (executeSmbRequest util env ctx).2 =
      writeOf (reportMsg ctx env.pid) env.reportWrite ::
        ((responseText util env ctx).map fun text => writeOf text env.responseWrite).toList := by
  rw [← writesOn_writes, writes_request, openInvoker_fd env ctx fd h, writesOn, reportSelfToServer,
    List.filterMap_cons_some (writeOn_writeTo ..)]
  cases responseText util env ctx with
  | none => rfl
  | some text => simp [writeOn_writeTo]

def invokerStream (util : Utilities) (env : RequestEnv) (ctx : Context) : List Byte :=
  (reportMsg ctx env.pid).withNul ++ ((responseText util env ctx).map CStr.withNul).getD []

theorem messages_request (util : Utilities) (env : RequestEnv) (ctx : Context) (fd : ℤ)
    (h : invokerFd env ctx = some fd) :
    messages (writesOn fd (executeSmbRequest util env ctx).2) = invokerStream util env ctx := by
  rw [writesOn_request util env ctx fd h]
  cases htext : responseText util env ctx <;>
    simp [messages, invokerStream, writeOf, htext]

/-- At every moment the invoker has a prefix of the stream, and nothing of the
response before the whole report. -/
def Framed (util : Utilities) (env : RequestEnv) (ctx : Context) (fd : ℤ) : Prop :=
  (writesOn fd (executeSmbRequest util env ctx).2).Pairwise Write.InTurn ∧
    ∀ now, now <+: (executeSmbRequest util env ctx).2 →
      received (writesOn fd now) <+: invokerStream util env ctx

/-- `write` takes the whole report. -/
def ReportWhole (env : RequestEnv) (ctx : Context) : Prop :=
  ∃ k, env.reportWrite = some k ∧ (reportMsg ctx env.pid).length < k

/-- Of a response that is printed, no byte is taken. -/
def ResponseHeld (util : Utilities) (env : RequestEnv) (ctx : Context) : Prop :=
  ∀ text, responseText util env ctx = some text →
    env.responseWrite = none ∨ env.responseWrite = some 0

theorem request_inTurn_iff (util : Utilities) (env : RequestEnv) (ctx : Context) (fd : ℤ)
    (h : invokerFd env ctx = some fd) :
    (writesOn fd (executeSmbRequest util env ctx).2).Pairwise Write.InTurn ↔
      ReportWhole env ctx ∨ ResponseHeld util env ctx := by
  rw [writesOn_request util env ctx fd h]
  unfold ResponseHeld
  cases htext : responseText util env ctx with
  | none => simp
  | some text =>
    simp [Write.InTurn, writeOf_whole_iff, writeOf_taken_iff, ReportWhole]

/-- The stream is framed exactly when the report is accepted as a whole or nothing
of the response is. -/
theorem invoker_framed_iff (util : Utilities) (env : RequestEnv) (ctx : Context) (fd : ℤ)
    (h : invokerFd env ctx = some fd) :
    Framed util env ctx fd ↔ ReportWhole env ctx ∨ ResponseHeld util env ctx := by
  rw [← request_inTurn_iff util env ctx fd h]
  constructor
  · exact And.left
  · intro hturn
    refine ⟨hturn, fun now hnow => ?_⟩
    rw [← messages_request util env ctx fd h]
    exact received_so_far _ _ hturn (hnow.filterMap _)

def returning (response : Option CJson) : Utilities :=
  ⟨fun _ => some (response, []), fun _ => some (response, []), fun _ => some (response, [])⟩

theorem run_returning (response : Option CJson) (ctx : Context) :
    (returning response).run ctx = some (response, []) := by
  simp [Utilities.run, returning]

theorem responseText_returning (response : CJson) (env : RequestEnv) (ctx : Context) :
    responseText (returning (some response)) env ctx = printUnformatted env.print response := by
  simp [responseText, run_returning]

def quietSystem : RequestEnv where
  pid := 7
  socket := some 3
  connect := true
  daemon := true
  reportWrite := some 4096
  print := true
  responseWrite := some 4096

def cutReport : RequestEnv := { quietSystem with reportWrite := some 3 }

theorem cut_report_unframed : invokerFd cutReport anonymousContext = some 1 ∧
    ¬ Framed (returning (some (.object []))) cutReport anonymousContext 1 := by
  have hfd : invokerFd cutReport anonymousContext = some 1 := by decide +kernel
  have hlong : ¬ (reportMsg anonymousContext cutReport.pid).length < 3 := by decide +kernel
  refine ⟨hfd, fun h => ?_⟩
  rcases (request_inTurn_iff _ cutReport _ 1 hfd).mp h.1 with hwhole | hheld
  · obtain ⟨k, hk, hlt⟩ := hwhole
    have hthree : k = 3 := (Option.some.inj hk).symm
    exact hlong (hthree ▸ hlt)
  · have hnone := hheld _ (responseText_returning _ cutReport anonymousContext)
    simp [cutReport, quietSystem] at hnone

theorem quiet_framed : Framed (returning (some (.object []))) quietSystem anonymousContext 1 :=
  (invoker_framed_iff _ quietSystem anonymousContext 1 (by decide +kernel)).mpr
    (Or.inl ⟨4096, rfl, by decide +kernel⟩)

/-! ### Status and delivery -/

def Delivered (util : Utilities) (env : RequestEnv) (ctx : Context) : Prop :=
  ∃ fd text, invokerFd env ctx = some fd ∧ responseText util env ctx = some text ∧
    .write .response fd text.withNul (some text.withNul.length) ∈
      (executeSmbRequest util env ctx).2

/-- The status is 0 only after a delivery, and negative without one. -/
def DeliveredOrReported (util : Utilities) (env : RequestEnv) (ctx : Context) : Prop :=
  ∃ status, (executeSmbRequest util env ctx).1 = some status ∧
    (status = 0 → Delivered util env ctx) ∧ (¬ Delivered util env ctx → status < 0)

theorem accepted_all_iff (text : CStr) (accepts : Option ℕ) :
    accepts.map (min text.withNul.length) = some text.withNul.length ↔
      ∃ k, accepts = some k ∧ text.length < k := by
  cases accepts with
  | none => simp
  | some k =>
    simp only [CStr.length_withNul, Option.map_some, Option.some.injEq, exists_eq_left']
    omega

theorem delivered_iff (util : Utilities) (env : RequestEnv) (ctx : Context) :
    Delivered util env ctx ↔ (invokerFd env ctx).isSome ∧
      ∃ text k, responseText util env ctx = some text ∧ env.responseWrite = some k ∧
        text.length < k := by
  unfold Delivered
  constructor
  · intro h
    obtain ⟨fd, text, hfd, htext, hmem⟩ := h
    rcases (write_mem_iff util env ctx _ _ _ _).mp hmem with hreport | ⟨text', htext', hwrite⟩
    · cases hreport
    · rw [htext] at htext'
      cases htext'
      simp only [writeTo, Event.write.injEq] at hwrite
      obtain ⟨k, hk, hlt⟩ := (accepted_all_iff text env.responseWrite).mp hwrite.2.2.2.symm
      exact ⟨by rw [hfd]; rfl, text, k, htext, hk, hlt⟩
  · intro h
    obtain ⟨hsome, text, k, htext, hk, hlt⟩ := h
    obtain ⟨fd, hfd⟩ := Option.isSome_iff_exists.mp hsome
    refine ⟨fd, text, hfd, htext, (write_mem_iff util env ctx _ _ _ _).mpr (Or.inr ?_)⟩
    refine ⟨text, htext, ?_⟩
    rw [writeTo, openInvoker_fd env ctx fd hfd,
      (accepted_all_iff text env.responseWrite).mpr ⟨k, hk, hlt⟩]

theorem request_status (util : Utilities) (env : RequestEnv) (ctx : Context)
    (response : Option CJson) (calls : List SambaCall)
    (h : util.run ctx = some (response, calls)) :
    (executeSmbRequest util env ctx).1 = some (if response = none then -1 else 0) := by
  unfold executeSmbRequest
  rw [h]
  cases response with
  | none => rfl
  | some response =>
    simp only [sendResponse, reduceCtorEq, ite_false]
    split <;> rfl

def Sendable (env : RequestEnv) (ctx : Context) (response : CJson) : Prop :=
  (invokerFd env ctx).isSome ∧ env.print = true ∧
    ∃ k, env.responseWrite = some k ∧ (printValue response).length < k

theorem delivered_response_iff (util : Utilities) (env : RequestEnv) (ctx : Context)
    (response : CJson) (calls : List SambaCall)
    (h : util.run ctx = some (some response, calls)) :
    Delivered util env ctx ↔ Sendable env ctx response := by
  have htext : responseText util env ctx = printUnformatted env.print response := by
    simp [responseText, h]
  rw [delivered_iff, htext, Sendable, printUnformatted]
  cases env.print with
  | true => simp
  | false => simp

/-- `funcStatus` tells the truth exactly when the utility returned NULL or all that
follows it succeeded. -/
theorem delivered_or_reported_iff (util : Utilities) (env : RequestEnv) (ctx : Context)
    (response : Option CJson) (calls : List SambaCall)
    (h : util.run ctx = some (response, calls)) :
    DeliveredOrReported util env ctx ↔ ∀ r, response = some r → Sendable env ctx r := by
  have hstatus := request_status util env ctx response calls h
  cases response with
  | none =>
    constructor
    · intro _ r hr
      cases hr
    · intro _
      exact ⟨-1, hstatus, fun hzero => absurd hzero (by decide), fun _ => by decide⟩
  | some r =>
    have hiff := delivered_response_iff util env ctx r calls h
    constructor
    · intro hreported r' hr
      obtain ⟨status, hret, hdone, -⟩ := hreported
      rw [hstatus] at hret
      cases hr
      cases hret
      exact hiff.mp (hdone rfl)
    · intro hsend
      have hdone := hiff.mpr (hsend r rfl)
      exact ⟨0, hstatus, fun _ => hdone, fun hnot => absurd hdone hnot⟩

theorem failed_write_unreported : ¬ DeliveredOrReported (returning (some (.object [])))
    { quietSystem with responseWrite := none } anonymousContext := by
  intro h
  obtain ⟨status, hret, hdone, -⟩ := h
  have hrun := run_returning (some (.object [])) anonymousContext
  rw [request_status _ _ _ _ _ hrun] at hret
  cases hret
  obtain ⟨-, -, k, hk, -⟩ := (delivered_response_iff _ _ _ _ _ hrun).mp (hdone rfl)
  cases hk

theorem quiet_delivered : DeliveredOrReported (returning (some (.object []))) quietSystem
    anonymousContext := by
  have hrun := run_returning (some (.object [])) anonymousContext
  refine (delivered_or_reported_iff _ quietSystem _ _ _ hrun).mpr fun r hr => ?_
  cases hr
  exact ⟨by decide +kernel, rfl, 4096, rfl, by decide +kernel⟩

end SmbDiscover

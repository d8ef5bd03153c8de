import SmbDiscover.Lib.Stdio
import SmbDiscover.Delivery

/-!
# Log lines on the standard output (smb_discover.h:52-56, smb_discover.c:356-486)

`SMBD_INFO` prints on `stdout`, through its buffer; without `-K` the messages for the
invoker go to descriptor 1, around the buffer. A request has log lines at any place, also
those of a signal handler.
-/

namespace SmbDiscover
open CText CJson JsonText ChannelText Stdio

/-- What a call does with descriptor 1. -/
def Event.stdoutOp : Event → Option (Op Byte)
  | .write _ fd buffer written => if fd = 1 then some (.write ⟨buffer, written.getD 0⟩) else none
  | .close fd => if fd = 1 then some .close else none
  | _ => none

/-- The calls with log lines between them. -/
structure Logged (events : List Event) (ops : List (Op Byte)) : Prop where
  calls : ops.filter (fun op => !op.isPrint) = events.filterMap Event.stdoutOp
  lines : ∀ text, .print text ∈ ops → 0 ∉ text

theorem Logged.printed {events : List Event} {ops : List (Op Byte)} (h : Logged events ops) :
    0 ∉ printed ops := by
  intro hzero
  obtain ⟨op, hop, htext⟩ := List.mem_flatMap.mp hzero
  cases op with
  | print text => exact h.lines text hop htext
  | write w => cases htext
  | close => cases htext

/-! ### A request with log lines -/

/-- As long as nothing is written behind a close, the direct writes are all writes. -/
theorem direct_events (body tail now : List Event) (hbody : ∀ fd, .close fd ∉ body)
    (htail : writes tail = []) (hnow : now <+: body ++ tail) :
    direct (now.filterMap Event.stdoutOp) = writesOn 1 now := by
  induction body generalizing now with
  | nil =>
    have hnone : ∀ e ∈ now, e.isWrite = false := by
      intro e he
      have hmem := hnow.subset he
      rw [List.nil_append] at hmem
      by_contra hwrite
      have hin : e ∈ writes tail := List.mem_filter.mpr ⟨hmem, by simpa using hwrite⟩
      rw [htail] at hin
      cases hin
    have hops : ∀ ops : List (Op Byte), (∀ op ∈ ops, op = .close) → direct ops = [] := by
      intro ops hops
      cases ops with
      | nil => rfl
      | cons op rest =>
        rw [hops op (List.mem_cons_self ..)]
        rfl
    have hwrites : writesOn 1 now = [] := by
      refine List.filterMap_eq_nil_iff.mpr fun e he => ?_
      cases e with
      | write msg fd buffer written => cases hnone _ he
      | _ => rfl
    rw [hwrites]
    apply hops
    intro op hop
    obtain ⟨e, he, hsome⟩ := List.mem_filterMap.mp hop
    cases e with
    | write msg fd buffer written => cases hnone _ he
    | close fd =>
      simp only [Event.stdoutOp] at hsome
      split at hsome
      · cases hsome
        rfl
      · cases hsome
    | _ => cases hsome
  | cons e body ih =>
    cases now with
    | nil => rfl
    | cons e' now =>
      obtain ⟨rfl, hrest⟩ := List.cons_prefix_cons.mp hnow
      have hnext := ih now (fun fd hfd => hbody fd (List.mem_cons_of_mem _ hfd)) hrest
      unfold writesOn at hnext ⊢
      cases e' with
      | write msg fd buffer written =>
        by_cases hfd : fd = 1
        · simp [Event.stdoutOp, Event.writeOn, hfd, direct, hnext]
        · simp [Event.stdoutOp, Event.writeOn, hfd, hnext]
      | close fd => exact absurd (List.mem_cons_self ..) (hbody fd)
      | socket fd => exact hnext
      | connect fd sunPath connected => exact hnext
      | daemon detached => exact hnext
      | samba call => exact hnext

/-- The calls of a request on the standard output: it is closed at the end if at all. -/
theorem request_closesLast (util : Utilities) (env : RequestEnv) (ctx : Context)
    (hpath : ctx.smbSrvPath.first = 0) :
    ∃ body tail, (executeSmbRequest util env ctx).2 = body ++ tail ∧
      (∀ fd, .close fd ∉ body) ∧ writes tail = [] ∧
      (util.run ctx ≠ none → tail = [.close 1]) := by
  have hopen : openInvoker env ctx = (1, []) := by
    rw [openInvoker, if_neg (not_not.mpr hpath)]
  have hbefore : ∀ fd, .close fd ∉ beforeUtility env ctx := by
    intro fd hfd
    rw [beforeUtility, hopen, List.nil_append] at hfd
    rcases List.mem_append.mp hfd with hdaemon | hreport
    · unfold daemonize at hdaemon
      split at hdaemon
      · cases List.mem_singleton.mp hdaemon
      · cases hdaemon
    · cases List.mem_singleton.mp hreport
  unfold executeSmbRequest
  cases hrun : util.run ctx with
  | none =>
    refine ⟨beforeUtility env ctx, [], (List.append_nil _).symm, hbefore, rfl, ?_⟩
    intro h
    exact absurd rfl h
  | some p =>
    obtain ⟨response, calls⟩ := p
    refine ⟨beforeUtility env ctx ++ calls.map .samba ++
      (sendResponse env (openInvoker env ctx).1 response).2, _, rfl, ?_,
      writes_closeInvoker _, ?_⟩
    · intro fd hfd
      rcases List.mem_append.mp hfd with hearly | hsent
      · rcases List.mem_append.mp hearly with hbody | hcalls
        · exact hbefore fd hbody
        · obtain ⟨call, -, heq⟩ := List.mem_map.mp hcalls
          cases heq
      · unfold sendResponse at hsent
        split at hsent
        · cases hsent
        · split at hsent
          · cases List.mem_singleton.mp hsent
          · cases hsent
    · intro _
      rw [hopen]
      rfl

theorem direct_request (util : Utilities) (env : RequestEnv) (ctx : Context) (now : List Event)
    (ops : List (Op Byte)) (hpath : ctx.smbSrvPath.first = 0)
    (hnow : now <+: (executeSmbRequest util env ctx).2) (hlogged : Logged now ops) :
    direct ops = writesOn 1 now := by
  obtain ⟨body, tail, hevents, hbody, htail, -⟩ := request_closesLast util env ctx hpath
  rw [hevents] at hnow
  rw [← direct_filter, hlogged.calls]
  exact direct_events body tail now hbody htail hnow

/-- Text without a separator behind the stream completes no message. -/
theorem frames_log (s text : List Byte) (h : 0 ∉ text) : frames 0 (s ++ text) = frames 0 s := by
  induction s using ListText.sepInduction (0 : Byte) with
  | last x hx =>
    have hboth : (0 : Byte) ∉ x ++ text := by
      rw [List.mem_append, not_or]
      exact ⟨hx, h⟩
    rw [frames_of_notMem 0 x hx, frames_of_notMem 0 _ hboth]
  | step x rest hx ih =>
    rw [List.append_assoc, List.cons_append, frames_cut 0 x _ hx, frames_cut 0 x _ hx, ih]

/-- With a fully buffered standard output the log lines follow every message. -/
theorem logged_decodes (util : Utilities) (env : RequestEnv) (ctx : Context) (capacity : ℕ)
    (now : List Event) (ops : List (Op Byte)) (hpath : ctx.smbSrvPath.first = 0)
    (hreadable : ReportReadable ctx env.pid)
    (hturn : ReportWhole env ctx ∨ ResponseHeld util env ctx)
    (hnow : now <+: (executeSmbRequest util env ctx).2) (hlogged : Logged now ops)
    (hfit : (printed ops).length ≤ capacity) :
    ∃ values, values <+: messageValues util env ctx ∧
      Reads (seenAtExit (.full capacity) ops) values := by
  have hfd : invokerFd env ctx = some 1 := if_pos hpath
  obtain ⟨values, hprefix, hreads⟩ := reads_now util env ctx 1 hfd hreadable hturn now hnow
  refine ⟨values, hprefix, ?_⟩
  rw [seenAtExit_full capacity ops hfit, direct_request util env ctx now ops hpath hnow hlogged]
  unfold Reads
  split
  · rw [List.append_nil]
    exact hreads
  · rw [frames_log _ _ hlogged.printed]
    exact hreads

/-- The close at the end of a request leaves the log lines behind in the buffer. -/
theorem logged_hidden (util : Utilities) (env : RequestEnv) (ctx : Context) (capacity : ℕ)
    (ops : List (Op Byte)) (hpath : ctx.smbSrvPath.first = 0) (hrun : util.run ctx ≠ none)
    (hlogged : Logged (executeSmbRequest util env ctx).2 ops)
    (hfit : (printed ops).length ≤ capacity) :
    seenAtExit (.full capacity) ops = received (writesOn 1 (executeSmbRequest util env ctx).2) := by
  obtain ⟨body, tail, hevents, -, -, hclose⟩ := request_closesLast util env ctx hpath
  have hclosed : closes ops = true := by
    rw [← closes_filter, hlogged.calls, hevents, hclose hrun, List.filterMap_append]
    simp [closes, Event.stdoutOp, Op.isClose]
  rw [seenAtExit_full capacity ops hfit, hclosed,
    direct_request util env ctx _ ops hpath List.prefix_rfl hlogged]
  exact List.append_nil _

/-- With a line buffered standard output a report that is written whole ends a message. -/
theorem logged_terminated (util : Utilities) (env : RequestEnv) (ctx : Context)
    (ops : List (Op Byte)) (hpath : ctx.smbSrvPath.first = 0) (hwhole : ReportWhole env ctx)
    (hlogged : Logged (executeSmbRequest util env ctx).2 ops) : 0 ∈ seenAtExit .line ops := by
  have hfd : invokerFd env ctx = some 1 := if_pos hpath
  have hdirect := direct_request util env ctx _ _ hpath List.prefix_rfl hlogged
  rw [writesOn_request util env ctx 1 hfd] at hdirect
  have hreport := passed_of_direct ops _ (hdirect ▸ List.mem_cons_self ..)
  rw [Write.taken_of_whole _ ((writeOf_whole_iff _ _).mpr hwhole)] at hreport
  rw [seenAtExit_line]
  exact hreport (List.mem_append_right _ (List.mem_singleton.mpr rfl))

end SmbDiscover

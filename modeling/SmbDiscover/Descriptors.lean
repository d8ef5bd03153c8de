import SmbDiscover.Request

/-!
# Descriptors of a request (smb_discover.c:307-486)

The states of a descriptor over the calls of one request: what `smbSrvFd` stands for
when it is written to and closed. A failed `socket` or `connect` leaves -1 or an
unconnected descriptor in it, and descriptor 0 fails both tests for `> 0`.
-/

namespace SmbDiscover
open CText CJson

/-! ### States of a descriptor -/

inductive DescriptorState where
  | closed
  | opened
  | connected
  deriving DecidableEq

inductive DescriptorUse where
  | acquire (fd : ℤ)
  | connect (fd : ℤ)
  | write (fd : ℤ)
  | close (fd : ℤ)
  deriving DecidableEq

abbrev DescriptorTable := ℤ → DescriptorState

/-- The table behind one use, or `none` when the descriptor is in another state than the
use needs. -/
def DescriptorTable.use (fds : DescriptorTable) : DescriptorUse → Option DescriptorTable
  | .acquire fd => if fds fd = .closed then some (Function.update fds fd .opened) else none
  | .connect fd => if fds fd = .opened then some (Function.update fds fd .connected) else none
  | .write fd => if fds fd = .connected then some fds else none
  | .close fd => if fds fd = .closed then none else some (Function.update fds fd .closed)

def DescriptorTable.run (fds : DescriptorTable) (uses : List DescriptorUse) :
    Option DescriptorTable := uses.foldlM DescriptorTable.use fds

theorem run_nil (fds : DescriptorTable) : fds.run [] = some fds := rfl

theorem run_cons (fds : DescriptorTable) (u : DescriptorUse) (uses : List DescriptorUse) :
    fds.run (u :: uses) = (fds.use u).bind fun fds' => fds'.run uses := rfl

theorem run_append (fds : DescriptorTable) (first second : List DescriptorUse) :
    fds.run (first ++ second) = (fds.run first).bind fun fds' => fds'.run second := by
  induction first generalizing fds with
  | nil => rfl
  | cons u first ih =>
    rw [List.cons_append, run_cons, run_cons, Option.bind_assoc]
    congr 1
    funext fds'
    exact ih fds'

/-- Writes to one descriptor change nothing, and at least one of them needs a connected
descriptor. -/
theorem run_writes (fds : DescriptorTable) (fd : ℤ) (n : ℕ) :
    fds.run (List.replicate (n + 1) (.write fd)) =
      if fds fd = .connected then some fds else none := by
  induction n with
  | zero =>
    rw [List.replicate_one, run_cons, DescriptorTable.use]
    split <;> rfl
  | succ n ih =>
    rw [List.replicate_succ, run_cons, DescriptorTable.use]
    split
    next hconnected => rw [Option.bind_some, ih, if_pos hconnected]
    · rfl

/-! ### Uses of a request -/

def Event.use : Event → Option DescriptorUse
  | .socket fd => fd.map fun n => .acquire n
  | .connect fd _ connected => if connected then some (.connect fd) else none
  | .daemon _ => none
  | .write _ fd _ _ => some (.write fd)
  | .samba _ => none
  | .close fd => some (.close fd)

def descriptorUses (events : List Event) : List DescriptorUse := events.filterMap Event.use

def openUses (env : RequestEnv) (ctx : Context) : List DescriptorUse :=
  descriptorUses (openInvoker env ctx).2

theorem uses_append (a b : List Event) :
    descriptorUses (a ++ b) = descriptorUses a ++ descriptorUses b := List.filterMap_append

theorem uses_beforeUtility (env : RequestEnv) (ctx : Context) :
    descriptorUses (beforeUtility env ctx) =
      openUses env ctx ++ [.write (openInvoker env ctx).1] := by
  have hdaemon : descriptorUses (daemonize env ctx) = [] := by
    unfold daemonize
    split <;> rfl
  rw [beforeUtility, uses_append, uses_append, hdaemon, List.append_nil]
  rfl

theorem uses_samba (calls : List SambaCall) : descriptorUses (calls.map .samba) = [] := by
  simp [descriptorUses, Event.use]

/-- The uses of `smbSrvFd`: one or two writes, then the close. -/
theorem uses_request (util : Utilities) (env : RequestEnv) (ctx : Context)
    (response : Option CJson) (calls : List SambaCall)
    (h : util.run ctx = some (response, calls)) :
    ∃ n, descriptorUses (executeSmbRequest util env ctx).2 =
      openUses env ctx ++ List.replicate (n + 1) (.write (openInvoker env ctx).1) ++
        descriptorUses (closeInvoker (openInvoker env ctx).1) := by
  obtain ⟨n, hsent⟩ : ∃ n, descriptorUses (sendResponse env (openInvoker env ctx).1 response).2 =
      List.replicate n (.write (openInvoker env ctx).1) := by
    cases response with
    | none => exact ⟨0, rfl⟩
    | some response =>
      simp only [sendResponse]
      cases printUnformatted env.print response with
      | none => exact ⟨0, rfl⟩
      | some text => exact ⟨1, rfl⟩
  refine ⟨n, ?_⟩
  unfold executeSmbRequest
  rw [h]
  simp only [uses_append, uses_beforeUtility, uses_samba, hsent, List.replicate_succ,
    List.append_assoc, List.nil_append, List.cons_append]

/-- Descriptor 1 is the standard output, which needs no `connect`, when no path is
given. -/
def initialTable (ctx : Context) : DescriptorTable :=
  if ctx.smbSrvPath.first = 0 then Function.update (fun _ => .closed) 1 .connected
  else fun _ => .closed

/-- Each use finds its descriptor in the state it needs, and each socket obtained is
closed once. -/
def Disciplined (ctx : Context) (events : List Event) : Prop :=
  (∃ fds, (initialTable ctx).run (descriptorUses events) = some fds) ∧
    ∀ fd, .acquire fd ∈ descriptorUses events →
      (descriptorUses events).count (.close fd) = 1

/-- The first block uses its descriptors in order, and leaves a connected one in
`smbSrvFd` exactly when there is a way to the invoker. -/
theorem open_run (env : RequestEnv) (ctx : Context) :
    ∃ fds, (initialTable ctx).run (openUses env ctx) = some fds ∧
      (fds (openInvoker env ctx).1 = .connected ↔ (invokerFd env ctx).isSome = true) := by
  by_cases hpath : ctx.smbSrvPath.first = 0
  · refine ⟨initialTable ctx, ?_, ?_⟩
    · simp [openUses, openInvoker, hpath, descriptorUses, run_nil]
    · simp [openInvoker, invokerFd, initialTable, hpath]
  cases hsock : env.socket with
  | none =>
    refine ⟨initialTable ctx, ?_, ?_⟩
    · have huses : openUses env ctx = [] := by
        simp [openUses, openInvoker, hpath, hsock, descriptorUses, Event.use]
      rw [huses, run_nil]
    · simp [invokerFd, initialTable, hpath, hsock]
  | some fd =>
    cases hconn : env.connect with
    | true =>
      refine ⟨Function.update (Function.update (initialTable ctx) fd .opened) fd .connected, ?_, ?_⟩
      · simp [openUses, openInvoker, hpath, hsock, hconn, descriptorUses, Event.use, run_cons,
          run_nil, DescriptorTable.use, initialTable]
      · simp [openInvoker, invokerFd, hpath, hsock, hconn]
    | false =>
      cases fd with
      | zero =>
        refine ⟨Function.update (initialTable ctx) 0 .opened, ?_, ?_⟩
        · simp [openUses, openInvoker, hpath, hsock, hconn, descriptorUses, Event.use, run_cons,
            run_nil, DescriptorTable.use, initialTable]
        · simp [openInvoker, invokerFd, hpath, hsock, hconn]
      | succ fd =>
        have hne : (-1 : ℤ) ≠ (fd : ℤ) + 1 := by omega
        refine ⟨Function.update (Function.update (initialTable ctx) (fd + 1 : ℕ) .opened)
          (fd + 1 : ℕ) .closed, ?_, ?_⟩
        · simp [openUses, openInvoker, hpath, hsock, hconn, descriptorUses, Event.use, run_cons,
            run_nil, DescriptorTable.use, initialTable]
        · simp [openInvoker, invokerFd, hpath, hsock, hconn, initialTable,
            Function.update_of_ne hne]

/-! ### Disciplined requests -/

theorem uses_closeInvoker (fd : ℤ) :
    descriptorUses (closeInvoker fd) = if 0 < fd then [.close fd] else [] := by
  unfold closeInvoker
  split <;> rfl

theorem run_closeInvoker (fds : DescriptorTable) (fd : ℤ) (h : fds fd = .connected) :
    ∃ fds', fds.run (descriptorUses (closeInvoker fd)) = some fds' := by
  rw [uses_closeInvoker]
  split
  · exact ⟨Function.update fds fd .closed, by simp [run_cons, run_nil, DescriptorTable.use, h]⟩
  · exact ⟨fds, rfl⟩

section Returned
variable {util : Utilities} {env : RequestEnv} {ctx : Context} {response : Option CJson}
  {calls : List SambaCall} (h : util.run ctx = some (response, calls))
include h

theorem legal_iff :
    (∃ fds, (initialTable ctx).run (descriptorUses (executeSmbRequest util env ctx).2) =
      some fds) ↔ (invokerFd env ctx).isSome = true := by
  obtain ⟨n, huses⟩ := uses_request util env ctx response calls h
  obtain ⟨fds, hopen, hiff⟩ := open_run env ctx
  rw [huses, run_append, run_append, hopen, Option.bind_some, run_writes, ← hiff]
  by_cases hconnected : fds (openInvoker env ctx).1 = .connected
  · rw [if_pos hconnected, Option.bind_some]
    simp only [hconnected, iff_true]
    exact run_closeInvoker fds _ hconnected
  · simp [hconnected]

/-- Only descriptor 0 is ever left open. -/
theorem closed_once_iff :
    (∀ fd, .acquire fd ∈ descriptorUses (executeSmbRequest util env ctx).2 →
      (descriptorUses (executeSmbRequest util env ctx).2).count (.close fd) = 1) ↔
      ctx.smbSrvPath.first = 0 ∨ env.socket ≠ some 0 := by
  obtain ⟨n, huses⟩ := uses_request util env ctx response calls h
  rw [huses, uses_closeInvoker]
  by_cases hpath : ctx.smbSrvPath.first = 0
  · simp [openUses, openInvoker, hpath, descriptorUses]
  cases hsock : env.socket with
  | none => simp [openUses, openInvoker, hpath, hsock, descriptorUses, Event.use]
  | some fd =>
    cases hconn : env.connect <;> cases fd <;>
      simp [openUses, openInvoker, hpath, hsock, hconn, descriptorUses, Event.use,
        List.count_append, List.count_replicate]

end Returned

/-- The descriptors of a request are used in order and each socket is closed once
exactly when the output is standard or a positive socket was connected. -/
theorem disciplined_iff (util : Utilities) (env : RequestEnv) (ctx : Context)
    (response : Option CJson) (calls : List SambaCall)
    (h : util.run ctx = some (response, calls)) :
    Disciplined ctx (executeSmbRequest util env ctx).2 ↔ ctx.smbSrvPath.first = 0 ∨
      ∃ fd, env.socket = some fd ∧ 0 < fd ∧ env.connect = true := by
  unfold Disciplined
  rw [legal_iff h, closed_once_iff h, invokerFd]
  by_cases hpath : ctx.smbSrvPath.first = 0
  · simp [hpath]
  cases hsock : env.socket with
  | none => simp [hpath]
  | some fd => cases hconn : env.connect <;> cases fd <;> simp [hpath]

def socketContext : Context := acceptedContext [.A (.lit "10.0.0.1"), .K (.lit "/tmp/smb")]

def refusedSystem : RequestEnv := { quietSystem with connect := false }

theorem refused_socket_written :
    ¬ Disciplined socketContext
      (executeSmbRequest (returning (some (.object []))) refusedSystem socketContext).2 := by
  intro hdisc
  have hsome := (legal_iff (run_returning _ socketContext)).mp hdisc.1
  exact absurd hsome (by decide +kernel)

theorem quiet_socket_disciplined :
    Disciplined socketContext
      (executeSmbRequest (returning (some (.object []))) quietSystem socketContext).2 :=
  (disciplined_iff _ quietSystem socketContext _ _ (run_returning _ socketContext)).mpr
    (Or.inr ⟨3, rfl, by decide, rfl⟩)

end SmbDiscover

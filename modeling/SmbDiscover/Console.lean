import SmbDiscover.Log
import SmbDiscover.Program

/-!
# The standard output of a run (smb_discover.c:66-85, 492-517)

`main` prints a line before its first call and one behind its last. SIGINT and SIGTERM
end a run between any two of its calls: the handler prints a line and exits, which
empties the buffer of `stdout` like the return from `main`.
-/

namespace SmbDiscover
open CText CJson JsonText Getopt ChannelText Stdio

/-- smb_discover.c:496 -/
def helloLine (time date : CStr) : CStr :=
  .lit "[496] smb_disco: Hello samba! Built time: " ++ time ++ .lit ", " ++ date ++ .lit "\n"

/-- smb_discover.c:515 -/
def exitLine (program : CStr) (pid : ℤ) : CStr :=
  .lit "[515] smb_disco: " ++ program ++ .lit " (" ++ formatInt pid ++ .lit ") exit\n"

/-- smb_discover.c:77 -/
def quitLine (signum : ℤ) : CStr :=
  .lit "[077] smb_disco: Got signal " ++ formatInt signum ++ .lit ", quit.\n"

/-- What `__TIME__`, `__DATE__` and `argv[0]` stand for. -/
structure Names where
  time : CStr
  date : CStr
  program : CStr

def Names.hello (names : Names) : Op Byte := .print (helloLine names.time names.date).bytes

/-- A run that `main` returns from. -/
def Returns (sys : Machine) (argv : List CStr) (names : Names) (ops : List (Op Byte)) : Prop :=
  (main sys argv).1 = some 0 ∧ ∃ body, Logged (main sys argv).2 body ∧
    ops = names.hello :: (body ++ [.print (exitLine names.program sys.request.pid).bytes])

/-- A run that the handler of a signal ends behind the calls `now`. -/
def Quits (sys : Machine) (argv : List CStr) (names : Names) (ops : List (Op Byte)) : Prop :=
  ∃ now body signum, now <+: (main sys argv).2 ∧ Logged now body ∧
    ops = names.hello :: (body ++ [.print (quitLine signum).bytes])

theorem Logged.around {events : List Event} {body : List (Op Byte)} (h : Logged events body)
    (first last : CStr) :
    Logged events (.print first.bytes :: (body ++ [.print last.bytes])) := by
  refine ⟨?_, ?_⟩
  · rw [← h.calls]
    simp [Op.isPrint]
  · intro text htext
    rcases List.mem_cons.mp htext with hfirst | hrest
    · cases hfirst
      exact first.zero_notMem
    · rcases List.mem_append.mp hrest with hbody | hlast
      · exact h.lines text hbody
      · cases List.mem_singleton.mp hlast
        exact last.zero_notMem

theorem Returns.logged {sys : Machine} {argv : List CStr} {names : Names} {ops : List (Op Byte)}
    (h : Returns sys argv names ops) : Logged (main sys argv).2 ops := by
  obtain ⟨-, body, hlogged, hops⟩ := h
  rw [hops]
  exact hlogged.around _ _

theorem run_logged {sys : Machine} {argv : List CStr} {names : Names} {ops : List (Op Byte)}
    (h : Returns sys argv names ops ∨ Quits sys argv names ops) :
    ∃ now, now <+: (main sys argv).2 ∧ Logged now ops := by
  rcases h with hreturns | hquits
  · exact ⟨_, List.prefix_rfl, hreturns.logged⟩
  · obtain ⟨now, body, signum, hnow, hlogged, hops⟩ := hquits
    rw [hops]
    exact ⟨now, hnow, hlogged.around _ _⟩

theorem run_hello {sys : Machine} {argv : List CStr} {names : Names} {ops : List (Op Byte)}
    (h : Returns sys argv names ops ∨ Quits sys argv names ops) :
    ∃ rest, ops = names.hello :: rest := by
  rcases h with ⟨-, body, -, hops⟩ | ⟨now, body, signum, -, -, hops⟩
  · exact ⟨_, hops⟩
  · exact ⟨_, hops⟩

/-! ### A stream that is fully buffered -/

/-- A rejected command line shows its log lines and nothing else. -/
theorem rejected_shown (sys : Machine) (argv : List CStr) (names : Names) (capacity : ℕ)
    (ops : List (Op Byte)) (hrun : Returns sys argv names ops ∨ Quits sys argv names ops)
    (hfit : (printed ops).length ≤ capacity)
    (hrejected : ¬ ∃ ctx, Accepted (commandOptions sys.split argv) ctx) :
    seenAtExit (.full capacity) ops = printed ops := by
  obtain ⟨now, hnow, hlogged⟩ := run_logged hrun
  rw [main_rejected sys argv hrejected] at hnow
  have hcalls := hlogged.calls
  rw [List.prefix_nil.mp hnow, List.filterMap_nil] at hcalls
  rw [seenAtExit_full capacity ops hfit, ← direct_filter, ← closes_filter, hcalls]
  rfl

/-- With a fully buffered standard output the reader of descriptor 1 decodes the first of
the two messages, whenever the run ends and whatever it logs; a run that `main` returns
from shows it no log line. -/
theorem stdout_decodes (sys : Machine) (argv : List CStr) (names : Names) (ctx : Context)
    (capacity : ℕ) (ops : List (Op Byte)) (haccepted : Accepted (commandOptions sys.split argv) ctx)
    (hpath : ctx.smbSrvPath.first = 0) (hreadable : ReportReadable ctx sys.request.pid)
    (hturn : ReportWhole sys.request ctx ∨ ResponseHeld sys.utilities.utilities sys.request ctx)
    (hrun : Returns sys argv names ops ∨ Quits sys argv names ops)
    (hfit : (printed ops).length ≤ capacity) :
    (∃ values, values <+: messageValues sys.utilities.utilities sys.request ctx ∧
      Reads (seenAtExit (.full capacity) ops) values) ∧
    (Returns sys argv names ops →
      seenAtExit (.full capacity) ops = received (writesOn 1 (main sys argv).2)) := by
  have hmain := main_accepted sys argv ctx haccepted
  refine ⟨?_, ?_⟩
  · obtain ⟨now, hnow, hlogged⟩ := run_logged hrun
    rw [hmain] at hnow
    exact logged_decodes _ _ ctx capacity now ops hpath hreadable hturn hnow hlogged hfit
  · intro hreturns
    have hlogged := hreturns.logged
    have hstatus := hreturns.1
    rw [hmain] at hlogged hstatus ⊢
    refine logged_hidden _ _ ctx capacity ops hpath ?_ hlogged hfit
    intro hnone
    simp [executeSmbRequest, hnone] at hstatus

theorem logged_calls (events : List Event) : Logged events (events.filterMap Event.stdoutOp) := by
  have hcall : ∀ op ∈ events.filterMap Event.stdoutOp, op.isPrint = false := by
    intro op hop
    obtain ⟨e, -, he⟩ := List.mem_filterMap.mp hop
    cases e with
    | write msg fd buffer written =>
      simp only [Event.stdoutOp] at he
      split at he
      · cases he
        rfl
      · cases he
    | close fd =>
      simp only [Event.stdoutOp] at he
      split at he
      · cases he
        rfl
      · cases he
    | _ => cases he
  refine ⟨List.filter_eq_self.mpr fun op hop => ?_, fun text htext => ?_⟩
  · rw [hcall op hop]
    rfl
  · cases hcall _ htext

def releaseNames : Names := ⟨.lit "12:00:00", .lit "Jan  1 2017", .lit "smb_discover"⟩

/-- The standard output of `smb_discover -A10.0.0.1`, without further log lines. -/
def addressOps : List (Op Byte) :=
  releaseNames.hello :: ((main homeMachine [.lit "-A10.0.0.1"]).2.filterMap Event.stdoutOp ++
    [.print (exitLine releaseNames.program homeMachine.request.pid).bytes])

theorem address_accepted :
    Accepted (commandOptions homeMachine.split [.lit "-A10.0.0.1"]) anonymousContext := by
  have hoptions : commandOptions homeMachine.split [.lit "-A10.0.0.1"] = [.A (.lit "10.0.0.1")] := by
    have hgetopt : getopt (optSpec optstring) none [.lit "-A10.0.0.1"] =
        [.value 65 (.lit "10.0.0.1")] := by decide +kernel
    rw [commandOptions, hgetopt]
    rfl
  rw [hoptions]
  exact accepted_run _ (by decide +kernel)

theorem addressOps_returns : Returns homeMachine [.lit "-A10.0.0.1"] releaseNames addressOps := by
  refine ⟨?_, _, logged_calls _, rfl⟩
  rw [main_accepted homeMachine _ _ address_accepted]
  decide +kernel

theorem music_unmixed :
    (∃ values, values <+: messageValues homeNetwork.utilities quietSystem anonymousContext ∧
      Reads (seenAtExit (.full 4096) addressOps) values) ∧
    (Returns homeMachine [.lit "-A10.0.0.1"] releaseNames addressOps →
      seenAtExit (.full 4096) addressOps =
        received (writesOn 1 (main homeMachine [.lit "-A10.0.0.1"]).2)) :=
  stdout_decodes homeMachine _ releaseNames anonymousContext 4096 addressOps address_accepted
    (by decide +kernel) ⟨by decide +kernel, fun _ => by decide +kernel⟩
    (Or.inl ⟨4096, rfl, by decide +kernel⟩) (Or.inl addressOps_returns) (by decide +kernel)

/-! ### A stream that is line buffered -/

theorem helloLine_bytes (time date : CStr) : ∃ rest,
    (helloLine time date).bytes = [91, 52, 57, 54, 93, 32, 115] ++ rest := by
  have hlit : (CStr.lit "[496] smb_disco: Hello samba! Built time: ").bytes =
      [91, 52, 57, 54, 93, 32, 115] ++
        (CStr.lit "mb_disco: Hello samba! Built time: ").bytes := by decide +kernel
  simp only [helloLine, CStr.bytes_append, hlit, List.append_assoc]
  exact ⟨_, rfl⟩

/-- Read as JSON, the line number in brackets is a text that does not end there. -/
theorem hello_undecodable (time date : CStr) (text : List Byte) (v : Json) :
    ¬ Decodes ((helloLine time date).bytes ++ text) v := by
  obtain ⟨rest, hbytes⟩ := helloLine_bytes time date
  rw [hbytes, List.append_assoc]
  intro h
  obtain ⟨fuel, r, hparse, hws⟩ := h
  have hself : parseValue 3 ([91, 52, 57, 54, 93, 32, 115] ++ (rest ++ text)) =
      some (.arr [.num [52, 57, 54]], 32 :: 115 :: (rest ++ text)) := rfl
  have hleft := parseValue_mono fuel (max fuel 3) _ _ (le_max_left ..) hparse
  have hright := parseValue_mono 3 (max fuel 3) _ _ (le_max_right ..) hself
  rw [hleft] at hright
  have hrest := congrArg Prod.snd (Option.some.inj hright)
  dsimp only at hrest
  rw [hrest] at hws
  cases hws

/-- A message that is cut behind a start without a separator begins with that start. -/
theorem frames_start (s rest m : List Byte) (later : List (List Byte)) (hs : 0 ∉ s)
    (h : frames 0 (s ++ rest) = m :: later) : ∃ text, m = s ++ text := by
  by_cases hzero : (0 : Byte) ∈ rest
  · obtain ⟨text, behind, hsplit, htext⟩ := List.eq_append_cons_of_mem hzero
    have hfirst : (0 : Byte) ∉ s ++ text := by
      rw [List.mem_append, not_or]
      exact ⟨hs, htext⟩
    rw [hsplit, ← List.append_assoc, frames_cut 0 _ behind hfirst] at h
    exact ⟨text, (List.cons.inj h).1.symm⟩
  · rw [frames_log _ _ hzero, frames_of_notMem 0 _ hs] at h
    cases h

/-- With a line buffered standard output the first message is never readable, as the first
line of `main` stands in it; a whole report ends that message. -/
theorem stdout_firstMessage (sys : Machine) (argv : List CStr) (names : Names)
    (ops : List (Op Byte)) (hrun : Returns sys argv names ops ∨ Quits sys argv names ops) :
    (∀ m later v, frames 0 (seenAtExit .line ops) = m :: later → ¬ Decodes m v) ∧
    (∀ values, Reads (seenAtExit .line ops) values → values = []) ∧
    (∀ ctx, Accepted (commandOptions sys.split argv) ctx → ctx.smbSrvPath.first = 0 →
      ReportWhole sys.request ctx → Returns sys argv names ops →
        frames 0 (seenAtExit .line ops) ≠ []) := by
  have hfirst : ∀ m later v, frames 0 (seenAtExit .line ops) = m :: later → ¬ Decodes m v := by
    intro m later v hframes
    obtain ⟨rest, hops⟩ := run_hello hrun
    rw [seenAtExit_line, hops, Names.hello, passed] at hframes
    obtain ⟨text, htext⟩ := frames_start _ _ m later (CStr.zero_notMem _) hframes
    rw [htext]
    exact hello_undecodable names.time names.date text v
  refine ⟨hfirst, ?_, ?_⟩
  · intro values hreads
    unfold Reads at hreads
    cases hframes : frames 0 (seenAtExit .line ops) with
    | nil =>
      rw [hframes] at hreads
      cases hreads
      rfl
    | cons m later =>
      rw [hframes] at hreads
      cases hreads with
      | cons hdecodes _ => exact absurd hdecodes (hfirst m later _ hframes)
  · intro ctx haccepted hpath hwhole hreturns hnone
    have hlogged := hreturns.logged
    rw [main_accepted sys argv ctx haccepted] at hlogged
    have hzero := logged_terminated _ _ ctx ops hpath hwhole hlogged
    obtain ⟨text, behind, hsplit, htext⟩ := List.eq_append_cons_of_mem hzero
    rw [hsplit, frames_cut 0 text behind htext] at hnone
    cases hnone

theorem music_unreadable :
    (∀ m later v, frames 0 (seenAtExit .line addressOps) = m :: later → ¬ Decodes m v) ∧
    (∀ values, Reads (seenAtExit .line addressOps) values → values = []) ∧
    (∀ ctx, Accepted (commandOptions homeMachine.split [.lit "-A10.0.0.1"]) ctx →
      ctx.smbSrvPath.first = 0 → ReportWhole homeMachine.request ctx →
        Returns homeMachine [.lit "-A10.0.0.1"] releaseNames addressOps →
          frames 0 (seenAtExit .line addressOps) ≠ []) :=
  stdout_firstMessage homeMachine _ releaseNames addressOps (Or.inl addressOps_returns)

end SmbDiscover

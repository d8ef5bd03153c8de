import SmbDiscover.CommandLine
import SmbDiscover.Delivery
import SmbDiscover.Lookups
import SmbDiscover.Secrecy

/-!
# The program (`main`, smb_discover.c:492-517)

One run of the program from the words of its command line. `answer` is what the invoker
is to be told of a network, in each of the three modes; a run on a network that
answers tells it the report and then the answer.
-/

namespace SmbDiscover
open CText CJson JsonText ListText Getopt ChannelText

structure Machine where
  split : ℕ → SplitMemory
  utilities : UtilityEnv
  request : RequestEnv

/-- The exit status and the calls of a run that no signal ends (smb_discover.c:492-517);
there is no status behind a crash. `_register_signals` always returns 0. The lines that
`main` prints, and a run that the handler of a signal ends, are in `Console`. -/
def main (sys : Machine) (argv : List CStr) : Option ℤ × List Event :=
  match parseOptions (commandOptions sys.split argv) .zero with
  | none => (none, [])
  | some (status, ctx) =>
    if status < 0 then (some 0, [])
    else if (configsCheck ctx).1 < 0 then (some 0, [])
    else
      let run := executeSmbRequest sys.utilities.utilities sys.request (configsCheck ctx).2
      (run.1.map fun _ => 0, run.2)

/-! ### Accepted and rejected command lines -/

theorem parseOptions_status (opts : List Opt) (ctx ctx' : Context) (status : ℤ)
    (h : parseOptions opts ctx = some (status, ctx')) : status = 0 ∨ status = -1 := by
  induction opts generalizing ctx with
  | nil =>
    cases h
    exact Or.inl rfl
  | cons o rest ih =>
    simp only [parseOptions] at h
    split at h
    · cases h
    next parseError c hcase =>
      cases parseError with
      | true =>
        cases h
        exact Or.inr rfl
      | false => exact ih c h

theorem configsCheck_status (ctx : Context) :
    (configsCheck ctx).1 = 0 ∨ (configsCheck ctx).1 = -1 := by
  unfold configsCheck utilSmbtreeCheckConfig utilNmblookupCheckConfig utilSmbclientCheckConfig
  split_ifs <;> simp

theorem main_accepted (sys : Machine) (argv : List CStr) (ctx : Context)
    (h : Accepted (commandOptions sys.split argv) ctx) :
    main sys argv = ((executeSmbRequest sys.utilities.utilities sys.request ctx).1.map fun _ => 0,
      (executeSmbRequest sys.utilities.utilities sys.request ctx).2) := by
  obtain ⟨parsed, hparse, hcheck⟩ := h
  unfold main
  rw [hparse]
  simp only [hcheck, lt_irrefl, if_false]

theorem main_rejected (sys : Machine) (argv : List CStr)
    (h : ¬ ∃ ctx, Accepted (commandOptions sys.split argv) ctx) : (main sys argv).2 = [] := by
  unfold main
  cases hparse : parseOptions (commandOptions sys.split argv) .zero with
  | none => rfl
  | some p =>
    obtain ⟨status, ctx⟩ := p
    rcases parseOptions_status _ _ _ _ hparse with hstatus | hstatus
    · rcases configsCheck_status ctx with hcheck | hcheck
      · rw [hstatus] at hparse
        exact absurd ⟨(configsCheck ctx).2, ctx, hparse, Prod.ext hcheck rfl⟩ h
      · simp [hstatus, hcheck]
    · simp [hstatus]

def homeMachine : Machine := ⟨fun _ => .plenty, homeNetwork, quietSystem⟩

def reportLength (s : Settings) (pid : ℤ) : ℕ :=
  match s.mode with
  | .smbtree => 49 + (formatInt pid).length
  | .nmblookup => 51 + (formatInt pid).length
  | .smbclient => 89 + s.ipv4Url.length + s.username.length + s.password.length +
      (formatInt pid).length

def Settings.report (s : Settings) (pid : ℤ) : Json :=
  match s.mode with
  | .smbtree => .obj (reportMembers "smbtree" pid)
  | .nmblookup => .obj (reportMembers "nmblookup" pid)
  | .smbclient => .obj (decodedMembers s.ipv4Url.bytes s.username.bytes s.password.bytes pid)

structure Network where
  master : MasterBrowser
  workgroups : List CStr
  ifaces : List Iface
  shares : List ShareInfo

def textArray (texts : List CStr) : Json := .arr (texts.map fun text => .str text.bytes)

def commentValue : Option CStr → List (List Byte × Json)
  | none => []
  | some comment => if comment = .empty then [] else [(ascii "comment", .str comment.bytes)]

def shareValue (dirInfo : ShareInfo) : Json :=
  .obj ((ascii "name", .str (dirInfo.name.getD .empty).bytes) :: commentValue dirInfo.comment)

def computerValue (ifaces : List Iface) (p : CStr × ℕ) : List Byte × Json :=
  (p.1.bytes, textArray (firstList p.2 p.1 ifaces))

def answer (net : Network) (s : Settings) : Json :=
  match s.mode with
  | .smbtree => .obj [(ascii "command", .str (ascii "smbtree")),
      (ascii "master browser", .str net.master.serverIP.bytes),
      (ascii "workgroups", textArray net.workgroups)]
  | .nmblookup => .obj [(ascii "command", .str (ascii "nmblookup")),
      (ascii "computers",
        .obj ((s.workgroups.getD []).zipIdx.map (computerValue net.ifaces)))]
  | .smbclient => .obj [(ascii "command", .str (ascii "smbclient")),
      (ascii "dirs", .arr (((net.shares.filter (Visible ·)).take s.maxDirCount.toNat).map
        shareValue))]

/-- The utility of the selected mode finds this network and none of its calls fails. -/
def Serves (env : UtilityEnv) (net : Network) (s : Settings) : Prop :=
  match s.mode with
  | .smbtree => (∀ site, env.smbtree.json site = true) ∧ env.smbtree.prepared = true ∧
      env.smbtree.master = some net.master ∧ env.smbtree.callbacks = net.workgroups
  | .nmblookup => (∀ site, env.nmblookup.json site = true) ∧ env.nmblookup.stackframe = true ∧
      env.nmblookup.ifaces = net.ifaces.map some ∧
      ∀ iface ∈ net.ifaces, ∀ k name, (iface.nameQuery k name).Documented
  | .smbclient => (∀ site, env.smbclient.json site = true) ∧ env.smbclient.stackframe = true ∧
      env.smbclient.userAuthInfoInit = true ∧
      env.smbclient.cliCmOpen s.ipv4Url (some ⟨s.username, s.password⟩) = true ∧
      Enumerated env.smbclient ∧ env.smbclient.shares = net.shares

/-! ### The utilities tell the answer -/

theorem values_strings (texts : List CStr) :
    values (texts.map .string) = texts.map fun text => .str text.bytes := by
  rw [values_eq_map, List.map_map]
  rfl

theorem smbtree_answers (env : SmbtreeEnv) (ctx : Context) (master : MasterBrowser)
    (alloc : ∀ site, env.json site = true) (hprepared : env.prepared = true)
    (hmaster : env.master = some master) :
    (utilSmbtree env ctx).1.map value = some (.obj [(ascii "command", .str (ascii "smbtree")),
      (ascii "master browser", .str master.serverIP.bytes),
      (ascii "workgroups", textArray env.callbacks)]) := by
  rw [smbtree_child env ctx (alloc _), smbtree_enumerated env master hprepared hmaster (alloc _)
    fun i => alloc _, smbtreeStart, alloc, alloc]
  have hnames : (CStr.lit "command").bytes = ascii "command" ∧
      (CStr.lit "smbtree").bytes = ascii "smbtree" ∧
      (CStr.lit "master browser").bytes = ascii "master browser" ∧
      (CStr.lit "workgroups").bytes = ascii "workgroups" := by decide +kernel
  obtain ⟨hcommand, htree, hbrowser, hgroups⟩ := hnames
  simp only [Option.map_some, value, memberValues_eq_map, addStringToObject, create_true,
    addItemToObject_some, List.nil_append, List.cons_append, List.map_cons, List.map_nil,
    values_strings, textArray, hcommand, htree, hbrowser, hgroups]

theorem nmblookup_answers (env : NmblookupEnv) (ctx : Context) (names : List CStr)
    (ifaces : List Iface) (hnames : ctx.smbWorkgroups = some names)
    (alloc : ∀ site, env.json site = true) (hframe : env.stackframe = true)
    (hifaces : env.ifaces = ifaces.map some)
    (contract : ∀ iface ∈ ifaces, ∀ k name, (iface.nameQuery k name).Documented) :
    ∃ response calls, utilNmblookup env ctx = some (some response, calls) ∧
      response.value = .obj [(ascii "command", .str (ascii "nmblookup")),
        (ascii "computers", .obj (names.zipIdx.map (computerValue ifaces)))] := by
  have hkept := kept_all (fun i => env.json (.array i)) (fun i => alloc _) names 0
  have hobj : computersObject env names = some (names.zipIdx.map (foundMember ifaces),
      names.zipIdx.flatMap fun p => queriesOf p.2 p.1 ifaces) := by
    rw [computersObject, if_pos hframe, addNames_eq, hkept, List.nil_append]
    exact lookupNames_all env ifaces alloc hifaces contract names 0
  have htexts : (CStr.lit "command").bytes = ascii "command" ∧
      (CStr.lit "nmblookup").bytes = ascii "nmblookup" ∧
      (CStr.lit "computers").bytes = ascii "computers" := by decide +kernel
  obtain ⟨hcommand, hlookup, hcomputers⟩ := htexts
  have hfound : ∀ p : CStr × ℕ, ((foundMember ifaces p).1.bytes, (foundMember ifaces p).2.value) =
      computerValue ifaces p := by
    intro p
    simp only [foundMember, value, values_strings, computerValue, textArray]
  unfold utilNmblookup
  simp only [alloc, if_true, hnames, hobj]
  refine ⟨_, _, rfl, ?_⟩
  simp only [value, memberValues_eq_map, addStringToObject, create_true, addItemToObject_some,
    List.nil_append, List.cons_append, List.map_cons, List.map_nil, List.map_map, hcommand, hlookup,
    hcomputers]
  congr 4
  exact congrArg Json.obj (List.map_congr_left fun p _ => hfound p)

theorem shareEntry_value (dirInfo : ShareInfo) : (shareEntry dirInfo).value = shareValue dirInfo := by
  have htexts : (CStr.lit "name").bytes = ascii "name" ∧
      (CStr.lit "comment").bytes = ascii "comment" := by decide +kernel
  obtain ⟨hname, hcomment⟩ := htexts
  unfold shareEntry shareValue commentMember commentValue
  cases dirInfo.comment with
  | none => simp only [value, memberValues, hname]
  | some comment =>
    by_cases hempty : comment = .empty
    · simp only [value, memberValues, hname, if_pos hempty]
    · simp only [value, memberValues, hname, hcomment, if_neg hempty]

theorem smbclient_answers (env : SmbclientEnv) (ctx : Context)
    (alloc : ∀ site, env.json site = true) (hconn : Connected env ctx) (henum : Enumerated env) :
    (utilSmbclient env ctx).1.map value = some (.obj [(ascii "command", .str (ascii "smbclient")),
      (ascii "dirs", .arr (((env.shares.filter (Visible ·)).take
        ctx.smbMaxDirCount.toNat).map shareValue))]) := by
  have hopened : cliOpened env ctx = true := by
    obtain ⟨hframe, hauth, hcli, -⟩ := hconn
    rw [cliOpened, hframe, smbUserInfo_prepared env ctx hframe hauth, hcli]
    rfl
  have htexts : (CStr.lit "command").bytes = ascii "command" ∧
      (CStr.lit "smbclient").bytes = ascii "smbclient" ∧
      (CStr.lit "dirs").bytes = ascii "dirs" := by decide +kernel
  obtain ⟨hcommand, hclient, hdirs⟩ := htexts
  rw [utilSmbclient_response env ctx (alloc _), (smbclientEnd_fail env ctx).mpr hconn,
    smbclientEnd_response, hopened, alloc, smbcBrowseDir_exposed,
    exposedShares_enumerated env _ henum, List.nil_append, List.map_take,
    listable_allocated env alloc, ← List.map_take]
  simp only [addFail, prepareSmbclient, alloc, Bool.and_self, create_true, addStringToObject,
    addItemToObject_some, List.nil_append, List.cons_append, Option.map_some, value,
    memberValues_eq_map, values_eq_map, List.map_cons, List.map_nil, List.map_map, hcommand,
    hclient, hdirs]
  congr 5
  exact congrArg Json.arr (List.map_congr_left fun dirInfo _ => shareEntry_value dirInfo)

theorem accepted_workgroups (opts : List Opt) (ctx : Context) (h : Accepted opts ctx)
    (hmode : ctx.settings.mode = .nmblookup) : ∃ names, ctx.smbWorkgroups = some names := by
  obtain ⟨hpass, hset⟩ := h.settings
  have hfinal : (finalSettings opts).mode = .nmblookup := h.mode ▸ hmode
  rw [checked_of_ne_smbclient _ (by rw [hfinal]; decide)] at hset
  have hgroups : ctx.smbWorkgroups = (finalSettings opts).workgroups :=
    congrArg Settings.workgroups hset
  simp only [Settings.passes, hfinal] at hpass
  rw [hgroups]
  exact Option.ne_none_iff_exists'.mp hpass

theorem serves_run (env : UtilityEnv) (net : Network) (opts : List Opt) (ctx : Context)
    (haccepted : Accepted opts ctx) (hserves : Serves env net ctx.settings) :
    ∃ response calls, env.utilities.run ctx = some (some response, calls) ∧
      response.value = answer net ctx.settings := by
  unfold Serves at hserves
  unfold answer
  unfold Utilities.run
  cases hmode : ctx.settings.mode with
  | smbtree =>
    simp only [hmode] at hserves
    obtain ⟨alloc, hprepared, hmaster, hnames⟩ := hserves
    have htree := smbtree_flag ctx hmode
    have hvalue := smbtree_answers env.smbtree ctx net.master alloc hprepared hmaster
    obtain ⟨response, hresponse, hjson⟩ := Option.map_eq_some_iff.mp hvalue
    rw [if_pos htree]
    exact ⟨response, (utilSmbtree env.smbtree ctx).2,
      congrArg some (Prod.ext hresponse rfl), hnames ▸ hjson⟩
  | nmblookup =>
    simp only [hmode] at hserves
    obtain ⟨alloc, hframe, hifaces, contract⟩ := hserves
    obtain ⟨htree, hlookup⟩ := nmblookup_flags ctx hmode
    obtain ⟨names, hnames⟩ := accepted_workgroups opts ctx haccepted hmode
    have hlisted : ctx.settings.workgroups = some names := hnames
    rw [htree, hlookup, hlisted]
    exact nmblookup_answers env.nmblookup ctx names net.ifaces hnames alloc hframe hifaces contract
  | smbclient =>
    simp only [hmode] at hserves
    obtain ⟨alloc, hframe, hauth, hcli, henum, hshares⟩ := hserves
    obtain ⟨htree, hlookup⟩ := smbclient_flags ctx hmode
    have hvalue := smbclient_answers env.smbclient ctx alloc ⟨hframe, hauth, hcli, alloc _⟩ henum
    obtain ⟨response, hresponse, hjson⟩ := Option.map_eq_some_iff.mp hvalue
    rw [htree, hlookup]
    exact ⟨response, (utilSmbclient env.smbclient ctx).2,
      congrArg some (Prod.ext hresponse rfl), hshares ▸ hjson⟩

/-! ### From the command line to the answer -/

/-- The descriptor that leads to the invoker. -/
def channel (env : RequestEnv) (s : Settings) : Option ℤ :=
  if s.srvPath = .empty then some 1
  else match env.socket with
    | none => none
    | some fd => if env.connect then some (fd : ℤ) else none

theorem invokerFd_channel (env : RequestEnv) (ctx : Context) :
    invokerFd env ctx = channel env ctx.settings := by
  have hfirst : ctx.smbSrvPath.first = 0 ↔ ctx.settings.srvPath = .empty :=
    CharArray.first_eq_zero_iff _
  unfold invokerFd channel
  by_cases hpath : ctx.settings.srvPath = .empty
  · exact (if_pos (hfirst.mpr hpath)).trans (if_pos hpath).symm
  · refine (if_neg fun h0 => hpath (hfirst.mp h0)).trans (Eq.trans ?_ (if_neg hpath).symm)
    cases env.socket with
    | none => rfl
    | some n => rfl

theorem modeMembers_length (mode : String) (pid : ℤ) :
    (123 :: modeMembers mode pid).length = 42 + (ascii mode).length + (formatInt pid).length := by
  have hkeys : (ascii "command").length = 7 ∧ (ascii "report self").length = 11 ∧
      (ascii "mode").length = 4 ∧ (ascii "pid").length = 3 := by decide
  obtain ⟨hcommand, hreport, hmode, hpid⟩ := hkeys
  simp only [modeMembers, stringMember, pidMember, List.length_cons, List.length_append,
    List.length_nil, hcommand, hreport, hmode, hpid, CStr.length]
  omega

theorem reportText_size (ctx : Context) (pid : ℤ) :
    (reportText ctx pid).length = reportLength ctx.settings pid := by
  unfold reportLength
  cases hmode : ctx.settings.mode with
  | smbtree =>
    have hname : (ascii "smbtree").length = 7 := by decide
    have hlen := modeMembers_length "smbtree" pid
    rw [CStr.length, reportText_smbtree ctx pid hmode, hlen, hname]
  | nmblookup =>
    have hname : (ascii "nmblookup").length = 9 := by decide
    have hlen := modeMembers_length "nmblookup" pid
    rw [CStr.length, reportText_nmblookup ctx pid hmode, hlen, hname]
  | smbclient => exact reportText_length ctx pid hmode

/-- The report is not cut, and the credentials that it inserts are plain. -/
def Readable (s : Settings) (pid : ℤ) : Prop :=
  reportLength s pid < 255 ∧ (s.mode = .smbclient →
    PlainText s.username.bytes ∧ PlainText s.password.bytes)

/-- The response is printed, and both messages are written whole. -/
structure Delivers (env : RequestEnv) (s : Settings) (told : Json) : Prop where
  print : env.print = true
  report : ∃ k, env.reportWrite = some k ∧ reportLength s env.pid < k
  response : ∃ k, env.responseWrite = some k ∧ (printText false 0 told).length < k

theorem readable_report (opts : List Opt) (ctx : Context) (pid : ℤ) (h : Accepted opts ctx)
    (hreadable : Readable ctx.settings pid) : ReportReadable ctx pid := by
  obtain ⟨hfit, hplain⟩ := hreadable
  rw [← reportText_size] at hfit
  refine ⟨hfit, fun hmode => ⟨?_, hplain hmode⟩⟩
  exact dottedQuad_plain _ (smbclient_usable opts ctx h hmode).1

theorem report_whole (env : RequestEnv) (ctx : Context) (hreadable : ReportReadable ctx env.pid)
    (h : ∃ k, env.reportWrite = some k ∧ reportLength ctx.settings env.pid < k) :
    ReportWhole env ctx := by
  obtain ⟨k, hk, hlt⟩ := h
  rw [← reportText_size] at hlt
  refine ⟨k, hk, ?_⟩
  rw [reportMsg_of_fits ctx env.pid hreadable.1]
  exact hlt

theorem response_told (util : Utilities) (env : RequestEnv) (ctx : Context) (response : CJson)
    (calls : List SambaCall) (hrun : util.run ctx = some (some response, calls))
    (h : Delivers env ctx.settings response.value) :
    ResponseWhole util env ctx ∧ responseValue util env ctx = some response.value := by
  refine ⟨?_, ?_⟩
  · intro text htext
    unfold responseText at htext
    rw [hrun] at htext
    simp only [printUnformatted, h.print, create_true, Option.some.injEq] at htext
    obtain ⟨k, hk, hlt⟩ := h.response
    refine ⟨k, hk, ?_⟩
    rw [← htext, CStr.length, printValue_bytes response 0]
    exact hlt
  · unfold responseValue
    rw [hrun]
    simp only [h.print, if_true]

/-- A run with valid options on a network that answers: the invoker decodes first the
report and then the answer, and never anything else before. -/
theorem main_answers (sys : Machine) (net : Network) (argv : List CStr) (tokens : List Token)
    (s : Settings) (fd : ℤ) (nul : ∀ k, (sys.split k).after.head? = some 0)
    (hspells : Spells (optSpec optstring) argv tokens)
    (hvalid : ∀ o ∈ options sys.split tokens, o.Valid)
    (hmode : SelectsMode (options sys.split tokens))
    (hs : s = (finalSettings (options sys.split tokens)).checked)
    (hserves : Serves sys.utilities net s) (hreadable : Readable s sys.request.pid)
    (hfd : channel sys.request s = some fd) (hdelivers : Delivers sys.request s (answer net s)) :
    (main sys argv).1 = some 0 ∧
      Reads (received (writesOn fd (main sys argv).2))
        [s.report sys.request.pid, answer net s] ∧
      ∀ now, now <+: (main sys argv).2 → ∃ values,
        values <+: [s.report sys.request.pid, answer net s] ∧
          Reads (received (writesOn fd now)) values := by
  rw [← (getopt_iff _ argv tokens).mpr hspells] at hvalid hmode hs
  obtain ⟨ctx, haccepted, hsettings⟩ :=
    (accepted_iff _ s (options_nul sys.split _ nul)).mpr ⟨hvalid, hmode, hs⟩
  rw [← hsettings] at hserves hreadable hfd hdelivers ⊢
  rw [← invokerFd_channel] at hfd
  obtain ⟨response, calls, hrun, hanswer⟩ :=
    serves_run sys.utilities net _ ctx haccepted hserves
  have hreport := readable_report _ ctx sys.request.pid haccepted hreadable
  have hwhole := report_whole sys.request ctx hreport hdelivers.report
  rw [← hanswer] at hdelivers ⊢
  obtain ⟨htold, hvalue⟩ :=
    response_told sys.utilities.utilities sys.request ctx response calls hrun hdelivers
  have hmessages : messageValues sys.utilities.utilities sys.request ctx =
      [ctx.settings.report sys.request.pid, response.value] := by
    rw [messageValues, hvalue]
    rfl
  rw [main_accepted sys argv ctx haccepted, ← hmessages]
  refine ⟨?_, ?_, ?_⟩
  · rw [request_status _ _ _ _ _ hrun]
    rfl
  · exact reads_end _ _ ctx fd hfd hreport hwhole htold
  · exact reads_now _ _ ctx fd hfd hreport (Or.inl hwhole)

def homeShares : Network := ⟨⟨.empty, .empty⟩, [], [], oneShare.shares⟩

def addressSettings : Settings :=
  { Settings.initial with ipv4Url := .lit "10.0.0.1", maxDirCount := 50 }

theorem music_answered : (main homeMachine [.lit "-A10.0.0.1"]).1 = some 0 ∧
    Reads (received (writesOn 1 (main homeMachine [.lit "-A10.0.0.1"]).2))
      [addressSettings.report 7, answer homeShares addressSettings] ∧
    ∀ now, now <+: (main homeMachine [.lit "-A10.0.0.1"]).2 → ∃ values,
      values <+: [addressSettings.report 7, answer homeShares addressSettings] ∧
        Reads (received (writesOn 1 now)) values := by
  have hoptions : options homeMachine.split [.value 65 (.lit "10.0.0.1")] =
      [.A (.lit "10.0.0.1")] := rfl
  have haddr : inetAddr (.lit "10.0.0.1") ≠ inaddrNone := by decide +kernel
  refine main_answers homeMachine homeShares _ [.value 65 (.lit "10.0.0.1")] addressSettings 1
    (fun _ => rfl) ((getopt_iff _ _ _).mp (by decide +kernel)) ?_ ?_ ?_ ?_ ?_ ?_ ?_
  · rw [hoptions]
    intro o ho
    rw [List.mem_singleton.mp ho]
    exact haddr
  · rw [hoptions]
    exact Or.inl (by decide)
  · rw [hoptions]
    decide +kernel
  · exact ⟨fun _ => rfl, rfl, rfl, rfl, ⟨rfl, rfl, rfl⟩, rfl⟩
  · exact ⟨by decide +kernel, fun _ => by decide +kernel⟩
  · decide +kernel
  · exact ⟨rfl, ⟨4096, rfl, by decide +kernel⟩, ⟨4096, rfl, by decide +kernel⟩⟩

end SmbDiscover

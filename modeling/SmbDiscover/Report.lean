import SmbDiscover.Acceptance
import SmbDiscover.Lib.Json

/-!
# The report to the invoker (`_report_self_to_server`, smb_discover.c:307-353)

The text of each mode, cut to 254 bytes by `snprintf(reportMsg, 255, ..)`. In
smbclient mode the address, the username and the password are inserted with a bare
`%s`, and the theorem of this module says for which of them a decoder gets them
back: those without a quote, a backslash or a control byte. The JSON printer of
the response (cJSON.c:618-760) does escape these.
-/

namespace SmbDiscover
open CText JsonText

/-- The formatted text before it is cut (smb_discover.c:312-350). -/
def reportText (ctx : Context) (pid : ℤ) : CStr :=
  if ctx.isListWorkgroupMode then
    .lit "\x7b\"command\":\"report self\",\"mode\":\"smbtree\",\"pid\":" ++ formatInt pid ++
      .lit "\x7d"
  else if ctx.isListComputerMode then
    .lit "\x7b\"command\":\"report self\",\"mode\":\"nmblookup\",\"pid\":" ++ formatInt pid ++
      .lit "\x7d"
  else
    .lit "\x7b\"command\":\"report self\",\"mode\":\"smbclient\",\"IPv4\":\"" ++
      ctx.smbIpv4Url.str ++ .lit "\",\"username\":\"" ++ ctx.smbUsername.str ++
      .lit "\",\"password\":\"" ++ ctx.smbPassword.str ++ .lit "\",\"pid\":" ++ formatInt pid ++
      .lit "\x7d"

def reportBuffLen : ℕ := 256

/-- `reportMsg` as a string; `write` gets it with its terminator. -/
def reportMsg (ctx : Context) (pid : ℤ) : CStr :=
  ((CharArray.zero reportBuffLen).snprintf (reportBuffLen - 1) (reportText ctx pid)
    (by decide)).str

theorem reportMsg_of_fits (ctx : Context) (pid : ℤ) (h : (reportText ctx pid).length < 255) :
    reportMsg ctx pid = reportText ctx pid := by
  rw [reportMsg, CharArray.str_snprintf]
  exact CStr.take_of_length_le _ (by unfold reportBuffLen; omega)

/-! ### The text of smbclient mode as JSON members -/

def reportKeys : List (List Byte) :=
  [ascii "command", ascii "mode", ascii "IPv4", ascii "username", ascii "password", ascii "pid"]

theorem reportKeys_nodup : reportKeys.Nodup := by decide

def pidMember (pid : ℤ) : List Byte :=
  34 :: (ascii "pid" ++ 34 :: 58 :: ((formatInt pid).bytes ++ [125]))

def smbclientMembers (ip user word : List Byte) (pid : ℤ) : List Byte :=
  stringMember (ascii "command") (ascii "report self")
    (stringMember (ascii "mode") (ascii "smbclient")
      (stringMember (ascii "IPv4") ip
        (stringMember (ascii "username") user
          (stringMember (ascii "password") word (pidMember pid)))))

theorem reportText_smbclient (ctx : Context) (pid : ℤ) (h : ctx.settings.mode = .smbclient) :
    (reportText ctx pid).bytes = 123 :: smbclientMembers ctx.smbIpv4Url.str.bytes
      ctx.smbUsername.str.bytes ctx.smbPassword.str.bytes pid := by
  have hflags := smbclient_flags ctx h
  have hhead : (CStr.lit
      "\x7b\"command\":\"report self\",\"mode\":\"smbclient\",\"IPv4\":\"").bytes =
      123 :: stringMember (ascii "command") (ascii "report self")
        (stringMember (ascii "mode") (ascii "smbclient")
          (34 :: (ascii "IPv4" ++ [34, 58, 34]))) := by decide +kernel
  have huser : (CStr.lit "\",\"username\":\"").bytes =
      34 :: 44 :: 34 :: (ascii "username" ++ [34, 58, 34]) := by decide +kernel
  have hword : (CStr.lit "\",\"password\":\"").bytes =
      34 :: 44 :: 34 :: (ascii "password" ++ [34, 58, 34]) := by decide +kernel
  have hpid : (CStr.lit "\",\"pid\":").bytes = 34 :: 44 :: 34 :: (ascii "pid" ++ [34, 58]) := by
    decide +kernel
  have hend : (CStr.lit "\x7d").bytes = [125] := by decide +kernel
  rw [reportText, hflags.1, hflags.2]
  simp only [Bool.false_eq_true, ite_false, CStr.bytes_append, hhead, huser, hword, hpid, hend,
    smbclientMembers, stringMember, pidMember, List.append_assoc, List.cons_append,
    List.nil_append]

/-! ### Round trip -/

/-- The message is one object with each member once, and the decoded strings are
those of the context. -/
def RoundTrip (ctx : Context) (pid : ℤ) : Prop :=
  ∃ ms, Decodes (reportMsg ctx pid).bytes (.obj ms) ∧ (ms.map Prod.fst).Perm reportKeys ∧
    (ascii "IPv4", .str ctx.smbIpv4Url.str.bytes) ∈ ms ∧
    (ascii "username", .str ctx.smbUsername.str.bytes) ∈ ms ∧
    (ascii "password", .str ctx.smbPassword.str.bytes) ∈ ms

def decodedMembers (ip user word : List Byte) (pid : ℤ) : List (List Byte × Json) :=
  [(ascii "command", .str (ascii "report self")), (ascii "mode", .str (ascii "smbclient")),
    (ascii "IPv4", .str ip), (ascii "username", .str user), (ascii "password", .str word),
    (ascii "pid", .num (formatInt pid).bytes)]

theorem smbclientMembers_forward (ip user word : List Byte) (pid : ℤ) (hip : PlainText ip)
    (huser : PlainText user) (hword : PlainText word) :
    parseMembers 7 (smbclientMembers ip user word pid) =
      some (decodedMembers ip user word pid, []) := by
  unfold smbclientMembers
  rw [parseMembers_stringMember 5 _ _ _ (by decide) (by decide),
    parseMembers_stringMember 4 _ _ _ (by decide) (by decide),
    parseMembers_stringMember 3 _ _ _ (by decide) hip,
    parseMembers_stringMember 2 _ _ _ (by decide) huser,
    parseMembers_stringMember 1 _ _ _ (by decide) hword, pidMember,
    parseMembers_number 0 _ pid [] (by decide)]
  rfl

theorem smbclientMembers_plain (ip user word r : List Byte) (pid : ℤ) (fuel : ℕ)
    (ms : List (List Byte × Json)) (hip : PlainText ip)
    (h : parseMembers fuel (smbclientMembers ip user word pid) = some (ms, r))
    (hkeys : (ms.map Prod.fst).Nodup) (huser : (ascii "username", .str user) ∈ ms)
    (hword : (ascii "password", .str word) ∈ ms) : PlainText user ∧ PlainText word := by
  obtain ⟨f₁, ms₁, rfl, h₁⟩ := stringMember_inv fuel _ _ _ r ms (by decide) (by decide) h
  obtain ⟨f₂, ms₂, rfl, h₂⟩ := stringMember_inv f₁ _ _ _ r ms₁ (by decide) (by decide) h₁
  obtain ⟨f₃, ms₃, rfl, h₃⟩ := stringMember_inv f₂ _ _ _ r ms₂ (by decide) hip h₂
  have hnames : ascii "username" ≠ ascii "command" ∧ ascii "username" ≠ ascii "mode" ∧
      ascii "username" ≠ ascii "IPv4" ∧ ascii "password" ≠ ascii "command" ∧
      ascii "password" ≠ ascii "mode" ∧ ascii "password" ≠ ascii "IPv4" ∧
      ascii "password" ≠ ascii "username" := by decide
  simp only [List.mem_cons, Prod.mk.injEq, hnames, false_and, false_or] at huser hword
  simp only [List.map_cons, List.nodup_cons] at hkeys
  have hkeys₃ := hkeys.2.2.2
  have hplain := stringMember_self f₃ _ user _ r 112 ms₃ (by decide) (by decide) hkeys₃ huser h₃
  obtain ⟨f₄, ms₄, rfl, h₄⟩ := stringMember_inv f₃ _ _ _ r ms₃ (by decide) hplain h₃
  simp only [List.mem_cons, Prod.mk.injEq, hnames, false_and, false_or] at hword
  simp only [List.map_cons, List.nodup_cons] at hkeys₃
  exact ⟨hplain, stringMember_self f₄ _ word _ r 112 ms₄ (by decide) (by decide) hkeys₃.2 hword h₄⟩

theorem roundTrip_plain (ctx : Context) (pid : ℤ) (hmode : ctx.settings.mode = .smbclient)
    (hip : PlainText ctx.smbIpv4Url.str.bytes) (hfit : (reportText ctx pid).length < 255)
    (h : RoundTrip ctx pid) :
    PlainText ctx.smbUsername.str.bytes ∧ PlainText ctx.smbPassword.str.bytes := by
  obtain ⟨ms, hdecodes, hperm, -, huser, hword⟩ := h
  rw [reportMsg_of_fits ctx pid hfit, reportText_smbclient ctx pid hmode] at hdecodes
  obtain ⟨fuel, r, hparse, -⟩ := (decodes_object_iff _ ms).mp hdecodes
  exact smbclientMembers_plain _ _ _ r pid fuel ms hip hparse (hperm.nodup_iff.mpr reportKeys_nodup)
    huser hword

theorem plain_roundTrip (ctx : Context) (pid : ℤ) (hmode : ctx.settings.mode = .smbclient)
    (hip : PlainText ctx.smbIpv4Url.str.bytes) (hfit : (reportText ctx pid).length < 255)
    (huser : PlainText ctx.smbUsername.str.bytes) (hword : PlainText ctx.smbPassword.str.bytes) :
    RoundTrip ctx pid := by
  have hparse := smbclientMembers_forward _ _ _ pid hip huser hword
  refine ⟨decodedMembers ctx.smbIpv4Url.str.bytes ctx.smbUsername.str.bytes
    ctx.smbPassword.str.bytes pid, ?_, List.Perm.refl reportKeys, ?_, ?_, ?_⟩
  · rw [reportMsg_of_fits ctx pid hfit, reportText_smbclient ctx pid hmode]
    exact (decodes_object_iff _ _).mpr ⟨7, [], hparse, rfl⟩
  · simp [decodedMembers]
  · simp [decodedMembers]
  · simp [decodedMembers]

theorem dottedQuad_plain (s : CStr) (h : DottedQuad s) : PlainText s.bytes := by
  intro c hc
  have hrange := h.bytes c hc
  refine ⟨by omega, ?_, ?_⟩
  · intro h34
    subst h34
    simp at hrange
  · intro h92
    subst h92
    simp at hrange

/-- The report survives decoding exactly when neither credential holds a quote, a
backslash or a control byte. -/
theorem report_roundTrip_iff (opts : List Opt) (ctx : Context) (h : Accepted opts ctx)
    (hmode : ctx.settings.mode = .smbclient) (pid : ℤ)
    (hfit : (reportText ctx pid).length < 255) :
    RoundTrip ctx pid ↔
      PlainText ctx.smbUsername.str.bytes ∧ PlainText ctx.smbPassword.str.bytes := by
  have hip := dottedQuad_plain _ (smbclient_usable opts ctx h hmode).1
  constructor
  · exact roundTrip_plain ctx pid hmode hip hfit
  · intro hplain
    exact plain_roundTrip ctx pid hmode hip hfit hplain.1 hplain.2

def quotedLine : List Opt := [.A (.lit "10.0.0.1"), .U (.lit "a\"b")]

theorem quoted_username_lost : Accepted quotedLine (acceptedContext quotedLine) ∧
    (acceptedContext quotedLine).settings.mode = .smbclient ∧
    (reportText (acceptedContext quotedLine) 1).length < 255 ∧
    ¬ RoundTrip (acceptedContext quotedLine) 1 := by
  have h := accepted_run quotedLine (by decide +kernel)
  have hmode : (acceptedContext quotedLine).settings.mode = .smbclient := by decide +kernel
  have hfit : (reportText (acceptedContext quotedLine) 1).length < 255 := by decide +kernel
  have hip := dottedQuad_plain _ (smbclient_usable _ _ h hmode).1
  refine ⟨h, hmode, hfit, ?_⟩
  intro hround
  have hplain := (roundTrip_plain _ 1 hmode hip hfit hround).1
  have hquote : ¬ PlainText (acceptedContext quotedLine).smbUsername.str.bytes := by
    decide +kernel
  exact hquote hplain

def plainLine : List Opt := [.A (.lit "10.0.0.1"), .U (.lit "alice"), .P (.lit "secret")]

theorem plain_username_kept : RoundTrip (acceptedContext plainLine) 1 := by
  have h := accepted_run plainLine (by decide +kernel)
  have hfit : (reportText (acceptedContext plainLine) 1).length < 255 := by decide +kernel
  refine (report_roundTrip_iff _ _ h (by decide +kernel) 1 hfit).mpr ⟨?_, ?_⟩
  · decide +kernel
  · decide +kernel

end SmbDiscover

import SmbDiscover.CJson

/-!
# The application context (smb_discover.h)

`SmbDiscoverContext_st` with its character arrays, and the values a reader of the
context sees: `Settings` has a C string for each array, so bytes behind a
terminator are gone. `smb_workgroups` is NULL or the strings of a cJSON array.
`UT_NAMESIZE` and `NAME_MAX` have their Linux values; `int`, `long` and `size_t` have 32 bits.
-/

namespace SmbDiscover
open CText

/-- `strlen("255.255.255.255")`; the lengths are those of smb_discover.h:56-59. -/
def ipv4StrLenMax : ℕ := 15
def utNameSize : ℕ := 32
def nameMax : ℕ := 255
def smbUserLenMax : ℕ := utNameSize
def smbPassLenMax : ℕ := 255
def dirNameLenMax : ℕ := nameMax

/-- `SmbDiscoverContext_st` (smb_discover.h:76-87). -/
structure Context where
  smbIpv4Url : CharArray (ipv4StrLenMax + 6 + 1)
  smbUsername : CharArray (smbUserLenMax + 1)
  smbPassword : CharArray (smbPassLenMax + 1)
  smbSrvPath : CharArray (dirNameLenMax + 1)
  smbTimeout : ℤ
  smbMaxDirCount : BitVec 32
  shouldDaemonize : Bool
  isListWorkgroupMode : Bool
  isListComputerMode : Bool
  smbWorkgroups : Option (List CStr)

/-- The context that `main` starts with (smb_discover.c:494). -/
def Context.zero : Context where
  smbIpv4Url := .zero _
  smbUsername := .zero _
  smbPassword := .zero _
  smbSrvPath := .zero _
  smbTimeout := 0
  smbMaxDirCount := 0
  shouldDaemonize := false
  isListWorkgroupMode := false
  isListComputerMode := false
  smbWorkgroups := none

/-- What the utilities can read of a context: each array up to its terminator. -/
@[ext] structure Settings where
  ipv4Url : CStr
  username : CStr
  password : CStr
  srvPath : CStr
  timeout : ℤ
  maxDirCount : BitVec 32
  daemonize : Bool
  listWorkgroups : Bool
  listComputers : Bool
  workgroups : Option (List CStr)
  deriving DecidableEq

def Context.settings (ctx : Context) : Settings where
  ipv4Url := ctx.smbIpv4Url.str
  username := ctx.smbUsername.str
  password := ctx.smbPassword.str
  srvPath := ctx.smbSrvPath.str
  timeout := ctx.smbTimeout
  maxDirCount := ctx.smbMaxDirCount
  daemonize := ctx.shouldDaemonize
  listWorkgroups := ctx.isListWorkgroupMode
  listComputers := ctx.isListComputerMode
  workgroups := ctx.smbWorkgroups

def Settings.initial : Settings :=
  ⟨.empty, .empty, .empty, .empty, 0, 0, false, false, false, none⟩

theorem settings_zero : Context.zero.settings = Settings.initial := by
  simp only [Context.settings, Context.zero, CharArray.str_zero, Settings.initial]

/-- The utility that a request runs. -/
inductive Mode where
  | smbtree
  | nmblookup
  | smbclient
  deriving DecidableEq

/-- The tests of `_configs_check` and `_execute_smb_request` in order: `-G` is before `-L`. -/
def Settings.mode (s : Settings) : Mode :=
  if s.listWorkgroups then .smbtree else if s.listComputers then .nmblookup else .smbclient

end SmbDiscover

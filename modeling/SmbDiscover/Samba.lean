import SmbDiscover.Context

/-!
# What Samba and the allocator answer

The answers that one run of each utility gets from libsmb, from the clock and from
the allocations of cJSON, and the calls that carry the user's data to Samba. A
call that returns a pointer answers `false` or `none` for NULL. Texts that Samba
returns are C strings. The callbacks of `cli_NetServerEnum` are the names that it
delivers, and an interface is `none` where `iface_n_bcast_v4` returns NULL.
-/

namespace SmbDiscover
open CText

structure Credentials where
  username : CStr
  password : CStr
  deriving DecidableEq

/-- The calls that carry the data of the user or the settings to Samba. -/
inductive SambaCall where
  | setUsername (username : CStr)
  | setPassword (password : CStr)
  | getpass
  | setUseKerberos (on : Bool)
  | setSigningState (state : CStr)
  | cliCmOpen (server share : CStr) (auth : Option Credentials)
  | getIpcConnectMaster (auth : Credentials) (workgroup : CStr)
  | netServerEnum (workgroup : CStr)
  | nameQuery (workgroup : CStr) (broadcast : BitVec 32)
  deriving DecidableEq

/-! ### smbclient (util_smbclient.c) -/

structure Timespec where
  tvSec : ℤ
  tvNsec : ℤ

/-- The fields of `srvsvc_NetShareInfo1` that are read. -/
structure ShareInfo where
  name : Option CStr
  type : BitVec 32
  comment : Option CStr

/-- The allocations of cJSON nodes, by the place that makes them. -/
inductive SmbclientSite where
  | response
  | command
  | dirs
  | dirObj (tmp : ℕ)
  | dirName (tmp : ℕ)
  | dirComment (tmp : ℕ)
  | fail
  deriving DecidableEq

structure SmbclientEnv where
  json : SmbclientSite → Bool
  stackframe : Bool
  userAuthInfoInit : Bool
  cliCmOpen : CStr → Option Credentials → Bool
  callStartTime : Timespec
  callEndTime : Timespec
  pipeOpenNoauth : Bool
  ntStatusIsOk : Bool
  wErrorIsOk : Bool
  shares : List ShareInfo

/-! ### smbtree (util_smbtree.c) -/

inductive SmbtreeSite where
  | response
  | command
  | masterBrowser
  | workgroups
  | name (k : ℕ)
  | fail
  deriving DecidableEq

/-- A connected master browser: its printed address and the workgroup that
`get_ipc_connect_master_ip_bcast` stores through its last argument. -/
structure MasterBrowser where
  serverIP : CStr
  workgroup : CStr

structure SmbtreeEnv where
  json : SmbtreeSite → Bool
  stackframe : Bool
  userAuthInfoInit : Bool
  tallocTos : Bool
  tallocStrdup : Bool
  master : Option MasterBrowser
  callbacks : List CStr
  invokeOK : Bool

/-! ### nmblookup (util_nmblookup.c) -/

inductive NmblookupSite where
  | response
  | command
  | computers
  | array (k : ℕ)
  | address (k tmp : ℕ)
  deriving DecidableEq

/-- What `name_query` leaves in `status`, `ipList` and `smbIpCount`; the addresses as
`print_sockaddr` prints them. -/
structure QueryAnswer where
  statusIsOk : Bool
  ipList : Option (List CStr)
  smbIpCount : ℕ

/-- An interface with a broadcast address, and the answers of `name_query` on it to
the `k`-th listed workgroup. -/
structure Iface where
  broadcast : BitVec 32
  nameQuery : ℕ → CStr → QueryAnswer

structure NmblookupEnv where
  json : NmblookupSite → Bool
  stackframe : Bool
  ifaces : List (Option Iface)

end SmbDiscover

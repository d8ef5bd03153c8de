import SmbDiscover.Lib.CString
import SmbDiscover.Lib.Numeric
import SmbDiscover.Lib.Json
import SmbDiscover.Lib.Fields
import SmbDiscover.Lib.Framing
import SmbDiscover.CJson
import SmbDiscover.Context
import SmbDiscover.Workgroups
import SmbDiscover.Options
import SmbDiscover.Configs
import SmbDiscover.Acceptance
import SmbDiscover.Report
import SmbDiscover.Samba
import SmbDiscover.Smbtree
import SmbDiscover.Nmblookup
import SmbDiscover.Smbclient
import SmbDiscover.Request
import SmbDiscover.Routing
import SmbDiscover.Secrecy
import SmbDiscover.Lib.Runs
import SmbDiscover.Splitter
import SmbDiscover.Shares
import SmbDiscover.Limits
import SmbDiscover.Lookups
import SmbDiscover.Descriptors
import SmbDiscover.Causes
import SmbDiscover.Broadcasts
import SmbDiscover.Timeouts
import SmbDiscover.Printing
import SmbDiscover.Delivery
import SmbDiscover.Lib.Getopt
import SmbDiscover.CommandLine
import SmbDiscover.Program
import SmbDiscover.Lib.Stdio
import SmbDiscover.Log
import SmbDiscover.Console
import SmbDiscover.Lib.Heap
import SmbDiscover.PlainPrint
import SmbDiscover.PlainTree
import SmbDiscover.Nodes
import SmbDiscover.NodeChains
import SmbDiscover.NodeStore
import SmbDiscover.NodeRuns
import SmbDiscover.Scanning
import SmbDiscover.Parsing
import SmbDiscover.ParseSteps
import SmbDiscover.ParseTree
import SmbDiscover.Completeness
import SmbDiscover.RoundTrip
import SmbDiscover.Minified
import SmbDiscover.Comments

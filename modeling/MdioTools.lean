import MdioTools.Library.Bytes
import MdioTools.Library.CString
import MdioTools.Library.Numeral
import MdioTools.Library.Machine
import MdioTools.Library.CountLoop
import MdioTools.Library.Code
import MdioTools.Library.Mutex
import MdioTools.Library.Clock
import MdioTools.Library.Netlink
import MdioTools.Library.NlCursor
import MdioTools.Kernel.Insn
import MdioTools.Kernel.Validate
import MdioTools.Kernel.Eval
import MdioTools.Kernel.Access
import MdioTools.Kernel.Vm
import MdioTools.Kernel.Refinement
import MdioTools.Kernel.Safety
import MdioTools.Kernel.Fragment
import MdioTools.Kernel.Abandon
import MdioTools.Kernel.Reply
import MdioTools.Kernel.BusName
import MdioTools.Kernel.CmdXfer
import MdioTools.Kernel.Deadline
import MdioTools.Kernel.Info
import MdioTools.Kernel.Lifecycle
import MdioTools.Client.Driver
import MdioTools.Client.Phy
import MdioTools.Client.PagedPhy
import MdioTools.Client.Mvls
import MdioTools.Client.Xrs
import MdioTools.Client.Parse
import MdioTools.Client.Operand
import MdioTools.Client.Range
import MdioTools.Client.Atu
import MdioTools.Client.Counter
import MdioTools.Client.Lag
import MdioTools.Client.Exec
import MdioTools.Client.Main
import MdioTools.Client.Assembly
import MdioTools.Client.Request
import MdioTools.Client.XferCb
import MdioTools.Client.Receive
import MdioTools.Device.RegAccess
import MdioTools.Device.Switch
import MdioTools.Device.Mmd
import MdioTools.Device.Paged
import MdioTools.Device.XrsSwitch
import MdioTools.Device.BusAccess
import MdioTools.Device.Bench
import MdioTools.Device.Transparent
import MdioTools.Device.Dump
import MdioTools.Device.PagedDump
import MdioTools.Device.PagedAbandon
import MdioTools.Device.Scan
import MdioTools.Device.SwitchCore
import MdioTools.Device.Atu
import MdioTools.Device.Counter
import MdioTools.Device.Lag
import MdioTools.System.Atomicity
import MdioTools.System.Acceptance
import MdioTools.System.Clause22
import MdioTools.System.Party
import MdioTools.System.RoundTrip
import MdioTools.System.Multipart
import MdioTools.System.RequestTrip
import MdioTools.System.Rpc
import MdioTools.Client.Output
import MdioTools.System.Session
import MdioTools.System.RegisterFile
import MdioTools.System.Linearizable
import MdioTools.Library.Printf
import MdioTools.Library.Json
import MdioTools.Library.SortPass
import MdioTools.Library.TailQueue
import MdioTools.Mvls.Entry
import MdioTools.Mvls.Env
import MdioTools.Mvls.Show
import MdioTools.Mvls.Json
import MdioTools.Mvls.Fields
import MdioTools.Mvls.Dump
import MdioTools.Mvls.PortListing
import MdioTools.Mvls.Member
import MdioTools.Mvls.Pvt
import MdioTools.Mvls.Region
import MdioTools.Mvls.AttrTable
import MdioTools.Mvls.Discover
import MdioTools.Mvls.Load
import MdioTools.Mvls.Document
import MdioTools.Mvls.DevSort
import MdioTools.Library.Dialogue
import MdioTools.Mvls.Query
import MdioTools.Mvls.Snapshot
import MdioTools.Mvls.Init
import MdioTools.Mvls.Run
import MdioTools.System.PagedFile

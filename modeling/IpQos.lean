import IpQos.Lib.Chain
import IpQos.Lib.FiniteMap
import IpQos.Lib.Coupled
import IpQos.Lib.Ensures
import IpQos.Lib.Field
import IpQos.Lib.Run
import IpQos.Lib.Lockstep
import IpQos.Lib.Blocks
import IpQos.Lib.Locks
import IpQos.Lib.Bytes
import IpQos.Lib.Memory
import IpQos.Lib.Attributes
import IpQos.Lib.Lines
import IpQos.Lib.Records
import IpQos.Lib.Ledger
import IpQos.Lib.Exclusive
import IpQos.Lib.FirstFit
import IpQos.Lib.Numerals
import IpQos.Kmod.Types
import IpQos.Kmod.Marktbl
import IpQos.Kmod.Tc
import IpQos.Kmod.Api
import IpQos.Kmod.Ops
import IpQos.Kmod.Interleaved
import IpQos.Kmod.Locked
import IpQos.Kmod.Htb
import IpQos.Kmod.Netlink
import IpQos.Kmod.UserCopy
import IpQos.Kmod.Wire
import IpQos.Kmod.Lifetime
import IpQos.App.Qmark
import IpQos.App.QmarkRule
import IpQos.Script.TcTree
import IpQos.Script.Chain
import IpQos.Script.State
import IpQos.Script.Rules
import IpQos.Script.Service
import IpQos.Script.Forward
import IpQos.Script.Install
import IpQos.Verified.Registry
import IpQos.Verified.Represents
import IpQos.Verified.EntryPoints
import IpQos.Verified.Operations
import IpQos.Verified.TableConsistency
import IpQos.Verified.RuleManagement
import IpQos.Verified.Connections
import IpQos.Verified.TrafficControl
import IpQos.Verified.CallSteps
import IpQos.Verified.Racing
import IpQos.Verified.Flight
import IpQos.Verified.GroupMarks
import IpQos.Verified.Frames
import IpQos.Verified.ResetWindow
import IpQos.Verified.Alike
import IpQos.Verified.Shape
import IpQos.Verified.Restart
import IpQos.Verified.Indexed
import IpQos.Verified.Ranges
import IpQos.Verified.Removal
import IpQos.Verified.Target
import IpQos.Verified.Respec
import IpQos.Verified.ClassTree
import IpQos.Verified.ClassIds
import IpQos.Verified.ChainOrder
import IpQos.Verified.LockDiscipline
import IpQos.Verified.RateTable
import IpQos.Verified.CliKeys
import IpQos.Verified.FailedCalls
import IpQos.Verified.FailedAllocation
import IpQos.Verified.StateStore
import IpQos.Verified.RuleLists
import IpQos.Verified.RuleCount
import IpQos.Verified.HashTable
import IpQos.Verified.NetlinkRoundTrip
import IpQos.Verified.Wire
import IpQos.Verified.Lifetime
import IpQos.Verified.Service
import IpQos.Verified.Classifier
import IpQos.Verified.FirstFit
import IpQos.Verified.RuleText
import IpQos.Verified.Install
import IpQos.Verified.Shaping

import Doca.Lib.BitWindow
import Doca.Lib.Interleaving
import Doca.Lib.Reduction
import Doca.IpsecGw.Context
import Doca.IpsecGw.AntiReplay
import Doca.AllReduce.Reducer
import Doca.AllReduce.Core
import Doca.AllReduce.System
import Doca.AllReduce.Exchange
import Doca.AllReduce.Invariant
import Doca.AllReduce.Client
import Doca.AllReduce.Daemon
import Doca.AllReduce.DaemonRuns
import Doca.Common.Pack
import Doca.IpsecGw.Mbuf
import Doca.IpsecGw.EncapHeader
import Doca.IpsecGw.Encap
import Doca.IpsecGw.Decap
import Doca.IpsecGw.RoundTrip
import Doca.Common.FlowParser
import Doca.Common.Addresses
import Doca.Common.FlowCommands
import Doca.Common.MempoolShadow
import Doca.IpsecGw.Flow
import Doca.IpsecGw.Policy
import Doca.Lib.GrowArray
import Doca.IpsecGw.DynamicRules
import Doca.IpsecGw.SharedIds
import Doca.IpsecGw.PolicySocket
import Doca.IpsecGw.Classify
import Doca.IpsecGw.SequenceNumber
import Doca.IpsecGw.Delivery
import Doca.AllReduce.MemPool
import Doca.IpsecGw.ProcessQueue
import Doca.AllReduce.PoolNode
import Doca.AllReduce.UcxRequest
import Doca.AllReduce.Handshake
import Doca.AllReduce.Destinations
import Doca.AllReduce.Ownership
import Doca.AllReduce.PooledRuns
import Doca.Rdmo.Queue
import Doca.Rdmo.Ops
import Doca.Rdmo.Calls
import Doca.Rdmo.Bounds
import Doca.Rdmo.Scatter
import Doca.Rdmo.ScatterPayload
import Doca.Rdmo.Release
import Doca.Rdmo.PointerWord
import Doca.Rdmo.Appends
import Doca.Rdmo.Commands
import Doca.Rdmo.Transport
import Doca.Psp.Gateway
import Doca.Psp.Entries
import Doca.DmaCopy.Protocol
import Doca.Psp.Agreement
import Doca.DmaCopy.Success
import Doca.DmaCopy.Failures
import Doca.NatApp.Pat
import Doca.Common.CommChannel
import Doca.FileCompression.Server
import Doca.FileIntegrity.Server
import Doca.Pcc.Measurement
import Doca.SimpleFwd.FlowMap
import Doca.SimpleFwd.Aging
import Doca.PipesManager.Manager
import Doca.PipesManager.Registry
import Doca.PipesManager.Refinement
import Doca.L2Reflector.Device
import Doca.L2Reflector.ExactlyOnce
import Doca.L2Reflector.Sends
import Doca.DpaAllToAll.Connect
import Doca.DpaAllToAll.Pairing
import Doca.DpaAllToAll.Setup
import Doca.DpaAllToAll.Kernel
import Doca.DpaAllToAll.Exchange
import Doca.IpsecGw.Keys
import Doca.IpsecGw.Trimming
import Doca.IpsecGw.UdpTransport
import Doca.IpsecGw.InsertionQueue
import Doca.IpsecGw.InsertionPasses
import Doca.IpsecGw.InsertionSlices
import Doca.Common.FlowSkeleton

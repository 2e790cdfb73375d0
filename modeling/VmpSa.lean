import VmpSa.Lib.Loop
import VmpSa.Lib.Reader
import VmpSa.Lib.Delimiter
import VmpSa.Lib.Memory
import VmpSa.Lib.Wire
import VmpSa.Lib.Slots
import VmpSa.Lib.System
import VmpSa.Lib.DList
import VmpSa.Lib.Exchange
import VmpSa.Lib.Decimal
import VmpSa.Lib.CString
import VmpSa.Lib.FileTree
import VmpSa.Lib.Tally
import VmpSa.Lib.Table
import VmpSa.Lib.Text
import VmpSa.Lib.Heap
import VmpSa.Support.Buffer
import VmpSa.Support.Bounds
import VmpSa.Support.Growth
import VmpSa.Support.Content
import VmpSa.H264.Parse
import VmpSa.H264.Metadata
import VmpSa.Rtmp.Packager
import VmpSa.Rtmp.VideoTag
import VmpSa.Rtmp.Publisher
import VmpSa.Stream.Channel
import VmpSa.Stream.Scan
import VmpSa.Stream.Step
import VmpSa.Stream.Cursor
import VmpSa.Stream.Repackage
import VmpSa.Stream.Start
import VmpSa.Stream.Failures
import VmpSa.Stream.Places
import VmpSa.Stream.Headers
import VmpSa.Stream.Watermark
import VmpSa.Jt1078.Parser
import VmpSa.Jt1078.Input
import VmpSa.Jt1078.Framing
import VmpSa.Jt1078.Identity
import VmpSa.Stream.Session
import VmpSa.Node.Queue
import VmpSa.Node.LifeCycle
import VmpSa.Node.Shutdown
import VmpSa.Node.Vector
import VmpSa.Node.Registry
import VmpSa.Http.Property
import VmpSa.Http.Query
import VmpSa.Http.Address
import VmpSa.Jt1078.SimNumber
import VmpSa.Jt1078.Client
import VmpSa.Server.Listener
import VmpSa.Vpk.Sort
import VmpSa.Vpk.Search
import VmpSa.Vpk.Directory
import VmpSa.Pool.ThreadPool
import VmpSa.Pool.Effects
import VmpSa.Pool.Threads
import VmpSa.Pool.Jobs
import VmpSa.Pool.Handover
import VmpSa.Pool.Exhaustion
import VmpSa.Pool.LinkedList
import VmpSa.Conf.Dictionary
import VmpSa.Conf.Line
import VmpSa.Conf.Load
import VmpSa.Conf.Dump
import VmpSa.Conf.Network
import VmpSa.Stream.Relay
import VmpSa.Event.Chains
import VmpSa.Event.Evbuffer
import VmpSa.Event.Connection
import VmpSa.Event.Dispatch
import VmpSa.Event.MinHeap
import VmpSa.Event.Timers

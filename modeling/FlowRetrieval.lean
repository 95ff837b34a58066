import FlowRetrieval.Builder
import FlowRetrieval.Builder.Bids
import FlowRetrieval.Builder.Samples
import FlowRetrieval.CS.BitPacking
import FlowRetrieval.CS.ByteCodec
import FlowRetrieval.CS.ByteFile
import FlowRetrieval.CS.ByteMemory
import FlowRetrieval.CS.ByteSink
import FlowRetrieval.CS.ByteSource
import FlowRetrieval.CS.Census
import FlowRetrieval.CS.Dict
import FlowRetrieval.CS.HttpStream
import FlowRetrieval.CS.ParallelLoop
import FlowRetrieval.CS.RingBuffer
import FlowRetrieval.CS.StepTable
import FlowRetrieval.CS.TextMemory
import FlowRetrieval.CS.TracedMemory
import FlowRetrieval.CS.Transition
import FlowRetrieval.CS.VersionedCell
import FlowRetrieval.Common.Bitmap
import FlowRetrieval.Common.BitmapBlock
import FlowRetrieval.Common.BitmapStream
import FlowRetrieval.Common.Double
import FlowRetrieval.Common.ShortRead
import FlowRetrieval.Common.StepFunction
import FlowRetrieval.Common.StepSearch
import FlowRetrieval.Index.AcceptedStream
import FlowRetrieval.Index.BidBitmap
import FlowRetrieval.Index.CraftedFile
import FlowRetrieval.Index.Deduplication
import FlowRetrieval.Index.Dump
import FlowRetrieval.Index.DumpFailure
import FlowRetrieval.Index.FirstAdd
import FlowRetrieval.Index.HourlyCtr
import FlowRetrieval.Index.Index
import FlowRetrieval.Index.Layout
import FlowRetrieval.Index.Load
import FlowRetrieval.Index.MergeFile
import FlowRetrieval.Index.PvBidBitmap
import FlowRetrieval.Index.Reachable
import FlowRetrieval.Index.RecordStream
import FlowRetrieval.Index.Records
import FlowRetrieval.Index.RoundTrip
import FlowRetrieval.Index.Truncation
import FlowRetrieval.Index.UvBidBitmap
import FlowRetrieval.Index.UvMergeBitmap
import FlowRetrieval.Mongoose.Connection
import FlowRetrieval.Mongoose.HandleRequest
import FlowRetrieval.Mongoose.Handover
import FlowRetrieval.Mongoose.KeepAlive
import FlowRetrieval.Mongoose.Output
import FlowRetrieval.Mongoose.Progress
import FlowRetrieval.Mongoose.RequestHead
import FlowRetrieval.Mongoose.Shutdown
import FlowRetrieval.Mongoose.SocketQueue
import FlowRetrieval.Mongoose.Uri
import FlowRetrieval.Service.Audience
import FlowRetrieval.Service.BufferHalves
import FlowRetrieval.Service.ConcurrentRequests
import FlowRetrieval.Service.Envelope
import FlowRetrieval.Service.HotReload
import FlowRetrieval.Service.InBounds
import FlowRetrieval.Service.Isolation
import FlowRetrieval.Service.LiveUpdate
import FlowRetrieval.Service.Main
import FlowRetrieval.Service.MergeRate
import FlowRetrieval.Service.MgThreadHandler
import FlowRetrieval.Service.OpenStreams
import FlowRetrieval.Service.Outbid
import FlowRetrieval.Service.ParallelTargeting
import FlowRetrieval.Service.Param
import FlowRetrieval.Service.ParamLines
import FlowRetrieval.Service.PlatformTables
import FlowRetrieval.Service.QueryAcceptance
import FlowRetrieval.Service.QueryEncoding
import FlowRetrieval.Service.QueryParser
import FlowRetrieval.Service.ReadLoop
import FlowRetrieval.Service.Reordering
import FlowRetrieval.Service.Reply
import FlowRetrieval.Service.Report
import FlowRetrieval.Service.RequestHandler
import FlowRetrieval.Service.Retrieval
import FlowRetrieval.Service.SampleScan
import FlowRetrieval.Service.Serving
import FlowRetrieval.Service.SharedMemory
import FlowRetrieval.Service.StepFunctionText
import FlowRetrieval.Service.TargetMap
import FlowRetrieval.Service.Targeting
import FlowRetrieval.Service.Versions
import FlowRetrieval.Service.Wire
import FlowRetrieval.Util.Blanks
import FlowRetrieval.Util.Cstdlib
import FlowRetrieval.Util.SplitOverloads
import FlowRetrieval.Util.StringExt

import Rko.CallProgram
import Rko.Errno
import Rko.PageMemory
import Rko.KernelCalls
import Rko.DentrySplice
import Rko.Mapper
import Rko.RangeCut
import Rko.FolioGeometry
import Rko.MapperPieces
import Rko.InodeInit
import Rko.Ext2Layout
import Rko.Ext2Mount
import Rko.Ext2Inode
import Rko.Ext2BlockMap
import Rko.Ext2Directory
import Rko.LockedFolio
import Rko.ListWindow
import Rko.FolioWrite
import Rko.Tarfs
import Rko.TarfsFile
import Rko.TarfsRecords
import Rko.TarfsLookup
import Rko.Trampolines
import Rko.InodeReferences
import Rko.Positional
import Rko.Ext2BlockPath
import Rko.Ext2PathOrder
import Rko.Ext2BlockTree
import Rko.Ext2InodeTable
import Rko.Ext2Attributes
import Rko.Symlinks
import Rko.Ext2Panics
import Rko.Ext2MountPanics
import Rko.Ext2Groups
import Rko.Ext2GroupTable
import Rko.Ext2Records
import Rko.InterleavedSearch
import Rko.Ext2Lookup
import Rko.Responder
import Rko.PagedListing
import Rko.Getdents
import Rko.DirListing
import Rko.TarfsListing
import Rko.Ext2Listing
import Rko.Gaps
import Rko.Ext2Packed
import Rko.IncrementalParser
import Rko.HttpMessage
import Rko.BufReader
import Rko.HttpParse
import Rko.HttpHead
import Rko.HttpServer
import Rko.HttpStream
import Rko.HttpFrame
import Rko.HttpFraming
import Rko.HttpServing
import Rko.HttpSegmentation
import Rko.HttpWire
import Rko.HttpNumerals
import Rko.HttpHost
import Rko.HttpGrammar
import Rko.HttpRoundTrip
import Rko.HttpLimits
import Rko.HttpConsume
import Rko.GuardedRun
import Rko.BufReaderQueue
import Rko.CallPool
import Rko.BoundedMapper
import Rko.HttpDevice
import Rko.SocketFuture
import Rko.Decoder
import Rko.Uring
import Rko.UringWire
import Rko.UringSystem
import Rko.UringDelivery
import Rko.RankedList
import Rko.UringRoutes
import Rko.UringRouteTable
import Rko.UringQueues
import Rko.UringQueueIds
import Rko.UringResponses
import Rko.UringFifo
import Rko.ReferenceCount
import Rko.ArcHandles
import Rko.ExecutorTask
import Rko.AsyncRevocable
import Rko.Executor
import Rko.ExecutorShutdown
import Rko.TaskReferences
import Rko.ExecutorReferences
import Rko.TaskPolling
import Rko.ExecutorPolling
import Rko.BlockOn
import Rko.NoWaitLock
import Rko.SocketHandoff
import Rko.OneshotShared
import Rko.AsyncOneshot
import Rko.UringAtomicity
import Rko.AsyncOneshotWaker
import Rko.SyncOneshot
import Rko.OneshotValues
import Rko.ExecutorTracking
import Rko.LinkRing
import Rko.IntrusiveList
import Rko.SlotBuffer
import Rko.KVec
import Rko.KVecSpec
import Rko.KVecList
import Rko.KVecOwnership
import Rko.CriticalSection
import Rko.SimpleMutex
import Rko.UringSections
import Rko.UringCalls
import Rko.UringThreads
import Rko.Dialogue
import Rko.Interpretation
import Rko.HttpConnection
import Rko.HttpExchange
import Rko.MountedFs
import Rko.TarfsTree
import Rko.Ext2File
import Rko.Ext2Tree
import Rko.UringBridge
import Rko.Regions
import Rko.Workqueue
import Rko.FsLifecycle

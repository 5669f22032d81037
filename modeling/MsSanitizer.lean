import MsSanitizer.BoundsCheck
import MsSanitizer.BoundsUpdate
import MsSanitizer.PmBytes
import MsSanitizer.GmBytes
import MsSanitizer.HeapBlocks
import MsSanitizer.Shadow
import MsSanitizer.ShadowBytes
import MsSanitizer.ShadowScan
import MsSanitizer.ShadowOwner
import MsSanitizer.SortedEntries
import MsSanitizer.VectorTime
import MsSanitizer.VectorTimeDense
import MsSanitizer.EventDef
import MsSanitizer.PipeLine
import MsSanitizer.PipeLineStop
import MsSanitizer.CountingSort
import MsSanitizer.MemSeries
import MsSanitizer.PipeLineEnds
import MsSanitizer.MemEventChecker
import MsSanitizer.ScanlineOrder
import MsSanitizer.ScanlinePairs
import MsSanitizer.ScanlineFast
import MsSanitizer.FifoTrace
import MsSanitizer.RecordParse
import MsSanitizer.RecordStream
import MsSanitizer.RingComplete
import MsSanitizer.RingSound
import MsSanitizer.ScalarBarriers
import MsSanitizer.BarrierDatabase
import MsSanitizer.CrossCoreRange
import MsSanitizer.Rendezvous
import MsSanitizer.CrossCoreRounds
import MsSanitizer.CrossCoreGroups
import MsSanitizer.PipelineReplayer
import MsSanitizer.PipeLineSteps
import MsSanitizer.ReplayDelivery
import MsSanitizer.SanEventQueue
import MsSanitizer.CrossNpuRaceAlg
import MsSanitizer.SoftSyncRuns
import MsSanitizer.CoreBarriers
import MsSanitizer.Mode0Engines
import MsSanitizer.StoredClocks
import MsSanitizer.NpuQueues
import MsSanitizer.KernelBarriers
import MsSanitizer.RecordPreProcess
import MsSanitizer.OrderedPacketScheduler
import MsSanitizer.Protocol
import MsSanitizer.ProtocolRuns
import MsSanitizer.IpcRegistry
import MsSanitizer.BoundedRuns
import MsSanitizer.OnlineShadowTable
import MsSanitizer.SimtEntries
import MsSanitizer.KernelBlock
import MsSanitizer.SimtRace
import MsSanitizer.PeerAccessManager
import MsSanitizer.PacketDependencies
import MsSanitizer.BatchParse
import MsSanitizer.ParseTasks
import MsSanitizer.AsanAction
import MsSanitizer.HeapCoverage
import MsSanitizer.MemRecords
import MsSanitizer.MstxHeaps
import MsSanitizer.ScopeSwitch
import MsSanitizer.Compaction
import MsSanitizer.RecordMerge
import MsSanitizer.MemRepeats
import MsSanitizer.Spans
import MsSanitizer.OpExtent
import MsSanitizer.TwoPointer
import MsSanitizer.DynamicOverlap
import MsSanitizer.SeriesOverlap
import MsSanitizer.ParsePipeline
import MsSanitizer.MergedShadow
import MsSanitizer.CausalClocks
import MsSanitizer.FifoNetwork
import MsSanitizer.RaceAlgImpl
import MsSanitizer.BlockPolls
import MsSanitizer.PollOrder
import MsSanitizer.BlockClocks
import MsSanitizer.CancelStacks
import MsSanitizer.ClassMerge
import MsSanitizer.CountedQueues
import MsSanitizer.DcciWindow
import MsSanitizer.EntryMap
import MsSanitizer.FlagPairs
import MsSanitizer.MergedWaits
import MsSanitizer.MstxCounts
import MsSanitizer.SignalMerge
import MsSanitizer.SimtErrors
import MsSanitizer.HostMemory
import MsSanitizer.KeyTallies
import MsSanitizer.SyncThreads
import MsSanitizer.BufferRecords
import MsSanitizer.BufferReleases
import MsSanitizer.HsetRuns
import MsSanitizer.BlockIdxList
import MsSanitizer.EndPointOrder
import MsSanitizer.ErrorBuffer
import MsSanitizer.Frontier
import MsSanitizer.PeerCoverage
import MsSanitizer.ShadowHeap
import MsSanitizer.StatusWord
import MsSanitizer.SimtErrorStream
import MsSanitizer.ChangeLog
import MsSanitizer.KernelBlockReads
import MsSanitizer.SimtSummary
import MsSanitizer.EventOrder
import MsSanitizer.PipeLineRule
import MsSanitizer.PlainScan
import MsSanitizer.RunAlgorithm
import MsSanitizer.InCoreRaces
import MsSanitizer.SinglePipeRaceAlgImpl
import MsSanitizer.SinglePipeRaces
import MsSanitizer.AsanAccess
import MsSanitizer.ChipBytes
import MsSanitizer.DeviceMemory
import MsSanitizer.AccessShadow
import MsSanitizer.TableChecks
import MsSanitizer.AccessReports
import MsSanitizer.DeviceSessions
import MsSanitizer.RankedRuns
import MsSanitizer.CheckerQueues
import MsSanitizer.CheckerOrder
import MsSanitizer.CheckerFinish
import MsSanitizer.CheckerWaits
import MsSanitizer.ExitChecks
import MsSanitizer.UnusedMemory

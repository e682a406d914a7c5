import ReadThrough.Arena
import ReadThrough.Bucket
import ReadThrough.Bytes
import ReadThrough.Cache
import ReadThrough.Call
import ReadThrough.Counters
import ReadThrough.Cursor
import ReadThrough.Destination
import ReadThrough.Error
import ReadThrough.Eviction
import ReadThrough.Eviction.Fifo
import ReadThrough.Eviction.Lru
import ReadThrough.Geometry
import ReadThrough.LinkedList
import ReadThrough.Notice
import ReadThrough.PageKey
import ReadThrough.Reader
import ReadThrough.Rounding
import ReadThrough.Router
import ReadThrough.Scenario.Run
import ReadThrough.Scenario.Script
import ReadThrough.Scenario.World
import ReadThrough.SipHash
import ReadThrough.Source
import ReadThrough.Source.File
import ReadThrough.Proofs.Arena
import ReadThrough.Proofs.DistinctKeys
import ReadThrough.Proofs.LinkedList
import ReadThrough.Proofs.LawfulPolicy
import ReadThrough.Proofs.Ownership
import ReadThrough.Proofs.Usage
import ReadThrough.Proofs.Geometry
import ReadThrough.Proofs.SlotPartition
import ReadThrough.Proofs.PageContents
import ReadThrough.Proofs.CallShape
import ReadThrough.Proofs.Walk
import ReadThrough.Proofs.CallInvariant
import ReadThrough.Proofs.Pool
import ReadThrough.Proofs.Exhaustion
import ReadThrough.Proofs.Interleaving
import ReadThrough.Proofs.CallRun
import ReadThrough.Proofs.PageMap
import ReadThrough.Proofs.Places
import ReadThrough.Proofs.Deeds
import ReadThrough.Proofs.Transparency
import ReadThrough.Proofs.RecencyList
import ReadThrough.Proofs.Turns
import ReadThrough.Proofs.CacheOrder
import ReadThrough.Proofs.Tour
import ReadThrough.Proofs.Sessions
import ReadThrough.Proofs.ReuseDistance
import ReadThrough.Proofs.StackInclusion
import ReadThrough.Proofs.SharedViews
import ReadThrough.Proofs.HandleSequence
import ReadThrough.Proofs.HandleMap
import ReadThrough.Proofs.JoinedLists
import ReadThrough.Proofs.RepeatedTouches
import ReadThrough.Proofs.SplitReads
import ReadThrough.Proofs.CallEnd
import ReadThrough.Proofs.Towers
import ReadThrough.Proofs.CallUsage
import ReadThrough.Proofs.Steps
import ReadThrough.Proofs.DisjointReads
import ReadThrough.Proofs.FailedVisits
import ReadThrough.Proofs.Words
import ReadThrough.Proofs.Counters
import ReadThrough.Proofs.Bookkeeping
import ReadThrough.Proofs.Statistics
import ReadThrough.Proofs.CandidSources
import ReadThrough.Proofs.CursorStreams
import ReadThrough.Proofs.FileReads
import ReadThrough.Proofs.Routing
import ReadThrough.Proofs.ExactGeometry
import ReadThrough.Proofs.Journeys
import ReadThrough.Proofs.SourceTraffic
import ReadThrough.Proofs.BufferFrame
import ReadThrough.Proofs.CheckedBuckets
import ReadThrough.Proofs.CheckedSteps
import ReadThrough.Proofs.Overclaims

import Rangexx.AscendingScan
import Rangexx.KeyedTable
import Rangexx.Roster
import Rangexx.RosterGraph
import Rangexx.StateProgram
import Rangexx.Worklist
import Rangexx.BreadthFirst
import Rangexx.DepthFirst
import Rangexx.CommonReach
import Rangexx.PathUnfolding
import Rangexx.PostOrder
import Rangexx.EventRuns
import Rangexx.NodeInfo
import Rangexx.EdgeHistory
import Rangexx.TagHistory
import Rangexx.NodeHistory
import Rangexx.SlotList
import Rangexx.TagValues
import Rangexx.Instance
import Rangexx.GraphDB
import Rangexx.NodeEdits
import Rangexx.EdgeOrder
import Rangexx.TagEdits
import Rangexx.ChangelistRecord
import Rangexx.VersionForecast
import Rangexx.FlushTransparency
import Rangexx.RecordKeys
import Rangexx.StoredKeys
import Rangexx.ListCursor
import Rangexx.GraphCursor
import Rangexx.WorkingSet
import Rangexx.CommittedGraph
import Rangexx.GraphHistory
import Rangexx.VersionSwitch
import Rangexx.DraftGraph
import Rangexx.DraftOperations
import Rangexx.NodeRemoval
import Rangexx.OpenTransactions
import Rangexx.AbortedTransactions
import Rangexx.TransactionLiveness
import Rangexx.OpenLookups
import Rangexx.BlankNodes
import Rangexx.Wiring
import Rangexx.GraphStep
import Rangexx.FaultLoop
import Rangexx.OrderedTable
import Rangexx.Backend
import Rangexx.VersionSeek
import Rangexx.ReadApi
import Rangexx.WriteApi
import Rangexx.Searches
import Rangexx.Traversal
import Rangexx.CallScopes
import Rangexx.CallParts
import Rangexx.CompleteRemoval
import Rangexx.NameResolution
import Rangexx.CallSteps
import Rangexx.CallFailures
import Rangexx.CallRuns
import Rangexx.StoreContracts
import Rangexx.PrimaryGraph
import Rangexx.EdgeTypes
import Rangexx.HostEnvironments
import Rangexx.RemoveHostGuard
import Rangexx.Namespaces
import Rangexx.Snapshot
import Rangexx.KeyLists
import Rangexx.SilentWrites
import Rangexx.RangeHistory
import Rangexx.TransactionLog
import Rangexx.RangeVersions
import Rangexx.Queries
import Rangexx.AttachedNodes
import Rangexx.AscendingVersions
import Rangexx.VersionAtTime
import Rangexx.Listings
import Rangexx.ReachabilityListings
import Rangexx.ReadStarts
import Rangexx.NearestKey
import Rangexx.FirstKey
import Rangexx.NearestCommonAncestor
import Rangexx.Expand
import Rangexx.ExpandUnfolding
import Rangexx.SortedLists
import Rangexx.DecimalText
import Rangexx.SequenceExpansion
import Rangexx.SequenceLimits
import Rangexx.RangeExpressions
import Rangexx.SetOperators
import Rangexx.EmptyOperands
import Rangexx.OutputRuns
import Rangexx.Scanner
import Rangexx.ScannerTurns
import Rangexx.ScannerTokens
import Rangexx.QuotedTokens
import Rangexx.WhitespaceArrivals
import Rangexx.WhitespaceRuns
import Rangexx.ReturningRuns
import Rangexx.RangeParser
import Rangexx.ParserTurns
import Rangexx.OperatorChains
import Rangexx.FunctionWords
import Rangexx.TreeLeaves
import Rangexx.QuoteStyles
import Rangexx.ExpandHosts
import Rangexx.AllClusters
import Rangexx.LookupPaths
import Rangexx.JsonText
import Rangexx.JsonDecoder
import Rangexx.JsonPrinted
import Rangexx.OverwritingStream
import Rangexx.JsonVisitor
import Rangexx.JsonOutput
import Rangexx.JsonLayout
import Rangexx.TopologicalSort
import Rangexx.PrunedLog
import Rangexx.StoredMessages
import Rangexx.SingleChange
import Rangexx.CorruptedByte
import Rangexx.PaxosProcesses
import Rangexx.PaxosSystem
import Rangexx.PaxosTraces
import Rangexx.PaxosAgreement
import Rangexx.AccepterAnswers
import Rangexx.ListenServer
import Rangexx.ListPieces
import Rangexx.MessageQueue
import Rangexx.MessageFaults
import Rangexx.ProposerTask
import Rangexx.RetryRounds
import Rangexx.LearnOrder
import Rangexx.LearnCounts
import Rangexx.LearnQuorum
import Rangexx.CodedStream
import Rangexx.Base128
import Rangexx.MessageFields
import Rangexx.FieldKinds
import Rangexx.StoreProto
import Rangexx.RecordProto
import Rangexx.ProtoRoundTrips
import Rangexx.StoredNodes
import Rangexx.StoredWrites
import Rangexx.AnsweredRequests
import Rangexx.Datagrams
import Rangexx.GarbledTexts

import PgYaap.TransitionSystem
import PgYaap.DsmTaskQueue
import PgYaap.DsmTaskQueueSafety
import PgYaap.EventScheduler
import PgYaap.EventSchedulerSafety
import PgYaap.StreamingOperator
import PgYaap.DrainOperators
import PgYaap.LinkedChain
import PgYaap.HashJoinCombine
import PgYaap.HashJoinCombineSafety
import PgYaap.RelationalJoin
import PgYaap.TupleData
import PgYaap.HashJoinProbe
import PgYaap.HashJoinProbeLoops
import PgYaap.HashJoinReference
import PgYaap.HashJoinCorrectness
import PgYaap.ByteMemory
import PgYaap.TupleDataCollection
import PgYaap.TupleDataCollectionRows
import PgYaap.HashJoinBuildTables
import PgYaap.HashJoinBuildMerge
import PgYaap.HashJoinBuildCopy
import PgYaap.HashJoinBuildRuns
import PgYaap.EventLifecycle
import PgYaap.EventLifecycleSafety
import PgYaap.BuildPipelines
import PgYaap.InterleavedRows
import PgYaap.CrossProduct
import PgYaap.CrossProductSafety
import PgYaap.NullFlags
import PgYaap.SqlLogic
import PgYaap.FilterProgram
import PgYaap.FilterProgramCorrectness
import PgYaap.FilterSql
import PgYaap.FilterAgreement
import PgYaap.ColumnSlots
import PgYaap.LogicalPlan
import PgYaap.RemoveUnusedColumns
import PgYaap.ConnectedSubsets
import PgYaap.QueryGraphEdges
import PgYaap.JoinEnumeration
import PgYaap.JoinEnumerationOrder
import PgYaap.JoinEnumerationRun
import PgYaap.JoinEnumerationBinary
import PgYaap.DisjointSets
import PgYaap.JoinOrderRewrite
import PgYaap.JoinOrderCoverage
import PgYaap.JoinSideMasks
import PgYaap.PhysicalPlan
import PgYaap.AggregateCanonicalization
import PgYaap.AggregateReferences
import PgYaap.AggregateCanonicalizationRun
import PgYaap.AggregateLayout
import PgYaap.ThreeValuedLogic
import PgYaap.ExpressionEvaluation
import PgYaap.SubqueryJoins
import PgYaap.SubqueryMeaning
import PgYaap.SubqueryPromotion
import PgYaap.SubqueryPredicates
import PgYaap.ExpressionFingerprints
import PgYaap.CommonConjuncts
import PgYaap.UnescapedText
import PgYaap.BoundExpressions
import PgYaap.ExpressionClones
import PgYaap.ProducedColumns
import PgYaap.FilterScratchExact
import PgYaap.FingerprintMeaning
import PgYaap.JoinOrderCosts
import PgYaap.JoinOrderOptimality
import PgYaap.RankedRows
import PgYaap.DecorrelatedLimit
import PgYaap.DecorrelatedLimitRows
import PgYaap.DecorrelatedLimitCondition
import PgYaap.PositionalNumerals
import PgYaap.StoredNumeric
import PgYaap.WrappingAccumulators
import PgYaap.NumericReading
import PgYaap.NumericColumns
import PgYaap.LikePatterns
import PgYaap.Truncation
import PgYaap.ProjectionSteps
import PgYaap.ProjectionArithmetic
import PgYaap.AggregateExactness
import PgYaap.GroupedFold
import PgYaap.ProbedTables
import PgYaap.AggregateStates
import PgYaap.AggregateDeltas
import PgYaap.AggregateNulls
import PgYaap.AggregateRows
import PgYaap.AggregateRowsStore
import PgYaap.AggregateRoundTrip
import PgYaap.GroupMatching
import PgYaap.AggregateHashTable
import PgYaap.AggregateHashTableProbes
import PgYaap.AggregateHashTableRows
import PgYaap.AggregateBatchProbe
import PgYaap.AggregateBatchSteps
import PgYaap.AggregateBatchRun
import PgYaap.AggregateHashTableRuns
import PgYaap.WhileLoops
import PgYaap.TupleDataCollectionGrowth
import PgYaap.AggregateTableGrowth
import PgYaap.AggregateTableCapacity
import PgYaap.PayloadStores
import PgYaap.GrowthLoops
import PgYaap.AggregateBatchOutcome
import PgYaap.HeapColumns
import PgYaap.HeapColumnsRoundTrip
import PgYaap.HeapColumnsStore
import PgYaap.HeapTuples
import PgYaap.SimpleFilterSteps
import PgYaap.BoundedSelection
import PgYaap.SortKeys
import PgYaap.SortedSources
import PgYaap.TopNRows
import PgYaap.PhysicalTopN
import PgYaap.DictionaryChunks
import PgYaap.ProjectionTape
import PgYaap.ProjectionConditions
import PgYaap.DsmTaskQueueProgress
import PgYaap.SqlLexemes
import PgYaap.OrderDirections
import PgYaap.ProjectionLowering
import PgYaap.ProjectionRegisters
import PgYaap.TermMeanings
import PgYaap.SelectRegisters
import PgYaap.IntegerComparisons
import PgYaap.ProjectionSchemas
import PgYaap.RelatedRuns
import PgYaap.RepeatedProbes
import PgYaap.LinearProbeTables
import PgYaap.LikeLowering
import PgYaap.JitDeform
import PgYaap.JitDeformExact
import PgYaap.ScanClaims
import PgYaap.ConcurrentAppends
import PgYaap.SeqScan
import PgYaap.SeqScanRows
import PgYaap.BagJoins
import PgYaap.PlanMeaning
import PgYaap.FilterNodes
import PgYaap.MarkJoinConversion
import PgYaap.PlanTraversal
import PgYaap.JoinPredicateExtraction
import PgYaap.ScanFilters
import PgYaap.ReconstructedPipelines

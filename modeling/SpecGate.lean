import SpecGate.SortedAssoc
import SpecGate.Values
import SpecGate.CanonicalOrder
import SpecGate.Validation
import SpecGate.RegistryModel
import SpecGate.RegistryShape
import SpecGate.RegistrySemantics
import SpecGate.RegistryLoading
import SpecGate.ImportSelection
import SpecGate.Decimal
import SpecGate.Collecting
import SpecGate.LinkedValues
import SpecGate.PrimitiveValues
import SpecGate.AcceptedValues
import SpecGate.SemanticEquality
import SpecGate.ValueEncoding
import SpecGate.TraceAncestry
import SpecGate.TraceValidation
import SpecGate.LinkedTraces
import SpecGate.Display
import SpecGate.Comparison
import SpecGate.LinkedComparison
import SpecGate.TraceForest
import SpecGate.ForestWalk
import SpecGate.Pairing
import SpecGate.ComparisonVerdict
import SpecGate.SemanticTree
import SpecGate.ComparedSpans
import SpecGate.AlikeTraces
import SpecGate.ComparisonDecision
import SpecGate.TraceTraversal
import SpecGate.CaptureSession
import SpecGate.HexText
import SpecGate.Checked
import SpecGate.Demands
import SpecGate.CaptureEncoding
import SpecGate.EncodedSpans
import SpecGate.MovedCaptures
import SpecGate.EncoderTotality
import SpecGate.FiniteChains
import SpecGate.EncodedAncestry
import SpecGate.NestedSpans
import SpecGate.CaptureEffects
import SpecGate.CaptureRuns
import SpecGate.ActiveOperation
import SpecGate.JsonTrees
import SpecGate.SidecarRuns
import SpecGate.SidecarValues
import SpecGate.SettledSidecars
import SpecGate.SpanIdentities
import SpecGate.CapturedSessions
import SpecGate.Sorting
import SpecGate.IntegerText
import SpecGate.ReplayModel
import SpecGate.ReplayValues
import SpecGate.ReplayDecoding
import SpecGate.ReplayedSpans
import SpecGate.ReplayedAncestry
import SpecGate.OtlpScalars
import SpecGate.Intervals
import SpecGate.ReplayOrder
import SpecGate.NameResolution
import SpecGate.VerdictRelation
import SpecGate.ImportClosure
import SpecGate.ImportCycles
import SpecGate.InputOrder
import SpecGate.ReorderedSemantics
import SpecGate.ImportOrder
import SpecGate.FloatBits
import SpecGate.WireReading
import SpecGate.DecodedValues
import SpecGate.ReplayRefinement
import SpecGate.OtlpJson
import SpecGate.TraceFields
import SpecGate.OtlpSchema
import SpecGate.TransportedValues
import SpecGate.TypeExpressions
import SpecGate.NormalizedSchemas
import SpecGate.KeyedUnion
import SpecGate.SchemaUnion
import SpecGate.RustTypes
import SpecGate.SynTypes
import SpecGate.OutcomeChannels
import SpecGate.InstrumentedFutures
import SpecGate.PollSchedules
import SpecGate.PollRuns
import SpecGate.TraceLoading
import SpecGate.EventDiscipline
import SpecGate.RepeatedSchemas
import SpecGate.Publication
import SpecGate.SharedSidecars
import SpecGate.ParallelPolls
import SpecGate.ClrSessions
import SpecGate.SessionAgreement
import SpecGate.AgreedCaptures
import SpecGate.Utf16
import SpecGate.JsonTexts
import SpecGate.FloatTexts
import SpecGate.ClrUniqueness
import SpecGate.ProjectedShapes
import SpecGate.ClrValues
import SpecGate.SidecarCaptures
import SpecGate.CaptureJson
import SpecGate.WrittenCaptures
import SpecGate.DecimalIntegers
import SpecGate.ConvertedValues
import SpecGate.DiscoveredRegistries
import SpecGate.HarnessInputs
import SpecGate.LosslessInputs
import SpecGate.ProvisionalSnapshots
import SpecGate.Placements
import SpecGate.DeclaredSetups
import SpecGate.FoldedOperations
import SpecGate.DuplicateReports
import SpecGate.ValueOrder
import SpecGate.ClrOrder
import SpecGate.FloatNotation
import SpecGate.DependencyGraphs
import SpecGate.FilePublication
import SpecGate.DynamicTypes
import SpecGate.ComponentFilter
import SpecGate.DelimitedTexts
import SpecGate.ShortestDecimals
import SpecGate.DisplayedScalars
import SpecGate.WireTexts
import SpecGate.CanonicalTexts
import SpecGate.ComparedSites
import SpecGate.InformativeReports
import SpecGate.DependencySearch
import SpecGate.ComponentClosure
import SpecGate.QualifiedNames
import SpecGate.DiscoveredSchemas
import SpecGate.NormalizedRegistries
import SpecGate.PublishedTypes
import SpecGate.PublishedSchemas
import SpecGate.StepwiseStates
import SpecGate.StorageBindings
import SpecGate.BindingDepth
import SpecGate.BoundNodes
import SpecGate.BoundOperations
import SpecGate.StoredValues
import SpecGate.StoredContents
import SpecGate.CarriedContents
import SpecGate.ConvertedCaptures

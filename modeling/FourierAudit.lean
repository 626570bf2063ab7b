import FourierAudit.Arguments
import FourierAudit.Backend
import FourierAudit.Binary32
import FourierAudit.Buffer
import FourierAudit.Butterfly
import FourierAudit.CaseRequest
import FourierAudit.CommandLine
import FourierAudit.Comparison
import FourierAudit.Dyadic
import FourierAudit.Engine
import FourierAudit.Extents
import FourierAudit.Failure
import FourierAudit.FastTransforms
import FourierAudit.IntegerLiteral
import FourierAudit.LegalExtent
import FourierAudit.Main
import FourierAudit.MixedRadix
import FourierAudit.Packing
import FourierAudit.Precision
import FourierAudit.Printable
import FourierAudit.Quantity
import FourierAudit.QuotedText
import FourierAudit.Registry
import FourierAudit.RoundedDecimal
import FourierAudit.Run
import FourierAudit.Sample
import FourierAudit.Scalar
import FourierAudit.Session
import FourierAudit.ShortestDecimal
import FourierAudit.Spectrum
import FourierAudit.Stimulus
import FourierAudit.Timer
import FourierAudit.TimingTable
import FourierAudit.TransformCase
import FourierAudit.Twister
import FourierAudit.Verification
import FourierAudit.Proofs.ArrayShapes
import FourierAudit.Proofs.BackendLimits
import FourierAudit.Proofs.Binary64Bits
import FourierAudit.Proofs.Binary64Rounding
import FourierAudit.Proofs.Binary64Values
import FourierAudit.Proofs.BufferHistory
import FourierAudit.Proofs.CapabilityLimits
import FourierAudit.Proofs.CaseSizes
import FourierAudit.Proofs.CaseStages
import FourierAudit.Proofs.ClosedSections
import FourierAudit.Proofs.ComparisonCriterion
import FourierAudit.Proofs.ComponentErrors
import FourierAudit.Proofs.DiscreteFourier
import FourierAudit.Proofs.ElementErrors
import FourierAudit.Proofs.ExactArithmetic
import FourierAudit.Proofs.ExactBackend
import FourierAudit.Proofs.ExactNumbers
import FourierAudit.Proofs.ExactTransforms
import FourierAudit.Proofs.ExitCode
import FourierAudit.Proofs.ExtentSearch
import FourierAudit.Proofs.FailingSteps
import FourierAudit.Proofs.GridComponents
import FourierAudit.Proofs.GridTransfers
import FourierAudit.Proofs.HarnessRuns
import FourierAudit.Proofs.HermitianCompletion
import FourierAudit.Proofs.HermitianSymmetry
import FourierAudit.Proofs.LayoutRequests
import FourierAudit.Proofs.LegalPowers
import FourierAudit.Proofs.LooserTolerance
import FourierAudit.Proofs.Measurements
import FourierAudit.Proofs.NamedSections
import FourierAudit.Proofs.NamelessSections
import FourierAudit.Proofs.NestedTimes
import FourierAudit.Proofs.NormalisedCases
import FourierAudit.Proofs.PackedLayout
import FourierAudit.Proofs.PackedOrder
import FourierAudit.Proofs.PrimeRadices
import FourierAudit.Proofs.RadixProducts
import FourierAudit.Proofs.RealGrids
import FourierAudit.Proofs.ReferenceHistory
import FourierAudit.Proofs.ReferenceTransform
import FourierAudit.Proofs.RepeatedRoundTrips
import FourierAudit.Proofs.ReportedLocations
import FourierAudit.Proofs.RootTables
import FourierAudit.Proofs.RoundTripCoverage
import FourierAudit.Proofs.RowMajor
import FourierAudit.Proofs.RunCalls
import FourierAudit.Proofs.RunCourse
import FourierAudit.Proofs.RunReports
import FourierAudit.Proofs.RunResults
import FourierAudit.Proofs.RunStages
import FourierAudit.Proofs.ScalarOrder
import FourierAudit.Proofs.ScopedSections
import FourierAudit.Proofs.SectionForest
import FourierAudit.Proofs.SectionLinks
import FourierAudit.Proofs.SectionNames
import FourierAudit.Proofs.SessionIndependence
import FourierAudit.Proofs.StimulusStream
import FourierAudit.Proofs.TimeShares
import FourierAudit.Proofs.TimedCode
import FourierAudit.Proofs.TimerRecords
import FourierAudit.Proofs.ToleranceLaws
import FourierAudit.Proofs.TransformShapes
import FourierAudit.Proofs.UnitInterval
import FourierAudit.Proofs.Verdict
import FourierAudit.Proofs.VerificationRuns
import FourierAudit.Proofs.WorstElement

import Commelec.Semantics
import Commelec.PolynomialConvenience
import Commelec.PolynomialRoundTrip
import Commelec.Metered
import Commelec.BuilderMeaning
import Commelec.NanReal
import Commelec.TwoEncodings
import Commelec.Differentiation
import Commelec.Termination
import Commelec.Daemon
import Commelec.References
import Commelec.Reuse
import Commelec.IntersectionHull
import Commelec.Euclidean
import Commelec.StoppingTest
import Commelec.Dykstra
import Commelec.Exceptions
import Commelec.SetReferences
import Commelec.Inlining
import Commelec.Independence
import Commelec.Lib.Procedures
import Commelec.Tasks
import Commelec.Lib.CallTree
import Commelec.VisitOrder
import Commelec.NestingError
import Commelec.Acceptance
import Commelec.BoundingBox
import Commelec.Convexity
import Commelec.Hlapi
import Commelec.RunLength
import Commelec.AdvertisedSets
import Commelec.Decoding
import Commelec.DykstraInvariants
import Commelec.DiscreteBelief
import Commelec.PVBelief
import Commelec.RoundBelief
import Commelec.CostPreference
import Commelec.Serialization
import Commelec.Packing
import Commelec.BasicProjections
import Commelec.BallAgreement
import Commelec.PolytopeBox
import Commelec.Lib.Terms
import Commelec.MonomialProduct
import Commelec.PolynomialFields
import Commelec.Collection
import Commelec.EntryBound
import Commelec.ListFold
import Commelec.UndefinedSets
import Commelec.MissingVariables
import Commelec.Release
import Commelec.ReleaseParametric
import Commelec.ReleaseTasks
import Commelec.MergedSizes
import Commelec.OutsideAccess
import Commelec.Builds
import Commelec.FatalTasks
import Commelec.BareThrow
import Commelec.Lib.LinkedList
import Commelec.PlaneList
import Commelec.Lib.Machine
import Commelec.Lib.Relay
import Commelec.Lib.Sharing
import Commelec.Coroutines
import Commelec.ControlLoop
import Commelec.DebugMode
import Commelec.VizImage
import Commelec.Lib.Framing
import Commelec.Lib.LinkedOrder
import Commelec.Linprog
import Commelec.Seidel
import Commelec.Lib.Sector
import Commelec.WedgeRegion
import Commelec.SeidelFeasible
import Commelec.WedgeExact
import Commelec.SeidelExact
import Commelec.LpExact
import Commelec.IntegerPolytope
import Commelec.Rasterization
import Commelec.AdvValidation
import Commelec.JsonAdvertisements
import Commelec.NameBinding
import Commelec.VizSession

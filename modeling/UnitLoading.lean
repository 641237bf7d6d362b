import UnitLoading.Config.File
import UnitLoading.Constant.Generations
import UnitLoading.Constant.Json
import UnitLoading.Json.Records
import UnitLoading.System.Lifecycle
import UnitLoading.Proofs.Run
import UnitLoading.Proofs.Consistent
import UnitLoading.Proofs.Handles
import UnitLoading.Proofs.Wiring
import UnitLoading.Proofs.Upkeep
import UnitLoading.Proofs.Finding
import UnitLoading.Proofs.Resolving
import UnitLoading.Proofs.Change
import UnitLoading.Proofs.Perform
import UnitLoading.Proofs.Residency
import UnitLoading.Proofs.Defining
import UnitLoading.Proofs.ResolutionOrder
import UnitLoading.Proofs.Atomicity
import UnitLoading.Proofs.Closing
import UnitLoading.Proofs.HostRelease
import UnitLoading.Proofs.HostFirst
import UnitLoading.Proofs.Isolation
import UnitLoading.Proofs.Places
import UnitLoading.Proofs.Fading
import UnitLoading.Proofs.Stability
import UnitLoading.Proofs.Confinement
import UnitLoading.Proofs.PlainMap
import UnitLoading.Proofs.Deaths
import UnitLoading.Proofs.Refusals
import UnitLoading.Proofs.Reclamation
import UnitLoading.Proofs.Children
import UnitLoading.Proofs.FirstUse
import UnitLoading.Proofs.HostRegister
import UnitLoading.Proofs.Locks
import UnitLoading.Proofs.Objects
import UnitLoading.Proofs.ContextTree
import UnitLoading.Proofs.ChainWalk
import UnitLoading.Proofs.ClosingFrame
import UnitLoading.Proofs.ConstantHistory
import UnitLoading.Proofs.Intake
import UnitLoading.Proofs.Linking
import UnitLoading.Proofs.Counters
import UnitLoading.Proofs.RepeatedWalk
import UnitLoading.Proofs.RootPlace
import UnitLoading.Proofs.ScopeBodies
import UnitLoading.Proofs.WrittenStrings
import UnitLoading.Proofs.WrittenValues
import UnitLoading.Proofs.ConfigRoundTrip
import UnitLoading.Proofs.Allocation
import UnitLoading.Proofs.ConstantSpellings
import UnitLoading.Proofs.DocumentOrder
import UnitLoading.Proofs.ConfigAcceptance

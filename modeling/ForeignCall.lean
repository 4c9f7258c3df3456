import ForeignCall.Proofs.Verification
import ForeignCall.Proofs.Engine.Simulation
import ForeignCall.Proofs.Engine.Running
import ForeignCall.Proofs.Stopping
import ForeignCall.Script.Session
import ForeignCall.Proofs.DirectCall.Programs
import ForeignCall.Proofs.Building
import ForeignCall.Proofs.Arrangement.Plan
import ForeignCall.Proofs.Linking
import ForeignCall.Proofs.DirectCall.Agreement
import ForeignCall.Proofs.Memory.Segment
import ForeignCall.Proofs.Memory.Allocation
import ForeignCall.Proofs.Engine.Yields
import ForeignCall.Proofs.Frame
import ForeignCall.Proofs.Transport.Marshalling
import ForeignCall.Proofs.Transport.Unboxing
import ForeignCall.Proofs.Transport.Boxing
import ForeignCall.Proofs.Arrangement.Cursor
import ForeignCall.Proofs.Layout
import ForeignCall.Proofs.Arrangement.Routes
import ForeignCall.Proofs.Arrangement.Locations
import ForeignCall.Proofs.Transport.Arguments
import ForeignCall.Proofs.Memory.Ownership
import ForeignCall.Proofs.Transport.Upcalls
import ForeignCall.Proofs.Transport.Results
import ForeignCall.Proofs.Calls.Checking
import ForeignCall.Proofs.Calls.Totality
import ForeignCall.Proofs.Calls.Delivery
import ForeignCall.Proofs.Calls.Upcalls
import ForeignCall.Proofs.Engine.Access
import ForeignCall.Proofs.Engine.LeadsTo
import ForeignCall.Proofs.Memory.Requests
import ForeignCall.Proofs.Verified.Shapes
import ForeignCall.Proofs.Verified.Unboxing
import ForeignCall.Proofs.Verified.Boxing
import ForeignCall.Proofs.Verified.Overflow
import ForeignCall.Proofs.Verified.Detection
import ForeignCall.Proofs.Leaves
import ForeignCall.Proofs.Arrangement.Support
import ForeignCall.Proofs.Arrangement.ScratchSize
import ForeignCall.Proofs.Arrangement.Decision
import ForeignCall.Proofs.Memory.HandingOut
import ForeignCall.Proofs.DirectCall.Deciding
import ForeignCall.Proofs.Arrangement.Registers
import ForeignCall.Proofs.Arrangement.Singles
import ForeignCall.Proofs.DirectCall.FastPath
import ForeignCall.Proofs.Building.InPlace
import ForeignCall.Proofs.Calls.ScratchLife
import ForeignCall.Proofs.Calls.Confinement
import ForeignCall.Proofs.Geometry
import ForeignCall.Proofs.Accessors
import ForeignCall.Proofs.Caching
import ForeignCall.Proofs.Registry
import ForeignCall.Proofs.Memory.Encoding
import ForeignCall.Proofs.Memory.Views
import ForeignCall.Proofs.Memory.Detached
import ForeignCall.Proofs.FrameStore

import FrankaKistar.Foundation.Runs
import FrankaKistar.Foundation.Interpolation
import FrankaKistar.Foundation.Chains
import FrankaKistar.Bridge.Writes
import FrankaKistar.Bridge.Carried
import FrankaKistar.Arm.Bounds
import FrankaKistar.Arm.EndToEnd
import FrankaKistar.Arm.Refinement
import FrankaKistar.Arm.Tearing
import FrankaKistar.Arm.Handshake
import FrankaKistar.Arm.PtoP
import FrankaKistar.Arm.AtMostOnce
import FrankaKistar.Arm.LatestCommand
import FrankaKistar.Arm.WholeTargets
import FrankaKistar.Arm.NoJumps
import FrankaKistar.Arm.Coherence
import FrankaKistar.Arm.Leftover
import FrankaKistar.Arm.Motions
import FrankaKistar.Arm.Reconnect
import FrankaKistar.SharedMemory.RefCount
import FrankaKistar.SharedMemory.LifeCycle
import FrankaKistar.Orchestrator.Hold
import FrankaKistar.Orchestrator.Stop
import FrankaKistar.Orchestrator.Resolvers
import FrankaKistar.Orchestrator.EndPose
import FrankaKistar.Orchestrator.Ramp
import FrankaKistar.Orchestrator.Exclusivity
import FrankaKistar.Orchestrator.ActiveHandle
import FrankaKistar.Orchestrator.Terminal
import FrankaKistar.Orchestrator.Poses
import FrankaKistar.Orchestrator.Interpolant
import FrankaKistar.Orchestrator.Acceptance
import FrankaKistar.Orchestrator.Transcript
import FrankaKistar.Orchestrator.Succeeded
import FrankaKistar.Orchestrator.Deadlines
import FrankaKistar.Orchestrator.Provenance
import FrankaKistar.Orchestrator.TopicMode
import FrankaKistar.EtherCat.HandCommand
import FrankaKistar.EtherCat.Sync
import FrankaKistar.EtherCat.SensorPath
import FrankaKistar.EtherCat.ProcessImage
import FrankaKistar.EtherCat.MirrorSymmetry
import FrankaKistar.EtherCat.SlaveCheck
import FrankaKistar.EtherCat.Fingertips
import FrankaKistar.EtherCat.TipLoop
import FrankaKistar.Logger.Alignment
import FrankaKistar.System.World
import FrankaKistar.System.ClosedLoop
import FrankaKistar.Foundation.Ranges
import FrankaKistar.Foundation.Threads
import FrankaKistar.Soem.Access
import FrankaKistar.Soem.Clients
import FrankaKistar.Soem.Areas
import FrankaKistar.Soem.Delivery

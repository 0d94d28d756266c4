import Rtfsn.Checked
import Rtfsn.Crypto.Blinding
import Rtfsn.Crypto.Pedersen
import Rtfsn.Crypto.Vdf
import Rtfsn.Daemon.Attribution
import Rtfsn.Daemon.EpochLoop
import Rtfsn.Daemon.NodeState
import Rtfsn.EpochManager
import Rtfsn.Numbers
import Rtfsn.Holonomy.LoopHolonomy
import Rtfsn.Holonomy.Solver
import Rtfsn.Holonomy.SolverDefects
import Rtfsn.Holonomy.Twist
import Rtfsn.Layers.ClockRuns
import Rtfsn.Layers.Layer0
import Rtfsn.Layers.Layer1
import Rtfsn.Layers.Layer2
import Rtfsn.Layers.Layer3
import Rtfsn.Layers.Tamper
import Rtfsn.Layers.Valve
import Rtfsn.Layers.ValveRuns
import Rtfsn.Lib.Bfs
import Rtfsn.Lib.Bytes
import Rtfsn.Lib.Cholesky
import Rtfsn.Lib.ClosedWalk
import Rtfsn.Lib.HashChain
import Rtfsn.Lib.LeastSquares
import Rtfsn.Lib.LinearFilter
import Rtfsn.Lib.Loop
import Rtfsn.Lib.Machine
import Rtfsn.Lib.Maps
import Rtfsn.Lib.Tree
import Rtfsn.Sync.Absolute
import Rtfsn.Sync.AbsoluteRuns
import Rtfsn.Sync.AnchorGossip
import Rtfsn.Sync.Clock
import Rtfsn.Sync.Coboundary
import Rtfsn.Sync.Frame
import Rtfsn.Sync.FrameGraph
import Rtfsn.Sync.FrameSolution
import Rtfsn.Sync.FundamentalCycles
import Rtfsn.Sync.Gauge
import Rtfsn.Sync.Geometry
import Rtfsn.Sync.Holonomy
import Rtfsn.Sync.Kalman
import Rtfsn.Sync.KalmanBatch
import Rtfsn.Sync.Laplacian
import Rtfsn.Sync.Ntp
import Rtfsn.Sync.NtpPacket
import Rtfsn.Sync.NtpTime
import Rtfsn.Sync.PeerTrack
import Rtfsn.Sync.Recovery
import Rtfsn.Sync.RelationalClock
import Rtfsn.Sync.Spd
import Rtfsn.Sync.TrackRestart
import Rtfsn.Sync.TrackRuns
import Rtfsn.Types
import Rtfsn.Lib.Ranking
import Rtfsn.Sync.Clustering
import Rtfsn.Sync.FramePartition
import Rtfsn.Lib.Semidefinite
import Rtfsn.Sync.Covariance
import Rtfsn.Sync.TrackTwist
import Rtfsn.Sync.TrackOverflow
import Rtfsn.Lib.Flat
import Rtfsn.Sync.SpdFlat
import Rtfsn.Sync.LaplacianOptimum
import Rtfsn.Dht.Routing
import Rtfsn.Dht.RoutingRuns
import Rtfsn.Dht.Storage
import Rtfsn.Geoid.Coarsen
import Rtfsn.Geoid.Lineage
import Rtfsn.Geoid.Hierarchy
import Rtfsn.Lib.Sweep
import Rtfsn.Sync.Marzullo
import Rtfsn.Daemon.SyntheticExchange
import Rtfsn.Layers.Consensus
import Rtfsn.Sync.PopcornWindow
import Rtfsn.Sync.RawHistory
import Rtfsn.Sync.ReferenceAlive
import Rtfsn.Holonomy.Readings
import Rtfsn.Sync.AnchorFreshness
import Rtfsn.Holonomy.MaximumPrinciple
import Rtfsn.Holonomy.StepOrders
import Rtfsn.Holonomy.DefectSums
import Rtfsn.Holonomy.OneWayDelays
import Rtfsn.Lib.LineFit
import Rtfsn.Sync.ClockRegression
import Rtfsn.Lib.Dispersion
import Rtfsn.Sync.GeometricOutliers
import Rtfsn.Lib.Truncation
import Rtfsn.Overflow
import Rtfsn.Holonomy.LatencyProfile
import Rtfsn.Crypto.GroupOrder
import Rtfsn.Lib.LinearCommitment
import Rtfsn.Crypto.ProofOfKnowledge
import Rtfsn.Geoid.Embedding
import Rtfsn.Geoid.SignedValues
import Rtfsn.Holonomy.MirrorConvergence
import Rtfsn.Holonomy.BoundarySums
import Rtfsn.Holonomy.Samr
import Rtfsn.Lib.ChineseRemainder
import Rtfsn.Lib.Euclid
import Rtfsn.Holonomy.ModularInverse
import Rtfsn.Holonomy.RemainderDecoding
import Rtfsn.Lib.Relaxation
import Rtfsn.Sync.Vivaldi
import Rtfsn.Geoid.NearestRegion
import Rtfsn.Geoid.Shape
import Rtfsn.Geoid.Circulation
import Rtfsn.Daemon.Measuring
import Rtfsn.Daemon.Network
import Rtfsn.Daemon.Accuracy
import Rtfsn.Daemon.Replay
import Rtfsn.Lib.Star
import Rtfsn.Holonomy.StarSolve
import Rtfsn.Daemon.EpochSolver
import Rtfsn.Daemon.Discipline
import Rtfsn.Sync.NoisyRecovery
import Rtfsn.Lib.Pyramid
import Rtfsn.Geoid.Location
import Rtfsn.Geoid.Downward
import Rtfsn.Geoid.Delta
import Rtfsn.Layers.Refinement

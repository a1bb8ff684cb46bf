import EtcMiner.Stratum.NewestJob
import EtcMiner.Pool.RebuildNonce
import EtcMiner.Stratum.SessionUse
import EtcMiner.Stratum.Teardown
import EtcMiner.Pool.Failover
import EtcMiner.Pool.ActiveConnection
import EtcMiner.Pool.CrossPool
import EtcMiner.Pool.Unrecoverable
import EtcMiner.Stratum.Transmit
import EtcMiner.Stratum.ShareAccounting
import EtcMiner.Api.Secrecy
import EtcMiner.OpenCL.AbortMutex
import EtcMiner.Stratum.ZeroBoundary
import EtcMiner.Pool.UsableEpochs
import EtcMiner.Getwork.HttpBody
import EtcMiner.OpenCL.Keccak
import EtcMiner.Cuda.DagLaunches
import EtcMiner.OpenCL.DagLaunches
import EtcMiner.Pool.SegmentShifts
import EtcMiner.Stratum.ExtranonceRuns
import EtcMiner.Stratum.Timeouts
import EtcMiner.Common.TargetFromDiff
import EtcMiner.Stratum.ShareTarget
import EtcMiner.Pool.Backticks
import EtcMiner.Pool.ShareBooks
import EtcMiner.Pool.ShownDifficulty
import EtcMiner.Common.Worker
import EtcMiner.Cuda.Outputs
import EtcMiner.Ethash.FullDataset
import EtcMiner.Ethash.LightCache
import EtcMiner.Ethash.Managed
import EtcMiner.OpenCL.Outputs
import EtcMiner.Eth.HashRate
import EtcMiner.Eth.Pausing
import EtcMiner.Ethash.Sponge

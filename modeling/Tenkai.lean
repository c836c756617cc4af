import Tenkai.ApplyTerminality
import Tenkai.ApprovalSufficiency
import Tenkai.CollectionOrder
import Tenkai.ContractCycles
import Tenkai.ContractRanks
import Tenkai.Exposure
import Tenkai.FencedMutation
import Tenkai.HostHighWater
import Tenkai.HostOnce
import Tenkai.LeaseFencing
import Tenkai.MigrationProgress
import Tenkai.ModelEngine
import Tenkai.Overlay
import Tenkai.PlanIdentity
import Tenkai.PlanOrder
import Tenkai.Reconciler
import Tenkai.RuntimeAdmission
import Tenkai.RuntimeClaims
import Tenkai.ServerRollback
import Tenkai.StepTruth
import Tenkai.TopologyAvailability
import Tenkai.UpgradeOutcomes
import Tenkai.WaveDirection
import Tenkai.WaveDriving
import Tenkai.WaveOrder
import Tenkai.WaveRollback

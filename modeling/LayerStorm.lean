import LayerStorm.Ipc.SpscRing
import LayerStorm.Ipc.Seqlock
import LayerStorm.Transfer.Conservation
import LayerStorm.Daemon.TokenAccounting
import LayerStorm.Daemon.Wakeups
import LayerStorm.Memory.ArenaDurability
import LayerStorm.Memory.NvmeRestart
import LayerStorm.GpuLoader.BoardMirror
import LayerStorm.GpuLoader.OffloadSplit
import LayerStorm.Daemon.ComputeDelivery
import LayerStorm.Daemon.V4TieringSafety
import LayerStorm.Server.HttpAdmission
import LayerStorm.Bridge.Attribution
import LayerStorm.Server.StreamChunking
import LayerStorm.Weights.ManifestAddress
import LayerStorm.Weights.PrepackHistory
import LayerStorm.Weights.LiveIdentity
import LayerStorm.Compute.MultiNumaFaithful
import LayerStorm.Speculation.ContextFaithful
import LayerStorm.Server.ReasoningSplit
import LayerStorm.Orchestrator.PrefixCheckpoint
import LayerStorm.Daemon.IndexerPages
import LayerStorm.Daemon.V4TierPages
import LayerStorm.Daemon.KvMetadataCache
import LayerStorm.Daemon.CohortView
import LayerStorm.Orchestrator.PrefillGrid
import LayerStorm.Orchestrator.Reservation
import LayerStorm.Memory.ArenaLoader
import LayerStorm.Weights.GgufReader
import LayerStorm.Memory.VramLayout
import LayerStorm.Weights.PinnedSlots
import LayerStorm.Statistics.EagerStats
import LayerStorm.Statistics.AffinityHints
import LayerStorm.Compute.SpanGraphRuns
import LayerStorm.Bridge.CompletionWait
import LayerStorm.Bridge.FusedIssue
import LayerStorm.Daemon.ForcedFold
import LayerStorm.Paging.FreeRuns
import LayerStorm.Paging.UnslabbedPools
import LayerStorm.Paging.FailureAtomicity
import LayerStorm.Autoconfig.EmittedRecipe
import LayerStorm.Memory.ElasticAccounting
import LayerStorm.Memory.ExpertZoneMath
import LayerStorm.Daemon.KvShardMath
import LayerStorm.Memory.ArenaPlacement
import LayerStorm.Memory.StoredArena
import LayerStorm.Daemon.EpResidencyDedup
import LayerStorm.Weights.SfbReformat

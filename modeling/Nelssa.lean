import Nelssa.Core.CoarseHashes
import Nelssa.Core.Inertness
import Nelssa.Core.LongRequests
import Nelssa.Core.MambaHistories
import Nelssa.Core.PoolRuns
import Nelssa.Core.RecyclingAdmission
import Nelssa.Core.SessionIsolation
import Nelssa.Core.WindowMaximality
import Nelssa.CpuAttention.FusedAttention
import Nelssa.KvOffload.Eviction
import Nelssa.Nixl.ReceiveOrders
import Nelssa.Sample.ThinkingBudget
import Nelssa.Sched.AsyncAccounting
import Nelssa.Sched.EncoderSlots
import Nelssa.Sched.LoadRecovery
import Nelssa.Sched.Progress
import Nelssa.Sched.QueueMembership
import Nelssa.Sched.Repetition
import Nelssa.Sched.StreamingSessions
import Nelssa.System.RetainedBlocks
import Nelssa.Worker.BufferKeys
import Nelssa.Worker.Centroids
import Nelssa.Worker.ContextParallel
import Nelssa.Worker.MergeExact
import Nelssa.Worker.Prefills
import Nelssa.Worker.PromptLogprobs
import Nelssa.Worker.RowState
import Nelssa.Worker.SeqLens
import Nelssa.Worker.SimilaritySearch

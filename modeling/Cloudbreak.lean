import Cloudbreak.Proofs.MintCache.ApplicationOrder
import Cloudbreak.Proofs.MintCache.Bootstrap
import Cloudbreak.Proofs.MintCache.TableComplete
import Cloudbreak.Proofs.MintCache.Resolve
import Cloudbreak.Proofs.NonCirculating.Held
import Cloudbreak.Proofs.NonCirculating.Seeding
import Cloudbreak.Proofs.Supply.BlockView
import Cloudbreak.Proofs.Supply.LateWrite
import Cloudbreak.Proofs.Supply.Rows
import Cloudbreak.Proofs.Supply.Ledger
import Cloudbreak.Proofs.Supply.Exact
import Cloudbreak.Proofs.Supply.LiveBlock
import Cloudbreak.Proofs.Supply.LiveRun
import Cloudbreak.Proofs.Supply.Window
import Cloudbreak.Proofs.Supply.GoLive
import Cloudbreak.Proofs.Supply.Tracked
import Cloudbreak.Proofs.Supply.GapRepair
import Cloudbreak.Proofs.Supply.Bootstrap
import Cloudbreak.Proofs.Supply.FailedWrites
import Cloudbreak.Proofs.Cleanup.Conservation
import Cloudbreak.Proofs.Processed.Reads
import Cloudbreak.Proofs.Processed.Conflict
import Cloudbreak.Proofs.Processed.ReadAccounts
import Cloudbreak.Proofs.SelfHealing.Gaps
import Cloudbreak.Proofs.SelfHealing.OpenGap
import Cloudbreak.Proofs.Finalizer.Handed
import Cloudbreak.Proofs.Snapshot.LtHash
import Cloudbreak.Proofs.NonCirculating.NewestRuns
import Cloudbreak.Proofs.Supply.Publishing
import Cloudbreak.Proofs.Health.Mirror
import Cloudbreak.Proofs.Gpa.Accounting
import Cloudbreak.Proofs.SaveBlock.GapFill
import Cloudbreak.Proofs.Gpa.Responses
import Cloudbreak.Model.LargestAccounts.Persist
import Cloudbreak.Proofs.LargestAccounts.Emission
import Cloudbreak.Proofs.LargestAccounts.Persisted
import Cloudbreak.Proofs.Filters.ValueCmp
import Cloudbreak.Proofs.Filters.Identity
import Cloudbreak.Proofs.Filters.PatternId
import Cloudbreak.Proofs.SaveBlock.OwnerOrder
import Cloudbreak.Proofs.VoteStakes.Mirror
import Cloudbreak.Proofs.QueryTracker.Demand
import Cloudbreak.Proofs.QueryTracker.Eviction
import Cloudbreak.Proofs.Health.SharedFlag
import Cloudbreak.Proofs.QueryTracker.Lifecycle
import Cloudbreak.Proofs.Supply.CacheRuns
import Cloudbreak.Proofs.Finalizer.AncestorChain
import Cloudbreak.Proofs.Snapshot.Filtered
import Cloudbreak.Proofs.Snapshot.TempVersions
import Cloudbreak.Proofs.QueryTracker.Buffer
import Cloudbreak.Proofs.Gpa.Streaming
import Cloudbreak.Proofs.MintCache.ApplyChain
import Cloudbreak.Proofs.Snapshot.DbLtHash
import Cloudbreak.Proofs.Filters.SqlFilters
import Cloudbreak.Proofs.Filters.CreateIndex
import Cloudbreak.Proofs.MintCache.RowCodec
import Cloudbreak.Proofs.Migration.Bs58
import Cloudbreak.Proofs.SaveBlock.OwnerMove
import Cloudbreak.Proofs.Gpa.ProgramAccounts
import Cloudbreak.Proofs.LargestAccounts.Served
import Cloudbreak.Proofs.LargestAccounts.RecordCodec
import Cloudbreak.Proofs.SlotSync.Published
import Cloudbreak.Proofs.SlotSync.Serving
import Cloudbreak.Proofs.Gpa.StreamedRows
import Cloudbreak.Proofs.Grpc.Reconnection
import Cloudbreak.Proofs.Snapshot.HashChecker
import Cloudbreak.Proofs.VoteStakes.Converged
import Cloudbreak.Proofs.Blockhashes.Retention

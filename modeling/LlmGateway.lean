import LlmGateway.CapacityPool.Wakeup
import LlmGateway.CapacityPool.Epoch
import LlmGateway.CapacityPool.Pause
import LlmGateway.CapacityPool.DrainedSlots
import LlmGateway.Credit.MeterWindow
import LlmGateway.Credit.Latch
import LlmGateway.Credit.Overrun
import LlmGateway.Credit.Domination
import LlmGateway.FifoGate.Limit
import LlmGateway.Pipeline.Exclusion
import LlmGateway.WakeLedger.Terminal
import LlmGateway.WakeLedger.SingleClaim
import LlmGateway.WakeLedger.Cursor
import LlmGateway.WakeLedger.HeadOfLine
import LlmGateway.Eviction.Completeness
import LlmGateway.Eviction.Permanence
import LlmGateway.Eviction.Minimality
import LlmGateway.Eviction.Agreement
import LlmGateway.Eviction.Hysteresis
import LlmGateway.Routing.SelectionRules
import LlmGateway.Transport.RoundTrip
import LlmGateway.MessagePump.Expiry
import LlmGateway.MessagePump.Completion
import LlmGateway.Cortex.Dedup
import LlmGateway.Cortex.Relevance
import LlmGateway.AgentBus.Paging
import LlmGateway.AgentBus.ReadMarking
import LlmGateway.AgentBus.WriteTicket
import LlmGateway.Federation.TelemetrySync
import LlmGateway.Cortex.SeatLease
import LlmGateway.Pipeline.JournalFold
import LlmGateway.Pipeline.ContinuationRuns
import LlmGateway.Cortex.Repointing
import LlmGateway.Pipeline.ModelCoordination
import LlmGateway.Pipeline.DagRelease
import LlmGateway.Pipeline.DagTermination
import LlmGateway.MechanicalLand.GatedLand
import LlmGateway.EventStore.Survival
import LlmGateway.SessionStore.RoundTrip
import LlmGateway.DispatchMonitor.OneRow
import LlmGateway.Cortex.VerbatimSuccession
import LlmGateway.Cortex.DigestSegment
import LlmGateway.EventStore.FanOut
import LlmGateway.Cortex.ClaimForm
import LlmGateway.Cortex.CreateRoute
import LlmGateway.EventStore.NoGap
import LlmGateway.Pipeline.StepReads
import LlmGateway.Pipeline.MapAlignment
import LlmGateway.Pipeline.FailFast
import LlmGateway.Pipeline.Traversal
import LlmGateway.Pipeline.CriticalPath
import LlmGateway.ModelIds.Normalisation
import LlmGateway.McpServer.ResponseStore
import LlmGateway.DurableIo.Preservation
import LlmGateway.Rag.CodeChunking
import LlmGateway.Rag.ParagraphChunks
import LlmGateway.Credit.Timestamps
import LlmGateway.DispatchMonitor.Correlation
import LlmGateway.Sse.Fragmentation
import LlmGateway.MechanicalLand.Answers
import LlmGateway.Jobs.Restart
import LlmGateway.SessionStore.Envelope
import LlmGateway.ReviewVerdict.FailsClosed
import LlmGateway.DispatchMonitor.Codec
import LlmGateway.MarkdownSections.ReadBack

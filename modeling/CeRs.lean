import CeRs.Adapt.Composed
import CeRs.Adapt.Exact
import CeRs.Adapt.Mediation
import CeRs.Adapt.Teardown
import CeRs.Capability.Call
import CeRs.Capability.Healing
import CeRs.Capability.Stateful
import CeRs.Capability.Stopping
import CeRs.Capacity
import CeRs.Lane.Answers
import CeRs.Lane.Candidate
import CeRs.Lane.Drain
import CeRs.Lane.Fallback
import CeRs.Lane.Linearizable
import CeRs.Lane.Settling
import CeRs.Lane.WatchOnce
import CeRs.Lane.WatchStart
import CeRs.Locate.Failover
import CeRs.Locate.Local
import CeRs.Locate.Reproducible
import CeRs.Mesh.Accounts
import CeRs.Mesh.EndToEnd
import CeRs.MessageStream
import CeRs.Object.Agreement
import CeRs.Object.Chunking
import CeRs.Object.Integrity
import CeRs.Object.Pacing
import CeRs.Object.RoundTrip
import CeRs.Object.SharedStore
import CeRs.Object.Upload
import CeRs.Paths
import CeRs.Serve.Backoff
import CeRs.Serve.Connection
import CeRs.Serve.Filtered
import CeRs.Serve.Malformed
import CeRs.Serve.Recovery
import CeRs.Serve.Unanswered
import CeRs.Sse.Closing
import CeRs.Sse.Html
import CeRs.Sse.LineEndings
import CeRs.Sse.TakeLine
import CeRs.Sse.TextChunks
import CeRs.Sse.Written
import CeRs.Tags.Found
import CeRs.Topics

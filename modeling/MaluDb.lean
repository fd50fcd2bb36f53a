import MaluDb.Vector.Unordered
import MaluDb.Vector.Blob
import MaluDb.Vector.Grammar
import MaluDb.Vector.RoundTrip
import MaluDb.Vector.Storage
import MaluDb.Vector.Delete
import MaluDb.Queue.Interleave
import MaluDb.Queue.Leases
import MaluDb.Grant.Chain
import MaluDb.Fact.AsOf
import MaluDb.Fact.Chains
import MaluDb.Lifecycle.Hold
import MaluDb.Cron.Grammar
import MaluDb.Scheduler.Tick
import MaluDb.Memory.Consolidate
import MaluDb.Skill.Review
import MaluDb.Skill.Execution
import MaluDb.Secret.Https
import MaluDb.Auth.Jwt
import MaluDb.Event.Delivery
import MaluDb.Embedding.Fresh
import MaluDb.Embedding.Jobs
import MaluDb.PageIndex.Attempts
import MaluDb.Auth.Verify
import MaluDb.Prompt.Tokens
import MaluDb.Gateway.Idempotency
import MaluDb.Gateway.Approval
import MaluDb.Graph.Paths
import MaluDb.Graph.Walk
import MaluDb.Realtimed.Loop
import MaluDb.Mc2dbd.Metrics
import MaluDb.PageIndex.Pdf
import MaluDb.PageIndex.Markdown
import MaluDb.Mc2dbd.Exec
import MaluDb.Restd.Reports
import MaluDb.Retrieval.Execute
import MaluDb.Detail.Tree
import MaluDb.Logsd.Cursor
import MaluDb.Memory.TagSearch
import MaluDb.Presence.Log
import MaluDb.Access.Scopes

import Dapr.Workflow.Signing
import Dapr.Workflow.Hosts
import Dapr.Workflow.Settlement
import Dapr.Workflow.AttestedRecords
import Dapr.SchedulerPlacement.Agreement
import Dapr.Placement.Agreement
import Dapr.Workflow.CreateRetry
import Dapr.Workflow.PassedIds
import Dapr.Workflow.Wake
import Dapr.Workflow.Claims
import Dapr.Workflow.Completions
import Dapr.JobPool.Holders
import Dapr.JobPool.Waits
import Dapr.SchedulerApi.Isolation
import Dapr.Hashing.ConsistentHash
import Dapr.PubSub.Transformation
import Dapr.State.Retries
import Dapr.Placement.Timeouts
import Dapr.SchedulerPlacement.Progress
import Dapr.SchedulerPlacement.Lookups
import Dapr.SchedulerPlacement.Identity
import Dapr.Authority.Announcements
import Dapr.Encryption.Rotation
import Dapr.Acl.Denials
import Dapr.Operator.Watching
import Dapr.Actors.Turns
import Dapr.PubSub.Callbacks
import Dapr.PubSub.BulkPublish
import Dapr.PubSub.Acknowledged
import Dapr.Subscriber.Confluence
import Dapr.Subscriber.Resurrection
import Dapr.Workflow.EventTimers
import Dapr.Workflow.Patches
import Dapr.Workflow.SaveBounds
import Dapr.Workflow.Listing
import Dapr.JobPool.Shares
import Dapr.PubSub.Streamer
import Dapr.Resiliency.Patterns

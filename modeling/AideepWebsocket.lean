import AideepWebsocket.Library.Run
import AideepWebsocket.Library.PromiseChain
import AideepWebsocket.Library.VersionVector
import AideepWebsocket.Library.Arrangement
import AideepWebsocket.Library.Claim
import AideepWebsocket.Library.ReadCommitted
import AideepWebsocket.Library.Json
import AideepWebsocket.Library.Javascript
import AideepWebsocket.Library.Pipeline
import AideepWebsocket.Library.Lock
import AideepWebsocket.Library.Reader
import AideepWebsocket.Yjs.Doc
import AideepWebsocket.Yjs.Blocks
import AideepWebsocket.Yjs.MarkdownYjs
import AideepWebsocket.DocManager.State
import AideepWebsocket.DocManager.Operations
import AideepWebsocket.DocManager.Cases
import AideepWebsocket.DocManager.Frames
import AideepWebsocket.DocManager.Steps
import AideepWebsocket.DocManager.Invariant
import AideepWebsocket.DocManager.Skips
import AideepWebsocket.DocManager.Serial
import AideepWebsocket.DocManager.Durability
import AideepWebsocket.DocManager.Loading
import AideepWebsocket.DocManager.Ownership
import AideepWebsocket.DocManager.Stores
import AideepWebsocket.DocManager.Append
import AideepWebsocket.DocManager.Commits
import AideepWebsocket.DocManager.Updates
import AideepWebsocket.DocManager.Embedding
import AideepWebsocket.DocManager.Marks
import AideepWebsocket.DocManager.Clients
import AideepWebsocket.DocManager.Cleanup
import AideepWebsocket.DocManager.SingleFlight
import AideepWebsocket.DocManager.Timers
import AideepWebsocket.DocManager.Stranded
import AideepWebsocket.DocManager.Workspace
import AideepWebsocket.DocManager.Versions
import AideepWebsocket.DocManager.FlushSteps
import AideepWebsocket.DocManager.Exports
import AideepWebsocket.DocManager.Migration
import AideepWebsocket.DocManager.Keys
import AideepWebsocket.DocManager.FlushCalls
import AideepWebsocket.DocManager.FlushAll
import AideepWebsocket.DocManager.Closing
import AideepWebsocket.DocManager.Eviction
import AideepWebsocket.DocManager.Exclusive
import AideepWebsocket.CrdtService.SaveToDb
import AideepWebsocket.CrdtService.RowUpdate
import AideepWebsocket.CrdtService.Deletion
import AideepWebsocket.Gateway.State
import AideepWebsocket.Gateway.Handlers
import AideepWebsocket.Gateway.ReadOnly
import AideepWebsocket.Gateway.Refinement
import AideepWebsocket.Gateway.Outputs
import AideepWebsocket.Gateway.Suspended
import AideepWebsocket.Gateway.Wire
import AideepWebsocket.Gateway.Cases
import AideepWebsocket.Gateway.Sessions
import AideepWebsocket.Gateway.Isolation
import AideepWebsocket.Gateway.Relay
import AideepWebsocket.Gateway.Network
import AideepWebsocket.Gateway.Convergence
import AideepWebsocket.Gateway.Containment
import AideepWebsocket.Gateway.Ghosts
import AideepWebsocket.Gateway.Presence
import AideepWebsocket.Gateway.Expiry
import AideepWebsocket.Gateway.Relays
import AideepWebsocket.Gateway.Commands
import AideepWebsocket.Gateway.Awareness
import AideepWebsocket.Gateway.Broadcasts
import AideepWebsocket.Gateway.Tokens
import AideepWebsocket.NodeContent.Idempotency
import AideepWebsocket.NodeContent.Moves
import AideepWebsocket.NodeContent.Operation
import AideepWebsocket.NodeContent.Replies
import AideepWebsocket.NodeContent.Server
import AideepWebsocket.NodeContent.OptimisticLock
import AideepWebsocket.NodeContent.Patch
import AideepWebsocket.FileAttachment.Service
import AideepWebsocket.FileAttachment.Interleaving
import AideepWebsocket.FileAttachment.Retry
import AideepWebsocket.FileAttachment.References
import AideepWebsocket.FileAttachment.Sync
import AideepWebsocket.Library.JsonParse
import AideepWebsocket.Library.Base64
import AideepWebsocket.Library.Simulation
import AideepWebsocket.Library.Redis
import AideepWebsocket.Library.Codec
import AideepWebsocket.App.State
import AideepWebsocket.App.Announcements
import AideepWebsocket.Redis.Keys
import AideepWebsocket.Redis.Values
import AideepWebsocket.Redis.Services
import AideepWebsocket.Redis.Tables
import AideepWebsocket.Redis.Commands
import AideepWebsocket.Redis.Process
import AideepWebsocket.EventBus.Subscriber
import AideepWebsocket.Library.Census
import AideepWebsocket.EventBus.Server
import AideepWebsocket.Gateway.Confinement
import AideepWebsocket.Gateway.Acks
import AideepWebsocket.Http.Exceptions
import AideepWebsocket.Http.Validation
import AideepWebsocket.Http.Server
import AideepWebsocket.Http.Calls
import AideepWebsocket.Http.Guard
import AideepWebsocket.Http.Answers

import Mcp.Auth.Guard
import Mcp.Auth.Lifetime
import Mcp.Auth.Middleware
import Mcp.Auth.Revocation
import Mcp.Cancellation
import Mcp.Cli.Flags
import Mcp.Cli.Listing
import Mcp.Client.Capabilities
import Mcp.ConnectionPool.Exhaustion
import Mcp.Content.Draft
import Mcp.Content.Root
import Mcp.Diff.Align
import Mcp.Errors
import Mcp.Middleware.Caching
import Mcp.Middleware.Transparency
import Mcp.MockClient.Matcher
import Mcp.Namespace.Persistence
import Mcp.OtelTrace
import Mcp.RateLimit.Composite
import Mcp.RateLimit.Middleware
import Mcp.ResourcePool
import Mcp.Schema.Compare
import Mcp.Schema.Soundness
import Mcp.Schema.Termination
import Mcp.Security.Sanitizing
import Mcp.Server.Dispatch
import Mcp.Shell
import Mcp.Shell.EditDistance
import Mcp.Spy.Framing
import Mcp.Spy.Merge
import Mcp.Spy.Persist
import Mcp.Spy.Snapshot
import Mcp.Sse.Handoff
import Mcp.Streamable.Adapter
import Mcp.Streamable.Delivery
import Mcp.Streamable.Endpoint
import Mcp.Streamable.EventStream
import Mcp.Streamable.Isolation
import Mcp.Streamable.PostReply
import Mcp.Streamable.Receive
import Mcp.Streamable.Shutdown
import Mcp.Streamable.Wakeup
import Mcp.ToolGraph
import Mcp.WebSocket.Read

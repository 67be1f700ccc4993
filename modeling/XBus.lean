import XBus.Lib.Ascii
import XBus.Lib.Call
import XBus.Lib.Rows
import XBus.Lib.Runs
import XBus.Lib.Naming
import XBus.Lib.Utf8
import XBus.Lib.Json
import XBus.Lib.Wire
import XBus.Lib.Double
import XBus.Protocol
import XBus.Identity
import XBus.Payload
import XBus.Database
import XBus.Receipts
import XBus.Delivery
import XBus.Names
import XBus.Register
import XBus.Store
import XBus.Schemas
import XBus.Reaper
import XBus.Framing
import XBus.SecureChannel
import XBus.IpcServer
import XBus.System
import XBus.Desk
import XBus.Daemon
import XBus.Inbound
import XBus.Responses
import XBus.ReadWorker
import XBus.Proof.Moves
import XBus.Proof.Injecting
import XBus.Proof.Walks
import XBus.Proof.Lifecycle
import XBus.Proof.Steps
import XBus.Proof.Mail
import XBus.Proof.Presentation
import XBus.Proof.Pulls
import XBus.Proof.AtMostOnce
import XBus.Proof.Replies
import XBus.Proof.Sequences
import XBus.Proof.NameTables
import XBus.Proof.NameAuthority
import XBus.Proof.ProtectedNames
import XBus.Proof.Standing
import XBus.Proof.Signals
import XBus.Proof.Fencing
import XBus.Proof.Owners
import XBus.Proof.Connected
import XBus.Proof.Codec
import XBus.Proof.Framing
import XBus.Proof.Channel
import XBus.Proof.Writes
import XBus.Proof.Machine
import XBus.Proof.Gate
import XBus.Proof.Expiry
import XBus.Proof.Boundary
import XBus.Proof.Canonical
import XBus.Proof.Rounds
import XBus.Proof.Forecast
import XBus.Proof.Outgoing
import XBus.Proof.Conveyed
import XBus.Proof.Server
import XBus.Proof.Buffered
import XBus.Proof.Tamper
import XBus.Proof.Foreign
import XBus.Proof.Refusals
import XBus.Proof.ToolCalls
import XBus.Proof.Takeover
import XBus.Proof.Keys
import XBus.Proof.Obligations
import XBus.Proof.Escalation
import XBus.Console
import XBus.Proof.Schedules
import XBus.Proof.Advance
import XBus.Proof.Handling
import XBus.Proof.Pace
import XBus.Proof.Limits
import XBus.Proof.ReadWorkers
import XBus.Proof.Sweeps
import XBus.Proof.Ttl
import XBus.Proof.Queue
import XBus.Proof.Blocking
import XBus.Proof.Handles
import XBus.Proof.Routing
import XBus.Proof.ReturnAddress
import XBus.Hello
import XBus.Proof.Hellos
import XBus.Instructions
import XBus.Proof.Fence
import XBus.Proof.Uninstall
import XBus.Lib.Answers
import XBus.Migration
import XBus.Proof.Copies
import XBus.Proof.Undoing
import XBus.Proof.Migrating
import XBus.Suggestions
import XBus.Proof.Sanitizing
import XBus.DashboardAuth
import XBus.Proof.TabTokens
import XBus.Lib.Wal
import XBus.Snapshot
import XBus.Proof.Restoring
import XBus.SessionList
import XBus.Proof.Rollups
import XBus.Reading
import XBus.Proof.Turns
import XBus.Proof.Unread
import XBus.Lib.Grouping
import XBus.Collections
import XBus.Proof.Loading
import XBus.Lib.Places
import XBus.Release
import XBus.Proof.Packing

import SisOp.Lib.Run
import SisOp.Lib.Exchange
import SisOp.Lib.Map
import SisOp.Lib.FileTree
import SisOp.Lib.Walk
import SisOp.Lib.Subtree
import SisOp.Lib.Links
import SisOp.Lib.Unwinding
import SisOp.Lib.Codec
import SisOp.Lib.Numeral
import SisOp.Lib.Feed
import SisOp.Lib.Monitors
import SisOp.Common.Protocol
import SisOp.Common.Text
import SisOp.Common.Files
import SisOp.Common.Transfer
import SisOp.Common.Listing
import SisOp.Common.Mtime
import SisOp.Common.Paths
import SisOp.Common.Walk
import SisOp.Server.Storage
import SisOp.Server.Listing
import SisOp.Server.Accounts
import SisOp.Cluster.Replica
import SisOp.Cluster.Resync
import SisOp.Cluster.Hashes
import SisOp.Cluster.Records
import SisOp.Cluster.AccountResync
import SisOp.Cluster.Puts
import SisOp.Cluster.Drops
import SisOp.Cluster.Replication
import SisOp.Cluster.Backup
import SisOp.Cluster.State
import SisOp.Cluster.Handlers
import SisOp.Cluster.Bookkeeping
import SisOp.Cluster.Broadcast
import SisOp.Cluster.Election
import SisOp.Cluster.Ids
import SisOp.Cluster.Ranks
import SisOp.Cluster.Primaries
import SisOp.Cluster.Failover
import SisOp.Cluster.Join
import SisOp.Cluster.Membership
import SisOp.Server.Requests
import SisOp.Server.Disk
import SisOp.Server.HashCache
import SisOp.Server.Isolation
import SisOp.Lib.PrefixMap
import SisOp.Server.Contents
import SisOp.Common.Connection
import SisOp.Server.SyncStream
import SisOp.Server.Logins
import SisOp.Server.SessionTable
import SisOp.Server.Health
import SisOp.Client.Connect
import SisOp.Client.SyncDir
import SisOp.Client.SyncState
import SisOp.Client.Reconcile
import SisOp.Client.Sessions
import SisOp.Client.Conflicts
import SisOp.Client.LocalChange
import SisOp.Client.Pushes
import SisOp.Client.Echo
import SisOp.Client.Unreadable
import SisOp.Client.Symlinks
import SisOp.Client.ConflictName
import SisOp.Client.Install
import SisOp.Client.Convergence
import SisOp.Client.Crash
import SisOp.Client.Exchanges
import SisOp.Cluster.Payloads
import SisOp.Client.Replies
import SisOp.Client.Watcher
import SisOp.Client.Watches
import SisOp.Client.Reports
import SisOp.Server.Notices
import SisOp.Client.Threads
import SisOp.Client.Reconnect
import SisOp.Lib.Sections
import SisOp.Server.Locks

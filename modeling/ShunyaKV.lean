import ShunyaKV.Cmd.Handlers
import ShunyaKV.Cmd.Replies
import ShunyaKV.Conn.Socket
import ShunyaKV.Hash.Ranges
import ShunyaKV.Lib.Decimal
import ShunyaKV.Lib.HandList
import ShunyaKV.Lib.Steps
import ShunyaKV.Lib.TtlMap
import ShunyaKV.Resp.Extract
import ShunyaKV.Resp.RoundTrip
import ShunyaKV.Shard.Batches
import ShunyaKV.Shard.Evictable
import ShunyaKV.Shard.Expiry
import ShunyaKV.Shard.Growth
import ShunyaKV.Shard.Held
import ShunyaKV.Shard.Linked
import ShunyaKV.Shard.Ops
import ShunyaKV.Shard.OwnWrite
import ShunyaKV.Shard.Owned
import ShunyaKV.Shard.Pipeline
import ShunyaKV.Shard.Pool
import ShunyaKV.Shard.Refine
import ShunyaKV.Shard.Sieve
import ShunyaKV.Shard.Solo
import ShunyaKV.Shard.State
import ShunyaKV.Conn.Pipelined
import ShunyaKV.Conn.Stuck
import ShunyaKV.Resp.Scan
import ShunyaKV.Resp.Frames
import ShunyaKV.Resp.Recovery
import ShunyaKV.Resp.Segments
import ShunyaKV.Shard.Ledger
import ShunyaKV.Shard.Balance
import ShunyaKV.Shard.Counters
import ShunyaKV.Cmd.Grammar
import ShunyaKV.Lib.Journal
import ShunyaKV.Smp.Forward
import ShunyaKV.Smp.Consistent
import ShunyaKV.Smp.Fresh
import ShunyaKV.Shard.Pass
import ShunyaKV.Shard.Suspended
import ShunyaKV.Shard.Reaper
import ShunyaKV.Resp.Headers
import ShunyaKV.Shard.Removals
import ShunyaKV.Shard.Threaded
import ShunyaKV.Shard.ReaperHand
import ShunyaKV.Shard.PoolFront
import ShunyaKV.Cmd.Lifetime
import ShunyaKV.Router.Restart
import ShunyaKV.Resp.Whole
import ShunyaKV.Resp.Agree
import ShunyaKV.Resp.Drained
import ShunyaKV.Resp.Layout
import ShunyaKV.Lib.Ranks
import ShunyaKV.Metrics.Histogram
import ShunyaKV.Config.Loader
import ShunyaKV.Shard.Sizing
import ShunyaKV.Hash.Tiling
import ShunyaKV.Ttl.Policy
import ShunyaKV.Conn.Input
import ShunyaKV.Conn.Echo
import ShunyaKV.Net.Server
import ShunyaKV.Net.Served
import ShunyaKV.Net.Client
import ShunyaKV.Conn.Server
import ShunyaKV.Lib.Simulate
import ShunyaKV.Resp.Reader
import ShunyaKV.Resp.Sessions
import ShunyaKV.Resp.Decoders
import ShunyaKV.Smp.Unpooled
import ShunyaKV.Net.Kept
import ShunyaKV.Hash.Fnv
import ShunyaKV.Main.Exit
import ShunyaKV.Cmd.Info
import ShunyaKV.Lib.Gather
import ShunyaKV.Shard.Grows
import ShunyaKV.Smp.Report

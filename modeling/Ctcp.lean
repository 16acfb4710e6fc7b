import Ctcp.Verification.Agreement.Blocks
import Ctcp.Verification.Agreement.Demand
import Ctcp.Verification.Buffers.Free
import Ctcp.Verification.Buffers.FreeList
import Ctcp.Verification.Buffers.Release
import Ctcp.Verification.Cache.ByteQueue
import Ctcp.Verification.Cache.Handover
import Ctcp.Verification.Coding.Coefficients
import Ctcp.Verification.Congestion.LossRates
import Ctcp.Verification.Congestion.Vegas
import Ctcp.Verification.Connection.Agreement
import Ctcp.Verification.Control.Retries
import Ctcp.Verification.Control.Sweep
import Ctcp.Verification.Decoder.Announce
import Ctcp.Verification.Decoder.OutOfWindow
import Ctcp.Verification.Decoder.Rank
import Ctcp.Verification.Decoder.Unwrap
import Ctcp.Verification.Lease.Reader
import Ctcp.Verification.Negotiation.Base64
import Ctcp.Verification.Negotiation.Tunnel
import Ctcp.Verification.Pipeline.Capacity
import Ctcp.Verification.Pipeline.Credit
import Ctcp.Verification.Pipeline.Planned
import Ctcp.Verification.Pipeline.Window
import Ctcp.Verification.Pool.Deadlock
import Ctcp.Verification.Proxy.Ports
import Ctcp.Verification.Receive.Safety
import Ctcp.Verification.Store.BadAck
import Ctcp.Verification.Store.Runs
import Ctcp.Verification.ThrPool.Shutdown
import Ctcp.Verification.Transfer.Prefix
import Ctcp.Verification.Tunnel.Prefix
import Ctcp.Verification.Tunnel.Relay

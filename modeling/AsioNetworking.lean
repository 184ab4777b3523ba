import AsioNetworking.Connection.Reading
import AsioNetworking.Connection.Start
import AsioNetworking.Connection.Theorems
import AsioNetworking.Connection.Wire
import AsioNetworking.Delivery
import AsioNetworking.Relay
import AsioNetworking.Server
import AsioNetworking.Server.Owners
import AsioNetworking.Connection.Answer
import AsioNetworking.Lib.Mutex
import AsioNetworking.Sample
import AsioNetworking.Sample.Server
import AsioNetworking.Sample.Theorems
import AsioNetworking.TsQueue
import AsioNetworking.TsQueue.Step
import AsioNetworking.TsQueue.Wakeup
import AsioNetworking.ClientInterface
import AsioNetworking.ClientInterface.Disconnect
import AsioNetworking.Connection.Nonce
import AsioNetworking.Host
import AsioNetworking.Interface.Hooks
import AsioNetworking.Interface.Validation
import AsioNetworking.Lifecycle
import AsioNetworking.RestListener
import AsioNetworking.Update
import AsioNetworking.Update.Merge
import AsioNetworking.WssClient
import AsioNetworking.Connection.Length
import AsioNetworking.Connection.Replay
import AsioNetworking.Interface.Cleanup
import AsioNetworking.Lib.LockOrder
import AsioNetworking.Sample.Dispatch
import AsioNetworking.Server.Announce
import AsioNetworking.TsQueue.Deadlock
import AsioNetworking.Connection.Rest
import AsioNetworking.Connection.Work
import AsioNetworking.Interface.Ledger
import AsioNetworking.Lib.Atomic
import AsioNetworking.Lib.Channel
import AsioNetworking.Lib.Pool
import AsioNetworking.Message.Codec
import AsioNetworking.Rest.Exchange
import AsioNetworking.Rest.Service
import AsioNetworking.Sample.Main
import AsioNetworking.Sample.Rest
import AsioNetworking.Server.Order
import AsioNetworking.System.Channel
import AsioNetworking.TsQueue.Fifo
import AsioNetworking.TsQueue.Settle
import AsioNetworking.Wss.Client

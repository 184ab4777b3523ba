import AsioNetworking.Server.Theorems

/-!
# The whole of `server_interface`

The server with what `Server` leaves out: an accept that fails, and `MessageClient`. The source
writes `m_dqConnections.erease` in `MessageClient`, which no compiler accepts; here it is `erase`.

`MessageClient` is called by the user thread, between the other calls or from `OnMessage`, with any
`shared_ptr` that the user holds: a connection may have been denied or reset before.
-/

namespace AsioNetworking

open List

variable {T ι : Type}

inductive InterfaceEvent (T ι : Type) where
  | server (e : ServerEvent T ι)
  /-- The accept handler, with an error. -/
  | acceptError
  | messageClient (client : Option ι) (msg : Message T)
  deriving DecidableEq

namespace Server

variable [DecidableEq ι] [IdType T]

/-- The user thread is not inside the library: it runs user code, that of `OnMessage` included. -/
def inUserCode (s : Server T ι) : Bool :=
  match s.user with
  | [] => true
  | .call _ _ :: _ => true
  | .release _ :: _ => true
  | _ => false

/-- `MessageClient`. When `std::remove` runs, `client` has been reset already. -/
def messageClient (client : Option ι) (msg : Message T) (s : Server T ι) :
    Option (Server T ι × List (ServerEffect T ι)) :=
  let disconnected := ({ s with dqConnections := s.dqConnections.filter (· ≠ none) },
    [.onClientDisconnect client])
  match client with
  | none => some disconnected
  | some i =>
      match s.conns i with
      | none => none
      | some c => if c.socketOpen then s.onConn i (.send msg) else some disconnected

def nextInterface (s : Server T ι) :
    InterfaceEvent T ι → Option (Server T ι × List (ServerEffect T ι))
  | .server e => s.next e
  | .acceptError => some (s, [])
  | .messageClient client msg => if s.inUserCode then s.messageClient client msg else none

def interface (T ι : Type) [DecidableEq ι] [IdType T] :
    Mealy (Server T ι) (InterfaceEvent T ι) (ServerEffect T ι) := ⟨nextInterface⟩

/-! ## Steps -/

inductive InterfaceStep (s : Server T ι) :
    InterfaceEvent T ι → Server T ι → List (ServerEffect T ι) → Prop where
  | server {e s' o} : ServerStep s e s' o → InterfaceStep s (.server e) s' o
  | acceptError : InterfaceStep s .acceptError s []
  | send (i msg c r) : s.conns i = some c → c.socketOpen = true → c.next (.send msg) = some r →
      InterfaceStep s (.messageClient (some i) msg) (s.setConn i r) (r.2.map (.conn i))
  | disconnected (client msg) : s.inUserCode = true →
      (∀ i, client = some i → ∃ c, s.conns i = some c ∧ c.socketOpen = false) →
      InterfaceStep s (.messageClient client msg)
        { s with dqConnections := s.dqConnections.filter (· ≠ none) } [.onClientDisconnect client]

theorem next_interfaceStep {s s' : Server T ι} {e o} (hn : s.nextInterface e = some (s', o)) :
    InterfaceStep s e s' o := by
  cases e with
  | server e => exact .server (next_serverStep hn)
  | acceptError => cases hn; exact .acceptError
  | messageClient client msg =>
      simp only [nextInterface] at hn
      split at hn
      · rename_i hu
        cases client with
        | none =>
            cases hn
            exact .disconnected none msg hu (by simp)
        | some i =>
            simp only [messageClient] at hn
            split at hn
            · cases hn
            · rename_i c hc
              split at hn
              · rename_i hopen
                obtain ⟨c', r, hc', hr, rfl, rfl⟩ := onConn_eq_some hn
                rw [hc] at hc'
                cases hc'
                exact .send i msg c r hc hopen hr
              · rename_i hclosed
                cases hn
                refine .disconnected (some i) msg hu fun j hj => ?_
                cases hj
                exact ⟨c, hc, by simpa using hclosed⟩
      · cases hn

/-- A step of the interface is, for each connection, a step of a server. -/
theorem InterfaceStep.conn_step {s s' : Server T ι} {e o} (hs : InterfaceStep s e s' o) (i : ι) :
    ∃ e', ConnStep i s s' e' (hist i o) (nonces i o) := by
  cases hs with
  | server hs => exact ⟨_, hs.conn_step i⟩
  | acceptError => exact ⟨.user [], .idle rfl⟩
  | send j msg c r hc _ hr => exact ⟨.messageAllClients msg, connStep_setConn hc rfl (Or.inr rfl) hr⟩
  | disconnected => exact ⟨.user [], .idle rfl⟩

/-! ## Runs -/

variable {G : Server T ι → List (ServerEffect T ι) → InterfaceEvent T ι → Prop}
  {s : Server T ι} {h : List (ServerEffect T ι)}

theorem known_interface (hr : (interface T ι).Run G init [] s h) (i : ι) : Known Mealy.free i s h := by
  refine hr.invariant (Or.inl ⟨rfl, rfl, rfl⟩) fun s h e s' o hk _ hn => ?_
  obtain ⟨e', hs⟩ := (next_interfaceStep hn).conn_step i
  exact hs.known hk (fun _ _ _ _ => trivial) (fun _ _ _ _ => trivial)

end Server

end AsioNetworking

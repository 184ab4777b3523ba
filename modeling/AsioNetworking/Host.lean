import AsioNetworking.Connection.Closing
import AsioNetworking.Interface
import AsioNetworking.Lib.EventLoop

/-!
# The context of a server

`Start` and `Stop` of `server_interface`, the outstanding accepts, and exceptions. A handler whose
exception leaves `m_oContext.run()` ends the process: the thread that runs the context catches
nothing. An exception is thrown by `remote_endpoint()` when the peer has reset already, and by
`body.resize` when there is not so much memory.
-/

namespace AsioNetworking

variable {T ι : Type}

structure Host (T ι : Type) where
  server : Server T ι
  /-- The outstanding `async_accept`s. -/
  accepts : Nat
  context : EventLoop
  /-- An exception has left `m_oContext.run()`. -/
  escaped : Bool

/-- What happens once the server is started. -/
inductive ServingEvent (T ι : Type) where
  /-- A step of the server; `body.resize` can get `memory` bytes in it. -/
  | interface (e : InterfaceEvent T ι) (memory : Nat)
  /-- The accept handler, with a socket whose peer has reset the connection. -/
  | acceptReset
  deriving DecidableEq

inductive HostEvent (T ι : Type) where
  /-- `Start`; the thread can be created or not. -/
  | start (spawns : Bool)
  | stop
  | serve (e : ServingEvent T ι)
  /-- `m_oContext.run()` returns. An outstanding accept is work, so it does only after a stop. -/
  | quit
  deriving DecidableEq

inductive HostEffect (T ι : Type) where
  | server (x : ServerEffect T ι)
  /-- `Start` returns `result`; the context is `stopped` then. -/
  | start (result stopped : Bool)
  | stop
  deriving DecidableEq

def InterfaceEvent.isAccept : InterfaceEvent T ι → Bool
  | .server (.accept _ _ _ _) | .acceptError => true
  | _ => false

def InterfaceEvent.inContext : InterfaceEvent T ι → Bool
  | .server (.accept _ _ _ _) | .acceptError => true
  | .server (.conn _ e) => Connection.isHandler e
  | _ => false

namespace Host

variable [DecidableEq ι] [IdType T]

def init : Host T ι := ⟨.init, 0, .init, false⟩

def waitForClientConnection (h : Host T ι) : Host T ι := { h with accepts := h.accepts + 1 }

/-- The event is a read of a header that announces a body of more than `memory` bytes. -/
def oversized (memory : Nat) (s : Server T ι) : InterfaceEvent T ι → Bool
  | .server (.conn i (.readOk j bs)) =>
      match s.conns i with
      | none => false
      | some c =>
          match c.reads[j]? with
          | none => false
          | some op =>
              let size := (MessageHeader.ofBytes (T := T) bs).size
              op.kind = .header && size > 8 && (size - 8).toNat > memory
  | _ => false

def serve (h : Host T ι) : ServingEvent T ι → Option (Host T ι × List (HostEffect T ι))
  | .interface e memory =>
      if e.inContext ∧ ¬ h.context.takes ∨ e.isAccept ∧ h.accepts = 0 then none
      else
        match h.server.nextInterface e with
        | none => none
        | some (server, o) =>
            if oversized memory h.server e then some ({ h with escaped := true }, [])
            else
              let h := { h with server }
              let o := o.map .server
              if e.isAccept then
                some (waitForClientConnection { h with accepts := h.accepts - 1 }, o)
              else some (h, o)
  | .acceptReset =>
      if h.context.takes ∧ 0 < h.accepts then
        some ({ h with accepts := h.accepts - 1, escaped := true }, [])
      else none

def start (spawns : Bool) (h : Host T ι) : Host T ι × List (HostEffect T ι) :=
  let h := h.waitForClientConnection
  if spawns then
    let context := h.context.spawn
    ({ h with context }, if context.aborted then [] else [.start true context.stopped])
  else (h, [.start false h.context.stopped])

def next (h : Host T ι) (e : HostEvent T ι) : Option (Host T ι × List (HostEffect T ι)) :=
  if h.escaped ∨ h.context.aborted then none
  else
    match e with
    | .start spawns => some (h.start spawns)
    | .stop => some ({ h with context := h.context.halt }, [.stop])
    | .serve e => h.serve e
    | .quit => (h.context.quit false).map fun context => ({ h with context }, [])

def machine (T ι : Type) [DecidableEq ι] [IdType T] :
    Mealy (Host T ι) (HostEvent T ι) (HostEffect T ι) := ⟨next⟩

def started : Host T ι := (init.start true).1

/-! ## Steps -/

/-- What a step while serving does to the accepts: the accept handler starts a new one, unless an
exception takes the process away. -/
inductive Served (h : Host T ι) : ServingEvent T ι → Host T ι → Prop where
  | interface (e memory server) : oversized memory h.server e = false →
      Served h (.interface e memory) { h with server }
  | oversized (e memory) : oversized memory h.server e = true →
      Served h (.interface e memory) { h with escaped := true }
  | reset : Served h .acceptReset { h with accepts := h.accepts - 1, escaped := true }

theorem serve_served {h h' : Host T ι} {e o} (hn : h.serve e = some (h', o)) :
    Served h e h' ∧ ∃ o' : List (ServerEffect T ι), o = o'.map .server := by
  cases e with
  | interface e memory =>
      simp only [serve] at hn
      split at hn
      · cases hn
      · rename_i hno
        split at hn
        · cases hn
        · rename_i server o' _
          split at hn
          · rename_i hbig
            cases hn
            exact ⟨.oversized e memory hbig, [], rfl⟩
          · rename_i hbig
            split at hn
            · rename_i ha
              have hpos : h.accepts - 1 + 1 = h.accepts := by
                have : h.accepts ≠ 0 := fun h0 => hno (Or.inr ⟨ha, h0⟩)
                omega
              cases hn
              refine ⟨?_, o', rfl⟩
              have := Served.interface (h := h) e memory server (by simpa using hbig)
              simpa only [waitForClientConnection, hpos] using this
            · cases hn
              exact ⟨.interface e memory server (by simpa using hbig), o', rfl⟩
  | acceptReset =>
      simp only [serve] at hn
      split at hn <;> cases hn
      exact ⟨.reset, [], rfl⟩

inductive HostStep (h : Host T ι) :
    HostEvent T ι → Host T ι → List (HostEffect T ι) → Prop where
  | start (spawns) : HostStep h (.start spawns) (h.start spawns).1 (h.start spawns).2
  | stop : HostStep h .stop { h with context := h.context.halt } [.stop]
  | serve (e h') (o : List (ServerEffect T ι)) : Served h e h' →
      HostStep h (.serve e) h' (o.map .server)
  | quit (context) : h.context.quit false = some context → HostStep h .quit { h with context } []

theorem next_hostStep {h h' : Host T ι} {e o} (hn : h.next e = some (h', o)) :
    h.escaped = false ∧ h.context.aborted = false ∧ HostStep h e h' o := by
  unfold next at hn
  split at hn
  · cases hn
  · rename_i ha
    refine ⟨by simpa using fun h => ha (Or.inl h), by simpa using fun h => ha (Or.inr h), ?_⟩
    cases e with
    | start spawns =>
        obtain ⟨rfl, rfl⟩ := Prod.ext_iff.mp (Option.some.inj hn)
        exact .start spawns
    | stop => cases hn; exact .stop
    | serve e =>
        obtain ⟨hs, o', rfl⟩ := serve_served hn
        exact .serve e h' o' hs
    | quit =>
        obtain ⟨context, hq, he⟩ := Option.map_eq_some_iff.mp hn
        cases he
        exact .quit context hq

/-- `Stop` stops the context, waits until `run` has returned and joins the thread. -/
theorem stop_context {h h' : Host T ι} {o} (hn : h.next .stop = some (h', o)) :
    h.context.stop.join = some h'.context ∨
      ∃ context, h.context.stop.quit false = some context ∧ context.join = some h'.context := by
  obtain ⟨-, -, hs⟩ := next_hostStep hn
  cases hs
  exact EventLoop.halt_eq h.context false

/-! ## No peer takes the server down -/

/-- No exception has escaped, the context thread takes handlers, and exactly one accept is
outstanding. -/
structure Serving (h : Host T ι) (_ : List (HostEffect T ι)) : Prop where
  alive : h.escaped = false
  runs : h.context.takes = true
  accepts : h.accepts = 1

/-- While it is serving, the server takes every step that the server by itself can take. -/
theorem Serving.serve_isSome {h : Host T ι} {l} (hs : Serving h l) (e : InterfaceEvent T ι)
    (memory : Nat) (he : (h.server.nextInterface e).isSome = true) :
    (h.serve (.interface e memory)).isSome = true := by
  obtain ⟨r, hr⟩ := Option.isSome_iff_exists.mp he
  have hno : ¬ (e.inContext = true ∧ ¬ h.context.takes = true ∨
      e.isAccept = true ∧ h.accepts = 0) := by
    simp [hs.runs, hs.accepts]
  simp only [serve, if_neg hno, hr]
  split
  · rfl
  · split <;> rfl

end Host

end AsioNetworking

import AsioNetworking.WssClient

/-!
# A websocket session (`wss_session.hpp`)

A session after its `Run`, as a machine: the asynchronous operations that it has started and that have
not ended are part of its state; an operation ends in one step with its handler. Every handler starts
the next operation, or it reports a failure and starts none.
-/

namespace AsioNetworking

namespace Wss

open List

/-- What the resolver finds. -/
structure Endpoint where
  address : List UInt8
  port : UInt16
  deriving DecidableEq

/-- The arguments of `Run`. -/
structure Settings where
  host : String
  port : String
  text : String
  endpoint : String
  deriving DecidableEq

inductive Operation where
  | resolve (host port : String)
  | connect (results : List Endpoint)
  | sslHandshake
  | handshake (host endpoint : String)
  | write (text : String)
  | read
  deriving DecidableEq

/-- The handler that runs when the operation ends. -/
def Operation.handler : Operation → Session
  | .resolve _ _ => .onResolve
  | .connect _ => .onConnect
  | .sslHandshake => .onSSLHandshake
  | .handshake _ _ => .onHandshake
  | .write _ => .onWrite
  | .read => .onRead

/-- How an operation ends. -/
inductive Outcome where
  | error (ec : String)
  | resolved (results : List Endpoint)
  /-- `SSL_set_tlsext_host_name` fails with `tlsext`. -/
  | connected (ep : Endpoint) (tlsext : Option String)
  | sslHandshaken
  | handshaken
  | written
  | message (bytes : List UInt8)
  deriving DecidableEq

/-- The outcome is one that the operation can have. -/
def Operation.fits : Operation → Outcome → Bool
  | _, .error _ => true
  | .resolve _ _, .resolved _ => true
  | .connect results, .connected ep _ => ep ∈ results
  | .sslHandshake, .sslHandshaken => true
  | .handshake _ _, .handshaken => true
  | .write _, .written => true
  | .read, .message _ => true
  | _, _ => false

/-- The handler starts the next operation. -/
def Outcome.ok : Outcome → Bool
  | .error _ => false
  | .connected _ tlsext => tlsext.isNone
  | _ => true

/-- The `j`-th outstanding operation ends. -/
structure Completion where
  j : Nat
  outcome : Outcome
  deriving DecidableEq

inductive StreamOption where
  /-- `timeout::suggested` for a client. -/
  | suggestedTimeout
  /-- The decorator that sets the user agent to the version of the library followed by `suffix`. -/
  | userAgent (suffix : String)
  deriving DecidableEq

inductive SessionEffect where
  | start (op : Operation)
  | expiresAfter (seconds : Nat)
  | expiresNever
  | setTlsextHostName (host : String)
  | setOption (option : StreamOption)
  | received (bytes : List UInt8)
  | cout (bytes : List UInt8)
  | cerr (line : String)
  deriving DecidableEq

structure RunningSession where
  sHost : String
  sText : String
  sEndpoint : String
  oBuffer : List UInt8
  /-- The operations that have not ended. -/
  ops : List Operation
  deriving DecidableEq

abbrev SessionResult := RunningSession × List SessionEffect

def fail (ec what : String) : SessionEffect := .cerr (what ++ ec ++ "\n")

namespace RunningSession

def async (op : Operation) (s : RunningSession) : SessionResult :=
  ({ s with ops := s.ops ++ [op] }, [.start op])

def run (a : Settings) : SessionResult :=
  async (.resolve a.host a.port) ⟨a.host, a.text, a.endpoint, [], []⟩

def onResolve (ec : Except String (List Endpoint)) (s : RunningSession) : SessionResult :=
  match ec with
  | .error ec => (s, [fail ec "resolve"])
  | .ok results =>
      let r := s.async (.connect results)
      (r.1, .expiresAfter 15 :: r.2)

def onConnect (ec : Except String Endpoint) (tlsext : Option String) (s : RunningSession) :
    SessionResult :=
  match ec with
  | .error ec => (s, [fail ec "connnect"])
  | .ok ep =>
      match tlsext with
      | some ec => (s, [.expiresAfter 15, .setTlsextHostName s.sHost, fail ec "connect"])
      | none =>
          let r := async .sslHandshake { s with sHost := s.sHost ++ ":" ++ toString ep.port.toNat }
          (r.1, [.expiresAfter 15, .setTlsextHostName s.sHost] ++ r.2)

def onSSLHandshake (ec : Except String Unit) (s : RunningSession) : SessionResult :=
  match ec with
  | .error ec => (s, [fail ec "handshake"])
  | .ok () =>
      let r := s.async (.handshake s.sHost s.sEndpoint)
      (r.1, [.expiresNever, .setOption .suggestedTimeout,
        .setOption (.userAgent " websocket-client-async-ssl")] ++ r.2)

def onHandshake (ec : Except String Unit) (s : RunningSession) : SessionResult :=
  match ec with
  | .error ec => (s, [fail ec "handshake"])
  | .ok () => s.async (.write s.sText)

def onWrite (ec : Except String Unit) (s : RunningSession) : SessionResult :=
  match ec with
  | .error ec => (s, [fail ec "write"])
  | .ok () => s.async .read

/-- The bytes of the message are in `m_oBuffer` when the handler runs. -/
def onRead (ec : Except String Unit) (s : RunningSession) : SessionResult :=
  match ec with
  | .error ec => (s, [fail ec "read"])
  | .ok () =>
      let r := async .read { s with oBuffer := s.oBuffer.drop s.oBuffer.length }
      (r.1, .cout s.oBuffer :: r.2)

/-- The operation ends, and its handler runs. -/
def complete (op : Operation) (outcome : Outcome) (s : RunningSession) : Option SessionResult :=
  match op, outcome with
  | .resolve _ _, .error ec => some (s.onResolve (.error ec))
  | .resolve _ _, .resolved results => some (s.onResolve (.ok results))
  | .connect _, .error ec => some (s.onConnect (.error ec) none)
  | .connect results, .connected ep tlsext =>
      if ep ∈ results then some (s.onConnect (.ok ep) tlsext) else none
  | .sslHandshake, .error ec => some (s.onSSLHandshake (.error ec))
  | .sslHandshake, .sslHandshaken => some (s.onSSLHandshake (.ok ()))
  | .handshake _ _, .error ec => some (s.onHandshake (.error ec))
  | .handshake _ _, .handshaken => some (s.onHandshake (.ok ()))
  | .write _, .error ec => some (s.onWrite (.error ec))
  | .write _, .written => some (s.onWrite (.ok ()))
  | .read, .error ec => some (s.onRead (.error ec))
  | .read, .message bytes =>
      let r := onRead (.ok ()) { s with oBuffer := s.oBuffer ++ bytes }
      some (r.1, .received bytes :: r.2)
  | _, _ => none

def next (s : RunningSession) (e : Completion) : Option SessionResult :=
  match s.ops[e.j]? with
  | none => none
  | some op => complete op e.outcome { s with ops := s.ops.eraseIdx e.j }

def machine : Mealy RunningSession Completion SessionEffect := ⟨next⟩

end RunningSession

/-! ## Histories -/

/-- The messages that a session has read. -/
def received (h : List SessionEffect) : List (List UInt8) :=
  h.filterMap fun
    | .received bytes => some bytes
    | _ => none

def isReport : SessionEffect → Bool
  | .cerr _ => true
  | _ => false

@[simp] theorem received_append (h o : List SessionEffect) :
    received (h ++ o) = received h ++ received o := filterMap_append

/-! ## What a session does -/

/-- What a handler reports when its operation has failed. -/
def Session.what : Session → String
  | .onResolve => "resolve"
  | .onConnect => "connnect"
  | .onSSLHandshake | .onHandshake => "handshake"
  | .onWrite => "write"
  | .onRead => "read"
  | .failed => ""

/-- The handler that the session waits for. -/
def RunningSession.waits (s : RunningSession) : Session :=
  match s.ops with
  | [] => .failed
  | op :: _ => op.handler

namespace Settings

variable (a : Settings) (results : List Endpoint) (ep : Endpoint)

def hostAndPort : String := a.host ++ ":" ++ toString ep.port.toNat

/-- The effects up to the start of the operation that the name tells. -/
def resolving : List SessionEffect := [.start (.resolve a.host a.port)]

def connecting : List SessionEffect :=
  a.resolving ++ [.expiresAfter 15, .start (.connect results)]

def securing : List SessionEffect :=
  a.connecting results ++ [.expiresAfter 15, .setTlsextHostName a.host, .start .sslHandshake]

def upgrading : List SessionEffect :=
  a.securing results ++ [.expiresNever, .setOption .suggestedTimeout,
    .setOption (.userAgent " websocket-client-async-ssl"),
    .start (.handshake (a.hostAndPort ep) a.endpoint)]

def writing : List SessionEffect := a.upgrading results ep ++ [.start (.write a.text)]

/-- The messages `ms` have been read. -/
def reading (ms : List (List UInt8)) : List SessionEffect :=
  a.writing results ep ++ .start .read ::
    ms.flatMap fun m => [.received m, .cout m, .start .read]

end Settings

/-- The states of a session that was run with the arguments `a`, each with all that the session has
done until then. -/
inductive Transcript (a : Settings) : RunningSession → List SessionEffect → Prop where
  | resolving : Transcript a ⟨a.host, a.text, a.endpoint, [], [.resolve a.host a.port]⟩ a.resolving
  | connecting (results) :
      Transcript a ⟨a.host, a.text, a.endpoint, [], [.connect results]⟩ (a.connecting results)
  | securing (results ep) : ep ∈ results →
      Transcript a ⟨a.hostAndPort ep, a.text, a.endpoint, [], [.sslHandshake]⟩ (a.securing results)
  | upgrading (results ep) : ep ∈ results →
      Transcript a ⟨a.hostAndPort ep, a.text, a.endpoint, [], [.handshake (a.hostAndPort ep) a.endpoint]⟩
        (a.upgrading results ep)
  | writing (results ep) : ep ∈ results →
      Transcript a ⟨a.hostAndPort ep, a.text, a.endpoint, [], [.write a.text]⟩ (a.writing results ep)
  | reading (results ep ms) : ep ∈ results →
      Transcript a ⟨a.hostAndPort ep, a.text, a.endpoint, [], [.read]⟩ (a.reading results ep ms)
  | failed (s h ec) : Transcript a s h → s.ops ≠ [] →
      Transcript a { s with ops := [] } (h ++ [fail ec s.waits.what])
  /-- The name of the host cannot be set. -/
  | unnamed (results ec) : Transcript a ⟨a.host, a.text, a.endpoint, [], []⟩
      (a.connecting results ++ [.expiresAfter 15, .setTlsextHostName a.host, fail ec "connect"])

namespace Transcript

variable {a : Settings} {s s' : RunningSession} {h o : List SessionEffect} {e : Completion}

theorem next_single {op : Operation} {r} (hops : s.ops = [op]) (hn : s.next e = some r) :
    RunningSession.complete op e.outcome { s with ops := [] } = some r := by
  simp only [RunningSession.next, hops] at hn
  cases hj : e.j with
  | zero => simpa [hj] using hn
  | succ j => simp [hj] at hn

theorem step (ht : Transcript a s h) (hn : s.next e = some (s', o)) : Transcript a s' (h ++ o) := by
  -- the operation fails
  have fails {op : Operation} {ec what} (hops : s.ops = [op]) (hs : s' = { s with ops := [] })
      (ho : o = [fail ec what]) (hw : what = op.handler.what) : Transcript a s' (h ++ o) := by
    have hwaits : s.waits = op.handler := by rw [RunningSession.waits, hops]
    rw [hs, ho, hw, ← hwaits]
    exact .failed s h ec ht (by simp [hops])
  cases ht with
  | resolving =>
      have hc := next_single rfl hn
      cases ho : e.outcome <;> simp only [ho, RunningSession.complete] at hc <;> cases hc
      · exact fails rfl rfl rfl rfl
      · exact .connecting _
  | connecting results =>
      have hc := next_single rfl hn
      cases ho : e.outcome <;> simp only [ho, RunningSession.complete] at hc
      case error => cases hc; exact fails rfl rfl rfl rfl
      case connected ep tlsext =>
        split at hc
        · rename_i hep
          cases tlsext with
          | none => cases hc; exact .securing results ep hep
          | some ec => cases hc; exact .unnamed results ec
        · cases hc
      all_goals cases hc
  | securing results ep hep =>
      have hc := next_single rfl hn
      cases ho : e.outcome <;> simp only [ho, RunningSession.complete] at hc <;> cases hc
      · exact fails rfl rfl rfl rfl
      · exact .upgrading results ep hep
  | upgrading results ep hep =>
      have hc := next_single rfl hn
      cases ho : e.outcome <;> simp only [ho, RunningSession.complete] at hc <;> cases hc
      · exact fails rfl rfl rfl rfl
      · exact .writing results ep hep
  | writing results ep hep =>
      have hc := next_single rfl hn
      cases ho : e.outcome <;> simp only [ho, RunningSession.complete] at hc <;> cases hc
      · exact fails rfl rfl rfl rfl
      · exact .reading results ep [] hep
  | reading results ep ms hep =>
      have hc := next_single rfl hn
      cases ho : e.outcome <;> simp only [ho, RunningSession.complete] at hc <;> cases hc
      · exact fails rfl rfl rfl rfl
      · rename_i bytes
        have hread := Transcript.reading (a := a) results ep (ms ++ [bytes]) hep
        simpa [RunningSession.onRead, RunningSession.async, Settings.reading] using hread
  | failed s₁ h₁ ec _ _ => simp [RunningSession.next] at hn
  | unnamed results ec => simp [RunningSession.next] at hn

/-- One operation is outstanding until the session fails. -/
theorem ops_eq (ht : Transcript a s h) : s.ops = [] ∨ ∃ op, s.ops = [op] := by
  cases ht with
  | failed => exact Or.inl rfl
  | unnamed => exact Or.inl rfl
  | _ => exact Or.inr ⟨_, rfl⟩

/-- The handlers run in their order. -/
theorem waits_next (ht : Transcript a s h) (hn : s.next e = some (s', o)) :
    s.waits ≠ .failed ∧ s'.waits = if e.outcome.ok then s.waits.next else .failed := by
  rcases ht.ops_eq with hops | ⟨op, hops⟩
  · simp [RunningSession.next, hops] at hn
  have hc := next_single hops hn
  have hw : s.waits = op.handler := by rw [RunningSession.waits, hops]
  rw [hw]
  cases op <;> cases ho : e.outcome <;> simp only [ho, RunningSession.complete] at hc
  case connect.connected ep tlsext =>
    split at hc
    · cases tlsext <;> cases hc <;> exact ⟨by simp [Operation.handler], rfl⟩
    · cases hc
  all_goals cases hc <;> exact ⟨by simp [Operation.handler], rfl⟩

/-- A failure is reported once, and it is the last that the session does. -/
theorem reported (ht : Transcript a s h) : (s.ops ≠ [] ∧ h.any isReport = false) ∨
    s.ops = [] ∧ ∃ h' x, h = h' ++ [x] ∧ h'.any isReport = false ∧ isReport x = true := by
  induction ht with
  | failed s h ec _ hne ih =>
      rcases ih with ⟨-, hquiet⟩ | ⟨hnil, -⟩
      · exact Or.inr ⟨rfl, h, _, rfl, hquiet, rfl⟩
      · exact absurd hnil hne
  | unnamed results ec =>
      exact Or.inr ⟨rfl, a.connecting results ++ [.expiresAfter 15, .setTlsextHostName a.host],
        fail ec "connect", by simp, rfl, rfl⟩
  | reading results ep ms _ =>
      refine Or.inl ⟨cons_ne_nil _ _, ?_⟩
      have hms : (ms.flatMap fun m => [.received m, .cout m, .start .read]).any isReport = false := by
        simp [isReport]
      rw [Settings.reading, any_append, any_cons, hms]
      rfl
  | _ => exact Or.inl ⟨cons_ne_nil _ _, rfl⟩

end Transcript

end Wss

end AsioNetworking

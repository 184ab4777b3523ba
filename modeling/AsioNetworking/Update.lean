import AsioNetworking.Server.Theorems

/-!
# `update` step by step

In `Server` one step takes a whole round of the loop of `update` up to the call of `OnMessage`. Here
the rounds are taken apart: the test of the loop, `pop_front` and the call of `OnMessage` are steps of
their own, with the handlers of the context thread anywhere in between.
-/

namespace AsioNetworking

open List

variable {T ι : Type}

inductive Place (T ι : Type) where
  | wait
  /-- Before the test of the loop. -/
  | test
  | popFront
  /-- `msg` holds what was popped; `OnMessage` is still to be called with it. -/
  | onMessage (msg : OwnedMessage T ι)
  /-- `OnMessage` is running. -/
  | running (remote : Option ι)
  deriving DecidableEq

structure Update (T ι : Type) where
  maxMessages : UInt64
  messageCount : UInt64
  place : Place T ι
  deriving DecidableEq

/-- A server and the call of `update` that its user thread is in. The tasks of the server are those
of `MessageAllClients` and of the running `OnMessage`. -/
structure Consumer (T ι : Type) where
  server : Server T ι
  update : Option (Update T ι)

inductive ConsumerEvent (T ι : Type) where
  | server (e : ServerEvent T ι)
  | update (maxMessages : UInt64) (bWait : Bool)
  /-- The user thread goes on in `update`; when this calls `OnMessage`, it is going to make the calls
  `calls`. -/
  | step (calls : List (Call T))
  deriving DecidableEq

inductive ConsumerEffect (T ι : Type) where
  | server (x : ServerEffect T ι)
  | update (maxMessages : UInt64)
  /-- The test of the loop finds `m_qMessagesIn` empty. -/
  | sawEmpty
  /-- `pop_front()` of an empty `m_qMessagesIn`. -/
  | popEmpty
  | returned
  deriving DecidableEq

namespace Consumer

variable [DecidableEq ι] [IdType T]

def init : Consumer T ι := ⟨Server.init, none⟩

/-- The connection that the `owned_message` of the running round keeps alive. -/
def held (c : Consumer T ι) : Option ι :=
  match c.update with
  | some ⟨_, _, .onMessage msg⟩ => msg.remote
  | some ⟨_, _, .running remote⟩ => remote
  | _ => none

def owners (c : Consumer T ι) (i : ι) : Nat :=
  c.server.owners i + if c.held = some i then 1 else 0

def lift (c : Consumer T ι) (r : Option (Server T ι × List (ServerEffect T ι))) :
    Option (Consumer T ι × List (ConsumerEffect T ι)) :=
  r.map fun (s, o) => ({ c with server := s }, o.map .server)

/-- The user thread goes on in the call `u`. -/
def step (calls : List (Call T)) (u : Update T ι) (c : Consumer T ι) :
    Option (Consumer T ι × List (ConsumerEffect T ι)) :=
  match u.place with
  | .wait =>
      if c.server.qMessagesIn.isEmpty then none
      else some ({ c with update := some { u with place := .test } }, [])
  | .test =>
      if u.messageCount < u.maxMessages then
        if c.server.qMessagesIn.isEmpty then some ({ c with update := none }, [.sawEmpty, .returned])
        else some ({ c with update := some { u with place := .popFront } }, [])
      else some ({ c with update := none }, [.returned])
  | .popFront =>
      match c.server.qMessagesIn with
      | [] => some (c, [.popEmpty])
      | msg :: q => some ({
          server := { c.server with qMessagesIn := q }
          update := some { u with place := .onMessage msg } }, [])
  | .onMessage msg => some ({
      server := { c.server with user := calls.map (.call msg.remote) ++ c.server.user }
      update := some { u with place := .running msg.remote } },
      [.server (.onMessage msg.remote msg.msg)])
  | .running _ =>
      if c.server.user.isEmpty then
        some ({ c with update := some { u with messageCount := u.messageCount + 1, place := .test } },
          [])
      else none

def next (c : Consumer T ι) :
    ConsumerEvent T ι → Option (Consumer T ι × List (ConsumerEffect T ι))
  | .server (.update _ _) => none
  | .server (.messageAllClients msg) =>
      if c.update.isNone then c.lift (c.server.next (.messageAllClients msg)) else none
  | .server (.conn i e) =>
      if Server.isCall e ∧ c.owners i = 0 then none else c.lift (c.server.onConn i e)
  | .server e => c.lift (c.server.next e)
  | .update maxMessages bWait =>
      if c.update.isNone ∧ c.server.user.isEmpty then
        some ({ c with update := some ⟨maxMessages, 0, if bWait then .wait else .test⟩ },
          [.update maxMessages])
      else none
  | .step calls =>
      match c.update with
      | none => none
      | some u => c.step calls u

def machine (T ι : Type) [DecidableEq ι] [IdType T] :
    Mealy (Consumer T ι) (ConsumerEvent T ι) (ConsumerEffect T ι) := ⟨next⟩

/-! ## Steps -/

inductive ConsumerStep (c : Consumer T ι) :
    ConsumerEvent T ι → Consumer T ι → List (ConsumerEffect T ι) → Prop where
  | server (e s o) : (∀ max bWait, e ≠ .update max bWait) → (∀ i e', e ≠ .conn i e') →
      (∀ msg, e = .messageAllClients msg → c.update = none) → c.server.next e = some (s, o) →
      ConsumerStep c (.server e) { c with server := s } (o.map .server)
  | conn (i e s o) : (Server.isCall e = true → 0 < c.owners i) →
      c.server.onConn i e = some (s, o) →
      ConsumerStep c (.server (.conn i e)) { c with server := s } (o.map .server)
  | update (maxMessages bWait) : c.update = none → c.server.user = [] →
      ConsumerStep c (.update maxMessages bWait)
        { c with update := some ⟨maxMessages, 0, if bWait then .wait else .test⟩ }
        [.update maxMessages]
  | waited (calls max n) : c.update = some ⟨max, n, .wait⟩ → c.server.qMessagesIn ≠ [] →
      ConsumerStep c (.step calls) { c with update := some ⟨max, n, .test⟩ } []
  | sawEmpty (calls max n) : c.update = some ⟨max, n, .test⟩ → n < max →
      c.server.qMessagesIn = [] →
      ConsumerStep c (.step calls) { c with update := none } [.sawEmpty, .returned]
  | reached (calls max n) : c.update = some ⟨max, n, .test⟩ → ¬ n < max →
      ConsumerStep c (.step calls) { c with update := none } [.returned]
  | entered (calls max n) : c.update = some ⟨max, n, .test⟩ → n < max →
      c.server.qMessagesIn ≠ [] →
      ConsumerStep c (.step calls) { c with update := some ⟨max, n, .popFront⟩ } []
  | popEmpty (calls max n) : c.update = some ⟨max, n, .popFront⟩ → c.server.qMessagesIn = [] →
      ConsumerStep c (.step calls) c [.popEmpty]
  | popped (calls max n msg q) : c.update = some ⟨max, n, .popFront⟩ →
      c.server.qMessagesIn = msg :: q →
      ConsumerStep c (.step calls)
        ⟨{ c.server with qMessagesIn := q }, some ⟨max, n, .onMessage msg⟩⟩ []
  | onMessage (calls max n msg) : c.update = some ⟨max, n, .onMessage msg⟩ →
      ConsumerStep c (.step calls)
        ⟨{ c.server with user := calls.map (.call msg.remote) ++ c.server.user },
          some ⟨max, n, .running msg.remote⟩⟩ [.server (.onMessage msg.remote msg.msg)]
  | again (calls max n remote) : c.update = some ⟨max, n, .running remote⟩ → c.server.user = [] →
      ConsumerStep c (.step calls) { c with update := some ⟨max, n + 1, .test⟩ } []

omit [DecidableEq ι] [IdType T] in
theorem lift_eq_some {c c' : Consumer T ι} {r o} (h : c.lift r = some (c', o)) :
    ∃ s o', r = some (s, o') ∧ c' = { c with server := s } ∧ o = o'.map .server := by
  obtain ⟨⟨s, o'⟩, rfl, he⟩ := Option.map_eq_some_iff.mp h
  cases he
  exact ⟨s, o', rfl, rfl, rfl⟩

theorem next_consumerStep {c c' : Consumer T ι} {e o} (hn : c.next e = some (c', o)) :
    ConsumerStep c e c' o := by
  cases e with
  | server e =>
      cases e with
      | update => cases hn
      | messageAllClients msg =>
          simp only [next] at hn
          split at hn
          · rename_i hu
            obtain ⟨s, o', hr, rfl, rfl⟩ := lift_eq_some hn
            exact .server _ s o' (by simp) (by simp)
              (fun _ _ => by simpa using hu) hr
          · cases hn
      | conn i e =>
          simp only [next] at hn
          split at hn
          · cases hn
          · rename_i hcall
            obtain ⟨s, o', hr, rfl, rfl⟩ := lift_eq_some hn
            exact .conn i e s o' (fun h => Nat.pos_of_ne_zero fun h0 => hcall ⟨h, h0⟩) hr
      | accept =>
          obtain ⟨s, o', hr, rfl, rfl⟩ := lift_eq_some hn
          exact .server _ s o' (by simp) (by simp) (by simp) hr
      | user =>
          obtain ⟨s, o', hr, rfl, rfl⟩ := lift_eq_some hn
          exact .server _ s o' (by simp) (by simp) (by simp) hr
  | update max bWait =>
      simp only [next] at hn
      split at hn
      · rename_i hu
        cases hn
        exact .update max bWait (by simpa using hu.1) (by simpa using hu.2)
      · cases hn
  | step calls =>
      simp only [next] at hn
      split at hn
      · cases hn
      · rename_i u hu
        obtain ⟨max, n, place⟩ := u
        cases place with
        | wait =>
            simp only [step] at hn
            split at hn <;> cases hn
            rename_i hq
            exact .waited calls max n hu (by simpa using hq)
        | test =>
            simp only [step] at hn
            split at hn
            · rename_i hlt
              split at hn <;> cases hn
              · rename_i hq
                exact .sawEmpty calls max n hu hlt (by simpa using hq)
              · rename_i hq
                exact .entered calls max n hu hlt (by simpa using hq)
            · rename_i hlt
              cases hn
              exact .reached calls max n hu hlt
        | popFront =>
            simp only [step] at hn
            split at hn <;> cases hn
            · rename_i hq
              exact .popEmpty calls max n hu hq
            · rename_i msg q hq
              exact .popped calls max n msg q hu hq
        | onMessage msg => cases hn; exact .onMessage calls max n msg hu
        | running remote =>
            simp only [step] at hn
            split at hn <;> cases hn
            rename_i huser
            exact .again calls max n remote hu (by simpa using huser)

/-! ## Histories -/

def view (h : List (ConsumerEffect T ι)) : List (ServerEffect T ι) :=
  h.filterMap fun
    | .server x => some x
    | _ => none

/-- The running call of `update`: its `maxMessages` and how often it has called `OnMessage`. -/
def track (r : Option (UInt64 × Nat)) : ConsumerEffect T ι → Option (UInt64 × Nat)
  | .update maxMessages => some (maxMessages, 0)
  | .returned => none
  | .server (.onMessage _ _) => r.map fun (maxMessages, n) => (maxMessages, n + 1)
  | _ => r

def tracked (h : List (ConsumerEffect T ι)) : Option (UInt64 × Nat) := h.foldl track none

/-- The message that has been popped and not been passed to `OnMessage`. -/
def popped (c : Consumer T ι) : List (OwnedMessage T ι) :=
  match c.update with
  | some ⟨_, _, .onMessage msg⟩ => [msg]
  | _ => []

/-- The same, when it is from the connection `i`. -/
def poppedFrom (i : ι) (c : Consumer T ι) : List (Message T) :=
  (c.popped.filter (·.remote = some i)).map (·.msg)

end Consumer

end AsioNetworking

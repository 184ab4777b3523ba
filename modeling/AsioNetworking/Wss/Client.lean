import AsioNetworking.Lib.Pool
import AsioNetworking.Wss.Session

/-!
# The websocket client with its sessions

The client is its thread pool, its settings and the sessions that `Open` has run. A handler of a
session runs when a thread takes it from the context, so that the handlers of all sessions come
between any two statements of the user's thread.
-/

namespace AsioNetworking

namespace Wss

open List

structure Client where
  interface : ClientInterface
  /-- `m_sHost`, `m_sPort`, `m_sRequest` and `m_sEndpoint`. -/
  settings : Settings
  sessions : List RunningSession
  deriving DecidableEq

inductive ClientEvent where
  | setHost (h : String)
  | setPort (p : String)
  | setRequest (r : String)
  | setEndpoint (e : String)
  | interface (e : ClientInterfaceEvent)
  /-- An operation of the `k`-th session ends. -/
  | session (k : Nat) (e : Completion)
  deriving DecidableEq

def ClientEvent.isSetter : ClientEvent → Bool
  | .setHost _ | .setPort _ | .setRequest _ | .setEndpoint _ => true
  | _ => false

inductive ClientEffect where
  | interface (x : ClientInterfaceEffect)
  | session (x : PoolEffect Settings SessionEffect)
  deriving DecidableEq

/-- The event is a call of `Open` that runs a new session. -/
def ClientInterface.runs (c : ClientInterface) : ClientInterfaceEvent → Bool
  | .openSocket runs => runs && !c.bOpenSocket
  | _ => false

def ClientInterfaceEvent.isSession : ClientInterfaceEvent → Bool
  | .session _ _ => true
  | _ => false

namespace ClientInterface

theorem run_eq_some {c c' : ClientInterface} {o} (hb : c.bOpenSocket = false)
    (hn : c.next (.openSocket true) = some (c', o)) :
    c' = { c with sessions := c.sessions ++ [.onResolve], place := .creating 0 } ∧ o = [] := by
  simp only [next, openSocket, hb] at hn
  split at hn
  · cases hn
  · split at hn
    · cases hn
      exact ⟨by simp [hb], rfl⟩
    · cases hn

theorem session_eq_some {c c' : ClientInterface} {k ok o} (hn : c.next (.session k ok) = some (c', o)) :
    ∃ s, c.sessions[k]? = some s ∧ c.takes = true ∧ s ≠ .failed ∧ o = [] ∧
      c' = { c with sessions := c.sessions.set k (if ok then s.next else .failed) } := by
  simp only [next, onSession] at hn
  split at hn
  · cases hn
  · split at hn
    · cases hn
    · rename_i s hs
      split at hn
      · rename_i hc
        cases hn
        exact ⟨s, hs, hc.1, hc.2, rfl, rfl⟩
      · cases hn

theorem sessions_eq {c c' : ClientInterface} {e o} (hs : ClientInterfaceStep c e c' o)
    (he : e.isSession = false) (hr : c.runs e = false) : c'.sessions = c.sessions := by
  cases hs with
  | run _ hb => simp [runs, hb] at hr
  | session => cases he
  | _ => rfl

end ClientInterface

namespace Client

def init : Client := ⟨.init, ⟨"null", "443", "null", "null"⟩, []⟩

/-- The user's thread can call the client. -/
def callable (c : Client) : Bool := !c.interface.aborted && decide (c.interface.place = .outside)

def set (f : Settings → Settings) (c : Client) : Option (Client × List ClientEffect) :=
  if c.callable then some ({ c with settings := f c.settings }, []) else none

def pool : Mealy (List RunningSession) (PoolEvent Settings Completion)
    (PoolEffect Settings SessionEffect) := RunningSession.machine.pool RunningSession.run

def next (c : Client) : ClientEvent → Option (Client × List ClientEffect)
  | .setHost h => c.set ({ · with host := h })
  | .setPort p => c.set ({ · with port := p })
  | .setRequest r => c.set ({ · with text := r })
  | .setEndpoint e => c.set ({ · with endpoint := e })
  | .interface e =>
      if e.isSession then none else
        match c.interface.next e with
        | none => none
        | some (interface, o) =>
            if c.interface.runs e then
              (pool.next c.sessions (.spawn c.settings)).map fun r =>
                ({ c with interface, sessions := r.1 }, o.map .interface ++ r.2.map .session)
            else some ({ c with interface }, o.map .interface)
  | .session k e =>
      match c.interface.next (.session k e.outcome.ok) with
      | none => none
      | some (interface, o) => (pool.next c.sessions (.member k e)).map fun r =>
          ({ c with interface, sessions := r.1 }, o.map .interface ++ r.2.map .session)

def machine : Mealy Client ClientEvent ClientEffect := ⟨next⟩

/-! ## Histories -/

def interfaceHist (h : List ClientEffect) : List ClientInterfaceEffect :=
  h.filterMap fun
    | .interface x => some x
    | _ => none

def poolHist (h : List ClientEffect) : List (PoolEffect Settings SessionEffect) :=
  h.filterMap fun
    | .session x => some x
    | _ => none

/-- The history of the `k`-th session. -/
def sessionHist (k : Nat) (h : List ClientEffect) : List SessionEffect :=
  Mealy.memberHist k (poolHist h)

section Histories

variable (h o : List ClientEffect)

@[simp] theorem interfaceHist_append :
    interfaceHist (h ++ o) = interfaceHist h ++ interfaceHist o := filterMap_append

@[simp] theorem poolHist_append : poolHist (h ++ o) = poolHist h ++ poolHist o := filterMap_append

@[simp] theorem interfaceHist_map_interface (o : List ClientInterfaceEffect) :
    interfaceHist (o.map .interface) = o := by
  simp [interfaceHist, filterMap_map]

@[simp] theorem interfaceHist_map_session (o : List (PoolEffect Settings SessionEffect)) :
    interfaceHist (o.map .session) = [] := by
  simp [interfaceHist, filterMap_map]

@[simp] theorem poolHist_map_interface (o : List ClientInterfaceEffect) :
    poolHist (o.map .interface) = [] := by
  simp [poolHist, filterMap_map]

@[simp] theorem poolHist_map_session (o : List (PoolEffect Settings SessionEffect)) :
    poolHist (o.map .session) = o := by
  simp [poolHist, filterMap_map]

end Histories

/-! ## Steps -/

inductive ClientStep (c : Client) : ClientEvent → Client → List ClientEffect → Prop where
  | set (e settings) : e.isSetter = true → c.callable = true → ClientStep c e { c with settings } []
  | interface (e interface o) : e.isSession = false → c.interface.runs e = false →
      c.interface.next e = some (interface, o) →
      ClientStep c (.interface e) { c with interface } (o.map .interface)
  | run (interface o sessions o') : c.interface.bOpenSocket = false →
      c.interface.next (.openSocket true) = some (interface, o) →
      pool.next c.sessions (.spawn c.settings) = some (sessions, o') →
      ClientStep c (.interface (.openSocket true)) { c with interface, sessions }
        (o.map .interface ++ o'.map .session)
  | session (k e interface o sessions o') :
      c.interface.next (.session k e.outcome.ok) = some (interface, o) →
      pool.next c.sessions (.member k e) = some (sessions, o') →
      ClientStep c (.session k e) { c with interface, sessions } (o.map .interface ++ o'.map .session)

variable {c c' : Client} {e : ClientEvent} {h o : List ClientEffect}
  {G : Client → List ClientEffect → ClientEvent → Prop}

theorem set_step {f} (he : e.isSetter = true) (hn : c.set f = some (c', o)) : ClientStep c e c' o := by
  unfold set at hn
  split at hn
  · rename_i hc
    cases hn
    exact .set e _ he hc
  · cases hn

theorem next_clientStep (hn : c.next e = some (c', o)) : ClientStep c e c' o := by
  cases e with
  | setHost | setPort | setRequest | setEndpoint =>
      simp only [next] at hn
      exact set_step rfl hn
  | interface e =>
      simp only [next] at hn
      split at hn
      · cases hn
      · rename_i he
        split at hn
        · cases hn
        · rename_i interface o' hi
          split at hn
          · rename_i hrun
            obtain ⟨⟨sessions, o''⟩, hp, hres⟩ := Option.map_eq_some_iff.mp hn
            cases hres
            cases e with
            | openSocket runs =>
                simp only [ClientInterface.runs, Bool.and_eq_true, Bool.not_eq_true'] at hrun
                obtain ⟨rfl, hopen⟩ := hrun
                exact .run interface o' sessions o'' hopen hi hp
            | _ => cases hrun
          · rename_i hrun
            cases hn
            exact .interface e interface o' (by simpa using he) (by simpa using hrun) hi
  | session k e =>
      simp only [next] at hn
      split at hn
      · cases hn
      · rename_i interface o' hi
        obtain ⟨⟨sessions, o''⟩, hp, hres⟩ := Option.map_eq_some_iff.mp hn
        cases hres
        exact .session k e interface o' sessions o'' hi hp

/-! ## The parts -/

/-- A run of the client is a run of its thread pool. -/
theorem run_interface {c₀ h₀} (hr : machine.Run G c₀ h₀ c h) :
    ClientInterface.machine.Run Mealy.free c₀.interface (interfaceHist h₀) c.interface
      (interfaceHist h) := by
  refine hr.project (·.interface) interfaceHist interfaceHist_append fun c h e c' o _ hn => ?_
  cases next_clientStep hn with
  | set => exact Or.inl ⟨rfl, rfl⟩
  | interface e interface o _ _ hi =>
      exact Or.inr ⟨e, trivial, by simpa [ClientInterface.machine] using hi⟩
  | run interface o sessions o' _ hi _ =>
      exact Or.inr ⟨.openSocket true, trivial, by simpa [ClientInterface.machine] using hi⟩
  | session k e interface o sessions o' hi _ =>
      exact Or.inr ⟨.session k e.outcome.ok, trivial, by simpa [ClientInterface.machine] using hi⟩

/-- A run of the client is a run of the sessions that `Open` has run. -/
theorem run_pool {c₀ h₀} (hr : machine.Run G c₀ h₀ c h) :
    pool.Run Mealy.free c₀.sessions (poolHist h₀) c.sessions (poolHist h) := by
  refine hr.project (·.sessions) poolHist poolHist_append fun c h e c' o _ hn => ?_
  cases next_clientStep hn with
  | set => exact Or.inl ⟨rfl, rfl⟩
  | interface => exact Or.inl ⟨rfl, by simp⟩
  | run interface o sessions o' _ _ hp => exact Or.inr ⟨.spawn c.settings, trivial, by simpa using hp⟩
  | session k e interface o sessions o' _ hp => exact Or.inr ⟨.member k e, trivial, by simpa using hp⟩

/-- Every session has done what its `Run` asks for. -/
theorem run_transcript (hr : machine.Run G init [] c h) {k : Nat} {s : RunningSession}
    (hk : c.sessions[k]? = some s) :
    ∃ a, (Mealy.spawned (poolHist h))[k]? = some a ∧ Transcript a s (sessionHist k h) :=
  (run_pool hr).pool_invariant (fun _ => .resolving) (fun _ _ _ _ _ _ ht hn => ht.step hn) hk

/-! ## The sessions and the thread pool -/

/-- The thread pool knows of each session which handler it waits for. -/
def Matched (c : Client) : Prop := c.interface.sessions = c.sessions.map (·.waits)

theorem Matched.step (hm : c.Matched) (hn : c.next e = some (c', o))
    (ht : ∀ (k : Nat) (s : RunningSession), c.sessions[k]? = some s → ∃ a h, Transcript a s h) :
    c'.Matched := by
  cases next_clientStep hn with
  | set => exact hm
  | interface e interface o he hrun hi =>
      exact (ClientInterface.sessions_eq (ClientInterface.next_clientInterfaceStep hi).2 he hrun).trans hm
  | run interface o sessions o' hopen hi hp =>
      obtain ⟨rfl, rfl⟩ := ClientInterface.run_eq_some hopen hi
      cases hp
      have hm : c.interface.sessions = _ := hm
      simp [Matched, hm, RunningSession.run, RunningSession.async, RunningSession.waits, Operation.handler]
  | session k e interface o sessions o' hi hp =>
      obtain ⟨w, hw, -, -, rfl, rfl⟩ := ClientInterface.session_eq_some hi
      cases Mealy.pool_step hp with
      | member _ _ s s' o hk hs =>
          obtain ⟨a, h, ht⟩ := ht k s hk
          obtain ⟨-, hwaits⟩ := ht.waits_next hs
          have hm : c.interface.sessions = _ := hm
          have hw : w = s.waits := by simpa [hm, hk] using hw.symm
          simp [Matched, hm, map_set, hwaits, hw]

theorem run_matched (hr : machine.Run G init [] c h) : c.Matched := by
  induction hr with
  | refl => rfl
  | step hr _ hn ih =>
      refine ih.step hn fun k s hk => ?_
      obtain ⟨a, -, ht⟩ := run_transcript hr hk
      exact ⟨a, _, ht⟩

/-- A client with two threads reads a message. -/
def feed : List ClientEvent :=
  [.setHost "feed", .setRequest "all", .setEndpoint "/live", .interface (.setThreadCount 2),
    .interface (.openSocket true), .interface .goOn, .interface .goOn, .interface .goOn,
    .session 0 ⟨0, .resolved [⟨[10, 0, 0, 1], 443⟩]⟩,
    .session 0 ⟨0, .connected ⟨[10, 0, 0, 1], 443⟩ none⟩, .session 0 ⟨0, .sslHandshaken⟩,
    .session 0 ⟨0, .handshaken⟩, .session 0 ⟨0, .written⟩, .session 0 ⟨0, .message [7, 8]⟩]

theorem run_poolInv (hr : machine.Run G init [] c h) :
    ClientInterface.PoolInv c.interface (interfaceHist h) :=
  (run_interface hr).invariant
    ⟨by simp [init, ClientInterface.init, interfaceHist], fun _ hp => (by cases hp),
      fun hopen => (by cases hopen)⟩
    fun _ _ _ _ _ hi _ hn => hi.step (ClientInterface.next_clientInterfaceStep hn).2

/-- The sessions of `c₀` are as they were, with the history `h₀`; the other ones have only started to
resolve the name of their host. -/
structure Halted (c₀ : Client) (h₀ : List ClientEffect) (c : Client) (h : List ClientEffect) : Prop where
  interface : ClientInterface.PoolInv c.interface (interfaceHist h)
  stopped : c.interface.stopped = true
  length : c₀.sessions.length ≤ c.sessions.length
  kept : ∀ k, k < c₀.sessions.length →
    c.sessions[k]? = c₀.sessions[k]? ∧ sessionHist k h = sessionHist k h₀
  resolving : ∀ (k : Nat) s, c₀.sessions.length ≤ k → c.sessions[k]? = some s → s.waits = .onResolve

theorem Halted.step {c₀ h₀} (hl : Halted c₀ h₀ c h) (hn : c.next e = some (c', o)) :
    Halted c₀ h₀ c' (h ++ o) := by
  have pooled {i i' : ClientInterface} {ie io} (hp : ClientInterface.PoolInv i (interfaceHist h))
      (hs : i.stopped = true) (hi : i.next ie = some (i', io)) :
      ClientInterface.PoolInv i' (interfaceHist h ++ io) ∧ i'.stopped = true := by
    have hp' := hp.step (ClientInterface.next_clientInterfaceStep hi).2
    refine ⟨hp', hp'.stopped.mpr ?_⟩
    exact (hp.stopped.mp hs).imp (mem_append_left _) (mem_append_left _)
  cases next_clientStep hn with
  | set => exact ⟨by simpa using hl.interface, hl.stopped, hl.length, by simpa using hl.kept, hl.resolving⟩
  | interface e interface io _ _ hi =>
      obtain ⟨hp, hs⟩ := pooled hl.interface hl.stopped hi
      exact ⟨by simpa using hp, hs, hl.length, by simpa [sessionHist] using hl.kept, hl.resolving⟩
  | run interface io sessions po _ hi hpool =>
      obtain ⟨hp, hs⟩ := pooled hl.interface hl.stopped hi
      have hhist : poolHist (h ++ (io.map .interface ++ po.map .session)) = poolHist h ++ po := by simp
      cases hpool
      refine ⟨?_, hs, ?_, fun k hk => ?_, fun k s hk hget => ?_⟩
      · rw [interfaceHist_append, interfaceHist_append, interfaceHist_map_session, append_nil,
          interfaceHist_map_interface]
        exact hp
      · rw [length_append]
        exact Nat.le_add_right_of_le hl.length
      · have hlt := hk.trans_le hl.length
        rw [getElem?_append_left hlt, sessionHist, hhist]
        simpa [sessionHist, Nat.ne_of_gt hlt] using hl.kept k hk
      · rcases Nat.lt_or_ge k c.sessions.length with hlt | hge
        · rw [getElem?_append_left hlt] at hget
          exact hl.resolving k s hk hget
        · rw [getElem?_append_right hge] at hget
          rw [mem_singleton.mp (mem_of_getElem? hget)]
          rfl
  | session k e interface io sessions po hi _ =>
      obtain ⟨_, -, htakes, -⟩ := ClientInterface.session_eq_some hi
      simp [ClientInterface.takes, hl.stopped] at htakes

/-- Once the context has been stopped, by `Close` or because it had no work left, the sessions stay as
they are for good, whatever the user calls; a session of a later `Open` never gets beyond
`async_resolve`. -/
theorem stopped_for_good {c₀ h₀} (hr₀ : machine.Run G init [] c₀ h₀) (hr : machine.Run G c₀ h₀ c h)
    (hstop : .close ∈ interfaceHist h₀ ∨ .outOfWork ∈ interfaceHist h₀) (k : Nat) :
    (k < c₀.sessions.length →
      c.sessions[k]? = c₀.sessions[k]? ∧ sessionHist k h = sessionHist k h₀) ∧
    (c₀.sessions.length ≤ k → ∀ s, c.sessions[k]? = some s →
      ∃ a : Settings, sessionHist k h = a.resolving) := by
  have hp₀ := run_poolInv hr₀
  have hl : Halted c₀ h₀ c h := hr.invariant (P := Halted c₀ h₀)
    ⟨hp₀, hp₀.stopped.mpr hstop, le_rfl, fun _ _ => ⟨rfl, rfl⟩, fun k s hk hget => by
      rw [getElem?_eq_none hk] at hget
      cases hget⟩
    fun _ _ _ _ _ hl _ hn => hl.step hn
  refine ⟨hl.kept k, fun hk s hget => ?_⟩
  obtain ⟨a, -, ht⟩ := run_transcript (hr₀.trans hr) hget
  have hw := hl.resolving k s hk hget
  refine ⟨a, ?_⟩
  generalize sessionHist k h = hist at ht
  cases ht with
  | resolving => rfl
  | _ => cases hw

def closed : Client × List ClientEffect :=
  (machine.exec Mealy.free init [] (feed ++ [.interface .close])).get (by decide +kernel)

/-- The user closes the client and opens it again. -/
def reopened : Client × List ClientEffect :=
  (machine.exec Mealy.free closed.1 closed.2 [.interface (.quit 0), .interface (.quit 1),
    .interface .goOn, .interface (.openSocket true), .interface .goOn, .interface .goOn,
    .interface .goOn]).get (by decide +kernel)

theorem stopped_for_good_reopened : reopened.1.interface.isOpen = true ∧
    ∃ a : Settings, sessionHist 1 reopened.2 = a.resolving :=
  ⟨by decide +kernel, (stopped_for_good
    (.of_isSome _ _ : machine.Run Mealy.free init [] closed.1 closed.2)
    (.of_isSome _ _ : machine.Run Mealy.free closed.1 closed.2 reopened.1 reopened.2)
    (Or.inl (by decide +kernel)) 1).2 (by decide +kernel)
      ⟨"feed", "all", "/live", [], [.resolve "feed" "443"]⟩ (by decide +kernel)⟩

end Client

end Wss

end AsioNetworking

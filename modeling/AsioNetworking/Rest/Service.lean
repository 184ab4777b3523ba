import AsioNetworking.Lib.EventLoop
import AsioNetworking.Rest.Exchange

/-!
# A REST service (`rest_interface.hpp`)

An `Interface` with its context, its listener and its sessions. The work guard keeps the context
running until SIGINT or SIGTERM comes; the destructor of `Interface` waits for that, and the context
thread goes on serving meanwhile.
-/

namespace AsioNetworking

namespace Rest

open List

structure Service (ι : Type) where
  context : EventLoop
  ctxGuard : Bool
  /-- The outstanding `async_wait`s of `m_Signals`. -/
  waits : Nat
  /-- A signal has come that no handler has been called for. -/
  signalled : Bool
  listener : Listener ι
  exchanges : List (Exchange ι)
  /-- The destructor of `Interface` has begun. -/
  destroying : Bool
  destroyed : Bool
  /-- A pure virtual function was called. -/
  terminated : Bool
  deriving DecidableEq

inductive ServiceEvent (ι : Type) where
  /-- `start`; the address is `valid`, or `make_address` throws. -/
  | start (valid : Bool)
  | signal
  /-- The handler of `m_Signals`. -/
  | onSignal
  | accept (outcome : Option ι)
  /-- The `k`-th session goes on. -/
  | exchange (k : Nat) (e : ExchangeEvent)
  /-- `m_ioc.run()` returns. -/
  | quit
  | destroy
  /-- The destructor joins the thread and returns. -/
  | join
  deriving DecidableEq

inductive ServiceEffect (ι : Type) where
  | start
  | stop
  | listener (x : ListenerEffect ι)
  | exchange (x : PoolEffect ι ExchangeEffect)
  | destroyed
  deriving DecidableEq

/-- The session handles a request in the way that the phase of the service asks for. -/
def ExchangeEvent.fits (destroying : Bool) : ExchangeEvent → Bool
  | .read late _ => late = destroying
  | _ => true

/-- A pure virtual function is called. -/
def ExchangeEvent.callsPure : ExchangeEvent → Bool
  | .read true (some req) => req.method.isPure
  | _ => false

theorem Listener.session_eq_some {ι : Type} {l l' : Listener ι} {k e o}
    (hn : l.next (.session k e) = some (l', o)) :
    ∃ x x', l.sessions[k]? = some x ∧ x.next e = some x' ∧
      l' = { l with sessions := l.sessions.set k x' } ∧ o = [] := by
  simp only [next] at hn
  split at hn
  · cases hn
  · rename_i x hx
    obtain ⟨x', hx', he⟩ := Option.map_eq_some_iff.mp hn
    cases he
    exact ⟨x, x', hx, hx', rfl, rfl⟩

theorem Listener.accepted_append {ι : Type} (h o : List (ListenerEffect ι)) :
    accepted (h ++ o) = accepted h ++ accepted o := filterMap_append

namespace Service

variable {ι : Type}

def init : Service ι := ⟨.init, true, 0, false, ⟨0, []⟩, [], false, false, false⟩

def pool (ι : Type) (f : Handlers) :
    Mealy (List (Exchange ι)) (PoolEvent ι ExchangeEvent) (PoolEffect ι ExchangeEffect) :=
  (Exchange.machine ι f).pool Exchange.spawn

/-- `m_Listener->start()`, `m_Signals.async_wait` and the new thread. -/
def start (s : Service ι) : Service ι :=
  { s with
    listener := s.listener.asyncAccept
    waits := s.waits + 1
    context := s.context.spawn }

def onSignal (s : Service ι) : Service ι :=
  { s with signalled := false, waits := s.waits - 1, ctxGuard := false, context := s.context.stop }

def accept (f : Handlers) (outcome : Option ι) (s : Service ι) :
    Option (Service ι × List (ServiceEffect ι)) :=
  match s.listener.next (.accept outcome) with
  | none => none
  | some (listener, o) =>
      match outcome with
      | none => some ({ s with listener }, o.map .listener)
      | some socket => ((pool ι f).next s.exchanges (.spawn socket)).map fun r =>
          ({ s with listener, exchanges := r.1 }, o.map .listener ++ r.2.map .exchange)

def exchange (f : Handlers) (k : Nat) (e : ExchangeEvent) (s : Service ι) :
    Option (Service ι × List (ServiceEffect ι)) :=
  match (pool ι f).next s.exchanges (.member k e) with
  | none => none
  | some (exchanges, o) =>
      if e.callsPure then some ({ s with terminated := true }, [])
      else (s.listener.next (.session k (e.session f))).map fun r =>
        ({ s with listener := r.1, exchanges }, o.map .exchange)

def alive (s : Service ι) : Bool := !s.context.aborted && !s.terminated

def next (f : Handlers) (s : Service ι) (e : ServiceEvent ι) :
    Option (Service ι × List (ServiceEffect ι)) :=
  if s.alive ∧ s.destroyed = false then
    match e with
    | .start valid =>
        if s.destroying then none else if valid then some (s.start, [.start]) else some (s, [])
    | .signal => some ({ s with signalled := true }, [])
    | .onSignal =>
        if s.context.takes ∧ s.signalled ∧ 0 < s.waits then some (s.onSignal, [.stop]) else none
    | .accept outcome => if s.context.takes then s.accept f outcome else none
    | .exchange k e =>
        if s.context.takes ∧ e.fits s.destroying then s.exchange f k e else none
    | .quit => (s.context.quit !s.ctxGuard).map fun context => ({ s with context }, [])
    | .destroy => if s.destroying then none else some ({ s with destroying := true }, [])
    | .join =>
        if s.destroying then
          s.context.join.map fun context => ({ s with context, destroyed := true }, [.destroyed])
        else none
  else none

def machine (ι : Type) (f : Handlers) : Mealy (Service ι) (ServiceEvent ι) (ServiceEffect ι) :=
  ⟨next f⟩

/-! ## Histories -/

def listenerHist (h : List (ServiceEffect ι)) : List (ListenerEffect ι) :=
  h.filterMap fun
    | .listener x => some x
    | _ => none

def poolHist (h : List (ServiceEffect ι)) : List (PoolEffect ι ExchangeEffect) :=
  h.filterMap fun
    | .exchange x => some x
    | _ => none

/-- The history of the `k`-th session. -/
def exchangeHist (k : Nat) (h : List (ServiceEffect ι)) : List ExchangeEffect :=
  Mealy.memberHist k (poolHist h)

section Histories

variable (h o : List (ServiceEffect ι))

@[simp] theorem listenerHist_append : listenerHist (h ++ o) = listenerHist h ++ listenerHist o :=
  filterMap_append

@[simp] theorem poolHist_append : poolHist (h ++ o) = poolHist h ++ poolHist o := filterMap_append

@[simp] theorem listenerHist_map_listener (o : List (ListenerEffect ι)) :
    listenerHist (o.map .listener) = o := by
  simp [listenerHist, filterMap_map]

@[simp] theorem listenerHist_map_exchange (o : List (PoolEffect ι ExchangeEffect)) :
    listenerHist (o.map .exchange) = [] := by
  simp [listenerHist, filterMap_map]

@[simp] theorem poolHist_map_listener (o : List (ListenerEffect ι)) :
    poolHist (o.map .listener) = [] := by
  simp [poolHist, filterMap_map]

@[simp] theorem poolHist_map_exchange (o : List (PoolEffect ι ExchangeEffect)) :
    poolHist (o.map .exchange) = o := by
  simp [poolHist, filterMap_map]

end Histories

/-! ## Steps -/

inductive ServiceStep (f : Handlers) (s : Service ι) :
    ServiceEvent ι → Service ι → List (ServiceEffect ι) → Prop where
  | badAddress : ServiceStep f s (.start false) s []
  | start : s.destroying = false → ServiceStep f s (.start true) s.start [.start]
  | signal : ServiceStep f s .signal { s with signalled := true } []
  | onSignal : s.context.takes = true → s.signalled = true →
      ServiceStep f s .onSignal s.onSignal [.stop]
  | acceptError (listener o) : s.context.takes = true →
      s.listener.next (.accept none) = some (listener, o) →
      ServiceStep f s (.accept none) { s with listener } (o.map .listener)
  | accept (socket listener o exchanges o') : s.context.takes = true →
      s.listener.next (.accept (some socket)) = some (listener, o) →
      (pool ι f).next s.exchanges (.spawn socket) = some (exchanges, o') →
      ServiceStep f s (.accept (some socket)) { s with listener, exchanges }
        (o.map .listener ++ o'.map .exchange)
  | exchange (k e listener o exchanges o') : s.context.takes = true → e.fits s.destroying = true →
      e.callsPure = false → (pool ι f).next s.exchanges (.member k e) = some (exchanges, o') →
      s.listener.next (.session k (e.session f)) = some (listener, o) →
      ServiceStep f s (.exchange k e) { s with listener, exchanges } (o'.map .exchange)
  | terminate (k e) : s.context.takes = true → e.fits s.destroying = true → e.callsPure = true →
      ServiceStep f s (.exchange k e) { s with terminated := true } []
  | quit (context) : s.context.quit (!s.ctxGuard) = some context →
      ServiceStep f s .quit { s with context } []
  | destroy : ServiceStep f s .destroy { s with destroying := true } []
  | join (context) : s.destroying = true → s.context.join = some context →
      ServiceStep f s .join { s with context, destroyed := true } [.destroyed]

variable {f : Handlers} {s s' : Service ι} {e : ServiceEvent ι} {h o : List (ServiceEffect ι)}
  {G : Service ι → List (ServiceEffect ι) → ServiceEvent ι → Prop}

theorem next_serviceStep (hn : s.next f e = some (s', o)) :
    s.alive = true ∧ s.destroyed = false ∧ ServiceStep f s e s' o := by
  unfold next at hn
  split at hn
  · rename_i ha
    refine ⟨ha.1, ha.2, ?_⟩
    cases e with
    | start valid =>
        cases valid with
        | false =>
            simp only [Bool.false_eq_true, if_false] at hn
            split at hn <;> cases hn
            exact .badAddress
        | true =>
            simp only [if_true] at hn
            split at hn <;> cases hn
            rename_i hd
            exact .start (by simpa using hd)
    | signal => cases hn; exact .signal
    | onSignal =>
        simp only at hn
        split at hn <;> cases hn
        rename_i hc
        exact .onSignal hc.1 hc.2.1
    | accept outcome =>
        simp only [accept] at hn
        split at hn
        · rename_i htakes
          split at hn
          · cases hn
          · rename_i listener o' hl
            cases outcome with
            | none => cases hn; exact .acceptError listener o' htakes hl
            | some socket =>
                obtain ⟨⟨exchanges, o''⟩, hp, hres⟩ := Option.map_eq_some_iff.mp hn
                cases hres
                exact .accept socket listener o' exchanges o'' htakes hl hp
        · cases hn
    | exchange k e =>
        simp only [exchange] at hn
        split at hn
        · rename_i hc
          split at hn
          · cases hn
          · rename_i exchanges o' hp
            split at hn
            · rename_i hpure
              cases hn
              exact .terminate k e hc.1 hc.2 hpure
            · rename_i hpure
              obtain ⟨⟨listener, o''⟩, hl, hres⟩ := Option.map_eq_some_iff.mp hn
              cases hres
              exact .exchange k e listener o'' exchanges o' hc.1 hc.2 (by simpa using hpure) hp hl
        · cases hn
    | quit =>
        obtain ⟨context, hq, hres⟩ := Option.map_eq_some_iff.mp hn
        cases hres
        exact .quit context hq
    | destroy =>
        simp only at hn
        split at hn <;> cases hn
        exact .destroy
    | join =>
        simp only at hn
        split at hn
        · rename_i hd
          obtain ⟨context, hj, hres⟩ := Option.map_eq_some_iff.mp hn
          cases hres
          exact .join context hd hj
        · cases hn
  · cases hn

/-! ## The parts -/

/-- A run of the service is a run of the sessions of the sockets that it has accepted. -/
theorem run_pool {s₀ h₀} (hr : (machine ι f).Run G s₀ h₀ s h) :
    (pool ι f).Run Mealy.free s₀.exchanges (poolHist h₀) s.exchanges (poolHist h) := by
  refine hr.project (·.exchanges) poolHist poolHist_append fun s h e s' o _ hn => ?_
  cases (next_serviceStep hn).2.2 with
  | acceptError => exact Or.inl ⟨rfl, by simp⟩
  | accept socket listener o exchanges o' _ _ hp =>
      exact Or.inr ⟨.spawn socket, trivial, by simpa using hp⟩
  | exchange k e listener o exchanges o' _ _ _ hp =>
      exact Or.inr ⟨.member k e, trivial, by simpa using hp⟩
  | _ => exact Or.inl ⟨rfl, rfl⟩

/-- Once it is started, a service accepts as its listener does. -/
theorem run_listener {s₀ h₀} (hr : (machine ι f).Run G s₀ h₀ s h)
    (hG : ∀ s h e, G s h e → e ≠ .start true) :
    (Listener.machine ι).Run Mealy.free s₀.listener (listenerHist h₀) s.listener (listenerHist h) := by
  refine hr.project (·.listener) listenerHist listenerHist_append fun s h e s' o hg hn => ?_
  cases (next_serviceStep hn).2.2 with
  | start => exact absurd rfl (hG _ _ _ hg)
  | acceptError listener o _ hl =>
      exact Or.inr ⟨.accept none, trivial, by simpa [Listener.machine] using hl⟩
  | accept socket listener o exchanges o' _ hl _ =>
      exact Or.inr ⟨.accept (some socket), trivial, by simpa [Listener.machine] using hl⟩
  | exchange k e listener o exchanges o' _ _ _ _ hl =>
      refine Or.inr ⟨.session k (e.session f), trivial, ?_⟩
      obtain ⟨_, _, _, _, -, rfl⟩ := Listener.session_eq_some hl
      simpa [Listener.machine] using hl
  | _ => exact Or.inl ⟨rfl, rfl⟩

/-! ## The sessions and the listener -/

/-- The listener knows of each session where it is, and the sessions are those of the sockets accepted. -/
structure Matched (s : Service ι) (h : List (ServiceEffect ι)) : Prop where
  sessions : s.listener.sessions = s.exchanges.map Exchange.session
  sockets : Listener.accepted (listenerHist h) = Mealy.spawned (poolHist h)
  /-- Only the destructor has requests handled by `Interface` itself. -/
  late : ∀ k req, .request true req ∈ exchangeHist k h → s.destroying = true

theorem Matched.same (hm : s.Matched h) (hl : s'.listener.sessions = s.listener.sessions)
    (hx : s'.exchanges = s.exchanges) (hd : s.destroying = true → s'.destroying = true)
    (ha : Listener.accepted (listenerHist o) = []) (hp : poolHist o = []) : s'.Matched (h ++ o) := by
  refine ⟨by rw [hl, hx, hm.sessions], ?_, fun k req hmem => hd (hm.late k req ?_)⟩
  · rw [listenerHist_append, Listener.accepted_append, ha, poolHist_append, hp, append_nil, append_nil,
      hm.sockets]
  · rwa [exchangeHist, poolHist_append, hp, append_nil] at hmem

theorem Matched.step (hm : s.Matched h) (hn : s.next f e = some (s', o)) : s'.Matched (h ++ o) := by
  cases (next_serviceStep hn).2.2 with
  | acceptError listener o _ hl =>
      cases Listener.next_listenerStep hl
      exact hm.same rfl rfl id rfl rfl
  | accept socket listener o exchanges o' _ hl hp =>
      have hpool : poolHist (h ++ (o.map .listener ++ o'.map .exchange)) = poolHist h ++ o' := by simp
      have hlist : listenerHist (h ++ (o.map .listener ++ o'.map .exchange)) = listenerHist h ++ o := by
        simp
      cases Listener.next_listenerStep hl
      cases hp
      refine ⟨?_, ?_, fun k req hmem => hm.late k req ?_⟩
      · simp [hm.sessions, Exchange.spawn, Exchange.session, ExchangePlace.session]
      · rw [hlist, hpool, Listener.accepted_append, hm.sockets, Mealy.spawned_append]
        rfl
      · rw [exchangeHist, hpool] at hmem
        simpa [exchangeHist, Exchange.spawn, Mealy.memberHist] using hmem
  | exchange k e listener o exchanges o' _ hf _ hp hl =>
      have hpool : poolHist (h ++ o'.map .exchange) = poolHist h ++ o' := by simp
      have hlist : listenerHist (h ++ o'.map .exchange) = listenerHist h := by simp
      obtain ⟨y, y', hy, hy', rfl, -⟩ := Listener.session_eq_some hl
      cases Mealy.pool_step hp with
      | member _ _ x x' o hk hx =>
          refine ⟨?_, ?_, fun j req hmem => ?_⟩
          · have hxy : y = x.session := by simpa [hm.sessions, hk] using hy.symm
            have hnext := Exchange.next_session hx
            rw [← hxy, hy', Option.some.injEq] at hnext
            simp [hm.sessions, map_set, hnext]
          · rw [hlist, hpool, hm.sockets, Mealy.spawned_append, Mealy.spawned_map_member, append_nil]
          · rw [exchangeHist, hpool, Mealy.memberHist_append, Mealy.memberHist_map_member,
              mem_append] at hmem
            rcases hmem with hmem | hmem
            · exact hm.late j req hmem
            · have he : e = .read true (some req) := by
                refine Exchange.request_mem hx ?_
                split at hmem
                · exact hmem
                · cases hmem
              rw [he] at hf
              simpa [ExchangeEvent.fits] using hf
  | destroy => exact hm.same rfl rfl (fun _ => rfl) rfl rfl
  | terminate => exact hm.same rfl rfl id rfl rfl
  | _ => exact hm.same rfl rfl id rfl rfl

/-! ## The life of the service -/

/-- The context runs from `start` until the handler of the signals has stopped it. -/
structure LifeInv (s : Service ι) (h : List (ServiceEffect ι)) : Prop where
  guarded : s.ctxGuard = false ↔ .stop ∈ h
  stopped : s.context.stopped = true ↔ .stop ∈ h
  started : s.destroyed = false → (s.context.thread.joinable = true ↔ .start ∈ h)
  finished : s.context.thread = .finished → .stop ∈ h
  waiting : .start ∈ h → .stop ∈ h ∨ 0 < s.waits
  left : s.destroyed = true → .start ∉ h ∨ .stop ∈ h

theorem LifeInv.same (hi : s.LifeInv h) (hc : s'.context = s.context) (hg : s'.ctxGuard = s.ctxGuard)
    (hw : s'.waits = s.waits) (hd : s'.destroyed = s.destroyed) (h₁ : .start ∉ o) (h₂ : .stop ∉ o) :
    s'.LifeInv (h ++ o) := by
  have hstart : .start ∈ h ++ o ↔ .start ∈ h := by simp [h₁]
  have hstop : .stop ∈ h ++ o ↔ .stop ∈ h := by simp [h₂]
  refine ⟨?_, ?_, ?_, ?_, ?_, ?_⟩ <;> simp only [hstart, hstop, hc, hg, hw, hd]
  · exact hi.guarded
  · exact hi.stopped
  · exact hi.started
  · exact hi.finished
  · exact hi.waiting
  · exact hi.left

theorem LifeInv.step (hi : s.LifeInv h) (hn : s.next f e = some (s', o)) : s'.LifeInv (h ++ o) := by
  obtain ⟨-, hd, hs⟩ := next_serviceStep hn
  cases hs with
  | start _ =>
      have hstop : .stop ∈ h ++ [ServiceEffect.start (ι := ι)] ↔ .stop ∈ h := by simp
      refine ⟨hi.guarded.trans hstop.symm, hi.stopped.trans hstop.symm, fun _ => ?_, fun hf => ?_,
        fun _ => ?_,
        fun hd' => ?_⟩
      · simp [Service.start, EventLoop.spawn, Thread.joinable]
      · simp [Service.start, EventLoop.spawn] at hf
      · exact Or.inr (Nat.succ_pos _)
      · have hd' : s.destroyed = true := hd'
        rw [hd] at hd'
        cases hd'
  | onSignal htakes _ =>
      have hrun : s.context.thread = .running := by
        simp only [EventLoop.takes, Bool.and_eq_true, decide_eq_true_eq] at htakes
        exact htakes.1
      refine ⟨by simp [Service.onSignal], by simp [Service.onSignal, EventLoop.stop], fun _ => ?_,
        fun _ => by simp, fun _ => by simp, fun _ => by simp⟩
      simpa [Service.onSignal, EventLoop.stop] using hi.started hd
  | quit context hq =>
      -- with the work guard, `run` returns only when it was stopped
      obtain ⟨hrun, hstop⟩ : s.context.thread = .running ∧ .stop ∈ h := by
        unfold EventLoop.quit at hq
        split at hq
        · rename_i hc
          refine ⟨hc.1, hc.2.elim hi.stopped.mp fun hg => hi.guarded.mp (by simpa using hg)⟩
        · cases hq
      have hstart := (hi.started hd).mp (by rw [hrun]; rfl)
      obtain rfl : { s.context with thread := .finished, stopped := true } = context := by
        simpa [EventLoop.quit, hrun, hi.stopped.mpr hstop] using hq
      rw [append_nil]
      exact ⟨hi.guarded, by simp [hstop], fun _ => by simp [Thread.joinable, hstart], fun _ => hstop,
        hi.waiting, hi.left⟩
  | join context _ hj =>
      have hstart : .start ∈ h ++ [ServiceEffect.destroyed (ι := ι)] ↔ .start ∈ h := by simp
      have hstop : .stop ∈ h ++ [ServiceEffect.destroyed (ι := ι)] ↔ .stop ∈ h := by simp
      unfold EventLoop.join at hj
      split at hj
      · cases hj
      · rename_i hrun
        cases hj
        refine ⟨hi.guarded.trans hstop.symm, hi.stopped.trans hstop.symm, fun hf => (by cases hf),
          fun hf => (by cases hf),
          fun hs => ?_, fun _ => ?_⟩
        · rw [hstop]
          exact hi.waiting (hstart.mp hs)
        · rw [hstart, hstop, ← hi.started hd]
          cases ht : s.context.thread with
          | none => exact Or.inl (by simp [Thread.joinable])
          | running => exact absurd ht hrun
          | finished => exact Or.inr (hi.finished ht)
  | acceptError => exact hi.same rfl rfl rfl rfl (by simp) (by simp)
  | accept => exact hi.same rfl rfl rfl rfl (by simp) (by simp)
  | exchange => exact hi.same rfl rfl rfl rfl (by simp) (by simp)
  | _ => exact hi.same rfl rfl rfl rfl (by simp) (by simp)

theorem LifeInv.init : LifeInv (ι := ι) init [] :=
  ⟨by simp [Service.init], by simp [Service.init, EventLoop.init], by simp [Service.init, EventLoop.init,
    Thread.joinable], by simp [Service.init, EventLoop.init], by simp, by simp [Service.init]⟩

theorem run_lifeInv (hr : (machine ι f).Run G init [] s h) : s.LifeInv h :=
  hr.invariant .init fun _ _ _ _ _ hi _ hn => hi.step hn

theorem run_matched (hr : (machine ι f).Run G init [] s h) : s.Matched h :=
  hr.invariant ⟨rfl, rfl, fun k req hm => by simp [exchangeHist, poolHist, Mealy.memberHist] at hm⟩
    fun _ _ _ _ _ hm _ hn => hm.step hn

/-! ## Runs -/

/-- A service that answers 200 with the body of the request. -/
def echo : Handlers where
  derived _ req := some ⟨200, req.version, req.body⟩
  base _ _ := none

/-- Two clients come; the second one is answered first. Then the destructor begins, and a signal comes. -/
def twoClients : List (ServiceEvent Nat) :=
  [.start true, .accept (some 0), .exchange 0 .start, .accept (some 1), .exchange 1 .start,
    .exchange 1 (.read false (some ⟨.get, "/", 11, [7]⟩)), .exchange 1 (.write true false),
    .exchange 0 (.read false (some ⟨.patch, "/", 11, [8]⟩)), .destroy, .exchange 0 (.write true false),
    .signal]

def served : Service Nat × List (ServiceEffect Nat) :=
  ((machine Nat echo).exec Mealy.free init [] twoClients).get (by decide +kernel)

theorem served_run : (machine Nat echo).Run Mealy.free init [] served.1 served.2 := .of_isSome _ _

/-- In every run of the service, whatever clients come and however their sessions take turns: there is
one session for each socket accepted; it reads one request, answers it by the handler of its verb, writes
this answer and nothing else, and shuts the socket down when all of it is written; as long as the
destructor has not begun, the answer is that of the derived class. -/
theorem exchange_spec (hr : (machine ι f).Run G init [] s h) :
    Listener.accepted (listenerHist h) = s.exchanges.map (·.socket) ∧
    ∀ k x, s.exchanges[k]? = some x → Exchange.Transcript f x.socket x (exchangeHist k h) ∧
      s.listener.sessions[k]? = some x.session ∧
      (s.destroying = false → ∀ destroying req, .request destroying req ∈ exchangeHist k h →
        handler f destroying req = f.derived req.method req) := by
  have hm := run_matched hr
  have hpool := run_pool hr
  have htranscript {k : Nat} {x : Exchange ι} (hk : s.exchanges[k]? = some x) :
      (Mealy.spawned (poolHist h))[k]? = some x.socket ∧
        Exchange.Transcript f x.socket x (exchangeHist k h) := by
    obtain ⟨socket, hsocket, ht⟩ := hpool.pool_invariant (P := Exchange.Transcript f)
      (fun _ => .spawned) (fun _ _ _ _ _ _ ht hn => ht.step hn) hk
    rw [ht.socket_eq]
    exact ⟨hsocket, ht⟩
  refine ⟨?_, fun k x hk => ⟨(htranscript hk).2, ?_, fun hd destroying req hreq => ?_⟩⟩
  · rw [hm.sockets]
    refine ext_getElem? fun k => ?_
    rw [getElem?_map]
    cases hk : s.exchanges[k]? with
    | none =>
        rw [getElem?_eq_none_iff] at hk
        exact getElem?_eq_none (by rw [hpool.poolInv.length]; exact hk)
    | some x => exact (htranscript hk).1
  · rw [hm.sessions, getElem?_map, hk]
    rfl
  · cases destroying with
    | true => rw [hm.late k req hreq] at hd; cases hd
    | false => rfl

theorem exchange_spec_served : Listener.accepted (listenerHist served.2) = [0, 1] ∧
    Exchange.Transcript echo 1 ⟨1, .returned⟩ (exchangeHist 1 served.2) :=
  ⟨by decide +kernel, ((exchange_spec served_run).2 1 ⟨1, .returned⟩ (by decide +kernel)).1⟩

/-- No thread was assigned over or destroyed, and no pure virtual function was called. -/
def Alive (s : Service ι) (_ : List (ServiceEffect ι)) : Prop := s.alive = true

/-- The service is started once, and no request for a pure virtual function is read when the destructor
has begun. -/
def Careful (_ : Service ι) (h : List (ServiceEffect ι)) : ServiceEvent ι → Prop
  | .start true => .start ∉ h
  | .exchange _ e => e.callsPure = false
  | _ => True

/-- A run keeps the process alive if and only if it starts the service once at most, and reads no request
for a pure virtual function once the destructor has begun. -/
theorem alive_iff (es : List (ServiceEvent ι)) :
    (machine ι f).Always Alive init [] es ↔ (machine ι f).Along Careful init [] es := by
  refine Mealy.always_iff_along (I := LifeInv) (fun _ _ _ _ _ hi hn => hi.step hn) ?_ es .init rfl
  intro s h e s' o hi ha hn
  obtain ⟨-, hd, hs⟩ := next_serviceStep hn
  simp only [Alive, alive, Bool.and_eq_true, Bool.not_eq_true'] at ha ⊢
  cases hs with
  | start _ =>
      show (s.context.aborted || s.context.thread.joinable) = false ∧ s.terminated = false ↔ .start ∉ h
      rw [← hi.started hd, ha.1, ha.2]
      simp
  | exchange k e _ _ _ _ _ _ hpure => exact iff_of_true ha hpure
  | terminate k e _ _ hpure => exact iff_of_false (by simp) (by simp [Careful, hpure])
  | quit context hq =>
      refine iff_of_true ⟨?_, ha.2⟩ trivial
      rw [(EventLoop.quit_spec hq).2.2]
      exact ha.1
  | join context _ hj =>
      refine iff_of_true ⟨?_, ha.2⟩ trivial
      rw [(EventLoop.join_spec hj).2]
      exact ha.1
  | _ => exact iff_of_true ha trivial

/-- A request comes while the destructor waits. -/
example : ¬ (machine Nat echo).Always Alive init [] [.start true, .accept (some 0), .exchange 0 .start,
    .destroy, .exchange 0 (.read true (some ⟨.get, "/", 11, []⟩))] := by
  intro ha
  have hs : alive _ = true := ha.of_isSome _ (by decide +kernel)
  exact absurd hs (by decide +kernel)

/-! ## Until a signal comes -/

theorem takes_iff (hr : (machine ι f).Run G init [] s h) (hd : s.destroyed = false) :
    s.context.takes = true ↔ .start ∈ h ∧ .stop ∉ h := by
  have hi := run_lifeInv hr
  have hstart := hi.started hd
  have hstop := hi.stopped
  have hfin := hi.finished
  cases ht : s.context.thread with
  | none => simp_all [EventLoop.takes, Thread.joinable]
  | finished => simp_all [EventLoop.takes, Thread.joinable]
  | running => simp_all [EventLoop.takes, Thread.joinable, ← Bool.not_eq_true]

/-- While the process is alive and the destructor has not returned, the context takes what comes for the
sessions and the listener, and the signal, exactly from `start` until a signal was handled. -/
theorem serves_iff (hr : (machine ι f).Run G init [] s h) (ha : s.alive = true)
    (hd : s.destroyed = false) :
    (∀ k x e, s.exchanges[k]? = some x → (x.next f e).isSome = true → e.fits s.destroying = true →
      ((s.next f (.exchange k e)).isSome = true ↔ .start ∈ h ∧ .stop ∉ h)) ∧
    (s.listener.accepts ≠ 0 → ∀ outcome,
      ((s.next f (.accept outcome)).isSome = true ↔ .start ∈ h ∧ .stop ∉ h)) ∧
    (s.signalled = true → ((s.next f .onSignal).isSome = true ↔ .start ∈ h ∧ .stop ∉ h)) := by
  have htakes := takes_iff hr hd
  have hm := run_matched hr
  refine ⟨fun k x e hk hx hfits => ?_, fun hacc outcome => ?_, fun hsig => ?_⟩ <;> rw [← htakes]
  · obtain ⟨⟨x', o⟩, hx⟩ := Option.isSome_iff_exists.mp hx
    have hl : s.listener.sessions[k]? = some x.session := by
      rw [hm.sessions, getElem?_map, hk]
      rfl
    cases ht : s.context.takes with
    | false => simp [next, ht]
    | true =>
        by_cases hpure : e.callsPure = true <;>
          simp [next, ha, hd, ht, hfits, exchange, pool, Mealy.pool, Exchange.machine, hk, hx, hpure,
            Listener.next, hl, Exchange.next_session hx]
  · cases ht : s.context.takes with
    | false => simp [next, ht]
    | true =>
        cases outcome <;> simp [next, ha, hd, ht, accept, Listener.next, hacc, Listener.coAccept, pool,
          Mealy.pool]
  · cases ht : s.context.takes with
    | false => simp [next, ht]
    | true =>
        obtain ⟨hstart, hstop⟩ := htakes.mp ht
        have hwaits := ((run_lifeInv hr).waiting hstart).resolve_left hstop
        simp [next, ha, hd, ht, hsig, hwaits]

theorem serves_iff_served : (served.1.next echo (.accept (some 2))).isSome = true ↔
    .start ∈ served.2 ∧ .stop ∉ served.2 :=
  (serves_iff served_run (by decide +kernel) (by decide +kernel)).2.1 (by decide +kernel) (some 2)

/-- The destructor returns only when the service was never started or a signal was handled; and then it
does return, when the context thread and it go on. -/
theorem destructor_spec (hr : (machine ι f).Run G init [] s h) :
    (s.destroyed = true → .start ∉ h ∨ .stop ∈ h) ∧
    (s.alive = true → s.destroying = true → s.destroyed = false → .start ∉ h ∨ .stop ∈ h →
      ∃ es s' h', (∀ e ∈ es, e = .quit ∨ e = .join) ∧
        (machine ι f).exec Mealy.free s h es = some (s', h') ∧ s'.destroyed = true) := by
  have hi := run_lifeInv hr
  refine ⟨hi.left, fun ha hdest hd hgone => ?_⟩
  -- the thread can be joined
  have joins {s : Service ι} {h} (ha : s.alive = true) (hdest : s.destroying = true)
      (hd : s.destroyed = false) (hrun : s.context.thread ≠ .running) :
      (machine ι f).exec Mealy.free s h [.join] =
        some ({ s with context := { s.context with thread := .none }, destroyed := true },
          h ++ [.destroyed]) := by
    simp [Mealy.exec, machine, next, ha, hdest, hd, EventLoop.join, hrun]
  by_cases hrun : s.context.thread = .running
  · have hstop : .stop ∈ h := by
      refine hgone.resolve_left fun hn => hn ((hi.started hd).mp ?_)
      rw [hrun]
      rfl
    have hquit : (machine ι f).next s .quit =
        some ({ s with context := { s.context with thread := .finished, stopped := true } }, []) := by
      simp [machine, next, ha, hd, EventLoop.quit, hrun, hi.stopped.mpr hstop]
    have hexec : (machine ι f).exec Mealy.free s h [.quit, .join] = (machine ι f).exec Mealy.free
        { s with context := { s.context with thread := .finished, stopped := true } } (h ++ [])
        [.join] := by
      simp only [Mealy.exec, if_true, hquit]
    exact ⟨[.quit, .join], _, _, by simp, hexec.trans (joins ha hdest hd (by simp)), rfl⟩
  · exact ⟨[.join], _, _, by simp, joins ha hdest hd hrun, rfl⟩

def stopped : Service Nat × List (ServiceEffect Nat) :=
  ((machine Nat echo).exec Mealy.free init [] (twoClients ++ [.onSignal])).get (by decide +kernel)

theorem destructor_spec_stopped : ∃ es s' h', (∀ e ∈ es, e = .quit ∨ e = .join) ∧
    (machine Nat echo).exec Mealy.free stopped.1 stopped.2 es = some (s', h') ∧ s'.destroyed = true :=
  (destructor_spec (.of_isSome _ _ : (machine Nat echo).Run Mealy.free init [] stopped.1 stopped.2)).2
    (by decide +kernel) (by decide +kernel) (by decide +kernel) (Or.inr (by decide +kernel))

end Service

end Rest

end AsioNetworking

import AsioNetworking.Lib.EventLoop
import AsioNetworking.Lib.Mealy
import Mathlib.Data.PNat.Defs

/-!
# The websocket client (`wss_client_interface.hpp`, `wss_session.hpp`)

The user's thread calls `Open`, `Close` and `SetThreadCount` and destroys the client in the end; the
threads in `m_tvThreads` run the context. `Open` and `Close` are taken apart: the threads that `Open`
has created run the session already while it creates the next ones.
-/

namespace AsioNetworking

namespace Wss

open List

/-- The handler that a session waits for. -/
inductive Session where
  | onResolve | onConnect | onSSLHandshake | onHandshake | onWrite | onRead
  /-- A handler has failed and has started nothing. -/
  | failed
  deriving DecidableEq

inductive Place where
  | outside
  /-- In the loop of `Open`, with this `i`. -/
  | creating (i : Nat)
  /-- At the `join`s of `Close`. -/
  | joining
  | destroyed
  deriving DecidableEq

structure ClientInterface where
  bOpenSocket : Bool
  nThreadCount : ℕ+
  tvThreads : List Thread
  /-- The sessions that were run on the context. -/
  sessions : List Session
  /-- The context is stopped. -/
  stopped : Bool
  /-- A joinable thread was destroyed. -/
  aborted : Bool
  place : Place
  deriving DecidableEq

inductive ClientInterfaceEvent where
  /-- The call of `Open`; the session can be made and run, or that throws. -/
  | openSocket (runs : Bool)
  /-- The user's thread goes on in `Open` or `Close`. -/
  | goOn
  /-- `emplace_back` throws in `Open`. -/
  | noThread
  | close
  | setThreadCount (tc : ℕ+)
  | destroy
  /-- The handler of a session runs. -/
  | session (k : Nat) (ok : Bool)
  | outOfWork
  /-- `m_oAsioContext.run()` returns on a thread. -/
  | quit (k : Nat)
  deriving DecidableEq

inductive ClientInterfaceEffect where
  /-- `Open` has made a new session and returns with the client open. -/
  | opened (c : ClientInterface)
  | close
  | outOfWork
  deriving DecidableEq

/-- What a handler that does not fail starts. -/
def Session.next : Session → Session
  | .onResolve => .onConnect
  | .onConnect => .onSSLHandshake
  | .onSSLHandshake => .onHandshake
  | .onHandshake => .onWrite
  | .onWrite | .onRead => .onRead
  | .failed => .failed

namespace ClientInterface

def init : ClientInterface := ⟨false, 3, [], [], false, false, .outside⟩

def isOpen (c : ClientInterface) : Bool := c.bOpenSocket

def clear (c : ClientInterface) : ClientInterface :=
  { c with tvThreads := [], aborted := c.aborted || c.tvThreads.any Thread.joinable }

def setThreadCount (tc : ℕ+) (c : ClientInterface) : ClientInterface :=
  if c.isOpen then c else clear { c with nThreadCount := tc }

/-- `Open`, up to its loop. -/
def openSocket (runs : Bool) (c : ClientInterface) : ClientInterface :=
  if c.bOpenSocket || !runs then c
  else { c with sessions := c.sessions ++ [.onResolve], place := .creating 0 }

/-- The next statement of `Open` or `Close`. -/
def goOn (c : ClientInterface) : Option (ClientInterface × List ClientInterfaceEffect) :=
  match c.place with
  | .creating i =>
      if i < c.nThreadCount then
        some ({ c with tvThreads := c.tvThreads ++ [.running], place := .creating (i + 1) }, [])
      else
        let c := { c with bOpenSocket := true, place := .outside }
        some (c, [.opened c])
  | .joining =>
      if c.tvThreads.all (· ≠ .running) then
        some ({ c with
          tvThreads := c.tvThreads.map fun _ => .none
          bOpenSocket := false
          place := .outside }, [])
      else none
  | _ => none

/-- `catch` in `Open`: the threads that were created stay. -/
def noThread (c : ClientInterface) : Option (ClientInterface × List ClientInterfaceEffect) :=
  match c.place with
  | .creating i => if i < c.nThreadCount then some ({ c with place := .outside }, []) else none
  | _ => none

def takes (c : ClientInterface) : Bool := c.tvThreads.any (· = .running) && !c.stopped

def onSession (k : Nat) (ok : Bool) (c : ClientInterface) :
    Option (ClientInterface × List ClientInterfaceEffect) :=
  match c.sessions[k]? with
  | none => none
  | some s =>
      if c.takes ∧ s ≠ .failed then
        some ({ c with sessions := c.sessions.set k (if ok then s.next else .failed) }, [])
      else none

def outOfWork (c : ClientInterface) : Option (ClientInterface × List ClientInterfaceEffect) :=
  if c.takes ∧ c.sessions.all (· = .failed) then some ({ c with stopped := true }, [.outOfWork])
  else none

def quit (k : Nat) (c : ClientInterface) : Option (ClientInterface × List ClientInterfaceEffect) :=
  if c.stopped ∧ c.tvThreads[k]? = some .running then
    some ({ c with tvThreads := c.tvThreads.set k .finished }, [])
  else none

def next (c : ClientInterface) (e : ClientInterfaceEvent) :
    Option (ClientInterface × List ClientInterfaceEffect) :=
  if c.aborted then none
  else
    match e with
    | .openSocket runs => if c.place = .outside then some (c.openSocket runs, []) else none
    | .goOn => c.goOn
    | .noThread => c.noThread
    | .close =>
        if c.place = .outside then some ({ c with stopped := true, place := .joining }, [.close])
        else none
    | .setThreadCount tc => if c.place = .outside then some (c.setThreadCount tc, []) else none
    | .destroy => if c.place = .outside then some ({ c.clear with place := .destroyed }, []) else none
    | .session k ok => c.onSession k ok
    | .outOfWork => c.outOfWork
    | .quit k => c.quit k

def machine : Mealy ClientInterface ClientInterfaceEvent ClientInterfaceEffect := ⟨next⟩

/-! ## Steps -/

inductive ClientInterfaceStep (c : ClientInterface) :
    ClientInterfaceEvent → ClientInterface → List ClientInterfaceEffect → Prop where
  | refused (runs) : c.place = .outside → ClientInterfaceStep c (.openSocket runs) c []
  | run : c.place = .outside → c.bOpenSocket = false → ClientInterfaceStep c (.openSocket true)
      { c with sessions := c.sessions ++ [.onResolve], place := .creating 0 } []
  | create (i) : c.place = .creating i → i < c.nThreadCount → ClientInterfaceStep c .goOn
      { c with tvThreads := c.tvThreads ++ [.running], place := .creating (i + 1) } []
  | opened (i) : c.place = .creating i → c.nThreadCount ≤ i → ClientInterfaceStep c .goOn
      { c with bOpenSocket := true, place := .outside }
      [.opened { c with bOpenSocket := true, place := .outside }]
  | noThread (i) : c.place = .creating i → i < c.nThreadCount →
      ClientInterfaceStep c .noThread { c with place := .outside } []
  | close : c.place = .outside →
      ClientInterfaceStep c .close { c with stopped := true, place := .joining } [.close]
  | join : c.place = .joining → (∀ t ∈ c.tvThreads, t ≠ .running) →
      ClientInterfaceStep c .goOn { c with
        tvThreads := c.tvThreads.map fun _ => .none
        bOpenSocket := false
        place := .outside } []
  | busy (tc) : c.place = .outside → c.bOpenSocket = true →
      ClientInterfaceStep c (.setThreadCount tc) c []
  | setThreadCount (tc) : c.place = .outside → c.bOpenSocket = false →
      ClientInterfaceStep c (.setThreadCount tc) (clear { c with nThreadCount := tc }) []
  | destroy : c.place = .outside →
      ClientInterfaceStep c .destroy { c.clear with place := .destroyed } []
  | session (k ok sessions) : ClientInterfaceStep c (.session k ok) { c with sessions } []
  | outOfWork : ClientInterfaceStep c .outOfWork { c with stopped := true } [.outOfWork]
  | quit (k) : c.stopped = true → c.tvThreads[k]? = some .running →
      ClientInterfaceStep c (.quit k) { c with tvThreads := c.tvThreads.set k .finished } []

theorem next_clientInterfaceStep {c c' : ClientInterface} {e o} (hn : c.next e = some (c', o)) :
    c.aborted = false ∧ ClientInterfaceStep c e c' o := by
  unfold next at hn
  split at hn
  · cases hn
  · rename_i ha
    refine ⟨by simpa using ha, ?_⟩
    cases e with
    | openSocket runs =>
        simp only [openSocket] at hn
        split at hn
        · rename_i hp
          split at hn
          · cases hn; exact .refused runs hp
          · rename_i hrun
            simp only [Bool.or_eq_true, Bool.not_eq_true', not_or, Bool.not_eq_true,
              Bool.not_eq_false] at hrun
            obtain ⟨hclosed, rfl⟩ := hrun
            cases hn
            exact .run hp hclosed
        · cases hn
    | goOn =>
        simp only [goOn] at hn
        split at hn
        · rename_i i hp
          split at hn
          · rename_i hi
            cases hn
            exact .create i hp hi
          · rename_i hi
            cases hn
            exact .opened i hp (not_lt.mp hi)
        · rename_i hp
          split at hn
          · rename_i hall
            cases hn
            exact .join hp (by simpa using hall)
          · cases hn
        · cases hn
    | noThread =>
        simp only [noThread] at hn
        split at hn
        · rename_i i hp
          split at hn
          · rename_i hi
            cases hn
            exact .noThread i hp hi
          · cases hn
        · cases hn
    | close =>
        simp only at hn
        split at hn <;> cases hn
        rename_i hp
        exact .close hp
    | setThreadCount tc =>
        simp only at hn
        split at hn
        · rename_i hp
          obtain ⟨rfl, rfl⟩ := Prod.ext_iff.mp (Option.some.inj hn)
          cases hb : c.bOpenSocket with
          | true => simpa [setThreadCount, isOpen, hb] using ClientInterfaceStep.busy tc hp hb
          | false =>
              simpa [setThreadCount, isOpen, hb] using ClientInterfaceStep.setThreadCount tc hp hb
        · cases hn
    | destroy =>
        simp only at hn
        split at hn <;> cases hn
        rename_i hp
        exact .destroy hp
    | session k ok =>
        simp only [onSession] at hn
        split at hn
        · cases hn
        · split at hn <;> cases hn
          exact .session k ok _
    | outOfWork =>
        simp only [outOfWork] at hn
        split at hn <;> cases hn
        exact .outOfWork
    | quit k =>
        simp only [quit] at hn
        split at hn <;> cases hn
        rename_i hq
        exact .quit k hq.1 hq.2

/-! ## The threads -/

/-- The threads that an `Open` under way has not created. -/
def settled (c : ClientInterface) : List Thread :=
  match c.place with
  | .creating i => c.tvThreads.take (c.tvThreads.length - i)
  | _ => c.tvThreads

/-- The context is not stopped, and exactly `m_nThreadCount` new threads run it. -/
def Served (c : ClientInterface) : Prop :=
  c.stopped = false ∧ ∃ old : List Thread, (∀ t ∈ old, t.joinable = false) ∧
    c.tvThreads = old ++ replicate c.nThreadCount .running

/-- The last `n` threads are joinable, and they run the context until it is stopped. -/
def Young (n : Nat) (c : ClientInterface) : Prop :=
  ∃ old new : List Thread, c.tvThreads = old ++ new ∧ new.length = n ∧
    ∀ t ∈ new, t.joinable = true ∧ (c.stopped = false → t = .running)

variable {c c' : ClientInterface} {n : Nat}

/-- The handlers of a new session are executed. -/
theorem Served.session_isSome {s : Session} {k} (hs : c.Served) (ha : c.aborted = false)
    (hk : c.sessions[k]? = some s) (hne : s ≠ .failed) (ok : Bool) :
    (c.next (.session k ok)).isSome = true := by
  obtain ⟨hrun, old, -, hthreads⟩ := hs
  have htakes : c.takes = true := by simp [takes, hrun, hthreads]
  simp [next, ha, onSession, hk, htakes, hne]

/-- As long as an `Open` is under way, the threads are the settled ones and those it has created. -/
theorem Young.settled_eq (hy : c.Young n) (hp : c.place = .creating n) :
    ∃ new : List Thread, c.tvThreads = c.settled ++ new ∧ new.length = n ∧
      ∀ t ∈ new, t.joinable = true ∧ (c.stopped = false → t = .running) := by
  obtain ⟨old, new, ht, hlen, hnew⟩ := hy
  have hold : c.settled = old := by
    have hm : c.tvThreads.length - n = old.length := by simp [ht, hlen]
    simp only [settled, hp]
    rw [hm, ht, take_left]
  exact ⟨new, by rw [hold, ht], hlen, hnew⟩

theorem Young.zero : c.Young 0 := ⟨c.tvThreads, [], by simp⟩

theorem settled_create {i} (hp : c.place = .creating i) (hy : c.Young i) :
    settled { c with tvThreads := c.tvThreads ++ [.running], place := .creating (i + 1) } =
      c.settled := by
  obtain ⟨new, ht, hlen, -⟩ := hy.settled_eq hp
  have hm : (c.tvThreads ++ [Thread.running]).length - (i + 1) = c.settled.length := by
    rw [ht]
    simp [hlen]
  change (c.tvThreads ++ [Thread.running]).take
    ((c.tvThreads ++ [Thread.running]).length - (i + 1)) = c.settled
  rw [hm, ht, append_assoc, take_left]

/-- A running thread that finishes is not a settled one. -/
theorem settled_quit {k} (hk : c.tvThreads[k]? = some .running)
    (hj : ∀ t ∈ c.settled, t.joinable = false) :
    settled { c with tvThreads := c.tvThreads.set k .finished } = c.settled := by
  have hnot (m : Nat) (hj : ∀ t ∈ c.tvThreads.take m, t.joinable = false) :
      (c.tvThreads.set k .finished).take m = c.tvThreads.take m := by
    refine take_set_of_le (not_lt.mp fun hlt => ?_)
    have hmem : Thread.running ∈ c.tvThreads.take m :=
      mem_of_getElem? (i := k) (by rw [getElem?_take_of_lt hlt, hk])
    cases hj _ hmem
  have hall (hj : ∀ t ∈ c.tvThreads, t.joinable = false) :
      c.tvThreads.set k .finished = c.tvThreads := by
    have htake := hnot c.tvThreads.length (by simpa using hj)
    rwa [take_length, take_of_length_le (by simp)] at htake
  cases hp : c.place <;> simp only [settled, hp, length_set] at hj ⊢
  case creating i => exact hnot _ hj
  all_goals exact hall hj

theorem Young.create (hy : c.Young n) (place : Place) :
    Young (n + 1) { c with tvThreads := c.tvThreads ++ [.running], place } := by
  obtain ⟨old, new, ht, hlen, hnew⟩ := hy
  refine ⟨old, new ++ [.running], by simp [ht], by simp [hlen], fun t hm => ?_⟩
  rcases mem_append.mp hm with hm | hm
  · exact hnew t hm
  · rw [mem_singleton.mp hm]
    exact ⟨rfl, fun _ => rfl⟩

theorem Young.quit {k} (hy : c.Young n) (hstop : c.stopped = true) :
    Young n { c with tvThreads := c.tvThreads.set k .finished } := by
  obtain ⟨old, new, ht, hlen, hnew⟩ := hy
  have hnot {t} : c.stopped = false → t = Thread.running := by simp [hstop]
  by_cases hk : k < old.length
  · refine ⟨old.set k .finished, new, ?_, hlen, hnew⟩
    simp only [ht, set_append_left k Thread.finished hk]
  · refine ⟨old, new.set (k - old.length) .finished, ?_, by simpa using hlen, fun t hm => ?_⟩
    · simp only [ht, set_append_right k Thread.finished (not_lt.mp hk)]
    · rcases mem_or_eq_of_mem_set hm with hm | rfl
      · exact hnew t hm
      · exact ⟨rfl, hnot⟩

theorem Young.stop (hy : c.Young n) (place : Place) : Young n { c with stopped := true, place } := by
  obtain ⟨old, new, ht, hlen, hnew⟩ := hy
  exact ⟨old, new, ht, hlen, fun t hm => ⟨(hnew t hm).1, by simp⟩⟩

/-! ## Runs -/

/-- While the client is not open, only threads that an `Open` under way has created are joinable; no
joinable thread was destroyed; and each `Open` that has opened the client left its session served. -/
structure Sound (c : ClientInterface) (h : List ClientInterfaceEffect) : Prop where
  joined : c.isOpen = false → ∀ t ∈ c.settled, t.joinable = false
  alive : c.aborted = false
  served : ∀ c', .opened c' ∈ h → c'.Served

/-- The last step of an `Open` comes before any `Close`, with work left for the context; no exception
is thrown in the loop of an `Open` but for its first thread; and the client is closed before it is
destroyed. -/
def Tidy (c : ClientInterface) (h : List ClientInterfaceEffect) : ClientInterfaceEvent → Prop
  | .goOn => c.place = .creating c.nThreadCount → .close ∉ h ∧ .outOfWork ∉ h
  | .noThread => c.place = .creating 0
  | .destroy => c.isOpen = false
  | _ => True

structure PoolInv (c : ClientInterface) (h : List ClientInterfaceEffect) : Prop where
  stopped : c.stopped = true ↔ .close ∈ h ∨ .outOfWork ∈ h
  creating : ∀ i, c.place = .creating i → c.isOpen = false ∧ i ≤ c.nThreadCount ∧ c.Young i
  opened : c.isOpen = true → c.place ≠ .destroyed → c.Young c.nThreadCount

variable {h : List ClientInterfaceEffect} {e : ClientInterfaceEvent} {o : List ClientInterfaceEffect}

theorem PoolInv.not_stopping (hi : PoolInv c h) (hc : c'.stopped = c.stopped) (h₁ : .close ∉ o)
    (h₂ : .outOfWork ∉ o) : c'.stopped = true ↔ .close ∈ h ++ o ∨ .outOfWork ∈ h ++ o := by
  rw [hc, hi.stopped]
  simp [h₁, h₂]

theorem PoolInv.step (hi : PoolInv c h) (hs : ClientInterfaceStep c e c' o) :
    PoolInv c' (h ++ o) := by
  cases hs with
  | refused runs hp => simpa using hi
  | run hp hb =>
      refine ⟨hi.not_stopping rfl (by simp) (by simp), fun i hp' => ?_, fun hopen => ?_⟩
      · cases hp'
        exact ⟨hb, Nat.zero_le _, .zero⟩
      · exact absurd hopen (by simpa [isOpen] using hb)
  | create i hp hlt =>
      obtain ⟨hb, -, hy⟩ := hi.creating i hp
      refine ⟨hi.not_stopping rfl (by simp) (by simp), fun j hp' => ?_, fun hopen => ?_⟩
      · cases hp'
        exact ⟨hb, hlt, hy.create _⟩
      · exact absurd hopen (by simpa [isOpen] using hb)
  | opened i hp hle =>
      obtain ⟨-, hle', hy⟩ := hi.creating i hp
      refine ⟨hi.not_stopping rfl (by simp) (by simp), fun j hp' => (by cases hp'), fun _ _ => ?_⟩
      rw [← le_antisymm hle' hle]
      exact hy
  | noThread i hp hlt =>
      obtain ⟨hb, -, -⟩ := hi.creating i hp
      refine ⟨hi.not_stopping rfl (by simp) (by simp), fun j hp' => (by cases hp'), fun hopen => ?_⟩
      exact absurd hopen (by simpa [isOpen] using hb)
  | close hp =>
      refine ⟨by simp, fun j hp' => (by cases hp'), fun hopen _ => ?_⟩
      exact (hi.opened hopen (by simp [hp])).stop _
  | join hp _ =>
      exact ⟨hi.not_stopping rfl (by simp) (by simp), fun j hp' => (by cases hp'),
        fun hopen => (by cases hopen)⟩
  | busy tc hp hb => simpa using hi
  | setThreadCount tc hp hb =>
      refine ⟨hi.not_stopping rfl (by simp) (by simp), fun j hp' => ?_, fun hopen => ?_⟩
      · rw [show (clear { c with nThreadCount := tc }).place = c.place from rfl, hp] at hp'
        cases hp'
      · exact absurd hopen (by simpa [isOpen, clear] using hb)
  | destroy hp =>
      exact ⟨hi.not_stopping rfl (by simp) (by simp), fun j hp' => (by cases hp'),
        fun _ hne => absurd rfl hne⟩
  | session k ok sessions =>
      exact ⟨hi.not_stopping rfl (by simp) (by simp), hi.creating, hi.opened⟩
  | outOfWork =>
      refine ⟨by simp, fun i hp => ?_, fun hopen hne => (hi.opened hopen hne).stop _⟩
      obtain ⟨hb, hle, hy⟩ := hi.creating i hp
      exact ⟨hb, hle, hy.stop _⟩
  | quit k hstop hk =>
      refine ⟨hi.not_stopping rfl (by simp) (by simp), fun i hp => ?_,
        fun hopen hne => (hi.opened hopen hne).quit hstop⟩
      obtain ⟨hb, hle, hy⟩ := hi.creating i hp
      exact ⟨hb, hle, hy.quit hstop⟩

theorem Sound.congr (hp : Sound c h) (hj : c'.isOpen = false → ∀ t ∈ c'.settled, t.joinable = false)
    (ha : c'.aborted = false) (ho : ∀ c', .opened c' ∉ o) : Sound c' (h ++ o) :=
  ⟨hj, ha, fun c' hm => (mem_append.mp hm).elim (hp.served c') fun hm => absurd hm (ho c')⟩

theorem settled_outside (hp : c.place = .outside) : c.settled = c.tvThreads := by simp [settled, hp]

theorem aborted_clear (ha : c.aborted = false) (hj : ∀ t ∈ c.tvThreads, t.joinable = false) :
    c.clear.aborted = false := by
  simpa [clear, ha] using hj

theorem sound_step (hi : PoolInv c h) (hp : Sound c h) (hs : ClientInterfaceStep c e c' o) :
    Sound c' (h ++ o) ↔ Tidy c h e := by
  cases hs with
  | refused runs hout => exact iff_of_true (by simpa using hp) trivial
  | run hout hb =>
      refine iff_of_true (hp.congr (fun _ => ?_) hp.alive (by simp)) trivial
      have := hp.joined hb
      simpa [settled, hout] using this
  | create i hplace hlt =>
      obtain ⟨hb, -, hy⟩ := hi.creating i hplace
      refine iff_of_true (hp.congr (fun _ => ?_) hp.alive (by simp)) fun heq => ?_
      · rw [settled_create hplace hy]
        exact hp.joined hb
      · rw [hplace, Place.creating.injEq] at heq
        omega
  | opened i hplace hle =>
      obtain ⟨hb, hle', hy⟩ := hi.creating i hplace
      obtain rfl := le_antisymm hle' hle
      obtain ⟨new, ht, hlen, hnew⟩ := hy.settled_eq hplace
      have hserved : Served { c with bOpenSocket := true, place := .outside } ↔
          .close ∉ h ∧ .outOfWork ∉ h := by
        rw [← not_or, ← hi.stopped, Bool.not_eq_true]
        refine ⟨And.left, fun hrun => ⟨hrun, c.settled, hp.joined hb, ?_⟩⟩
        simp only [ht]
        rw [eq_replicate_of_mem fun t hm => (hnew t hm).2 hrun, hlen]
      constructor
      · intro hp' _
        exact hserved.mp (hp'.served _ (by simp))
      · intro hg
        refine ⟨fun hclosed => (by cases hclosed), hp.alive, fun c' hm => ?_⟩
        rcases mem_append.mp hm with hm | hm
        · exact hp.served c' hm
        · cases mem_singleton.mp hm
          exact hserved.mpr (hg hplace)
  | noThread i hplace hlt =>
      obtain ⟨hb, -, hy⟩ := hi.creating i hplace
      obtain ⟨new, ht, hlen, hnew⟩ := hy.settled_eq hplace
      constructor
      · intro hp'
        have hj : ∀ t ∈ c.tvThreads, t.joinable = false := hp'.joined hb
        cases new with
        | nil => exact hplace.trans (by rw [← hlen]; rfl)
        | cons t _ =>
            have := hj t (by simp [ht])
            rw [(hnew t mem_cons_self).1] at this
            cases this
      · intro hz
        refine hp.congr (fun _ => ?_) hp.alive (by simp)
        have := hp.joined hb
        have hz : c.place = .creating 0 := hz
        simpa [settled, hz] using this
  | close hout =>
      refine iff_of_true (hp.congr (fun hclosed => ?_) hp.alive (by simp)) trivial
      have := hp.joined hclosed
      simpa [settled, hout] using this
  | join hplace _ =>
      refine iff_of_true (hp.congr (fun _ t hm => ?_) hp.alive (by simp)) fun heq => ?_
      · obtain ⟨_, -, rfl⟩ := mem_map.mp hm
        rfl
      · rw [hplace] at heq
        cases heq
  | busy tc hout hb => exact iff_of_true (by simpa using hp) trivial
  | setThreadCount tc hout hb =>
      have hj := hp.joined hb
      rw [settled_outside hout] at hj
      refine iff_of_true (hp.congr (fun _ t hm => ?_) (aborted_clear hp.alive hj) (by simp)) trivial
      simp [settled, clear, hout] at hm
  | destroy hout =>
      constructor
      · intro hp'
        by_contra hopen
        have hopen : c.isOpen = true := by simpa [Tidy] using hopen
        obtain ⟨old, new, ht, hlen, hnew⟩ := hi.opened hopen (by simp [hout])
        have hdead : c.clear.aborted = false := hp'.alive
        cases new with
        | nil => exact c.nThreadCount.ne_zero hlen.symm
        | cons t _ =>
            have := (hnew t mem_cons_self).1
            simp [clear, ht, this] at hdead
      · intro hclosed
        have hj := hp.joined hclosed
        rw [settled_outside hout] at hj
        refine hp.congr (fun _ t hm => ?_) (aborted_clear hp.alive hj) (by simp)
        simp [settled, clear] at hm
  | session k ok sessions => exact iff_of_true (hp.congr hp.joined hp.alive (by simp)) trivial
  | outOfWork => exact iff_of_true (hp.congr hp.joined hp.alive (by simp)) trivial
  | quit k hstop hk =>
      refine iff_of_true (hp.congr (fun hclosed => ?_) hp.alive (by simp)) trivial
      rw [settled_quit hk (hp.joined hclosed)]
      exact hp.joined hclosed

/-- In a run, no joinable thread is left while the client is not open, none is destroyed and every
`Open` that opens the client has its session served, if and only if the run is tidy. -/
theorem sound_iff_tidy (es : List ClientInterfaceEvent) :
    machine.Always Sound init [] es ↔ machine.Along Tidy init [] es :=
  Mealy.always_iff_along (I := PoolInv)
    (fun _ _ _ _ _ hi hn => hi.step (next_clientInterfaceStep hn).2)
    (fun _ _ _ _ _ hi hp hn => sound_step hi hp (next_clientInterfaceStep hn).2) es
    ⟨by simp [init], fun _ hp => (by cases hp), fun hopen => (by cases hopen)⟩
    ⟨fun _ => by simp [settled, init], rfl, by simp⟩

/-- The second thread of the first `Open` cannot be created. -/
def halfOpen : List ClientInterfaceEvent := [.openSocket true, .goOn, .noThread]

/-- The user closes the client and opens it again. -/
def reopen : List ClientInterfaceEvent :=
  [.setThreadCount 1, .openSocket true, .goOn, .goOn, .close, .quit 0, .goOn,
    .openSocket true, .goOn, .goOn]

/-- A client goes out of scope while it is open. -/
def leave : List ClientInterfaceEvent :=
  [.setThreadCount 1, .openSocket true, .goOn, .goOn, .destroy]

theorem not_sound : ¬ machine.Always Sound init [] halfOpen ∧
    ¬ machine.Always Sound init [] reopen ∧ ¬ machine.Always Sound init [] leave := by
  refine ⟨fun ha => ?_, fun ha => ?_, fun ha => ?_⟩
  · have hs := ha.of_isSome _ (by decide +kernel)
    exact absurd (hs.joined (by decide +kernel) .running (by decide +kernel)) (by decide +kernel)
  · have hs := ha.of_isSome _ (by decide +kernel)
    have := hs.served ⟨true, 1, [.none, .running], [.onResolve, .onResolve], true, false, .outside⟩
      (by decide +kernel)
    cases this.1
  · have hs := ha.of_isSome _ (by decide +kernel)
    exact absurd hs.alive (by decide +kernel)

end ClientInterface

end Wss

end AsioNetworking

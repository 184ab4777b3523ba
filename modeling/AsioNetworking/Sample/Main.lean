import AsioNetworking.Lib.EventLoop
import AsioNetworking.Sample.Dispatch

/-!
# `main` of `SimpleClient.cpp` and its keyboard

`ioThread` runs `read_handler`, which reads one key after the other until it gets a key to quit or an
error. `main` leaves its loop at such a key, or when the server is gone, and then waits for `ioThread`.
-/

namespace AsioNetworking

open List CustomClient

/-! ## The program -/

structure SimpleMain where
  loop : SimpleClient
  /-- An `async_read` of `stream` is outstanding. -/
  reading : Bool
  /-- `ioService` and `ioThread`. -/
  io : EventLoop
  returned : Bool

inductive MainEvent where
  /-- A handler of the connection. -/
  | conn (e : Connection.Event CustomMsgTypes)
  /-- `read_handler` with a key, at the time `timeNow`. -/
  | key (buf : UInt8) (timeNow : UInt64)
  /-- `read_handler` with an error. -/
  | noKey
  /-- The next step of the loop. -/
  | loop
  /-- `ioService.run()` returns. -/
  | quit
  /-- `ioThread.join()`, and the end of `main`. -/
  | join
  deriving DecidableEq

inductive MainEffect where
  | loop (x : SimpleEffect)
  | key (buf : UInt8)
  | noKey
  | returned
  deriving DecidableEq

namespace SimpleMain

/-- What `read_handler` does for a key. -/
def command (buf : UInt8) (timeNow : UInt64) : Option SimpleEvent :=
  if buf = 'q'.toUInt8 then some .quit
  else if buf = '1'.toUInt8 then some (.one timeNow)
  else if buf = '2'.toUInt8 then some .two
  else if buf = '3'.toUInt8 then some .quit
  else none

/-- The keys after which `read_handler` returns without another `async_read`. -/
def quits (buf : UInt8) : Bool := buf = 'q'.toUInt8 || buf = '3'.toUInt8

/-- `main` after `c.Connect`, with the first `async_read` started and `ioThread` running. -/
def start : SimpleMain := ⟨.start, true, EventLoop.init.spawn, false⟩

def setLoop (r : SimpleClient × List SimpleEffect) (s : SimpleMain) : SimpleMain × List MainEffect :=
  ({ s with loop := r.1 }, r.2.map .loop)

def readHandler (buf : UInt8) (timeNow : UInt64) (s : SimpleMain) :
    Option (SimpleMain × List MainEffect) :=
  match command buf timeNow with
  | none => some (s, [.key buf])
  | some e =>
      match s.loop.next e with
      | none => none
      | some (loop, o) => some ({ s with loop, reading := !quits buf }, .key buf :: o.map .loop)

def next (s : SimpleMain) : MainEvent → Option (SimpleMain × List MainEffect)
  | .conn e => if s.returned then none else (s.loop.next (.conn e)).map fun r => s.setLoop r
  | .key buf timeNow => if s.reading && s.io.takes then s.readHandler buf timeNow else none
  | .noKey => if s.reading && s.io.takes then some ({ s with reading := false }, [.noKey]) else none
  | .loop => if s.returned then none else (s.loop.next .loop).map fun r => s.setLoop r
  | .quit => (s.io.quit !s.reading).map fun io => ({ s with io }, [])
  | .join =>
      if s.loop.pc = .ended ∧ s.returned = false then
        s.io.join.map fun io => ({ s with io, returned := true }, [.returned])
      else none

def machine : Mealy SimpleMain MainEvent MainEffect := ⟨next⟩

/-! ## Steps -/

inductive MainStep (s : SimpleMain) : MainEvent → SimpleMain → List MainEffect → Prop where
  | conn (e loop o) : s.returned = false → s.loop.next (.conn e) = some (loop, o) →
      MainStep s (.conn e) { s with loop } (o.map .loop)
  | idle (buf timeNow) : s.reading = true → command buf timeNow = none →
      MainStep s (.key buf timeNow) s [.key buf]
  | key (buf timeNow e loop o) : s.reading = true → command buf timeNow = some e →
      s.loop.next e = some (loop, o) →
      MainStep s (.key buf timeNow) { s with loop, reading := !quits buf } (.key buf :: o.map .loop)
  | noKey : s.reading = true → MainStep s .noKey { s with reading := false } [.noKey]
  | loop (loop o) : s.returned = false → s.loop.loop = some (loop, o) →
      MainStep s .loop { s with loop } (o.map .loop)
  | quit (io) : s.io.quit (!s.reading) = some io → MainStep s .quit { s with io } []
  | join (io) : s.loop.pc = .ended → s.returned = false → s.io.join = some io →
      MainStep s .join { s with io, returned := true } [.returned]

variable {s s' : SimpleMain} {h o : List MainEffect}

theorem next_mainStep {e} (hn : s.next e = some (s', o)) : MainStep s e s' o := by
  cases e with
  | conn e =>
      simp only [next] at hn
      split at hn
      · cases hn
      · rename_i hret
        obtain ⟨⟨loop, o⟩, hl, he⟩ := Option.map_eq_some_iff.mp hn
        cases he
        exact .conn e loop o (by simpa using hret) hl
  | key buf timeNow =>
      simp only [next, readHandler] at hn
      split at hn
      · rename_i hr
        have hr := (Bool.and_eq_true_iff.mp hr).1
        split at hn
        · rename_i hc
          cases hn
          exact .idle buf timeNow hr hc
        · rename_i e hc
          split at hn
          · cases hn
          · rename_i loop o hl
            cases hn
            exact .key buf timeNow e loop o hr hc hl
      · cases hn
  | noKey =>
      simp only [next] at hn
      split at hn
      · rename_i hr
        cases hn
        exact .noKey (Bool.and_eq_true_iff.mp hr).1
      · cases hn
  | loop =>
      simp only [next] at hn
      split at hn
      · cases hn
      · rename_i hret
        obtain ⟨⟨loop, o⟩, hl, he⟩ := Option.map_eq_some_iff.mp hn
        cases he
        exact .loop loop o (by simpa using hret) hl
  | quit =>
      obtain ⟨io, hq, he⟩ := Option.map_eq_some_iff.mp hn
      cases he
      exact .quit io hq
  | join =>
      simp only [next] at hn
      split at hn
      · rename_i hj
        obtain ⟨io, hio, he⟩ := Option.map_eq_some_iff.mp hn
        cases he
        exact .join io hj.1 hj.2 hio
      · cases hn

theorem command_ne_loop {buf : UInt8} {timeNow : UInt64} : command buf timeNow ≠ some .loop := by
  unfold command
  split_ifs <;> simp

theorem command_eq_quit_iff (buf : UInt8) (timeNow : UInt64) :
    command buf timeNow = some .quit ↔ quits buf = true := by
  unfold command quits
  split
  · simp_all
  split
  · rename_i hb
    subst hb
    simp only [Option.some.injEq, reduceCtorEq, false_iff]
    decide
  split
  · rename_i hb
    subst hb
    simp only [Option.some.injEq, reduceCtorEq, false_iff]
    decide
  split
  · simp_all
  · simp_all

end SimpleMain

/-! ## Steps of the loop -/

namespace SimpleClient

variable {s s' : SimpleClient} {o : List SimpleEffect}

/-- The server does not come back. -/
theorem LoopStep.closed (hs : LoopStep s s' o) (hc : s.client.isConnected = false) :
    s'.client.isConnected = false := by
  cases hs with
  | conn r e pc bQuit hr =>
      by_contra hopen
      have ho : r.1.socketOpen = true := by simpa [Client.isConnected, Client.setConn] using hopen
      have hb := (Connection.next_writeStep (o := r.2) hr).isOpen ho
      rw [show s.client.connection.socketOpen = false from hc] at hb
      cases hb
  | pop => exact hc
  | quiet => exact hc

/-- The keys and the connection leave the loop where it is. -/
theorem next_stays {e} (hn : s.next e = some (s', o)) (he : e ≠ .loop) :
    s'.pc = s.pc ∧ s'.bQuit = (s.bQuit || decide (e = .quit)) := by
  cases e with
  | conn e =>
      simp only [next] at hn
      split at hn
      · cases hn
      · split at hn <;> cases hn
        exact ⟨rfl, by simp⟩
  | one timeNow => cases hn; simp
  | two => cases hn; simp
  | quit => cases hn; simp
  | loop => exact absurd rfl he

/-- The body of the next message is too short for what the loop pulls from it. -/
def short (s : SimpleClient) : Bool :=
  s.client.qMessagesIn.head?.any fun msg => msg.body.length < pulled msg.header.id

theorem dispatch_eq (msg : Message CustomMsgTypes) : (dispatch msg).1 =
    if msg.body.length < pulled msg.header.id then .undefined else .test := by
  have hpull (k : Nat) : (pull msg k).1 = if msg.body.length < k then .undefined else .test := by
    by_cases hk : k ≤ msg.body.length
    · simp [pull, Message.pull, hk]
    · simp [pull, Message.pull, hk, Nat.lt_of_not_le hk]
  unfold dispatch pulled
  cases hid : msg.header.id <;> simp only [hpull, Nat.not_lt_zero, if_false]

/-- The loop is over, it looks for a message, it finds the server gone, or it has looked for one. -/
theorem loop_cases (hl : s.loop = some (s', o)) :
    (s.pc = .test ∧ s.bQuit = true ∧ s' = { s with pc := .ended }) ∨
      (s.pc = .test ∧ s.bQuit = false ∧ s' = { s with pc := .incoming }) ∨
      (s.pc = .test ∧ s.client.isConnected = false ∧ s' = { s with bQuit := true }) ∨
      s.pc = .incoming ∧ ∃ q, s' = { s with
        client := { s.client with qMessagesIn := q }
        pc := if s.short then .undefined else .test } := by
  unfold loop at hl
  split at hl
  · rename_i hpc
    split at hl
    · rename_i hq
      cases hl
      exact .inl ⟨hpc, hq, rfl⟩
    · rename_i hq
      split at hl
      · cases hl
        exact .inr (.inl ⟨hpc, by simpa using hq, rfl⟩)
      · rename_i hc
        cases hl
        exact .inr (.inr (.inl ⟨hpc, by simpa using hc, rfl⟩))
  · rename_i hpc
    split at hl
    · rename_i hq
      cases hl
      refine .inr (.inr (.inr ⟨hpc, [], ?_⟩))
      simp only [short, hq, head?_nil, Option.any_none, Bool.false_eq_true, if_false]
      rw [← hq]
    · rename_i msg q hq
      cases hl
      have hd := dispatch_eq msg
      refine .inr (.inr (.inr ⟨hpc, q, ?_⟩))
      simp only [short, hq, head?_cons, Option.any_some, decide_eq_true_eq, ← hd]
      rfl
  · cases hl
  · cases hl

end SimpleClient

/-! ## Runs -/

namespace SimpleMain

variable {s s' : SimpleMain} {h o : List MainEffect}

/-- A key to quit was read. -/
def Asked (h : List MainEffect) : Prop := ∃ buf, .key buf ∈ h ∧ quits buf = true

theorem asked_append : Asked (h ++ o) ↔ Asked h ∨ Asked o := by
  simp only [Asked, mem_append, or_and_right, exists_or]

@[simp] theorem not_asked_map_loop (o : List SimpleEffect) : ¬ Asked (o.map .loop) := by
  simp [Asked]

theorem asked_key {buf : UInt8} (o : List SimpleEffect) :
    Asked (.key buf :: o.map .loop) ↔ quits buf = true := by
  simp [Asked]

structure MainInv (s : SimpleMain) (h : List MainEffect) : Prop where
  reading : s.reading = true ↔ ¬ Asked h ∧ .noKey ∉ h
  bQuit : s.loop.bQuit = true → Asked h ∨ s.loop.client.isConnected = false
  asked : Asked h → s.loop.bQuit = true
  ended : s.loop.pc = .ended → s.loop.bQuit = true
  io : s.io.thread ≠ .running → s.reading = false
  stopped : s.io.stopped = true → s.io.thread ≠ .running
  returned : s.returned = true → s.loop.pc = .ended ∧ s.reading = false

theorem MainInv.init : MainInv start [] :=
  ⟨by simp [start, Asked], by simp [start, SimpleClient.start], by simp [Asked],
    by simp [start, SimpleClient.start], by simp [start, EventLoop.spawn],
    by simp [start, EventLoop.init], by simp [start]⟩

/-- A step of the connection, of `read_handler` or of the loop. -/
theorem MainInv.move (loop reading) (hi : MainInv s h)
    (hread : reading = true ↔ ¬ Asked (h ++ o) ∧ .noKey ∉ h ++ o)
    (hle : reading = true → s.reading = true)
    (hcl : s.loop.client.isConnected = false → loop.client.isConnected = false)
    (hbQuit : loop.bQuit = true → s.loop.bQuit = true ∨ Asked o ∨ loop.client.isConnected = false)
    (hkeep : s.loop.bQuit = true → loop.bQuit = true) (hasked : Asked o → loop.bQuit = true)
    (hended : loop.pc = .ended → s.loop.pc = .ended ∨ loop.bQuit = true)
    (hpc : s.returned = true → loop.pc = s.loop.pc) :
    MainInv { s with loop, reading } (h ++ o) := by
  have hoff (hs : s.reading = false) : reading = false := by
    by_contra hr
    rw [hle (by simpa using hr)] at hs
    cases hs
  refine ⟨hread, fun hb => ?_, fun ha => ?_, fun hp => ?_, fun ht => hoff (hi.io ht), hi.stopped,
    fun hret => ?_⟩
  · rw [asked_append, or_assoc]
    rcases hbQuit hb with hb | ha | hc
    · exact (hi.bQuit hb).imp_right fun hc => .inr (hcl hc)
    · exact .inr (.inl ha)
    · exact .inr (.inr hc)
  · rcases asked_append.mp ha with ha | ha
    · exact hkeep (hi.asked ha)
    · exact hasked ha
  · rcases hended hp with hp | hb
    · exact hkeep (hi.ended hp)
    · exact hb
  · obtain ⟨hp, hr⟩ := hi.returned hret
    exact ⟨(hpc hret).trans hp, hoff hr⟩

theorem MainInv.step {e} (hi : MainInv s h) (hs : MainStep s e s' o) : MainInv s' (h ++ o) := by
  cases hs with
  | conn e loop o hret hl =>
      obtain ⟨hpc, hq⟩ := SimpleClient.next_stays hl (by simp)
      have hq : loop.bQuit = s.loop.bQuit := by simpa using hq
      exact hi.move loop s.reading (by simpa [asked_append] using hi.reading) id
        (SimpleClient.next_loopStep hl).closed (fun hb => .inl (hq ▸ hb)) (fun hb => hq ▸ hb)
        (by simp) (fun hp => .inl (hpc ▸ hp)) fun _ => hpc
  | idle buf timeNow hr hc =>
      have hno : ¬ Asked [.key buf] := by
        have hq : quits buf ≠ true := by
          rw [ne_eq, ← command_eq_quit_iff buf timeNow, hc]
          simp
        simpa [Asked] using hq
      exact hi.move s.loop s.reading (by simpa [asked_append, hno] using hi.reading) id id .inl id
        (fun ha => absurd ha hno) .inl fun _ => rfl
  | key buf timeNow e loop o hr hc hl =>
      have hne : e ≠ .loop := by
        rintro rfl
        exact command_ne_loop hc
      obtain ⟨hpc, hq⟩ := SimpleClient.next_stays hl hne
      have hquits : quits buf = true ↔ e = .quit := by
        rw [← command_eq_quit_iff buf timeNow, hc, Option.some.injEq]
      have hbefore := hi.reading.mp hr
      refine hi.move loop (!quits buf) ?_ (fun _ => hr) (SimpleClient.next_loopStep hl).closed
        (fun hb => ?_) (fun hb => by simp [hq, hb]) (fun ha => ?_) (fun hp => .inl (hpc ▸ hp)) fun _ => hpc
      · rw [asked_append, asked_key]
        simp [hbefore.1, hbefore.2]
      · rw [asked_key, hquits]
        rw [hq] at hb
        simpa [or_assoc] using Or.inl hb
      · rw [asked_key, hquits] at ha
        simp [hq, ha]
  | noKey hr =>
      have hbefore := hi.reading.mp hr
      exact hi.move s.loop false (by simp) (by simp) id .inl id (by simp [Asked]) .inl fun _ => rfl
  | loop loop o hret hl =>
      have hstep := SimpleClient.next_loopStep (s := s.loop) (e := .loop) hl
      refine hi.move loop s.reading (by simpa [asked_append] using hi.reading) id hstep.closed
        (fun hb => ?_) (fun hb => ?_) (by simp) (fun hp => ?_) fun h => (by rw [hret] at h; cases h)
      · rcases SimpleClient.loop_cases hl with ⟨-, hb, -⟩ | ⟨-, -, rfl⟩ | ⟨-, hc, rfl⟩ |
          ⟨-, q, rfl⟩
        · exact .inl hb
        · exact .inl hb
        · exact .inr (.inr hc)
        · exact .inl hb
      · rcases SimpleClient.loop_cases hl with ⟨-, -, rfl⟩ | ⟨-, -, rfl⟩ | ⟨-, -, rfl⟩ |
          ⟨-, q, rfl⟩
        · exact hb
        · exact hb
        · rfl
        · exact hb
      · rcases SimpleClient.loop_cases hl with ⟨-, hb, rfl⟩ | ⟨-, -, rfl⟩ | ⟨-, -, rfl⟩ |
          ⟨-, q, rfl⟩
        · exact .inr hb
        · cases hp
        · exact .inr rfl
        · simp only at hp
          split at hp <;> cases hp
  | quit io hq =>
      have hoff : s.reading = false := by
        unfold EventLoop.quit at hq
        split at hq
        · rename_i hrun
          rcases hrun.2 with hst | hoff
          · exact absurd hrun.1 (hi.stopped hst)
          · simpa using hoff
        · cases hq
      have hio : io.thread = .finished := by
        unfold EventLoop.quit at hq
        split at hq <;> cases hq
        rfl
      rw [append_nil]
      exact ⟨hi.reading, hi.bQuit, hi.asked, hi.ended, fun _ => hoff, fun _ => by simp [hio],
        hi.returned⟩
  | join io hpc hret hj =>
      obtain ⟨hst, -⟩ := EventLoop.join_spec hj
      obtain ⟨hrun, hio⟩ : s.io.thread ≠ .running ∧ io.thread = .none := by
        unfold EventLoop.join at hj
        split at hj <;> cases hj
        rename_i hrun
        exact ⟨hrun, rfl⟩
      have hno : ¬ Asked [.returned] := by simp [Asked]
      refine ⟨by simpa [asked_append, hno] using hi.reading, fun hb => ?_, fun ha => ?_, hi.ended,
        fun _ => hi.io hrun, fun _ => by simp [hio], fun _ => ⟨hpc, hi.io hrun⟩⟩
      · exact (hi.bQuit hb).imp_left fun ha => asked_append.mpr (.inl ha)
      · exact hi.asked ((asked_append.mp ha).resolve_right hno)

theorem run_mainInv (hr : machine.Run Mealy.free start [] s h) : MainInv s h :=
  hr.invariant .init fun _ _ _ _ _ hi _ hn => hi.step (next_mainStep hn)

theorem MainInv.leaves (hi : MainInv s h) (hret : s.returned = true) :
    Asked h ∨ .noKey ∈ h ∧ s.loop.client.isConnected = false := by
  obtain ⟨hpc, hoff⟩ := hi.returned hret
  refine (em (Asked h)).imp_right fun hno => ⟨?_, (hi.bQuit (hi.ended hpc)).resolve_left hno⟩
  by_contra hkey
  have hon := hi.reading.mpr ⟨hno, hkey⟩
  rw [hoff] at hon
  cases hon

/-! ## What `main` and `ioThread` do by themselves -/

def isOwn : MainEvent → Bool
  | .loop | .quit | .join => true
  | _ => false

/-- From `s` with the history `h`, `main` and `ioThread` come to `s'` with `h'` by themselves. -/
abbrev Own (s : SimpleMain) (h : List MainEffect) (s' : SimpleMain) (h' : List MainEffect) : Prop :=
  machine.Run (fun _ _ e => isOwn e = true) s h s' h'

/-- The loop has used a body that was too short, or is going to. -/
def Stuck (s : SimpleMain) : Prop :=
  s.loop.pc = .undefined ∨ s.loop.pc = .incoming ∧ s.loop.short = true

theorem MainStep.own {e} (hs : MainStep s e s' o) (he : isOwn e = true) :
    ¬ Asked o ∧ .noKey ∉ o ∧ s'.loop.client.isConnected = s.loop.client.isConnected ∧
      (s.Stuck → s'.Stuck) := by
  cases hs with
  | loop loop o _ hl =>
      refine ⟨not_asked_map_loop o, by simp, ?_, fun hst => ?_⟩
      · rcases SimpleClient.loop_cases hl with ⟨-, -, rfl⟩ | ⟨-, -, rfl⟩ | ⟨-, -, rfl⟩ |
          ⟨-, q, rfl⟩ <;> rfl
      · rcases SimpleClient.loop_cases hl with ⟨hpc, -⟩ | ⟨hpc, -⟩ | ⟨hpc, -⟩ | ⟨hpc, q, rfl⟩
        · simp [Stuck, hpc] at hst
        · simp [Stuck, hpc] at hst
        · simp [Stuck, hpc] at hst
        · have hshort : s.loop.short = true := by simpa [Stuck, hpc] using hst
          exact .inl (if_pos hshort)
  | quit io _ => exact ⟨by simp [Asked], by simp, rfl, id⟩
  | join io _ _ _ => exact ⟨by simp [Asked], by simp, rfl, id⟩
  | conn => cases he
  | idle => cases he
  | key => cases he
  | noKey => cases he

theorem Own.keeps {h'} (hown : Own s h s' h') : (Asked h' → Asked h) ∧ (.noKey ∈ h' → .noKey ∈ h) ∧
    s'.loop.client.isConnected = s.loop.client.isConnected ∧ (s.Stuck → s'.Stuck) := by
  refine hown.invariant (P := fun s' h' => (Asked h' → Asked h) ∧ (.noKey ∈ h' → .noKey ∈ h) ∧
    s'.loop.client.isConnected = s.loop.client.isConnected ∧ (s.Stuck → s'.Stuck))
    ⟨id, id, rfl, id⟩ ?_
  rintro s₁ h₁ e s₂ o ⟨hasked, hkey, hcon, hstuck⟩ he hn
  obtain ⟨hno, hnokey, hcon', hst⟩ := (next_mainStep hn).own he
  refine ⟨fun ha => ?_, fun hk => ?_, hcon'.trans hcon, fun hs => hst (hstuck hs)⟩
  · exact hasked ((asked_append.mp ha).resolve_right hno)
  · exact hkey ((mem_append.mp hk).resolve_right hnokey)

theorem own_loop {loop o} (hret : s.returned = false) (hl : s.loop.loop = some (loop, o)) :
    Own s h { s with loop } (h ++ o.map .loop) := by
  refine .step .refl (e := .loop) rfl ?_
  simp [machine, next, hret, SimpleClient.next, hl, setLoop]

/-- From the test of the loop `main` leaves it, when it is to quit or finds the server gone. -/
theorem own_of_test (hret : s.returned = false) (hpc : s.loop.pc = .test)
    (hgo : s.loop.bQuit = true ∨ s.loop.client.isConnected = false) :
    ∃ loop h', Own s h { s with loop } h' ∧ loop.pc = .ended := by
  have leave {s : SimpleMain} {h} (hret : s.returned = false) (hpc : s.loop.pc = .test)
      (hb : s.loop.bQuit = true) : ∃ h', Own s h { s with loop := { s.loop with pc := .ended } } h' :=
    ⟨_, own_loop hret (by simp [SimpleClient.loop, hpc, hb]; rfl)⟩
  cases hb : s.loop.bQuit with
  | true =>
      obtain ⟨h', hown⟩ := leave (h := h) hret hpc hb
      exact ⟨_, h', hown, rfl⟩
  | false =>
      have hc : s.loop.client.isConnected = false := by simpa [hb] using hgo
      have hfirst : Own s h { s with loop := { s.loop with bQuit := true } } _ :=
        own_loop hret (by simp [SimpleClient.loop, hpc, hb, hc]; rfl)
      obtain ⟨h', hown⟩ := leave (s := { s with loop := { s.loop with bQuit := true } }) hret hpc rfl
      exact ⟨_, h', hfirst.trans hown, rfl⟩

theorem own_ended (hret : s.returned = false) (hst : ¬ s.Stuck)
    (hgo : s.loop.bQuit = true ∨ s.loop.client.isConnected = false) :
    ∃ loop h', Own s h { s with loop } h' ∧ loop.pc = .ended := by
  cases hpc : s.loop.pc with
  | test => exact own_of_test hret hpc hgo
  | ended => exact ⟨s.loop, h, .refl, hpc⟩
  | undefined => exact absurd (.inl hpc) hst
  | incoming =>
      have hlong : s.loop.short = false := by simpa [Stuck, hpc] using hst
      have hsome : s.loop.loop.isSome = true := by
        unfold SimpleClient.loop
        simp only [hpc]
        split <;> rfl
      obtain ⟨⟨loop, o⟩, hl⟩ := Option.isSome_iff_exists.mp hsome
      rcases SimpleClient.loop_cases hl with ⟨h, -⟩ | ⟨h, -⟩ | ⟨h, -⟩ | ⟨-, q, rfl⟩
      · rw [hpc] at h; cases h
      · rw [hpc] at h; cases h
      · rw [hpc] at h; cases h
      · have htest := own_of_test (s := { s with loop := { s.loop with
            client := { s.loop.client with qMessagesIn := q }
            pc := if s.loop.short then .undefined else .test } }) (h := h ++ o.map .loop) hret
          (by simp [hlong]) hgo
        obtain ⟨loop, h', hown, hend⟩ := htest
        exact ⟨loop, h', (own_loop hret hl).trans hown, hend⟩

theorem own_returned (hret : s.returned = false) (hend : s.loop.pc = .ended)
    (hoff : s.reading = false) : ∃ s' h', Own s h s' h' ∧ s'.returned = true := by
  have joins {s : SimpleMain} {h} (hret : s.returned = false) (hend : s.loop.pc = .ended)
      (hrun : s.io.thread ≠ .running) : ∃ s' h', Own s h s' h' ∧ s'.returned = true := by
    refine ⟨{ s with io := { s.io with thread := .none }, returned := true }, h ++ [.returned],
      .step .refl (e := .join) rfl ?_, rfl⟩
    simp [machine, next, hret, hend, EventLoop.join, hrun]
  by_cases hrun : s.io.thread = .running
  · have hquit :
        Own s h { s with io := { s.io with thread := .finished, stopped := true } } (h ++ []) := by
      refine .step .refl (e := .quit) rfl ?_
      simp [machine, next, EventLoop.quit, hrun, hoff]
    obtain ⟨s', h', hown, hr⟩ := joins
      (s := { s with io := { s.io with thread := .finished, stopped := true } }) (h := h ++ []) hret
      hend (by simp)
    exact ⟨s', h', hquit.trans hown, hr⟩
  · exact joins hret hend hrun

/-! ## When `main` returns -/

/-- In every run, `main` can go on to its end without another key, and without a handler of the
connection, if and only if a key to quit was read, or the keyboard has failed and the server is gone,
and the loop is not at a message that is too short: a server that is gone does not end it. -/
theorem returns_iff (hr : machine.Run Mealy.free start [] s h) :
    (∃ s' h', Own s h s' h' ∧ s'.returned = true) ↔
      (Asked h ∨ .noKey ∈ h ∧ s.loop.client.isConnected = false) ∧ ¬ s.Stuck := by
  have hi := run_mainInv hr
  constructor
  · rintro ⟨s', h', hown, hret⟩
    have hi' := run_mainInv (hr.trans (hown.mono fun _ _ _ _ => trivial))
    obtain ⟨hasked, hkey, hcon, hstuck⟩ := hown.keeps
    refine ⟨(hi'.leaves hret).imp hasked fun ⟨hk, hc⟩ => ⟨hkey hk, hcon ▸ hc⟩, fun hst => ?_⟩
    have hend := (hi'.returned hret).1
    rcases hstuck hst with hu | ⟨hu, -⟩ <;> rw [hend] at hu <;> cases hu
  · rintro ⟨hgo, hst⟩
    cases hret : s.returned with
    | true => exact ⟨s, h, .refl, hret⟩
    | false =>
        have hoff : s.reading = false := by
          by_contra hon
          obtain ⟨hno, hnokey⟩ := hi.reading.mp (by simpa using hon)
          rcases hgo with ha | ⟨hk, -⟩
          · exact hno ha
          · exact hnokey hk
        obtain ⟨loop, h₁, hown, hend⟩ := own_ended (h := h) hret hst (hgo.imp hi.asked And.right)
        obtain ⟨s', h', hown', hr'⟩ := own_returned (s := { s with loop }) (h := h₁) hret hend hoff
        exact ⟨s', h', hown.trans hown', hr'⟩

/-- The server closes the connection; the user presses '1' and then 'q'. -/
def quitLate : SimpleMain × List MainEffect :=
  (machine.exec Mealy.free start [] [.conn .established, .conn (.onConnect true), .loop, .loop,
    .conn (.readFail 0 []), .loop, .loop, .key 49 5, .key 113 6]).get (by decide +kernel)

theorem returns_iff_quitLate : ∃ s' h', Own quitLate.1 quitLate.2 s' h' ∧ s'.returned = true :=
  (returns_iff (.of_isSome _ _ : machine.Run Mealy.free start [] quitLate.1 quitLate.2)).mpr
    ⟨.inl ⟨113, by decide +kernel, by decide⟩, by
      rintro (hu | ⟨hu, -⟩) <;> exact absurd hu (by decide +kernel)⟩

end SimpleMain

end AsioNetworking

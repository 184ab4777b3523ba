import AsioNetworking.Connection.Theorems
import AsioNetworking.Sample

/-!
# The loop of `SimpleClient.cpp`

`main` pops the messages that the reader has queued, and pulls a value out of a message whose id says
that there is one. How many bytes of body a message has is up to the server: to the size in its
header, or to an earlier frame when the size announces no body.
-/

namespace AsioNetworking

open List Framing CustomClient

/-! ## The loop -/

/-- Where `main` is in the loop. -/
inductive LoopPc where
  /-- Before `c.IsConnected()`. -/
  | test
  /-- Before `c.Incoming().empty()`. -/
  | incoming
  | ended
  /-- After a `>>` on a body that is too short. -/
  | undefined
  deriving DecidableEq

/-- The client of `main`, its loop, and `bQuit`. -/
structure SimpleClient where
  client : Client CustomMsgTypes
  pc : LoopPc
  bQuit : Bool

inductive SimpleEvent where
  /-- A handler of the connection. -/
  | conn (e : Connection.Event CustomMsgTypes)
  /-- The keys '1' and '2'; `timeNow` is the time at the key '1'. -/
  | one (timeNow : UInt64)
  | two
  /-- The keys 'q' and '3'. -/
  | quit
  /-- The next step of the loop. -/
  | loop
  deriving DecidableEq

inductive SimpleEffect where
  | conn (x : Effect CustomMsgTypes)
  | popped (msg : Message CustomMsgTypes)
  /-- `>>` fills the variable with the bytes. -/
  | pulled (data : List UInt8)
  /-- `body.size() - sizeof(DataType)` is below 0, and wraps. -/
  | underflow (msg : Message CustomMsgTypes)
  deriving DecidableEq

namespace SimpleClient

def start : SimpleClient := ⟨.connect, .test, false⟩

/-- `msg >> v` for a variable of `k` bytes, and where the loop goes on. -/
def pull (msg : Message CustomMsgTypes) (k : Nat) : LoopPc × List SimpleEffect :=
  match msg.pull k with
  | some (data, _) => (.test, [.pulled data])
  | none => (.undefined, [.underflow msg])

/-- The `switch` of `main`: the variables are a `time_point` and a `uint32_t`. -/
def dispatch (msg : Message CustomMsgTypes) : LoopPc × List SimpleEffect :=
  match msg.header.id with
  | .serverPing => pull msg 8
  | .serverMessage => pull msg 4
  | _ => (.test, [])

def loop (s : SimpleClient) : Option (SimpleClient × List SimpleEffect) :=
  match s.pc with
  | .test =>
      if s.bQuit then some ({ s with pc := .ended }, [])
      else if s.client.isConnected then some ({ s with pc := .incoming }, [])
      else some ({ s with bQuit := true }, [])
  | .incoming =>
      match s.client.qMessagesIn with
      | [] => some ({ s with pc := .test }, [])
      | msg :: q =>
          let (pc, o) := dispatch msg
          some ({ s with client := { s.client with qMessagesIn := q }, pc }, .popped msg :: o)
  | .ended => none
  | .undefined => none

def send (msg : Message CustomMsgTypes) (s : SimpleClient) : SimpleClient × List SimpleEffect :=
  ({ s with client := (s.client.send msg).1 }, (s.client.send msg).2.map .conn)

def next (s : SimpleClient) : SimpleEvent → Option (SimpleClient × List SimpleEffect)
  | .conn e =>
      if System.isSend e then none else
        match s.client.connection.next e with
        | none => none
        | some r => some ({ s with client := s.client.setConn r }, r.2.map .conn)
  | .one timeNow => some (s.send (pingServer timeNow))
  | .two => some (s.send messageAll)
  | .quit => some ({ s with bQuit := true }, [])
  | .loop => s.loop

def machine : Mealy SimpleClient SimpleEvent SimpleEffect := ⟨next⟩

/-! ## Histories -/

def connHist (h : List SimpleEffect) : List (Effect CustomMsgTypes) :=
  h.filterMap fun
    | .conn x => some x
    | _ => none

def popped (h : List SimpleEffect) : List (Message CustomMsgTypes) :=
  h.filterMap fun
    | .popped msg => some msg
    | _ => none

def underflows (h : List SimpleEffect) : List (Message CustomMsgTypes) :=
  h.filterMap fun
    | .underflow msg => some msg
    | _ => none

variable {s s' : SimpleClient} {h o : List SimpleEffect}

@[simp] theorem connHist_append : connHist (h ++ o) = connHist h ++ connHist o := filterMap_append

@[simp] theorem popped_append : popped (h ++ o) = popped h ++ popped o := filterMap_append

@[simp] theorem underflows_append : underflows (h ++ o) = underflows h ++ underflows o :=
  filterMap_append

@[simp] theorem hist_cons_popped (msg : Message CustomMsgTypes) (o : List SimpleEffect) :
    connHist (.popped msg :: o) = connHist o ∧ popped (.popped msg :: o) = msg :: popped o ∧
      underflows (.popped msg :: o) = underflows o := ⟨rfl, rfl, rfl⟩

@[simp] theorem hist_map_conn (o : List (Effect CustomMsgTypes)) :
    connHist (o.map .conn) = o ∧ popped (o.map .conn) = [] ∧ underflows (o.map .conn) = [] := by
  refine ⟨?_, ?_, ?_⟩
  · rw [connHist, filterMap_map]
    exact filterMap_some ..
  · rw [popped, filterMap_map]
    exact filterMap_eq_nil_iff.mpr fun _ _ => rfl
  · rw [underflows, filterMap_map]
    exact filterMap_eq_nil_iff.mpr fun _ _ => rfl

/-! ## Steps -/

theorem dispatch_hist (msg : Message CustomMsgTypes) :
    connHist (dispatch msg).2 = [] ∧ popped (dispatch msg).2 = [] ∧
      underflows (dispatch msg).2 =
        if pulled msg.header.id ≤ msg.body.length then [] else [msg] := by
  have hpull (k : Nat) : connHist (pull msg k).2 = [] ∧ popped (pull msg k).2 = [] ∧
      underflows (pull msg k).2 = if k ≤ msg.body.length then [] else [msg] := by
    unfold pull Message.pull
    split
    · rename_i hk
      split at hk <;> cases hk
      rename_i hk
      rw [if_pos hk]
      exact ⟨rfl, rfl, rfl⟩
    · rename_i hk
      split at hk <;> cases hk
      rename_i hk
      rw [if_neg hk]
      exact ⟨rfl, rfl, rfl⟩
  unfold dispatch
  cases msg.header.id with
  | serverPing => exact hpull 8
  | serverMessage => exact hpull 4
  | _ => exact ⟨rfl, rfl, (if_pos (Nat.zero_le _)).symm⟩

/-- What a step does to the connection, to the messages popped and to those that are too short. -/
inductive LoopStep (s : SimpleClient) : SimpleClient → List SimpleEffect → Prop where
  | conn (r e) (pc bQuit) : s.client.connection.next e = some r →
      LoopStep s ⟨s.client.setConn r, pc, bQuit⟩ (r.2.map .conn)
  | pop (msg q) (bQuit) : s.client.qMessagesIn = msg :: q →
      LoopStep s ⟨⟨s.client.connection, q⟩, (dispatch msg).1, bQuit⟩ (.popped msg :: (dispatch msg).2)
  | quiet (pc bQuit) : LoopStep s ⟨s.client, pc, bQuit⟩ []

theorem send_loopStep (msg : Message CustomMsgTypes) (s : SimpleClient) :
    LoopStep s (s.send msg).1 (s.send msg).2 := by
  simp only [send, Client.send]
  split
  · exact .conn (s.client.connection.send msg) (.send msg) _ _ rfl
  · exact .quiet _ _

theorem next_loopStep {e} (hn : s.next e = some (s', o)) : LoopStep s s' o := by
  cases e with
  | conn e =>
      simp only [next] at hn
      split at hn
      · cases hn
      · split at hn <;> cases hn
        rename_i r hr
        exact .conn r e _ _ hr
  | one timeNow => cases hn; exact send_loopStep _ s
  | two => cases hn; exact send_loopStep _ s
  | quit => cases hn; exact .quiet _ _
  | loop =>
      simp only [next, loop] at hn
      split at hn
      · split at hn
        · cases hn; exact .quiet _ _
        · split at hn <;> cases hn <;> exact .quiet _ _
      · split at hn <;> cases hn
        · exact .quiet _ _
        · rename_i msg q hq
          exact .pop msg q _ hq
      · cases hn
      · cases hn

/-! ## What `main` pops -/

structure LoopInv (s : SimpleClient) (h : List SimpleEffect) : Prop where
  conn : (Connection.machine CustomMsgTypes).Run Mealy.free Connection.connected []
    s.client.connection (connHist h)
  queue : pushes (connHist h) = popped h ++ s.client.qMessagesIn
  short : underflows h = (popped h).filter fun msg => msg.body.length < pulled msg.header.id

theorem LoopInv.step (hi : LoopInv s h) (hs : LoopStep s s' o) : LoopInv s' (h ++ o) := by
  cases hs with
  | conn r e pc bQuit hr =>
      constructor
      · rw [connHist_append, (hist_map_conn r.2).1]
        exact .step hi.conn trivial hr
      · simp [hi.queue, Client.setConn]
      · simp [hi.short]
  | pop msg q bQuit hq =>
      obtain ⟨hc, hp, hu⟩ := dispatch_hist msg
      constructor
      · simpa [hc] using hi.conn
      · simp [hc, hp, hi.queue, hq]
      · by_cases hk : pulled msg.header.id ≤ msg.body.length
        · simp [hp, hu, hi.short, hk]
        · simp [hp, hu, hi.short, hk, Nat.not_le.mp hk]
  | quiet pc bQuit =>
      rw [append_nil]
      exact ⟨hi.conn, hi.queue, hi.short⟩

theorem run_loopInv (hr : machine.Run Mealy.free start [] s h) : LoopInv s h :=
  hr.invariant ⟨.refl, rfl, rfl⟩ fun _ _ _ _ _ hi _ hn => hi.step (next_loopStep hn)

/-! ## Bodies that are too short -/

/-- Every header leaves at least as many bytes of body as `main` pulls for its id: those that it
announces, or those that are left, `n` at the start, when it announces none. -/
def Ample (n : Nat) : List (MessageHeader CustomMsgTypes) → Prop
  | [] => True
  | header :: headers =>
      let n' := if header.size > 8 then header.size.toNat - 8 else n
      pulled header.id ≤ n' ∧ Ample n' headers

theorem ample_iff (body : List UInt8) (fs : List (Frame (frameFormat CustomMsgTypes))) :
    Ample body.length (fs.map frameHeader) ↔
      ∀ m ∈ receive body fs, pulled m.header.id ≤ m.body.length := by
  induction fs generalizing body with
  | nil => simp [Ample, receive]
  | cons f fs ih =>
      have hlen : (if (frameHeader f).size > 8 then (frameHeader f).size.toNat - 8 else body.length) =
          (if (frameHeader f).size > 8 then f.body else body).length := by
        split
        · exact (length_frame_body f).symm
        · rfl
      simp only [map_cons, Ample, receive, mem_cons, forall_eq_or_imp, hlen, ih]

/-- In every run, whatever the server sends: no `>>` of the loop is applied to a body that is too
short exactly when the frames of the messages popped so far leave enough bytes. -/
theorem underflow_iff (hr : machine.Run Mealy.free start [] s h) :
    (∀ msg, .underflow msg ∉ h) ↔
      Ample 0 (((frames (frameFormat CustomMsgTypes) ((tookBytes (connHist h)).drop 8)).take
        (popped h).length).map frameHeader) := by
  have hi := run_loopInv hr
  have hread := (Connection.Start.client.run_readInv hi.conn).reading
  have hpop : popped h = receive [] ((frames (frameFormat CustomMsgTypes)
      ((tookBytes (connHist h)).drop 8)).take (popped h).length) := by
    rw [receive_take, ← hread.pushes_eq_receive, hi.queue, take_left]
  have hmem : (∀ msg, .underflow msg ∉ h) ↔ underflows h = [] := by
    rw [underflows, filterMap_eq_nil_iff]
    constructor
    · intro hno x hx
      cases x with
      | underflow msg => exact absurd hx (hno msg)
      | _ => rfl
    · intro hnil msg hx
      cases hnil _ hx
  rw [hmem, hi.short, filter_eq_nil_iff]
  have hample := ample_iff [] ((frames (frameFormat CustomMsgTypes)
    ((tookBytes (connHist h)).drop 8)).take (popped h).length)
  rw [← hpop] at hample
  rw [show (0 : Nat) = ([] : List UInt8).length from rfl, hample]
  simp

/-- The server sends the nonce and the parts of a frame, and the loop takes two steps. -/
def given (parts : List (List UInt8)) : Option (SimpleClient × List SimpleEffect) :=
  machine.exec Mealy.free start [] ([.conn .established, .conn (.onConnect true),
    .conn (.readOk 0 [1, 2, 3, 4, 5, 6, 7, 8]), .conn (.put 0 8), .conn (.writeOk 0)] ++
      parts.map (fun bs => .conn (.readOk 0 bs)) ++ [.loop, .loop])

theorem underflow_iff_ping :
    (∀ msg, .underflow msg ∉
        ((given [[2, 0, 0, 0, 16, 0, 0, 0], [0, 0, 0, 0, 0, 0, 0, 9]]).get (by decide +kernel)).2) ↔
      Ample 0 (((frames (frameFormat CustomMsgTypes) ((tookBytes (connHist
        ((given [[2, 0, 0, 0, 16, 0, 0, 0], [0, 0, 0, 0, 0, 0, 0, 9]]).get
          (by decide +kernel)).2)).drop 8)).take 1).map frameHeader) :=
  underflow_iff (.of_isSome _ _)

theorem empty_ping :
    ¬ ∀ (s : SimpleClient) (h : List SimpleEffect), machine.Run Mealy.free start [] s h →
      ∀ msg, .underflow msg ∉ h := by
  intro hall
  have hno := hall ((given [[2, 0, 0, 0, 8, 0, 0, 0]]).get (by decide +kernel)).1
    ((given [[2, 0, 0, 0, 8, 0, 0, 0]]).get (by decide +kernel)).2 (.of_isSome _ _)
    ⟨⟨.serverPing, 8⟩, []⟩
  exact absurd hno (by decide +kernel)

end SimpleClient

end AsioNetworking

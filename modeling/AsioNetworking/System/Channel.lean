import AsioNetworking.Lib.Channel
import AsioNetworking.System.Receive

/-!
# A server and its clients as channels

What all the layers come to for the users at both ends: sockets, handshake, frames and queues together
are a FIFO channel from `Send` of a client to `OnMessage`, and one from the server's `Send` to the
queue of the client.
-/

namespace AsioNetworking

open List

variable {T ι : Type} [DecidableEq ι] [IdType T]

namespace System

/-- What goes from `Send` of the client `i` to `OnMessage`. -/
def upTransfers (i : ι) (h : List (SystemEffect T ι)) : List (Transfer (Message T)) :=
  h.filterMap fun
    | .sent j msg => if j = i then some (.sent msg) else none
    | .server (.onMessage remote msg) => if remote = some i then some (.received msg) else none
    | _ => none

/-- What goes from the server's `Send` for the client `i` to `Incoming().pop_front()` of the client. -/
def downTransfers (i : ι) (h : List (SystemEffect T ι)) : List (Transfer (Message T)) :=
  h.filterMap fun
    | .server (.conn j (.send msg)) => if j = i then some (.sent msg) else none
    | .popped j msg => if j = i then some (.received msg) else none
    | _ => none

section Histories

omit [IdType T]

variable (i : ι) (h o : List (SystemEffect T ι))

theorem upTransfers_append : upTransfers i (h ++ o) = upTransfers i h ++ upTransfers i o :=
  filterMap_append

theorem downTransfers_append : downTransfers i (h ++ o) = downTransfers i h ++ downTransfers i o :=
  filterMap_append

theorem sent_upTransfers : Channel.sent (upTransfers i h) = sent i h := by
  rw [Channel.sent, upTransfers, sent, filterMap_filterMap]
  congr 1
  funext x
  cases x with
  | sent j msg => by_cases hj : j = i <;> simp [hj]
  | server x =>
      cases x with
      | onMessage remote msg => by_cases hr : remote = some i <;> simp [hr]
      | _ => rfl
  | _ => rfl

theorem received_upTransfers :
    Channel.received (upTransfers i h) = Server.onMessages i (serverHist h) := by
  rw [Channel.received, upTransfers, Server.onMessages, serverHist, filterMap_filterMap,
    filterMap_filterMap]
  congr 1
  funext x
  cases x with
  | sent j msg => by_cases hj : j = i <;> simp [hj]
  | server x =>
      cases x with
      | onMessage remote msg => by_cases hr : remote = some i <;> simp [hr]
      | _ => rfl
  | _ => rfl

theorem sent_downTransfers : Channel.sent (downTransfers i h) = sends (peerHist i h) := by
  induction h with
  | nil => rfl
  | cons x h ih =>
      rw [← singleton_append, downTransfers_append, Channel.sent_append, peerHist_append, sends_append,
        ih]
      congr 1
      cases x with
      | server x =>
          cases x with
          | conn j x =>
              cases x <;> by_cases hj : j = i <;>
                simp [downTransfers, peerHist, serverHist, Server.hist, hj]
          | _ => rfl
      | popped j msg =>
          by_cases hj : j = i <;> simp [downTransfers, peerHist, serverHist, Server.hist, hj]
      | _ => rfl

theorem received_downTransfers : Channel.received (downTransfers i h) = popped i h := by
  rw [Channel.received, downTransfers, popped, filterMap_filterMap]
  congr 1
  funext x
  cases x with
  | popped j msg => by_cases hj : j = i <;> simp [hj]
  | server x =>
      cases x with
      | conn j x => cases x <;> by_cases hj : j = i <;> simp [hj]
      | _ => rfl
  | _ => rfl

variable {i h o}

theorem sent_mono (hp : h <+: o) : sent i h <+: sent i o := by
  obtain ⟨t, rfl⟩ := hp
  rw [sent_append]
  exact prefix_append _ _

theorem sends_peerHist_mono (hp : h <+: o) : sends (peerHist i h) <+: sends (peerHist i o) := by
  obtain ⟨t, rfl⟩ := hp
  rw [peerHist_append, sends_append]
  exact prefix_append _ _

end Histories

variable {G : System T ι → List (SystemEffect T ι) → SystemEvent T ι → Prop}
  {s s' : System T ι} {h o : List (SystemEffect T ι)} {i : ι}

/-! ## Steps -/

/-- A step of the server that calls `OnMessage` does nothing else. -/
theorem onMessages_eq_nil_or {e} {server server' : Server T ι} {o : List (ServerEffect T ι)}
    (hn : server.next e = some (server', o)) (i : ι) :
    Server.onMessages i o = [] ∨ ∃ msg, o = [.onMessage (some i) msg] := by
  cases Server.next_serverStep hn with
  | pop _ _ _ m _ _ _ =>
      by_cases hm : m.remote = some i
      · exact .inr ⟨m.msg, by rw [hm]⟩
      · exact .inl (by simp [Server.onMessages, hm])
  | conn => exact .inl (Server.onMessages_map_conn ..)
  | call => exact .inl (Server.onMessages_map_conn ..)
  | tell => exact .inl (Server.onMessages_map_conn ..)
  | accept =>
      left
      rw [Server.accept_effects, Server.onMessages_append, Server.onMessages_map_conn]
      rfl
  | _ => exact .inl rfl

theorem SystemStep.up {e} (hs : SystemStep s e s' o) (i : ι) :
    Channel.received (upTransfers i o) = [] ∨ ∃ msg, upTransfers i o = [.received msg] := by
  rw [received_upTransfers]
  cases hs with
  | alone _ _ _ _ hn _ =>
      rw [serverHist_map_server]
      refine (onMessages_eq_nil_or hn i).imp id ?_
      rintro ⟨msg, rfl⟩
      exact ⟨msg, by simp [upTransfers]⟩
  | server _ _ _ _ _ _ hn _ =>
      rw [serverHist_map_server]
      refine (onMessages_eq_nil_or hn i).imp id ?_
      rintro ⟨msg, rfl⟩
      exact ⟨msg, by simp [upTransfers]⟩
  | client => exact .inl (by simp [Server.onMessages])
  | send => exact .inl rfl
  | refuse => exact .inl rfl
  | pop => exact .inl rfl

theorem SystemStep.down {e} (hs : SystemStep s e s' o) (i : ι) :
    Channel.received (downTransfers i o) = [] ∨ ∃ msg, downTransfers i o = [.received msg] := by
  rw [received_downTransfers]
  cases hs with
  | pop j msg q _ => by_cases hj : j = i <;> simp [popped, downTransfers, hj]
  | alone => exact .inl (by simp)
  | server => exact .inl (by simp)
  | client => exact .inl (by simp)
  | send => exact .inl rfl
  | refuse => exact .inl rfl

/-! ## Runs -/

/-- No message without a body comes after one with a body. -/
def BodiesLast (ms : List (Message T)) : Prop := ms.Pairwise fun m m' => m.body ≠ [] → m'.body ≠ []

/-- In every run where the clients send after their handshake, the bytes of each socket go out in
order, and no message without a body is sent after one with a body, all messages with the length that
they declare: what the users at both ends of a connection see is a FIFO channel each way. -/
theorem refines_channels (hr : (machine T ι).Run (fun s h e => s.InOrder e ∧ Polite h e) init [] s h)
    (i : ι) (hup : BodiesLast (sent i h)) (hd : ∀ m ∈ sends (peerHist i h), m.Declared)
    (hdown : BodiesLast (sends (peerHist i h))) :
    (∃ q, (Channel.machine (Message T)).Run Mealy.free [] [] q (upTransfers i h)) ∧
      ∃ q, (Channel.machine (Message T)).Run Mealy.free [] [] q (downTransfers i h) := by
  rw [Channel.exists_run_iff, Channel.exists_run_iff]
  constructor
  · refine Channel.faithful_of_run (upTransfers i) (upTransfers_append i) hr
      (fun _ _ _ _ _ _ _ hn => (next_systemStep hn).up i) fun s₁ h₁ hr₁ hpre => ?_
    rw [received_upTransfers, sent_upTransfers]
    exact delivery_of_bodies (hr₁.mono fun _ _ _ hg => hg.2) (hup.sublist (sent_mono hpre).sublist)
  · refine Channel.faithful_of_run (downTransfers i) (downTransfers_append i) hr
      (fun _ _ _ _ _ _ _ hn => (next_systemStep hn).down i) fun s₁ h₁ hr₁ hpre => ?_
    rw [received_downTransfers, sent_downTransfers]
    have hle := sends_peerHist_mono (i := i) hpre
    exact reception_of_bodies (hr₁.mono fun _ _ _ hg => hg.1) i (fun m hm => hd m (hle.subset hm))
      (hdown.sublist hle.sublist)

/-- The client answers the nonce and sends a message without a body, then one with a body; the server
sends one to all its clients, and the client takes it. -/
def channelled : System UInt32 Unit × List (SystemEffect UInt32 Unit) :=
  ((machine UInt32 Unit).exec (fun s h e => s.InOrder e ∧ Polite h e) init []
    (handshake ++ withoutBody ++ withBody ++ [.server (.messageAllClients ⟨⟨3, 9⟩, [4]⟩),
      .server (.user []), .server (.user []), .server (.conn () .runTask), .server (.conn () (.put 0 8)),
      .server (.conn () (.writeOk 0)), .server (.conn () (.put 0 1)), .server (.conn () (.writeOk 0)),
      .client () (.readOk 0 [3, 0, 0, 0, 9, 0, 0, 0]), .client () (.readOk 0 [4]), .pop ()])).get
    (by decide +kernel)

theorem refines_channels_channelled :
    upTransfers () channelled.2 = [.sent ⟨⟨2, 0⟩, []⟩, .received ⟨⟨2, 0⟩, []⟩,
        .sent ⟨⟨1, 10⟩, [5, 6]⟩, .received ⟨⟨1, 10⟩, [5, 6]⟩] ∧
      downTransfers () channelled.2 = [.sent ⟨⟨3, 9⟩, [4]⟩, .received ⟨⟨3, 9⟩, [4]⟩] ∧
      (∃ q, (Channel.machine (Message UInt32)).Run Mealy.free [] [] q (upTransfers () channelled.2)) ∧
      ∃ q, (Channel.machine (Message UInt32)).Run Mealy.free [] [] q
        (downTransfers () channelled.2) := by
  have hr : (machine UInt32 Unit).Run (fun s h e => s.InOrder e ∧ Polite h e) init [] channelled.1
      channelled.2 := .of_isSome _ _
  have hup : BodiesLast (sent () channelled.2) := by
    unfold BodiesLast
    decide +kernel
  have hdown : BodiesLast (sends (peerHist () channelled.2)) := by
    unfold BodiesLast
    decide +kernel
  exact ⟨by decide +kernel, by decide +kernel, refines_channels hr () hup (by decide +kernel) hdown⟩

end System

end AsioNetworking

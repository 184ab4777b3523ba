import AsioNetworking.Sample.Server
import AsioNetworking.System.Delivery
import AsioNetworking.System.Handshake

/-!
# What a `SimpleClient` pops

The reader of the server attaches bytes left over to the requests without a body, but a
`CustomServer` bounces only messages that have a body of their own back.
-/

namespace AsioNetworking

open List CustomServer CustomClient

variable {ι : Type} [DecidableEq ι] {msg : Message CustomMsgTypes}
  {ms : List (Message CustomMsgTypes)}

/-! ## Messages -/

/-- `<<` on a freshly declared message keeps the header in step with the body. -/
theorem declared_push (id : CustomMsgTypes) {data : List UInt8} (hl : data.length < 2 ^ 32 - 8) :
    ((Message.withId id).push data).Declared := by
  have hh : sizeofHeader CustomMsgTypes = 8 := rfl
  have hb : ((Message.withId id).push data).body = data := rfl
  have hs : ((Message.withId id).push data).header.size = UInt32.ofNat (8 + data.length) := by
    simp [Message.push, Message.withId, Message.default, Message.size, hh]
  refine ⟨by rwa [hb], Or.inl ?_⟩
  rw [hs, hb, UInt32.toNat_ofNat']
  omega

theorem CustomClient.Pressed.declared (hp : Pressed msg) : msg.Declared := by
  cases hp with
  | one timeNow => exact declared_push _ (lt_of_eq_of_lt (LittleEndian.length_encode 8 _) (by decide))
  | two => exact ⟨by decide, Or.inr ⟨rfl, rfl⟩⟩

theorem CustomClient.Pressed.ping (hp : Pressed msg) (hping : isPing msg = true) : msg.body.length = 8 := by
  cases hp with
  | one timeNow => exact LittleEndian.length_encode _ _
  | two => cases hping

theorem msgOut_declared (uid : UInt32) : (msgOut uid).Declared :=
  declared_push _ (lt_of_eq_of_lt (LittleEndian.length_encode 4 _) (by decide))

/-- The pings that the server's reader makes of what a client sends are the client's. -/
theorem pings_deliver (hp : ∀ m ∈ ms, Pressed m) (body : List UInt8) :
    (deliver body ms).filter isPing = ms.filter isPing := by
  induction ms generalizing body with
  | nil => rfl
  | cons m ms ih =>
      have ih := ih fun m' hm' => hp m' (mem_cons_of_mem _ hm')
      have hm := hp m mem_cons_self
      rw [deliver, filter_cons, filter_cons, ih]
      by_cases hping : isPing m = true
      · have hne : m.body ≠ [] := by
          intro hnil
          have hl := hm.ping hping
          rw [hnil] at hl
          cases hl
        rw [if_pos (hm.declared.framed.size_gt.mpr hne)]
      · have hping' (body : List UInt8) : ¬isPing ⟨m.header, body⟩ = true := hping
        rw [if_neg hping, if_neg (hping' _)]

theorem requests_deliver (ms : List (Message CustomMsgTypes)) (body : List UInt8) :
    (deliver body ms).countP isMessageAll = ms.countP isMessageAll := by
  induction ms generalizing body with
  | nil => rfl
  | cons m ms ih => rw [deliver, countP_cons, countP_cons, ih]; rfl

namespace System

variable {s : System CustomMsgTypes ι} {h : List (SystemEffect CustomMsgTypes ι)} {i : ι}

/-! ## Runs of the sample -/

/-- The steps of a `SimpleServer` and of clients whose keys are pressed after their handshake; the
bytes go out in order. -/
def Sample (s : System CustomMsgTypes ι) (h : List (SystemEffect CustomMsgTypes ι))
    (e : SystemEvent CustomMsgTypes ι) : Prop :=
  s.InOrder e ∧
    match e with
    | .server e => Hooks s.server e
    | .send i msg => 0 < headerReads (clientHist i h) ∧ Pressed msg
    | .client _ _ | .pop _ => True

instance (s : System CustomMsgTypes ι) (h : List (SystemEffect CustomMsgTypes ι)) :
    DecidablePred (s.Sample h)
  | .server e => inferInstanceAs (Decidable (s.InOrder (.server e) ∧ Hooks s.server e))
  | .send i msg => inferInstanceAs (Decidable (s.InOrder (.send i msg) ∧ _ ∧ _))
  | .client i e => inferInstanceAs (Decidable (s.InOrder (.client i e) ∧ True))
  | .pop i => inferInstanceAs (Decidable (s.InOrder (.pop i) ∧ True))

theorem Sample.polite {e} (hg : Sample s h e) : Polite h e := by
  cases e with
  | send i msg => exact ⟨hg.2.1, hg.2.2.declared⟩
  | _ => trivial

theorem run_sample_posts (hr : (machine CustomMsgTypes ι).Run Sample init [] s h) (i : ι) :
    Posts s.server (serverHist h) i :=
  (run_posts (run_server hr fun _ _ _ hg => hg.2)).2 i

theorem run_pressed (hr : (machine CustomMsgTypes ι).Run Sample init [] s h) (i : ι) :
    ∀ msg ∈ sends (clientHist i h), Pressed msg :=
  run_all_sends hr fun _ _ _ hg => hg.2.2

/-- The pings and the requests that `OnMessage` gets from a client are the client's. -/
theorem run_asked (hr : (machine CustomMsgTypes ι).Run Sample init [] s h) (i : ι) :
    (Server.onMessages i (serverHist h)).filter isPing <+: (sends (clientHist i h)).filter isPing ∧
      (Server.onMessages i (serverHist h)).countP isMessageAll ≤ (sent i h).countP isMessageAll := by
  have hon : Server.onMessages i (serverHist h) <+: deliver [] (sends (clientHist i h)) := by
    have hpush := run_deliver hr (fun _ _ _ hg => hg.polite) i
    rw [peerHist, Server.run_queue (run_server_free hr) i] at hpush
    exact (prefix_append _ _).trans hpush
  constructor
  · have hp := hon.filter isPing
    rwa [pings_deliver (run_pressed hr i)] at hp
  · calc (Server.onMessages i (serverHist h)).countP isMessageAll
        ≤ (deliver [] (sends (clientHist i h))).countP isMessageAll := hon.sublist.countP_le
      _ = (sends (clientHist i h)).countP isMessageAll := requests_deliver _ _
      _ ≤ (sent i h).countP isMessageAll := (run_sent hr i).1.sublist.countP_le

/-- What the client `i` may get after the greeting. -/
structure Answers (s : System CustomMsgTypes ι) (h : List (SystemEffect CustomMsgTypes ι)) (i : ι)
    (q : List (Message CustomMsgTypes)) : Prop where
  pings : q.filter isPing <+: (sent i h).filter isPing
  timestamps : ∀ m ∈ q, isPing m = true → m.body.length = 8
  others : ∃ ds, Forall₂ (OnBehalf s.server i) (q.filter (!isPing ·)) ds ∧
    ∀ d, ds.count d ≤ (sent d h).countP isMessageAll

theorem Answers.of_prefix {q q'} (ha : Answers s h i q) (hq : q' <+: q) : Answers s h i q' := by
  obtain ⟨ds, hall, hcount⟩ := ha.others
  refine ⟨(hq.filter isPing).trans ha.pings, fun m hm => ha.timestamps m (hq.subset hm), ?_⟩
  have he := prefix_iff_eq_take.mp (hq.filter (!isPing ·))
  refine ⟨ds.take (q'.filter (!isPing ·)).length, ?_, fun d => ?_⟩
  · have ht := forall₂_take (q'.filter (!isPing ·)).length hall
    rwa [← he] at ht
  · exact ((take_sublist _ ds).count_le _).trans (hcount d)

theorem Answers.body {q} (ha : Answers s h i q) (hp : ∀ m ∈ sent i h, Pressed m) :
    ∀ m ∈ q, m.Declared ∧ m.body ≠ [] ∧ pulled m.header.id ≤ m.body.length := by
  intro m hm
  by_cases hping : isPing m = true
  · have hmem : m ∈ (sent i h).filter isPing := ha.pings.subset (mem_filter.mpr ⟨hm, hping⟩)
    have hl := ha.timestamps m hm hping
    have hid : m.header.id = .serverPing := by simpa [isPing] using hping
    refine ⟨(hp m (mem_filter.mp hmem).1).declared, fun hnil => ?_, ?_⟩
    · rw [hnil] at hl; cases hl
    · rw [hid, hl]; exact Nat.le_refl 8
  · obtain ⟨ds, hall, -⟩ := ha.others
    have hout : ∀ m ∈ q.filter (!isPing ·), ∃ uid, m = msgOut uid := by
      refine ((forall₂_and_left _ _).mp (hall.imp fun m d hb => ⟨?_, hb⟩)).1
      obtain ⟨-, c, -, he⟩ := hb
      exact ⟨c.id, he⟩
    obtain ⟨uid, rfl⟩ := hout m (mem_filter.mpr ⟨hm, by simpa using hping⟩)
    exact ⟨msgOut_declared uid, by simp [msgOut, Message.push, uint32Bytes, LittleEndian.encode],
      Nat.le_refl 4⟩

/-- What the server's end of a connection was given to send. -/
theorem run_sample_sends (hr : (machine CustomMsgTypes ι).Run Sample init [] s h) (i : ι) :
    sends (peerHist i h) = [] ∨
      ∃ rest, sends (peerHist i h) = .withId .serverAccept :: rest ∧ Answers s h i rest := by
  obtain ⟨rest, ds, hsend, hecho, hall, hcount⟩ := run_sample_posts hr i
  have hsrv := run_server_free hr
  rcases Server.run_conn_free hsrv i with ⟨-, hh, -⟩ | ⟨c, _, _, _, _, hc, -⟩
  · left
    rw [peerHist, hh]; rfl
  · right
    have hg : greeting i s.server = [.withId .serverAccept] := by simp [greeting, hc]
    have hpings : rest.filter isPing <+: (sends (clientHist i h)).filter isPing := by
      refine IsPrefix.trans ?_ (run_asked hr i).1
      rw [← hecho]
      exact prefix_append _ _
    refine ⟨rest, by rw [peerHist, hsend, hg]; rfl, ?_, fun m hm hping => ?_, ds, hall, fun d => ?_⟩
    · exact hpings.trans ((run_sent hr i).1.filter isPing)
    · have hmem := hpings.subset (mem_filter.mpr ⟨hm, hping⟩)
      exact (run_pressed hr i m (mem_filter.mp hmem).1).ping hping
    · have := hcount d
      have := (run_asked hr d).2
      omega

/-- In every run of a `SimpleServer` and its clients: a client pops the greeting first, then its own
pings, each with its 8 bytes, in the order of sending, and the ids of other clients, at most one for
each request of a client; each body is long enough for what is taken from it. -/
theorem sample_answers (hr : (machine CustomMsgTypes ι).Run Sample init [] s h) (i : ι) :
    (popped i h = [] ∨ ∃ q, popped i h = .withId .serverAccept :: q ∧ Answers s h i q) ∧
      ∀ m ∈ popped i h, (m.pull (pulled m.header.id)).isSome := by
  have hpop : popped i h <+: pushes (clientHist i h) := by
    rw [run_incoming hr i]; exact prefix_append _ _
  have hdown := run_deliver_down hr (fun _ _ _ hg => hg.1) i
  rcases run_sample_sends hr i with hnil | ⟨rest, hsend, ha⟩
  · have hnone : popped i h = [] := by
      rw [hnil] at hdown
      exact prefix_nil.mp (hpop.trans (hdown (by simp)))
    rw [hnone]
    exact ⟨Or.inl rfl, by simp⟩
  · have hbody := ha.body (run_all_sent hr fun _ _ _ hg => hg.2.2)
    have hd : ∀ m ∈ Message.withId .serverAccept :: rest, m.Declared := by
      intro m hm
      rcases mem_cons.mp hm with rfl | hm
      · exact ⟨by decide, Or.inr ⟨rfl, rfl⟩⟩
      · exact (hbody m hm).1
    have hself : deliver [] (Message.withId .serverAccept :: rest) = .withId .serverAccept :: rest := by
      refine deliver_eq_self hd (pairwise_cons.mpr ⟨fun m _ hne => absurd rfl hne, ?_⟩)
      exact pairwise_of_forall_mem_list fun m _ m' hm' _ => (hbody m' hm').2.1
    rw [hsend, hself] at hdown
    have hpop := hpop.trans (hdown fun m hm => (hd m hm).framed)
    cases hp : popped i h with
    | nil => exact ⟨Or.inl rfl, by simp⟩
    | cons m q =>
        rw [hp] at hpop
        obtain ⟨rfl, hq⟩ := cons_prefix_cons.mp hpop
        refine ⟨Or.inr ⟨q, rfl, ha.of_prefix hq⟩, fun m hm => ?_⟩
        rcases mem_cons.mp hm with rfl | hm
        · exact Message.isSome_pull.mpr (Nat.zero_le _)
        · exact Message.isSome_pull.mpr (hbody m (hq.subset hm)).2.2

/-! ## A run -/

/-- The client `i` connects, gets the greeting and answers the nonce; the server is convinced. -/
def joins (i : Bool) (nonce : UInt64) : List (SystemEvent CustomMsgTypes Bool) :=
  [.client i .established, .client i (.onConnect true),
    .server (.accept i nonce [.withId .serverAccept] true), .server (.conn i (.put 0 8)),
    .server (.conn i (.writeOk 0)), .server (.conn i .runTask), .server (.conn i (.put 0 8)),
    .server (.conn i (.writeOk 0)), .client i (.readOk 0 (uint64Bytes nonce)),
    .client i (.put 0 8), .client i (.writeOk 0),
    .client i (.readOk 0 (Message.withId .serverAccept).toBytes),
    .server (.conn i (.readOk 0 (uint64Bytes (scramble nonce))))]

/-- One client presses '1', the other presses '2'; the first gets its ping and the other's id. -/
def pingAndMessageAll : System CustomMsgTypes Bool × List (SystemEffect CustomMsgTypes Bool) :=
  ((machine CustomMsgTypes Bool).exec Sample init [] (joins false 7 ++ joins true 8 ++
    [.send false (pingServer 1), .client false .runTask, .client false (.put 0 8),
      .client false (.writeOk 0), .client false (.put 0 8), .client false (.writeOk 0),
      .send true messageAll, .client true .runTask, .client true (.put 0 8),
      .client true (.writeOk 0), .server (.conn false (.readOk 0 (pingServer 1).header.toBytes)),
      .server (.conn false (.readOk 0 (pingServer 1).body)),
      .server (.conn true (.readOk 0 messageAll.toBytes)), .server (.update (-1) false),
      .server (.user [.send (pingServer 1)]), .server (.user []), .server (.user []),
      .server (.user [.messageAllClients (msgOut 10001) true]), .server (.user []),
      .server (.user []), .server (.user []), .server (.user []), .server (.conn false .runTask),
      .server (.conn false .runTask), .server (.conn false (.put 0 8)),
      .server (.conn false (.writeOk 0)), .server (.conn false (.put 0 8)),
      .server (.conn false (.writeOk 0)), .server (.conn false (.put 0 8)),
      .server (.conn false (.writeOk 0)), .server (.conn false (.put 0 4)),
      .client false (.readOk 0 (pingServer 1).header.toBytes),
      .client false (.readOk 0 (pingServer 1).body),
      .client false (.readOk 0 (msgOut 10001).header.toBytes),
      .client false (.readOk 0 (msgOut 10001).body), .pop false, .pop false, .pop false])).get
    (by decide +kernel)

theorem sample_answers_pingAndMessageAll :
    popped false pingAndMessageAll.2 = [.withId .serverAccept, pingServer 1, msgOut 10001] ∧
      ((popped false pingAndMessageAll.2 = [] ∨
          ∃ q, popped false pingAndMessageAll.2 = .withId .serverAccept :: q ∧
            Answers pingAndMessageAll.1 pingAndMessageAll.2 false q) ∧
        ∀ m ∈ popped false pingAndMessageAll.2, (m.pull (pulled m.header.id)).isSome) :=
  ⟨by decide +kernel, sample_answers (.of_isSome _ _ : (machine CustomMsgTypes Bool).Run Sample
    init [] pingAndMessageAll.1 pingAndMessageAll.2) false⟩

end System

end AsioNetworking

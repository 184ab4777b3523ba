import AsioNetworking.Connection.Theorems
import Mathlib.Algebra.Order.BigOperators.Group.List

/-!
# Closed connections

What is outstanding when the socket is closed may still succeed, but whatever it starts is started on
a closed socket and fails. `pending` weighs what is outstanding; every handler that runs on a closed
connection lowers it.
-/

namespace AsioNetworking

open List

variable {T : Type} [IdType T]

namespace Connection

variable {c c' : Connection T} {h : List (Effect T)}

/-! ## What is outstanding -/

/-- The context runs a handler, or a lambda that was posted to it. -/
def isHandler : Event T → Bool
  | .send _ | .disconnect | .established | .put _ _ => false
  | _ => true

/-- An operation that can still succeed is followed by another one, which cannot. -/
def weight (live : Bool) : Nat := if live then 2 else 1

def Task.weight : Task T → Nat
  | .send _ => 2
  | .close => 1

/-- A bound on the handlers that a closed connection still runs. -/
def pending (c : Connection T) : Nat :=
  (c.posted.map Task.weight).sum + 2 * c.connecting.toNat +
    (c.reads.map fun op => weight op.live).sum + (c.writes.map fun op => weight op.live).sum

def liveReads (c : Connection T) : Nat := c.reads.countP (·.live)

def liveChain (c : Connection T) : Nat := c.writes.countP fun op => op.live && op.kind.isChain

omit [IdType T] in
theorem pending_le (c : Connection T) :
    c.pending ≤ 2 * (c.posted.length + 1 + c.reads.length + c.writes.length) := by
  have hw (live : Bool) : weight live ≤ 2 := by cases live <;> decide
  have hposted : (c.posted.map Task.weight).sum ≤ c.posted.length * 2 := by
    have := sum_le_card_nsmul (c.posted.map Task.weight) 2 fun n hn => by
      obtain ⟨task, -, rfl⟩ := mem_map.mp hn
      cases task <;> simp [Task.weight]
    simpa using this
  have hreads : (c.reads.map fun op => weight op.live).sum ≤ c.reads.length * 2 := by
    have := sum_le_card_nsmul (c.reads.map fun op => weight op.live) 2 fun n hn => by
      obtain ⟨op, -, rfl⟩ := mem_map.mp hn
      exact hw op.live
    simpa using this
  have hwrites : (c.writes.map fun op => weight op.live).sum ≤ c.writes.length * 2 := by
    have := sum_le_card_nsmul (c.writes.map fun op => weight op.live) 2 fun n hn => by
      obtain ⟨op, -, rfl⟩ := mem_map.mp hn
      exact hw op.live
    simpa using this
  have hcon := c.connecting.toNat_le
  simp only [pending]
  omega

/-! ## Handlers on a closed connection -/

/-- What a handler does on a closed connection: it starts at most one operation, which cannot
succeed, pushes at most `m` messages and pops at most `n`. -/
structure Ends (m n : Nat) (c : Connection T) (r : Result T) : Prop where
  closed : r.1.socketOpen = false
  posted : r.1.posted = c.posted
  connecting : r.1.connecting = c.connecting
  started : ∃ rs ws, r.1.reads = c.reads ++ rs ∧ r.1.writes = c.writes ++ ws ∧
    (∀ op ∈ rs, op.live = false) ∧ (∀ op ∈ ws, op.live = false) ∧ rs.length + ws.length ≤ 1
  pushes : (pushes r.2).length ≤ m
  pops : (pops r.2).length ≤ n
  put : putBytes r.2 = []

section

omit [IdType T]

theorem ends_startRead {kind size} (hcl : c.socketOpen = false) :
    Ends 0 0 c (c.startRead kind size) := by
  refine ⟨hcl, rfl, rfl, ⟨[⟨kind, size, false⟩], [], ?_, ?_, ?_⟩, le_rfl, le_rfl, rfl⟩
  · simp [hcl]
  · simp
  · simp

theorem ends_startWrite {kind bytes} (hcl : c.socketOpen = false) :
    Ends 0 0 c (c.startWrite kind bytes) := by
  refine ⟨hcl, rfl, rfl, ⟨[], [⟨kind, bytes, false⟩], ?_, ?_, ?_⟩, le_rfl, le_rfl, rfl⟩
  · simp
  · simp [hcl]
  · simp

theorem ends_quiet {m n o} {c₁ : Connection T} (hcl : c₁.socketOpen = false)
    (hp : c₁.posted = c.posted) (hc : c₁.connecting = c.connecting) (hr : c₁.reads = c.reads)
    (hw : c₁.writes = c.writes) (hpush : (AsioNetworking.pushes o).length ≤ m)
    (hpop : (AsioNetworking.pops o).length ≤ n) (hput : putBytes o = []) : Ends m n c (c₁, o) :=
  ⟨hcl, hp, hc, ⟨[], [], by simp [hr, hw]⟩, hpush, hpop, hput⟩

theorem Ends.mono {m n m' n' r} (he : Ends m n c r) (hm : m ≤ m') (hn : n ≤ n') : Ends m' n' c r :=
  { he with pushes := he.pushes.trans hm, pops := he.pops.trans hn }

theorem Ends.congr {m n c₁ r} (he : Ends m n c₁ r) (hp : c₁.posted = c.posted)
    (hc : c₁.connecting = c.connecting) (hr : c₁.reads = c.reads) (hw : c₁.writes = c.writes) :
    Ends m n c r := by
  refine ⟨he.closed, he.posted.trans hp, he.connecting.trans hc, ?_, he.pushes, he.pops, he.put⟩
  have := he.started
  rwa [hr, hw] at this

theorem Ends.andThen {m n} {f : Connection T → Result T} (he : Ends m n c (f c))
    (o : List (Effect T)) (hput : putBytes o = []) : Ends ((AsioNetworking.pushes o).length + m)
      ((AsioNetworking.pops o).length + n) c (Result.andThen (c, o) f) := by
  refine ⟨he.closed, he.posted, he.connecting, he.started, ?_, ?_, ?_⟩
  · have := he.pushes
    simp [Result.andThen, this]
  · have := he.pops
    simp [Result.andThen, this]
  · simp [Result.andThen, hput, he.put]

end

theorem ends_writeHeader (hcl : c.socketOpen = false) : Ends 0 0 c c.writeHeader := by
  unfold writeHeader
  split
  · exact ends_quiet hcl rfl rfl rfl rfl le_rfl le_rfl rfl
  · exact ends_startWrite hcl

omit [IdType T] in
theorem ends_writeBody (hcl : c.socketOpen = false) : Ends 0 0 c c.writeBody := by
  unfold writeBody
  split
  · exact ends_quiet hcl rfl rfl rfl rfl le_rfl le_rfl rfl
  · exact ends_startWrite hcl

theorem ends_popFront (hcl : c.socketOpen = false) : Ends 0 1 c c.popFront := by
  unfold popFront
  split
  · exact ends_quiet hcl rfl rfl rfl rfl le_rfl (Nat.zero_le _) rfl
  · rename_i m q _
    simp only
    split
    · exact ends_quiet hcl rfl rfl rfl rfl le_rfl le_rfl rfl
    · have hq : Ends 0 0 { c with qMessagesOut := q } (writeHeader { c with qMessagesOut := q }) :=
        ends_writeHeader hcl
      exact (hq.andThen [.pop m] rfl).congr rfl rfl rfl rfl

theorem ends_onWrite (kind : OpKind) (hcl : c.socketOpen = false) :
    Ends 0 (if kind.isChain then 1 else 0) c (onWrite kind c) := by
  cases kind with
  | validation =>
      rcases c.role with ho | ho <;> simp only [onWrite, onWriteValidation, ho]
      · exact ends_startRead hcl
      · exact ends_quiet hcl rfl rfl rfl rfl le_rfl le_rfl rfl
  | body => exact ends_popFront hcl
  | header =>
      simp only [onWrite, onWriteHeader, OpKind.isChain_header, if_true]
      split
      · exact ends_quiet hcl rfl rfl rfl rfl le_rfl (Nat.zero_le _) rfl
      · split
        · exact (ends_writeBody hcl).mono le_rfl (Nat.zero_le _)
        · exact ends_popFront hcl

theorem ends_addToIncoming (hcl : c.socketOpen = false) :
    Ends 1 0 c c.addToIncomingMessageQueue := by
  have hr : Ends 0 0 c c.readHeader := ends_startRead hcl
  unfold addToIncomingMessageQueue
  exact hr.andThen [.push _ _] rfl

omit [IdType T] in
theorem ends_readBody (hcl : c.socketOpen = false) : Ends 1 0 c c.readBody :=
  (ends_startRead hcl).mono (Nat.zero_le _) le_rfl

theorem ends_onReadValidation (bs : List UInt8) (hcl : c.socketOpen = false) :
    Ends 0 0 c (c.onReadValidation bs) := by
  unfold onReadValidation
  simp only
  split
  · exact (ends_startWrite (by exact hcl)).congr rfl rfl rfl rfl
  · split
    · have hr : Ends 0 0 { c with nHandshakeIn := uint64OfBytes bs } (readHeader _) :=
        ends_startRead hcl
      exact (hr.andThen [.onClientValidated] rfl).congr rfl rfl rfl rfl
    · exact ends_quiet rfl rfl rfl rfl rfl le_rfl le_rfl rfl

theorem ends_onRead (kind : OpKind) (bs : List UInt8) (hcl : c.socketOpen = false) :
    Ends 1 0 c (onRead kind bs c) := by
  cases kind with
  | validation => exact (ends_onReadValidation bs hcl).mono (Nat.zero_le _) le_rfl
  | header =>
      simp only [onRead, onReadHeader]
      split
      · exact (ends_readBody (by exact hcl)).congr rfl rfl rfl rfl
      · exact (ends_addToIncoming (by exact hcl)).congr rfl rfl rfl rfl
  | body => exact (ends_addToIncoming (by exact hcl)).congr rfl rfl rfl rfl

theorem ends_sendTask (msg : Message T) (hcl : c.socketOpen = false) :
    Ends 0 0 c (sendTask msg c) := by
  simp only [sendTask]
  split
  · have hw : Ends 0 0 { c with qMessagesOut := c.qMessagesOut ++ [msg] } (writeHeader _) :=
      ends_writeHeader hcl
    exact (hw.andThen [.run msg] rfl).congr rfl rfl rfl rfl
  · exact ends_quiet hcl rfl rfl rfl rfl le_rfl le_rfl rfl

/-! ## Steps of a closed connection -/

/-- A step of a closed connection. What still can succeed pays for what is pushed and popped, and
every handler lowers `pending`, unless a `Send` posts another task. -/
structure Drains (c c' : Connection T) (e : Event T) (o : List (Effect T)) : Prop where
  closed : c'.socketOpen = false
  put : putBytes o = []
  pushes : (pushes o).length + c'.liveReads ≤ c.liveReads
  pops : (pops o).length + c'.liveChain ≤ c.liveChain
  pending : (∀ msg, e ≠ .send msg) → c'.pending + (if isHandler e then 1 else 0) ≤ c.pending

section

omit [IdType T]

theorem sum_weight_dead {α : Type} {l : List α} {live : α → Bool} (hl : ∀ a ∈ l, live a = false) :
    (l.map fun a => weight (live a)).sum = l.length := by
  induction l with
  | nil => rfl
  | cons a l ih =>
      obtain ⟨ha, hl⟩ := forall_mem_cons.mp hl
      rw [map_cons, sum_cons, ih hl, ha, length_cons, Nat.add_comm]
      rfl

theorem Ends.liveReads {m n r} (he : Ends m n c r) : r.1.liveReads = c.liveReads := by
  obtain ⟨rs, ws, hr, -, hdead, -⟩ := he.started
  have hz : rs.countP (·.live) = 0 := countP_eq_zero.mpr fun op hop => by simp [hdead op hop]
  rw [Connection.liveReads, hr, countP_append, hz]
  rfl

theorem Ends.liveChain {m n r} (he : Ends m n c r) : r.1.liveChain = c.liveChain := by
  obtain ⟨rs, ws, -, hw, -, hdead, -⟩ := he.started
  have hz : ws.countP (fun op => op.live && op.kind.isChain) = 0 :=
    countP_eq_zero.mpr fun op hop => by simp [hdead op hop]
  rw [Connection.liveChain, hw, countP_append, hz]
  rfl

theorem Ends.pending {m n r} (he : Ends m n c r) : r.1.pending ≤ c.pending + 1 := by
  obtain ⟨rs, ws, hr, hw, hrs, hws, hlen⟩ := he.started
  simp only [Connection.pending, he.posted, he.connecting, hr, hw, map_append, sum_append,
    sum_weight_dead hrs, sum_weight_dead hws]
  omega

/-- A handler that has taken its operation or its task away, with the effects `o`. -/
theorem Ends.drains {m n e} {c₁ : Connection T} {r : Result T} (he : Ends m n c₁ r)
    (o : List (Effect T)) (hpush : AsioNetworking.pushes o = [])
    (hpop : AsioNetworking.pops o = []) (hput : putBytes o = [])
    (hr : m + c₁.liveReads ≤ c.liveReads) (hw : n + c₁.liveChain ≤ c.liveChain)
    (hp : c₁.pending + 2 ≤ c.pending) : Drains c r.1 e (o ++ r.2) := by
  have h1 := he.pushes
  have h2 := he.pops
  have h3 := he.pending
  refine ⟨he.closed, ?_, ?_, ?_, fun _ => ?_⟩
  · rw [putBytes_append, hput, he.put, nil_append]
  · rw [pushes_append, hpush, nil_append, he.liveReads]
    omega
  · rw [pops_append, hpop, nil_append, he.liveChain]
    omega
  · split <;> omega

theorem drains_quiet {e o} (hcl : c'.socketOpen = false) (hpush : AsioNetworking.pushes o = [])
    (hpop : AsioNetworking.pops o = []) (hput : putBytes o = []) (hr : c'.liveReads ≤ c.liveReads)
    (hw : c'.liveChain ≤ c.liveChain)
    (hp : (∀ msg, e ≠ .send msg) → c'.pending + (if isHandler e then 1 else 0) ≤ c.pending) :
    Drains c c' e o :=
  ⟨hcl, hput, by rw [hpush]; simpa using hr, by rw [hpop]; simpa using hw, hp⟩

end

theorem Step.drains {e o} (hs : Step c e c' o) (hcl : c.socketOpen = false) : Drains c c' e o := by
  cases hs with
  | send msg => exact drains_quiet hcl rfl rfl rfl le_rfl le_rfl fun h => absurd rfl (h msg)
  | disconnect hop => rw [hcl] at hop; cases hop
  | disconnectClosed _ => exact drains_quiet hcl rfl rfl rfl le_rfl le_rfl fun _ => le_rfl
  | runTask task tasks hp =>
      cases task with
      | close =>
          refine drains_quiet rfl rfl rfl rfl le_rfl le_rfl fun _ => ?_
          simp only [Connection.runTask, close, pending, hp, map_cons, sum_cons, Task.weight,
            isHandler, if_true]
          omega
      | send msg =>
          have hsend : Ends 0 0 { c with posted := tasks }
              (Connection.runTask (.send msg) { c with posted := tasks }) := ends_sendTask msg hcl
          apply hsend.drains [] rfl rfl rfl
          · simp [liveReads]
          · simp [liveChain]
          · simp only [pending, hp, map_cons, sum_cons, Task.weight]
            omega
  | established _ hop => rw [hcl] at hop; cases hop
  | connected hcon _ =>
      have hread : Ends 0 0 { c with connecting := false }
          (readValidation { c with connecting := false }) :=
        ends_startRead hcl
      apply hread.drains [] rfl rfl rfl
      · simp [liveReads]
      · simp [liveChain]
      · simp only [pending, hcon, Bool.toNat_true, Bool.toNat_false]
        omega
  | connectFailed hcon =>
      refine drains_quiet rfl rfl rfl rfl le_rfl le_rfl fun _ => ?_
      simp only [close, pending, hcon, isHandler, Bool.toNat_true, Bool.toNat_false, if_true]
      omega
  | @readOk op l₁ l₂ bs hr hlive _ =>
      have hread : Ends 1 0 { c with reads := l₁ ++ l₂ }
          (onRead op.kind bs { c with reads := l₁ ++ l₂ }) :=
        ends_onRead op.kind bs hcl
      apply hread.drains [.took op.kind bs] rfl rfl rfl
      · simp only [liveReads, hr, countP_append, countP_cons, hlive, if_true]
        omega
      · simp [liveChain]
      · simp only [pending, hr, map_append, map_cons, sum_append, sum_cons, hlive, weight, if_true]
        omega
  | @readFail op l₁ l₂ bs hr _ =>
      have hw : 1 ≤ weight op.live := by cases op.live <;> decide
      refine drains_quiet rfl rfl rfl rfl ?_ le_rfl fun _ => ?_
      · simp only [close, liveReads, hr, countP_append, countP_cons]
        omega
      · simp only [close, pending, hr, map_append, map_cons, sum_append, sum_cons, isHandler, if_true]
        omega
  | put _ _ _ _ _ hop => rw [hcl] at hop; cases hop
  | @writeOk op l₁ l₂ hw hlive _ =>
      have hwrite : Ends 0 _ { c with writes := l₁ ++ l₂ }
          (onWrite op.kind { c with writes := l₁ ++ l₂ }) :=
        ends_onWrite op.kind hcl
      apply hwrite.drains [.wrote op.kind] rfl rfl rfl
      · simp [liveReads]
      · simp only [liveChain, hw, countP_append, countP_cons, hlive, Bool.true_and]
        omega
      · simp only [pending, hw, map_append, map_cons, sum_append, sum_cons, hlive, weight, if_true]
        omega
  | @writeFail op l₁ l₂ hw =>
      have hweight : 1 ≤ weight op.live := by cases op.live <;> decide
      refine drains_quiet rfl rfl rfl rfl le_rfl ?_ fun _ => ?_
      · simp only [close, liveChain, hw, countP_append, countP_cons]
        omega
      · simp only [close, pending, hw, map_append, map_cons, sum_append, sum_cons, isHandler, if_true]
        omega

/-! ## Runs of a closed connection -/

theorem exec_drains (es : List (Event T)) {h'} (hcl : c.socketOpen = false)
    (he : (machine T).exec Mealy.free c h es = some (c', h')) :
    c'.socketOpen = false ∧ putBytes h' = putBytes h ∧
      (pushes h').length + c'.liveReads ≤ (pushes h).length + c.liveReads ∧
      (pops h').length + c'.liveChain ≤ (pops h).length + c.liveChain ∧
      ((∀ msg, .send msg ∉ es) → c'.pending + es.countP isHandler ≤ c.pending) := by
  induction es generalizing c h with
  | nil => cases he; exact ⟨hcl, rfl, le_rfl, le_rfl, fun _ => le_rfl⟩
  | cons e es ih =>
      simp only [Mealy.exec, if_true] at he
      split at he
      · cases he
      · rename_i c₁ o hn
        obtain ⟨hcl₁, hput, hpush, hpop, hpend⟩ := (next_step hn).drains hcl
        obtain ⟨h1, h2, h3, h4, h5⟩ := ih hcl₁ he
        rw [putBytes_append, hput, append_nil] at h2
        rw [pushes_append, length_append] at h3
        rw [pops_append, length_append] at h4
        refine ⟨h1, h2, by omega, by omega, fun hns => ?_⟩
        have hhead := hpend fun msg hmsg => hns msg (hmsg ▸ mem_cons_self)
        have htail := h5 fun msg hmem => hns msg (mem_cons_of_mem _ hmem)
        rw [countP_cons]
        omega

/-- A handler can run exactly as long as something is pending. -/
theorem busy_iff_handler :
    c.busy = true ↔ ∃ e, isHandler e = true ∧ (c.next e).isSome = true := by
  constructor
  · intro hb
    simp only [busy, Bool.or_eq_true, Bool.not_eq_true', isEmpty_eq_false_iff] at hb
    rcases hb with ((hp | hr) | hw) | hcon
    · obtain ⟨task, tasks, hp⟩ := exists_cons_of_ne_nil hp
      exact ⟨.runTask, rfl, by simp [next, hp]⟩
    · obtain ⟨op, ops, hr⟩ := exists_cons_of_ne_nil hr
      exact ⟨.readFail 0 [], rfl, by simp [next, hr]⟩
    · obtain ⟨op, ops, hw⟩ := exists_cons_of_ne_nil hw
      exact ⟨.writeFail 0, rfl, by simp [next, hw]⟩
    · exact ⟨.onConnect false, rfl, by simp [next, hcon]⟩
  · rintro ⟨e, hh, hn⟩
    obtain ⟨r, hn⟩ := Option.isSome_iff_exists.mp hn
    exact busy_of_next hn (fun _ he => by subst he; cases hh) (fun he => by subst he; cases hh)

theorem Chain.length_le {q w f p s} (hc : Chain (T := T) q w f p s) : w.length ≤ 1 := by
  cases hc <;> simp

/-- Whatever closed the socket of a connection, it stays closed; at most one more message is pushed
and one popped, no byte is put on the wire, and, when nothing more is sent, at most two handlers run
for each task and operation outstanding, and nothing is pending when no handler can run. -/
theorem closed_quiesces {c₀ : Connection T} {h₀ h'} (hs : Start c₀ h₀)
    (hr : (machine T).Run Mealy.free c₀ h₀ c h) (hcl : c.socketOpen = false) (es : List (Event T))
    (he : (machine T).exec Mealy.free c [] es = some (c', h')) :
    c'.socketOpen = false ∧ (pushes h').length ≤ 1 ∧ (pops h').length ≤ 1 ∧ putBytes h' = [] ∧
      ((∀ msg, .send msg ∉ es) → es.countP isHandler ≤
        2 * (c.posted.length + 1 + c.reads.length + c.writes.length)) ∧
      (c'.busy = true ↔ ∃ e, isHandler e = true ∧ (c'.next e).isSome = true) := by
  obtain ⟨hcl', hput, hpush, hpop, hpend⟩ := exec_drains es hcl he
  have hreads : c.liveReads ≤ 1 := countP_le_length.trans (hs.run_readInv hr).reading.reads.1
  have hchain : c.liveChain ≤ 1 := by
    obtain ⟨-, -, -, -, p, s, hc, -⟩ := hs.run_chainInv hr
    refine le_trans ?_ hc.length_le
    rw [liveChain, chainWrites, ← countP_eq_length_filter]
    exact countP_mono_left fun op _ hop => (Bool.and_eq_true_iff.mp hop).2
  simp only [pushes, pops, length_nil, putBytes] at hpush hpop hput
  refine ⟨hcl', by omega, by omega, hput, fun hns => ?_, busy_iff_handler⟩
  have := hpend hns
  have := pending_le c
  omega

/-- A server connection closes itself while the header of a frame, its nonce and a message are under
way. -/
def closing : Result UInt32 :=
  ((machine UInt32).exec Mealy.free (accepted 7 [⟨⟨0, 0⟩, []⟩] true 10000).1
    (accepted 7 [⟨⟨0, 0⟩, []⟩] true 10000).2
    [.readOk 0 (uint64Bytes (scramble 7)), .disconnect, .runTask, .runTask]).get (by decide +kernel)

/-- The header had been read when the socket closed. -/
def lastHandlers : List (Event UInt32) :=
  [.readOk 0 [1, 0, 0, 0, 8, 0, 0, 0], .readFail 0 [], .writeFail 0, .writeFail 0]

def quiesced : Result UInt32 :=
  ((machine UInt32).exec Mealy.free closing.1 [] lastHandlers).get (by decide +kernel)

theorem closed_quiesces_lastHandlers :
    (pushes quiesced.2).length ≤ 1 ∧ putBytes quiesced.2 = [] ∧
      lastHandlers.countP isHandler ≤ 2 * (closing.1.posted.length + 1 +
        closing.1.reads.length + closing.1.writes.length) := by
  have he : (machine UInt32).exec Mealy.free closing.1 [] lastHandlers =
      some (quiesced.1, quiesced.2) := (Option.some_get (by decide +kernel)).symm
  obtain ⟨-, hpush, -, hput, hbound, -⟩ := closed_quiesces (.server 7 [⟨⟨0, 0⟩, []⟩] true 10000)
    (.of_isSome _ _ : (machine UInt32).Run Mealy.free _ _ closing.1 closing.2)
    (by decide +kernel) lastHandlers he
  exact ⟨hpush, hput, hbound (by simp [lastHandlers])⟩

end Connection

end AsioNetworking

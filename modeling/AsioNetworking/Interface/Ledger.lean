import AsioNetworking.Interface.Cleanup

/-!
# The account of the clients

An approved client is in `m_dqConnections` until it is reported: none is lost, and none is counted
twice.
-/

namespace AsioNetworking

open List

variable {T ι : Type} [DecidableEq ι] [IdType T]

namespace Server

/-- How often the client `i` was approved. -/
def approvals (i : ι) (h : List (ServerEffect T ι)) : Nat := ((approved h).map (·.1)).count i

instance (s : Server T ι) (h : List (ServerEffect T ι)) : DecidablePred (ForConnected s h)
  | .messageClient (some i) _ =>
      decidable_of_iff (s.isConnected i = true) (by simp [ForConnected])
  | .messageClient none _ => .isFalse (by simp [ForConnected])
  | .server _ | .acceptError => .isTrue trivial

structure LedgerInv (s : Server T ι) (h : List (ServerEffect T ι)) : Prop where
  registry : RegistryInv s h
  nulls : Nulls s
  balance : ∀ i, s.dqConnections.count (some i) + reports i h = approvals i h
  closed : ∀ i, 0 < reports i h → s.isConnected i = false

section

omit [IdType T]

variable {s : Server T ι} {h : List (ServerEffect T ι)} (i : ι)

theorem approvals_append (h o : List (ServerEffect T ι)) :
    approvals i (h ++ o) = approvals i h + approvals i o := by
  rw [approvals, approved_append, map_append, count_append]
  rfl

theorem approvals_map_conn (j : ι) (o : List (Effect T)) : approvals i (o.map (.conn j)) = 0 := by
  rw [approvals, approved_map_conn]
  rfl

theorem LedgerInv.init : LedgerInv (T := T) (ι := ι) init [] :=
  ⟨.init, .idle (by simp [Server.init]) (by simp [Server.init]), fun _ => rfl,
    fun _ hpos => by cases hpos⟩

theorem RegistryInv.approvals_le (hi : RegistryInv s h) : approvals i h ≤ 1 :=
  nodup_iff_count_le_one.mp hi.once i

variable {i}

theorem RegistryInv.there (hi : RegistryInv s h) (hpos : 0 < approvals i h) :
    ∃ c, s.conns i = some c := by
  obtain ⟨p, hp, rfl⟩ := mem_map.mp (count_pos_iff.mp hpos)
  obtain ⟨c, hc, -⟩ := hi.known p hp
  exact ⟨c, hc⟩

end

variable {s s' : Server T ι} {h o : List (ServerEffect T ι)} {i : ι}

/-- A connection that is there is open after a step only if it was open before. -/
theorem InterfaceStep.isConnected {e} (hs : InterfaceStep s e s' o) (hc : s.conns i ≠ none)
    (hopen : s'.isConnected i = true) : s.isConnected i = true := by
  obtain ⟨c', hc', hopen⟩ := isConnected_iff.mp hopen
  obtain ⟨e', hstep⟩ := hs.conn_step i
  generalize hist i o = oi at hstep
  generalize nonces i o = ns at hstep
  cases hstep with
  | idle hsame => exact isConnected_iff.mpr ⟨c', hsame ▸ hc', hopen⟩
  | accept _ _ _ _ hnone _ => exact absurd hnone hc
  | step ce c₁ c₂ _ hc₁ _ hn hc₂ =>
      rw [hc'] at hc₂
      cases hc₂
      exact isConnected_iff.mpr ⟨c₁, hc₁, (Connection.next_writeStep hn).isOpen hopen⟩

/-- What a step adds to `m_dqConnections` it approves, and what it takes out it reports. -/
theorem InterfaceStep.balance {e} (hs : InterfaceStep s e s' o) (hn : Nulls s)
    (hg : ForConnected s h e) (i : ι) :
    s'.dqConnections.count (some i) + reports i o =
      s.dqConnections.count (some i) + approvals i o := by
  cases hs with
  | acceptError => rfl
  | send j msg c r _ _ _ => rw [reports_map_conn, approvals_map_conn]; rfl
  | disconnected client msg _ hclosed =>
      -- `MessageClient` is not called for a client that is closed
      obtain ⟨j, rfl, hcon⟩ := hg
      obtain ⟨c, hc, hcl⟩ := hclosed j rfl
      rw [isConnected_eq_false hc (by simp [hcl])] at hcon
      cases hcon
  | server hs =>
      cases hs with
      | accept j nonce sends approve _ =>
          have hrep : reports i (s.accept j nonce sends approve).2 = 0 := by
            rw [accept_effects, reports_append, reports_map_conn]
            rfl
          rw [hrep, approvals, approved_accept]
          cases approve with
          | false => rfl
          | true => by_cases hij : j = i <;> simp [Server.accept, count_append, hij]
      | conn => rw [reports_map_conn, approvals_map_conn]; rfl
      | call => rw [reports_map_conn, approvals_map_conn]; rfl
      | tell => rw [reports_map_conn, approvals_map_conn]; rfl
      | drop calls k n msg ign b tasks client hu _ hd =>
          cases client with
          | none => exact absurd hd ((hn.visit hu).2.1 k le_rfl)
          | some j =>
              obtain ⟨l₁, l₂, hl, -, hset, -⟩ := exists_split_of_getElem? hd
              rw [reports_disconnect]
              show (s.dqConnections.set k none).count (some i) + _ = _ + 0
              rw [hset, hl]
              by_cases hij : j = i <;> simp [count_append, hij]
              omega
      | erase calls k n msg ign b tasks =>
          cases b with
          | true =>
              show (s.dqConnections.filter _).count (some i) + 0 = _ + 0
              rw [count_filter rfl]
          | false => rfl
      | _ => rfl

/-- Only a client that is there and closed is reported. -/
theorem InterfaceStep.closed_of_reports {e} (hs : InterfaceStep s e s' o) (hpos : 0 < reports i o) :
    ∃ c, s.conns i = some c ∧ c.socketOpen = false := by
  have of_client {client : Option ι} (hpos : 0 < reports (T := T) i [.onClientDisconnect client]) :
      client = some i := by
    rw [reports_disconnect] at hpos
    by_contra hne
    rw [if_neg hne] at hpos
    cases hpos
  cases hs with
  | acceptError => cases hpos
  | send => simp at hpos
  | disconnected client msg _ hclosed => exact hclosed i (of_client hpos)
  | server hs =>
      cases hs with
      | accept =>
          rw [accept_effects, reports_append, reports_map_conn] at hpos
          cases hpos
      | conn => simp at hpos
      | call => simp at hpos
      | tell => simp at hpos
      | drop _ _ _ _ _ _ _ client _ _ _ hclosed => exact hclosed i (of_client hpos)
      | _ => cases hpos

theorem LedgerInv.step {e} (hi : LedgerInv s h) (hg : ForConnected s h e)
    (hs : InterfaceStep s e s' o) : LedgerInv s' (h ++ o) := by
  refine ⟨hi.registry.step hs.registryStep, hi.nulls.step hs, fun i => ?_, fun i hpos => ?_⟩
  · have hold := hi.balance i
    have hnew := hs.balance hi.nulls hg i
    rw [reports_append, approvals_append]
    omega
  · -- a client that is reported is there, and its socket stays closed
    have hclosed : s.conns i ≠ none ∧ s.isConnected i = false := by
      rw [reports_append] at hpos
      by_cases hold : 0 < reports i h
      · have happ : 0 < approvals i h := by
          have := hi.balance i
          omega
        obtain ⟨c, hc⟩ := hi.registry.there happ
        exact ⟨by simp [hc], hi.closed i hold⟩
      · obtain ⟨c, hc, hcl⟩ := hs.closed_of_reports (show 0 < reports i o by omega)
        exact ⟨by simp [hc], isConnected_eq_false hc (by simp [hcl])⟩
    by_contra hopen
    have hcon := hs.isConnected hclosed.1 (by simpa using hopen)
    rw [hclosed.2] at hcon
    cases hcon

/-! ## Runs -/

/-- In every run where `MessageClient` is called only for connected clients, an approved client is in
`m_dqConnections` once until it is reported, and is reported once, after its socket was closed; a
client that was not approved is neither there nor reported. -/
theorem accounted (hr : (interface T ι).Run ForConnected init [] s h) (i : ι) :
    s.dqConnections.count (some i) + reports i h = approvals i h ∧ approvals i h ≤ 1 ∧
      (0 < reports i h → s.isConnected i = false) := by
  have hi : LedgerInv s h :=
    hr.invariant .init fun s h e s' o hi hg hn => hi.step hg (next_interfaceStep hn)
  exact ⟨hi.balance i, hi.registry.approvals_le i, hi.closed i⟩

/-- Two clients are approved and one is denied; the first is closed, and a broadcast reports it. -/
def reported : Server UInt32 Nat × List (ServerEffect UInt32 Nat) :=
  ((interface UInt32 Nat).exec ForConnected init [] [.server (.accept 0 7 [] true),
    .server (.accept 1 8 [] true), .server (.accept 2 9 [] false), .server (.conn 0 .disconnect),
    .server (.conn 0 .runTask), .messageClient (some 1) ⟨⟨1, 8⟩, []⟩,
    .server (.messageAllClients ⟨⟨2, 8⟩, []⟩), .server (.user []), .server (.user []),
    .server (.user [])]).get (by decide +kernel)

theorem accounted_reported : reported.1.dqConnections = [some 1] ∧
    reports 0 reported.2 = 1 ∧ (0 < reports 0 reported.2 → reported.1.isConnected 0 = false) :=
  ⟨by decide +kernel, by decide +kernel, (accounted (.of_isSome _ _ :
    (interface UInt32 Nat).Run ForConnected init [] reported.1 reported.2) 0).2.2⟩

end Server

end AsioNetworking

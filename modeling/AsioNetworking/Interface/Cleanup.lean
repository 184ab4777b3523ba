import AsioNetworking.Interface.Registry
import AsioNetworking.Server.Broadcast

/-!
# Disconnected clients

`MessageAllClients` takes a disconnected client out of `m_dqConnections` when it reports it.
`MessageClient` reports one too, but resets its `shared_ptr` before it looks for it in the list, and
so leaves the client there.
-/

namespace AsioNetworking

open List

variable {T ι : Type} [DecidableEq ι] [IdType T]

namespace Server

/-- How often `OnClientDisconnect` was called for the client `i`. -/
def reports (i : ι) (h : List (ServerEffect T ι)) : Nat :=
  h.countP fun
    | .onClientDisconnect client => client = some i
    | _ => false

section

omit [IdType T]

variable (i j : ι) (h o : List (ServerEffect T ι))

@[simp] theorem reports_append : reports i (h ++ o) = reports i h + reports i o := countP_append

@[simp] theorem reports_map_conn (o : List (Effect T)) : reports i (o.map (.conn j)) = 0 := by
  induction o <;> simp_all [reports]

theorem reports_disconnect (client : Option ι) :
    reports (T := T) i [.onClientDisconnect client] = if client = some i then 1 else 0 := by
  by_cases hc : client = some i <;> simp [reports, hc]

end

/-- `MessageClient` is called for a client in `m_dqConnections`. -/
def Registered (s : Server T ι) : InterfaceEvent T ι → Prop
  | .messageClient client _ => client ∈ s.dqConnections
  | _ => True

instance (s : Server T ι) (e : InterfaceEvent T ι) : Decidable (Registered s e) := by
  unfold Registered
  split <;> infer_instance

def registeredCalls (T ι : Type) [DecidableEq ι] [IdType T] :
    Mealy (Server T ι) (InterfaceEvent T ι) (ServerEffect T ι) := (interface T ι).restrict Registered

/-- No client is reported twice, or reported and still in `m_dqConnections`. -/
def ReportedOnce (s : Server T ι) (h : List (ServerEffect T ι)) : Prop :=
  ∀ i, reports i h ≤ 1 ∧ (some i ∈ s.dqConnections → reports i h = 0)

/-- `MessageClient` is called for a connected client. -/
def ForConnected (s : Server T ι) (_ : List (ServerEffect T ι)) : InterfaceEvent T ι → Prop
  | .messageClient client _ => ∃ i, client = some i ∧ s.isConnected i = true
  | _ => True

/-! ## One report each -/

/-- What holds in every run: only clients that are there are reported. -/
structure ReportInv (s : Server T ι) (h : List (ServerEffect T ι)) : Prop where
  registry : RegistryInv s h
  nulls : Nulls s
  there : ∀ i, 0 < reports i h → (s.conns i).isSome = true

variable {s s' : Server T ι} {h o : List (ServerEffect T ι)}

/-- What a step reports, and whom it leaves in `m_dqConnections`. -/
inductive ReportStep (s s' : Server T ι) : InterfaceEvent T ι → List (ServerEffect T ι) → Prop where
  | quiet {e o} : (∀ i, reports i o = 0) → (∀ h, ForConnected s h e) →
      (∀ i, some i ∈ s'.dqConnections → some i ∈ s.dqConnections ∨ s.conns i = none) →
      ReportStep s s' e o
  | dropped {e} (j) : (∀ h, ForConnected s h e) → some j ∈ s.dqConnections →
      (∀ i, some i ∈ s'.dqConnections → some i ∈ s.dqConnections ∧ i ≠ j) →
      ReportStep s s' e [.onClientDisconnect (some j)]
  | kept (j msg) : s.isConnected j = false → some j ∈ s.dqConnections → some j ∈ s'.dqConnections →
      ReportStep s s' (.messageClient (some j) msg) [.onClientDisconnect (some j)]

theorem InterfaceStep.reportStep {e} (hi : ReportInv s h) (hr : Registered s e)
    (hs : InterfaceStep s e s' o) : ReportStep s s' e o := by
  -- a step that reports nobody and adds no client
  have quiet (ho : ∀ i, reports i o = 0) (hg : ∀ h, ForConnected s h e)
      (hd : s'.dqConnections ⊆ s.dqConnections) : ReportStep s s' e o :=
    .quiet ho hg fun i hm => .inl (hd hm)
  cases hs with
  | acceptError => exact quiet (fun _ => rfl) (fun _ => trivial) (Subset.refl _)
  | send i msg c r hc hopen =>
      exact quiet (fun j => reports_map_conn j i _)
        (fun _ => ⟨i, rfl, isConnected_iff.mpr ⟨c, hc, hopen⟩⟩) (Subset.refl _)
  | disconnected client msg hu hclosed =>
      cases client with
      | none => exact absurd hr (hi.nulls.inUserCode hu).2
      | some j =>
          obtain ⟨c, hc, hcl⟩ := hclosed j rfl
          refine .kept j msg ?_ hr ?_
          · exact isConnected_eq_false hc (by simp [hcl])
          · exact mem_filter.mpr ⟨hr, by simp⟩
  | server hs =>
      cases hs with
      | accept i nonce sends approve hnone =>
          refine .quiet (fun j => ?_) (fun _ => trivial) fun j hm => ?_
          · rw [accept_effects, reports_append, reports_map_conn]
            rfl
          · cases approve with
            | false => exact .inl hm
            | true =>
                rcases mem_append.mp hm with hm | hm
                · exact .inl hm
                · cases mem_singleton.mp hm
                  exact .inr hnone
      | conn => exact quiet (fun j => reports_map_conn j _ _) (fun _ => trivial) (Subset.refl _)
      | call => exact quiet (fun j => reports_map_conn j _ _) (fun _ => trivial) (Subset.refl _)
      | tell => exact quiet (fun j => reports_map_conn j _ _) (fun _ => trivial) (Subset.refl _)
      | drop calls k n msg ign b tasks client hu _ hd =>
          obtain ⟨l₁, l₂, hl, -, hset, -⟩ := exists_split_of_getElem? hd
          cases client with
          | none => exact absurd hd ((hi.nulls.visit hu).2.1 k le_rfl)
          | some j =>
              refine .dropped j (fun _ => trivial) (mem_of_getElem? hd) fun i hm => ?_
              have hcount := hi.registry.count j
              simp only [hset, mem_append, mem_cons, reduceCtorEq, false_or] at hm
              rw [hl, count_append, count_cons_self] at hcount
              refine ⟨by rcases hm with hm | hm <;> simp [hl, hm], ?_⟩
              rintro rfl
              rcases hm with hm | hm
              · have := count_pos_iff.mpr hm
                omega
              · have := count_pos_iff.mpr hm
                omega
      | erase calls k n msg ign b tasks =>
          refine quiet (fun _ => rfl) (fun _ => trivial) ?_
          cases b with
          | true => exact fun _ hx => mem_of_mem_filter hx
          | false => exact Subset.refl _
      | _ => exact quiet (fun _ => rfl) (fun _ => trivial) (Subset.refl _)

omit [IdType T] in
theorem ReportInv.init : ReportInv (T := T) (ι := ι) init [] :=
  ⟨.init, .idle (by simp [Server.init]) (by simp [Server.init]), fun _ hpos => by cases hpos⟩

theorem ReportInv.step {e} (hi : ReportInv s h) (hr : Registered s e)
    (hs : InterfaceStep s e s' o) : ReportInv s' (h ++ o) := by
  refine ⟨hi.registry.step hs.registryStep, hi.nulls.step hs, fun i hpos => ?_⟩
  have stays {j : ι} (hj : (s.conns j).isSome = true) : (s'.conns j).isSome = true := by
    obtain ⟨c, hc⟩ := Option.isSome_iff_exists.mp hj
    obtain ⟨c', hc', -⟩ := hs.sameId hc
    rw [hc']
    rfl
  have registered {j : ι} (hj : some j ∈ s.dqConnections) : (s'.conns j).isSome = true := by
    obtain ⟨uid, hu⟩ := hi.registry.registered j hj
    obtain ⟨c, hc, -⟩ := hi.registry.known _ hu
    exact stays (by rw [hc]; rfl)
  rw [reports_append] at hpos
  cases hs.reportStep hi hr with
  | quiet hz _ _ =>
      rw [hz, Nat.add_zero] at hpos
      exact stays (hi.there i hpos)
  | dropped j _ hj _ =>
      by_cases hij : j = i
      · exact registered (hij ▸ hj)
      · rw [reports_disconnect, if_neg (by simpa using hij), Nat.add_zero] at hpos
        exact stays (hi.there i hpos)
  | kept j msg _ hj _ =>
      by_cases hij : j = i
      · exact registered (hij ▸ hj)
      · rw [reports_disconnect, if_neg (by simpa using hij), Nat.add_zero] at hpos
        exact stays (hi.there i hpos)

theorem ReportInv.reportedOnce_iff {e} (hi : ReportInv s h) (hp : ReportedOnce s h)
    (hr : Registered s e) (hs : InterfaceStep s e s' o) :
    ReportedOnce s' (h ++ o) ↔ ForConnected s h e := by
  cases hs.reportStep hi hr with
  | quiet hz hg hd =>
      refine iff_of_true (fun i => ?_) (hg h)
      rw [reports_append, hz, Nat.add_zero]
      refine ⟨(hp i).1, fun hm => ?_⟩
      rcases hd i hm with hm | hnone
      · exact (hp i).2 hm
      · by_contra hne
        have hsome := hi.there i (Nat.pos_of_ne_zero hne)
        rw [hnone] at hsome
        cases hsome
  | dropped j hg hj hd =>
      refine iff_of_true (fun i => ?_) (hg h)
      rw [reports_append, reports_disconnect]
      by_cases hij : j = i
      · subst hij
        rw [if_pos rfl, (hp j).2 hj]
        exact ⟨le_rfl, fun hm => absurd rfl (hd j hm).2⟩
      · rw [if_neg (by simpa using hij), Nat.add_zero]
        exact ⟨(hp i).1, fun hm => (hp i).2 (hd i hm).1⟩
  | kept j msg hcon hj hj' =>
      apply iff_of_false
      · intro hp'
        have hz := (hp' j).2 hj'
        rw [reports_append, reports_disconnect, if_pos rfl] at hz
        omega
      · rintro ⟨i, hi', hcon'⟩
        cases hi'
        rw [hcon] at hcon'
        cases hcon'

theorem reportedOnce_iff (es : List (InterfaceEvent T ι)) :
    (registeredCalls T ι).Always ReportedOnce init [] es ↔
      (registeredCalls T ι).Along ForConnected init [] es := by
  refine Mealy.always_iff_along (I := ReportInv) ?_ ?_ es .init ?_
  · intro s h e s' o hi hn
    obtain ⟨hr, hn⟩ := Mealy.restrict_eq_some hn
    exact hi.step hr (next_interfaceStep hn)
  · intro s h e s' o hi hp hn
    obtain ⟨hr, hn⟩ := Mealy.restrict_eq_some hn
    exact hi.reportedOnce_iff hp hr (next_interfaceStep hn)
  · exact fun i => ⟨Nat.zero_le _, fun hm => by cases hm⟩

/-! ## One call -/

/-- What `MessageClient` is to do: post the message to a connected client, report a disconnected one
and take it out of `m_dqConnections`. -/
def cleanUp (i : ι) (l : List ι) (msg : Message T) (s : Server T ι) :
    Server T ι × List (ServerEffect T ι) :=
  if s.isConnected i then (s.post msg [i], [.conn i (.send msg)])
  else ({ s with dqConnections := (l.erase i).map some }, [.onClientDisconnect (some i)])

theorem messageClient_eq {i : ι} {l : List ι} (hd : s.dqConnections = l.map some)
    (hc : (s.conns i).isSome = true) (hu : s.inUserCode = true) (msg : Message T) :
    s.nextInterface (.messageClient (some i) msg) =
      some (if s.isConnected i then (s.post msg [i], [.conn i (.send msg)])
        else (s, [.onClientDisconnect (some i)])) := by
  obtain ⟨c, hci⟩ := Option.isSome_iff_exists.mp hc
  have hkeep : s.dqConnections.filter (· ≠ none) = s.dqConnections := by
    simp [hd]
  simp only [nextInterface, if_pos hu, messageClient, hci, hkeep]
  by_cases hopen : c.socketOpen = true
  · rw [if_pos hopen, if_pos (isConnected_iff.mpr ⟨c, hci, hopen⟩), onConn_send hc]
  · rw [if_neg hopen, isConnected_eq_false hci hopen]
    rfl

omit [IdType T] in
theorem reports_tell (j : ι) (l : List ι) (msg : Message T) (ign : Option ι) :
    reports j (l.flatMap (s.tell msg ign)) = (l.filter fun i => !s.isConnected i).count j := by
  induction l with
  | nil => rfl
  | cons i l ih =>
      rw [flatMap_cons, reports_append, ih, tell]
      by_cases hcon : s.isConnected i = true
      · by_cases hign : some i = ign <;> simp [hcon, hign, reports]
      · have hcon : s.isConnected i = false := by simpa using hcon
        rw [if_neg (by simp [hcon]), reports_disconnect, filter_cons_of_pos (by simp [hcon]), count_cons]
        by_cases hij : i = j <;> simp [hij, Nat.add_comm]

section

variable {i : ι} {l : List ι} (hdead : s.isConnected i = false)
  (hlive : ∀ j ∈ l, j ≠ i → s.isConnected j = true)

include hdead hlive

omit [DecidableEq ι] [IdType T] in
/-- `i` is the only disconnected client. -/
theorem connected_iff_ne {j : ι} (hj : j ∈ l) : s.isConnected j = true ↔ j ≠ i := by
  refine ⟨?_, hlive j hj⟩
  rintro hcon rfl
  rw [hdead] at hcon
  cases hcon

omit [IdType T] in
/-- `MessageAllClients` takes the only disconnected client out and reports it. -/
theorem sweep_only (hnd : l.Nodup) (hi : i ∈ l) (msg : Message T) (ign : Option ι) :
    (s.swept msg ign l).dqConnections = (l.erase i).map some ∧
      ∀ j, reports j (l.flatMap (s.tell msg ign)) = reports (T := T) j [.onClientDisconnect (some i)] := by
  constructor
  · rw [hnd.erase_eq_filter]
    apply congrArg (map some)
    apply filter_congr
    intro j hj
    rw [Bool.eq_iff_iff, connected_iff_ne hdead hlive hj, bne_iff_ne]
  · intro j
    have hone : (l.filter fun k => !s.isConnected k) = l.filter fun k => k == i := by
      apply filter_congr
      intro k hk
      rw [Bool.eq_iff_iff, Bool.not_eq_true', ← Bool.not_eq_true, connected_iff_ne hdead hlive hk,
        not_not, beq_iff_eq]
    rw [reports_tell, reports_disconnect, hone]
    by_cases hij : i = j
    · subst hij
      simp [count_filter, count_eq_one_of_mem hnd hi]
    · rw [if_neg (by simpa using hij), count_eq_zero]
      simp [Ne.symm hij]

end

/-- `MessageClient` does what it is to do for a registered client exactly when the client is
connected; for the only disconnected client this is what `MessageAllClients` does. In a run whose
calls of `MessageClient` are for registered clients, no client is reported twice, or reported and
kept, exactly when all these calls are for connected clients. -/
theorem messageClient_iff {i : ι} {l : List ι} (hd : s.dqConnections = l.map some) (hnd : l.Nodup)
    (hi : i ∈ l) (hc : ∀ j ∈ l, (s.conns j).isSome = true) (hu : s.inUserCode = true)
    (msg : Message T) :
    (s.nextInterface (.messageClient (some i) msg) = some (cleanUp i l msg s) ↔
      s.isConnected i = true) ∧
    (s.isConnected i = false → (∀ j ∈ l, j ≠ i → s.isConnected j = true) → ∀ ign h, ∃ s' o,
      (machine T ι).exec Mealy.free (s.callAll msg ign) h (rounds l.length) = some (s', h ++ o) ∧
        s'.dqConnections = (cleanUp i l msg s).1.dqConnections ∧
        ∀ j, reports j o = reports j (cleanUp i l msg s).2) ∧
    ∀ es, (registeredCalls T ι).Always ReportedOnce init [] es ↔
      (registeredCalls T ι).Along ForConnected init [] es := by
  refine ⟨?_, fun hdead hlive ign h => ?_, reportedOnce_iff⟩
  · rw [messageClient_eq hd (hc i hi) hu, cleanUp]
    by_cases hcon : s.isConnected i = true
    · simp [hcon]
    · refine iff_of_false (fun he => ?_) hcon
      rw [if_neg hcon, if_neg hcon] at he
      have hdq := congrArg (fun r => r.1.dqConnections.length) (Option.some.inj he)
      have hpos := length_pos_of_mem hi
      simp only [hd, length_map, length_erase_of_mem hi] at hdq
      omega
  · obtain ⟨hdq, hrep⟩ := sweep_only hdead hlive hnd hi msg ign
    refine ⟨_, _, exec_callAll hd hc msg ign h, ?_, fun j => ?_⟩
    · rw [hdq, cleanUp, hdead]
      rfl
    · rw [hrep, cleanUp, hdead]
      rfl

theorem messageClient_iff_twoClients :
    twoClients.nextInterface (.messageClient (some true) ⟨⟨1, 8⟩, []⟩) =
        some (cleanUp true [false, true] ⟨⟨1, 8⟩, []⟩ twoClients) ↔
      twoClients.isConnected true = true :=
  (messageClient_iff (s := twoClients) (i := true) (l := [false, true]) rfl (by decide) (by decide)
    (by decide) rfl ⟨⟨1, 8⟩, []⟩).1

/-- A client is accepted, and its socket is closed. -/
def departed : Server UInt32 Unit × List (ServerEffect UInt32 Unit) :=
  ((interface UInt32 Unit).exec Mealy.free init [] [.server (.accept () 7 [] true),
    .server (.conn () .disconnect), .server (.conn () .runTask)]).get (by decide +kernel)

theorem client_kept :
    ¬ ∀ (s : Server UInt32 Unit) (h : List (ServerEffect UInt32 Unit)),
      (interface UInt32 Unit).Run Mealy.free init [] s h → ∀ msg, some () ∈ s.dqConnections →
        s.isConnected () = false → s.inUserCode = true →
          (s.nextInterface (.messageClient (some ()) msg)).map (·.1.dqConnections) =
            some (s.dqConnections.erase (some ())) := by
  intro hall
  have hdq := hall departed.1 departed.2 (.of_isSome _ _) ⟨⟨1, 8⟩, []⟩ (by decide +kernel)
    (by decide +kernel) (by decide +kernel)
  exact absurd hdq (by decide +kernel)

end Server

end AsioNetworking

import AsioNetworking.Server

/-!
# Steps of the server

`ServerStep` says once what a step of the server does; from it follow the steps of each connection
and of the shared queue.
-/

namespace AsioNetworking

open List

variable {T ι : Type} [DecidableEq ι] [IdType T]

/-- The event of the connection that a call in `OnMessage` makes, other than a broadcast. -/
def Call.event : Call T → Option (Connection.Event T)
  | .send msg => some (.send msg)
  | .disconnect => some .disconnect
  | .messageAllClients _ _ => none

namespace Server

inductive ServerStep (s : Server T ι) :
    ServerEvent T ι → Server T ι → List (ServerEffect T ι) → Prop where
  | accept (i nonce sends approve) : s.conns i = none →
      ServerStep s (.accept i nonce sends approve) (s.accept i nonce sends approve).1
        (s.accept i nonce sends approve).2
  | conn (i e c r) : s.conns i = some c → c.next e = some r →
      (isCall e = true → 0 < s.owners i) →
      ServerStep s (.conn i e) (s.setConn i r) (r.2.map (.conn i))
  | update (maxMessages bWait) : s.user = [] →
      ServerStep s (.update maxMessages bWait)
        { s with user := (if bWait then [.wait] else []) ++ [.loop maxMessages.toNat] } []
  | messageAllClients (msg) : s.user = [] → ServerStep s (.messageAllClients msg)
      { s with user := [.visit 0 s.dqConnections.length msg none false] } []
  /-- The wait is over, the loop of `update` is, or a round of it. -/
  | done (calls task tasks) : s.user = task :: tasks →
      (task = .wait ∨ (∃ left, task = .loop left) ∨ ∃ remote, task = .release remote) →
      ServerStep s (.user calls) { s with user := tasks } []
  | pop (calls left tasks m q) : s.user = .loop (left + 1) :: tasks → s.qMessagesIn = m :: q →
      ServerStep s (.user calls)
        { s with
          qMessagesIn := q
          user := calls.map (.call m.remote) ++ .release m.remote :: .loop left :: tasks }
        [.onMessage m.remote m.msg]
  | call (calls i call tasks e c r) : s.user = .call (some i) call :: tasks →
      call.event = some e → s.conns i = some c → c.next e = some r →
      ServerStep s (.user calls) (setConn i r { s with user := tasks }) (r.2.map (.conn i))
  | broadcast (calls client msg ignore tasks) :
      s.user = .call client (.messageAllClients msg ignore) :: tasks →
      ServerStep s (.user calls)
        { s with user := .visit 0 s.dqConnections.length msg (if ignore then client else none) false ::
            tasks } []
  | tell (calls k n msg pIgnoreClient bInvalid tasks i c r) :
      s.user = .visit k n msg pIgnoreClient bInvalid :: tasks → k < n →
      s.dqConnections[k]? = some (some i) → s.conns i = some c → c.socketOpen = true →
      some i ≠ pIgnoreClient → c.next (.send msg) = some r →
      ServerStep s (.user calls)
        (setConn i r { s with user := .visit (k + 1) n msg pIgnoreClient bInvalid :: tasks })
        (r.2.map (.conn i))
  | skip (calls k n msg pIgnoreClient bInvalid tasks i c) :
      s.user = .visit k n msg pIgnoreClient bInvalid :: tasks → k < n →
      s.dqConnections[k]? = some (some i) → s.conns i = some c → c.socketOpen = true →
      some i = pIgnoreClient →
      ServerStep s (.user calls)
        { s with user := .visit (k + 1) n msg pIgnoreClient bInvalid :: tasks } []
  | drop (calls k n msg pIgnoreClient bInvalid tasks client) :
      s.user = .visit k n msg pIgnoreClient bInvalid :: tasks → k < n →
      s.dqConnections[k]? = some client →
      (∀ i, client = some i → ∃ c, s.conns i = some c ∧ c.socketOpen = false) →
      ServerStep s (.user calls)
        { s with
          dqConnections := s.dqConnections.set k none
          user := .visit (k + 1) n msg pIgnoreClient true :: tasks }
        [.onClientDisconnect client]
  | erase (calls k n msg pIgnoreClient bInvalid tasks) :
      s.user = .visit k n msg pIgnoreClient bInvalid :: tasks → n ≤ k →
      ServerStep s (.user calls)
        { s with
          dqConnections :=
            if bInvalid then s.dqConnections.filter (·.isSome) else s.dqConnections
          user := tasks } []

theorem onConn_eq_some {s s' : Server T ι} {i e o} (h : s.onConn i e = some (s', o)) :
    ∃ c r, s.conns i = some c ∧ c.next e = some r ∧ s' = s.setConn i r ∧ o = r.2.map (.conn i) := by
  simp only [onConn] at h
  split at h
  · cases h
  · rename_i c hc
    split at h
    · cases h
    · rename_i r hr
      cases h
      exact ⟨c, r, hc, hr, rfl, rfl⟩

theorem visit_step {s s' : Server T ι} {calls k n msg pIgnoreClient bInvalid tasks client o}
    (hu : s.user = .visit k n msg pIgnoreClient bInvalid :: tasks) (hk : k < n)
    (hd : s.dqConnections[k]? = some client)
    (h : visit k n msg pIgnoreClient bInvalid client { s with user := tasks } = some (s', o)) :
    ServerStep s (.user calls) s' o := by
  cases client with
  | none =>
      simp only [visit, Option.some.injEq] at h
      cases h
      exact .drop calls k n msg pIgnoreClient bInvalid tasks none hu hk hd (by simp)
  | some i =>
      simp only [visit] at h
      split at h
      · cases h
      · rename_i c hc
        split at h
        · rename_i hopen
          split at h
          · rename_i hne
            obtain ⟨c', r, hc', hr, rfl, rfl⟩ := onConn_eq_some h
            exact .tell calls k n msg pIgnoreClient bInvalid tasks i c' r hu hk hd hc'
              (by rw [hc] at hc'; cases hc'; exact hopen) hne hr
          · rename_i he
            cases h
            exact .skip calls k n msg pIgnoreClient bInvalid tasks i c hu hk hd hc hopen
              (not_not.mp he)
        · rename_i hclosed
          cases h
          refine .drop calls k n msg pIgnoreClient bInvalid tasks (some i) hu hk hd fun j hj => ?_
          cases hj
          exact ⟨c, hc, by simpa using hclosed⟩

theorem next_serverStep {s s' : Server T ι} {e o} (hn : s.next e = some (s', o)) :
    ServerStep s e s' o := by
  cases e with
  | accept i nonce sends approve =>
      simp only [next] at hn
      split at hn
      · rename_i hi
        obtain ⟨rfl, rfl⟩ := Prod.ext_iff.mp (Option.some.inj hn)
        exact .accept i nonce sends approve (Option.isNone_iff_eq_none.mp hi)
      · cases hn
  | conn i e =>
      simp only [next] at hn
      split at hn
      · cases hn
      · rename_i hcall
        obtain ⟨c, r, hc, hr, rfl, rfl⟩ := onConn_eq_some hn
        exact .conn i e c r hc hr fun h => Nat.pos_of_ne_zero fun h0 => hcall ⟨h, h0⟩
  | update maxMessages bWait =>
      simp only [next] at hn
      split at hn <;> cases hn
      rename_i hu
      exact .update maxMessages bWait (by simpa using hu)
  | messageAllClients msg =>
      simp only [next] at hn
      split at hn <;> cases hn
      rename_i hu
      exact .messageAllClients msg (by simpa using hu)
  | user calls =>
      simp only [next] at hn
      split at hn
      · cases hn
      · rename_i task tasks hu
        cases task with
        | wait =>
            simp only [runUser] at hn
            split at hn <;> cases hn
            exact .done calls _ tasks hu (Or.inl rfl)
        | loop left =>
            cases left with
            | zero => cases hn; exact .done calls _ tasks hu (Or.inr (Or.inl ⟨0, rfl⟩))
            | succ left =>
                simp only [runUser] at hn
                split at hn <;> cases hn
                · exact .done calls _ tasks hu (Or.inr (Or.inl ⟨_, rfl⟩))
                · rename_i m q hq
                  exact .pop calls left tasks m q hu hq
        | release remote => cases hn; exact .done calls _ tasks hu (Or.inr (Or.inr ⟨_, rfl⟩))
        | call client call =>
            cases call with
            | messageAllClients msg ignore =>
                cases hn
                exact .broadcast calls client msg ignore tasks hu
            | send msg =>
                cases client with
                | none => cases hn
                | some i =>
                    simp only [runUser] at hn
                    obtain ⟨c, r, hc, hr, rfl, rfl⟩ := onConn_eq_some hn
                    exact .call calls i _ tasks _ c r hu rfl hc hr
            | disconnect =>
                cases client with
                | none => cases hn
                | some i =>
                    simp only [runUser] at hn
                    obtain ⟨c, r, hc, hr, rfl, rfl⟩ := onConn_eq_some hn
                    exact .call calls i _ tasks _ c r hu rfl hc hr
        | visit k n msg pIgnoreClient bInvalid =>
            simp only [runUser] at hn
            split at hn
            · rename_i hk
              split at hn
              · cases hn
              · rename_i client hd
                exact visit_step hu hk hd hn
            · rename_i hk
              cases hn
              exact .erase calls k n msg pIgnoreClient bInvalid tasks hu (Nat.le_of_not_lt hk)

/-! ## Histories of the connections -/

section

omit [IdType T]

variable (i j : ι) (h o : List (ServerEffect T ι))

@[simp] theorem hist_nil : hist i ([] : List (ServerEffect T ι)) = [] := rfl

@[simp] theorem hist_append : hist i (h ++ o) = hist i h ++ hist i o := filterMap_append

@[simp] theorem hist_map_conn (o : List (Effect T)) :
    hist i (o.map (.conn j)) = if j = i then o else [] := by
  by_cases hij : j = i <;> induction o <;> simp_all [hist]

@[simp] theorem nonces_append : nonces i (h ++ o) = nonces i h ++ nonces i o := filterMap_append

@[simp] theorem nonces_map_conn (o : List (Effect T)) : nonces i (o.map (.conn j)) = [] := by
  induction o <;> simp_all [nonces]

@[simp] theorem onMessages_append :
    onMessages i (h ++ o) = onMessages i h ++ onMessages i o := filterMap_append

@[simp] theorem onMessages_map_conn (o : List (Effect T)) :
    onMessages i (o.map (.conn j)) = [] := by
  induction o <;> simp_all [onMessages]

end

variable {i j : ι} {h o : List (ServerEffect T ι)}

/-! ## Steps of one connection -/

theorem accept_effects (s : Server T ι) (j : ι) (nonce : UInt64) (sends : List (Message T))
    (approve : Bool) : (s.accept j nonce sends approve).2 =
      [.accepted j nonce sends approve s.nIDCounter] ++
        (Connection.accepted nonce sends approve s.nIDCounter).2.map (.conn j) := rfl

/-- What a step of the server is for the connection `i`, with the effects `o` at it and the nonces
`ns` that it is constructed with. -/
inductive ConnStep (i : ι) (s s' : Server T ι) (e : ServerEvent T ι) :
    List (Effect T) → List UInt64 → Prop where
  | idle : s'.conns i = s.conns i → ConnStep i s s' e [] []
  | accept (nonce sends approve) : e = .accept i nonce sends approve → s.conns i = none →
      s'.conns i = some (Connection.accepted nonce sends approve s.nIDCounter).1 →
      ConnStep i s s' e (Connection.accepted nonce sends approve s.nIDCounter).2 [nonce]
  | step (ce c c' o) : s.conns i = some c → (e = .conn i ce ∨ isCall ce = true) →
      c.next ce = some (c', o) → s'.conns i = some c' → ConnStep i s s' e o []

theorem connStep_setConn {s s₁ : Server T ι} {e ce c r} (hc : s.conns j = some c)
    (h₁ : s₁.conns = s.conns) (hce : e = .conn j ce ∨ isCall ce = true) (hr : c.next ce = some r) :
    ConnStep i s (s₁.setConn j r) e (hist i (r.2.map (.conn j))) (nonces i (r.2.map (.conn j))) := by
  rw [hist_map_conn, nonces_map_conn]
  by_cases hij : j = i
  · subst hij
    rw [if_pos rfl]
    exact .step ce c r.1 r.2 hc hce hr (by simp [setConn])
  · rw [if_neg hij]
    exact .idle (by simp [setConn, h₁, Function.update_of_ne (Ne.symm hij)])

omit [IdType T] in
theorem Call.isCall {call : Call T} {e} (h : call.event = some e) : Server.isCall e = true := by
  cases call with
  | send => cases h; rfl
  | disconnect => cases h; rfl
  | messageAllClients => cases h

theorem ServerStep.conn_step {s s' : Server T ι} {e o} (hs : ServerStep s e s' o) (i : ι) :
    ConnStep i s s' e (hist i o) (nonces i o) := by
  cases hs with
  | accept j nonce sends approve hj =>
      have hh : hist i [.accepted j nonce sends approve s.nIDCounter] = [] := rfl
      have hn : nonces i [.accepted (T := T) j nonce sends approve s.nIDCounter] =
          if j = i then [nonce] else [] := by
        by_cases hij : j = i <;> simp [nonces, hij]
      rw [accept_effects, hist_append, nonces_append, hist_map_conn, nonces_map_conn, hh, hn,
        nil_append, append_nil]
      by_cases hij : j = i
      · subst hij
        rw [if_pos rfl, if_pos rfl]
        exact .accept nonce sends approve rfl hj (by simp [Server.accept])
      · rw [if_neg hij, if_neg hij]
        exact .idle (by simp [Server.accept, Function.update_of_ne (Ne.symm hij)])
  | conn j ce c r hc hr _ => exact connStep_setConn hc rfl (Or.inl rfl) hr
  | call _ j call _ ce c r _ hce hc hr => exact connStep_setConn hc rfl (Or.inr (Call.isCall hce)) hr
  | tell _ _ _ _ _ _ _ j c r _ _ _ hc _ _ hr => exact connStep_setConn hc rfl (Or.inr rfl) hr
  | update => exact .idle rfl
  | messageAllClients => exact .idle rfl
  | done => exact .idle rfl
  | pop => exact .idle rfl
  | broadcast => exact .idle rfl
  | skip => exact .idle rfl
  | drop => exact .idle rfl
  | erase => exact .idle rfl

theorem ServerStep.silent {s s' : Server T ι} {e o} (hs : ServerStep s e s' o)
    (he : ∀ ce, e ≠ .conn i ce) : tookBytes (hist i o) = [] ∧ putBytes (hist i o) = [] := by
  have hstep := hs.conn_step i
  generalize hist i o = oi at hstep
  generalize nonces i o = ns at hstep
  cases hstep with
  | idle => exact ⟨rfl, rfl⟩
  | accept nonce sends approve _ _ _ => exact (Connection.accepted_silent _ _ _ _).2
  | step ce c c' _ _ hce hn _ =>
      rcases hce with rfl | hce
      · exact absurd rfl (he ce)
      · cases Connection.next_step hn with
        | send => exact ⟨rfl, rfl⟩
        | disconnect => exact ⟨rfl, rfl⟩
        | disconnectClosed => exact ⟨rfl, rfl⟩
        | _ => cases hce

/-! ## Runs of one connection -/

variable {G : Server T ι → List (ServerEffect T ι) → ServerEvent T ι → Prop}
  {Gc : Connection T → List (Effect T) → Connection.Event T → Prop} {s : Server T ι}

/-- The connection `i` has been accepted once and has run by itself since, as `Gc` allows. -/
structure Accepted (Gc : Connection T → List (Effect T) → Connection.Event T → Prop) (i : ι)
    (h : List (ServerEffect T ι)) (c : Connection T) (nonce : UInt64) (sends : List (Message T))
    (approve : Bool) (uid : UInt32) : Prop where
  once : nonces i h = [nonce]
  run : (Connection.machine T).Run Gc (Connection.accepted nonce sends approve uid).1
    (Connection.accepted nonce sends approve uid).2 c (hist i h)

/-- The connection `i` is not there yet, or it has been accepted. -/
def Known (Gc : Connection T → List (Effect T) → Connection.Event T → Prop) (i : ι)
    (s : Server T ι) (h : List (ServerEffect T ι)) : Prop :=
  (s.conns i = none ∧ hist i h = [] ∧ nonces i h = []) ∨
    ∃ c nonce sends approve uid, s.conns i = some c ∧ Accepted Gc i h c nonce sends approve uid

theorem ConnStep.known {s' : Server T ι} {e} (hs : ConnStep i s s' e (hist i o) (nonces i o))
    (hk : Known Gc i s h)
    (hGc : ∀ ce c, e = .conn i ce → s.conns i = some c → Gc c (hist i h) ce)
    (hcall : ∀ c h e, isCall e = true → Gc c h e) : Known Gc i s' (h ++ o) := by
  generalize ho : hist i o = oi at hs
  generalize hns : nonces i o = ns at hs
  cases hs with
  | idle hc =>
      rcases hk with ⟨hnone, hh, hz⟩ | ⟨c, nonce, sends, approve, uid, hsc, hon, hrun⟩
      · exact Or.inl ⟨hc.trans hnone, by simp [hh, ho], by simp [hz, hns]⟩
      · exact Or.inr ⟨c, nonce, sends, approve, uid, hc.trans hsc, by simp [hon, hns],
          by simpa [ho] using hrun⟩
  | accept nonce sends approve he hc hc' =>
      rcases hk with ⟨-, hh, hz⟩ | ⟨c, -, -, -, -, hsc, -⟩
      · subst he
        refine Or.inr ⟨_, nonce, sends, approve, s.nIDCounter, hc', by simp [hz, hns], ?_⟩
        rw [hist_append, hh, ho]
        exact .refl
      · rw [hc] at hsc; cases hsc
  | step ce c c' _ hc hce hnext hc' =>
      rcases hk with ⟨hnone, -, -⟩ | ⟨c₁, nonce, sends, approve, uid, hsc, hon, hrun⟩
      · rw [hc] at hnone; cases hnone
      · rw [hc] at hsc
        cases hsc
        refine Or.inr ⟨c', nonce, sends, approve, uid, hc', by simp [hon, hns], ?_⟩
        rw [hist_append, ho]
        refine .step hrun ?_ hnext
        rcases hce with hce | hce
        · exact hGc _ _ hce hc
        · exact hcall _ _ _ hce

theorem run_conn (hr : (machine T ι).Run G init [] s h)
    (hGc : ∀ s h i e c, G s h (.conn i e) → s.conns i = some c → Gc c (hist i h) e)
    (hcall : ∀ c h e, isCall e = true → Gc c h e) (i : ι) : Known Gc i s h := by
  refine hr.invariant (Or.inl ⟨rfl, rfl, rfl⟩) fun s h e s' o hk hg hn => ?_
  exact ((next_serverStep hn).conn_step i).known hk
    (fun ce c he hc => hGc _ _ _ _ _ (he ▸ hg) hc) hcall

theorem run_conn_each {P : Connection T → Connection.Event T → Prop}
    (hr : (machine T ι).Run (fun s _ e => ∀ i ce, e = .conn i ce → ∀ c ∈ s.conns i, P c ce) init []
      s h) (hcall : ∀ c e, isCall e = true → P c e) (i : ι) :
    Known (fun c _ e => P c e) i s h :=
  run_conn hr (fun _ _ i e c hg hc => hg i e rfl c hc)
    (fun c _ e he => hcall c e he) i

/-! ## The shared queue -/

theorem push_addToIncoming {c : Connection T} (ho : c.nOwnerType = .server) {remote msg}
    (hx : Effect.push remote msg ∈ c.addToIncomingMessageQueue.2) : remote = .this := by
  simp only [Connection.addToIncomingMessageQueue, Connection.readHeader, Connection.startRead,
    Result.andThen, ho, singleton_append, mem_cons, not_mem_nil, or_false, reduceCtorEq,
    Effect.push.injEq] at hx
  exact hx.1

/-- A server connection tags its messages with itself. -/
theorem push_this {c c' : Connection T} {e o} (hs : Connection.ReadStep c c' e o)
    (ho : c.nOwnerType = .server) {remote msg} (hx : Effect.push remote msg ∈ o) :
    remote = .this := by
  cases hs with
  | other hoff _ => simpa [Effect.onReader] using hoff _ hx
  | took l₁ l₂ bs _ _ =>
      rename_i op _ _
      rcases mem_cons.mp hx with hx | hx
      · cases hx
      · cases hk : op.kind with
        | validation =>
            rw [hk] at hx
            simp only [Connection.onRead, Connection.onReadValidation, ho] at hx
            split at hx <;> simp [Result.andThen, Connection.readHeader, Connection.startRead] at hx
        | header =>
            rw [hk] at hx
            simp only [Connection.onRead, Connection.onReadHeader] at hx
            split at hx
            · simp [Connection.readBody, Connection.startRead] at hx
            · refine push_addToIncoming ?_ hx
              exact ho
        | body =>
            rw [hk] at hx
            refine push_addToIncoming (c := { c with
              reads := l₁ ++ l₂, msgTemporaryIn := { c.msgTemporaryIn with body := bs } }) ?_ hx
            exact ho
  | wrote _ ws _ => simp [Connection.onWriteValidation, ho] at hx
  | connected => simp at hx
  | connectFailed => simp at hx
  | readFail => simp at hx
  | writeFail => simp at hx

omit [DecidableEq ι] [IdType T] in
theorem owned_eq {o : List (Effect T)}
    (hp : ∀ remote msg, Effect.push remote msg ∈ o → remote = .this) (j : ι) :
    owned j o = (pushes o).map fun msg => ⟨some j, msg⟩ := by
  induction o with
  | nil => rfl
  | cons x o ih =>
      have ih := ih fun remote msg hx => hp remote msg (mem_cons_of_mem _ hx)
      cases x with
      | push remote msg =>
          cases hp remote msg mem_cons_self
          simpa [owned] using ih
      | _ => simpa [owned] using ih

theorem queued_setConn {s₁ : Server T ι} {c : Connection T} {ce r} (hown : c.nOwnerType = .server)
    (hr : c.next ce = some r) :
    (s₁.setConn j r).queued i = s₁.queued i ++ pushes (hist i (r.2.map (.conn j))) := by
  have ho : owned j r.2 = (pushes r.2).map fun msg => ⟨some j, msg⟩ :=
    owned_eq (fun remote msg => push_this (Connection.next_readStep (o := r.2) hr) hown) j
  rw [hist_map_conn, queued, queued, setConn, ho]
  by_cases hij : j = i <;> simp [hij, filter_map, Function.comp_def]

theorem ServerStep.queued {s s' : Server T ι} {e o} (hs : ServerStep s e s' o)
    (hown : ∀ j c, s.conns j = some c → c.nOwnerType = .server) (i : ι) :
    onMessages i o ++ s'.queued i = s.queued i ++ pushes (hist i o) := by
  cases hs with
  | conn j ce c r hc hr _ =>
      rw [onMessages_map_conn, nil_append]
      exact queued_setConn (hown j c hc) hr
  | call _ j call _ ce c r _ _ hc hr =>
      rw [onMessages_map_conn, nil_append]
      exact queued_setConn (hown j c hc) hr
  | tell _ _ _ _ _ _ _ j c r _ _ _ hc _ _ hr =>
      rw [onMessages_map_conn, nil_append]
      exact queued_setConn (hown j c hc) hr
  | pop _ _ _ m q _ hq =>
      by_cases hm : m.remote = some i <;> simp [onMessages, Server.queued, hq, hm, hist]
  | accept j nonce sends approve _ =>
      have hp := (Connection.accepted_silent nonce sends approve s.nIDCounter).1
      rw [accept_effects, onMessages_append, hist_append, onMessages_map_conn, hist_map_conn]
      by_cases hij : j = i <;> simp [Server.queued, Server.accept, onMessages, hist, hij, hp]
  | _ => simp [Server.queued, onMessages, hist]

end Server

end AsioNetworking

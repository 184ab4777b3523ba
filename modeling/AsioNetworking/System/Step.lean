import AsioNetworking.Server.Theorems
import AsioNetworking.System

/-!
# Steps of the system

A run of the system is, for each of its parts, a run of the part. What a connection has put on the
wire is what its peer has taken from it, and what is on the way.
-/

namespace AsioNetworking

open List

variable {T ι : Type} [DecidableEq ι] [IdType T]

namespace System

inductive SystemStep (s : System T ι) :
    SystemEvent T ι → System T ι → List (SystemEffect T ι) → Prop where
  | alone (e server o) : s.reached e = true → s.server.next e = some (server, o) → e.peer = none →
      SystemStep s (.server e) { s with server } (o.map .server)
  | server (i e server o up down) : s.server.next (.conn i e) = some (server, o) →
      transfer (Server.hist i o) (s.up i) (s.down i) = some (up, down) →
      SystemStep s (.server (.conn i e))
        { s with
          server
          up := Function.update s.up i up
          down := Function.update s.down i down } (o.map .server)
  | client (i e r up down) : isSend e = false → (s.clients i).connection.next e = some r →
      transfer r.2 (s.down i) (s.up i) = some (down, up) →
      SystemStep s (.client i e)
        { s.setClient i ((s.clients i).setConn r) with
          up := Function.update s.up i up
          down := Function.update s.down i down } (r.2.map (.client i))
  | send (i msg) : (s.clients i).isConnected = true →
      SystemStep s (.send i msg)
        (s.setClient i ((s.clients i).setConn ((s.clients i).connection.send msg)))
        [.sent i msg, .client i (.send msg)]
  | refuse (i msg) : (s.clients i).isConnected = false → SystemStep s (.send i msg) s [.sent i msg]
  | pop (i msg q) : (s.clients i).qMessagesIn = msg :: q →
      SystemStep s (.pop i) (s.setClient i { s.clients i with qMessagesIn := q }) [.popped i msg]

theorem next_systemStep {s s' : System T ι} {e o} (hn : s.next e = some (s', o)) :
    SystemStep s e s' o := by
  cases e with
  | server e =>
      simp only [next] at hn
      split at hn
      · rename_i hreach
        split at hn
        · cases hn
        · rename_i server o' hs
          split at hn
          · rename_i hp
            cases hn
            exact .alone e server o' hreach hs hp
          · rename_i i hp
            split at hn
            · cases hn
            · rename_i up down ht
              cases hn
              cases e with
              | conn j e => cases hp; exact .server i e server o' up down hs ht
              | _ => cases hp
      · cases hn
  | client i e =>
      simp only [next] at hn
      split at hn
      · cases hn
      · rename_i he
        split at hn
        · cases hn
        · rename_i r hr
          split at hn
          · cases hn
          · rename_i down up ht
            cases hn
            exact .client i e r up down (by simpa using he) hr ht
  | send i msg =>
      simp only [next, Client.send] at hn
      split at hn
      · rename_i hc
        cases hn
        exact .send i msg hc
      · rename_i hc
        cases hn
        have hid : s.setClient i (s.clients i) = s := by
          simp [setClient, Function.update_eq_self]
        simp only [hid, map_nil]
        exact .refuse i msg (by simpa using hc)
  | pop i =>
      simp only [next] at hn
      split at hn
      · cases hn
      · rename_i msg q hq
        cases hn
        exact .pop i msg q hq

/-! ## Histories of the parts -/

section Histories

omit [IdType T]

variable (i j : ι) (h o : List (SystemEffect T ι))

omit [DecidableEq ι] in
@[simp] theorem serverHist_append :
    serverHist (h ++ o) = serverHist h ++ serverHist o := filterMap_append

omit [DecidableEq ι] in
@[simp] theorem serverHist_map_server (o : List (ServerEffect T ι)) :
    serverHist (o.map .server) = o := by
  induction o <;> simp_all [serverHist]

omit [DecidableEq ι] in
@[simp] theorem serverHist_map_client (o : List (Effect T)) :
    serverHist (o.map (.client i)) = [] := by
  induction o <;> simp_all [serverHist]

@[simp] theorem clientHist_append :
    clientHist i (h ++ o) = clientHist i h ++ clientHist i o := filterMap_append

@[simp] theorem clientHist_map_server (o : List (ServerEffect T ι)) :
    clientHist i (o.map .server) = [] := by
  induction o <;> simp_all [clientHist]

@[simp] theorem clientHist_map_client (o : List (Effect T)) :
    clientHist i (o.map (.client j)) = if j = i then o else [] := by
  by_cases hij : j = i <;> induction o <;> simp_all [clientHist]

@[simp] theorem sent_append : sent i (h ++ o) = sent i h ++ sent i o := filterMap_append

@[simp] theorem sent_map_server (o : List (ServerEffect T ι)) : sent i (o.map .server) = [] := by
  induction o <;> simp_all [sent]

@[simp] theorem sent_map_client (o : List (Effect T)) : sent i (o.map (.client j)) = [] := by
  induction o <;> simp_all [sent]

@[simp] theorem popped_append : popped i (h ++ o) = popped i h ++ popped i o := filterMap_append

@[simp] theorem popped_map_server (o : List (ServerEffect T ι)) :
    popped i (o.map .server) = [] := by
  induction o <;> simp_all [popped]

@[simp] theorem popped_map_client (o : List (Effect T)) : popped i (o.map (.client j)) = [] := by
  induction o <;> simp_all [popped]

@[simp] theorem peerHist_append : peerHist i (h ++ o) = peerHist i h ++ peerHist i o := by
  simp [peerHist]

end Histories

variable {G : System T ι → List (SystemEffect T ι) → SystemEvent T ι → Prop}
  {s s' : System T ι} {h o : List (SystemEffect T ι)}

/-! ## The parts -/

theorem SystemStep.of_server {e} (hs : SystemStep s e s' o) :
    (s'.server = s.server ∧ serverHist o = []) ∨
      ∃ e', e = .server e' ∧ s.server.next e' = some (s'.server, serverHist o) := by
  cases hs with
  | alone e server o _ hn _ => exact Or.inr ⟨e, rfl, by simpa using hn⟩
  | server i e server o up down hn _ => exact Or.inr ⟨_, rfl, by simpa using hn⟩
  | client => exact Or.inl ⟨rfl, by simp⟩
  | send => exact Or.inl ⟨rfl, rfl⟩
  | refuse => exact Or.inl ⟨rfl, rfl⟩
  | pop => exact Or.inl ⟨rfl, rfl⟩

/-- What a step of the system is for the client `i`. -/
inductive ClientStep (i : ι) (s s' : System T ι) (o : List (SystemEffect T ι)) :
    SystemEvent T ι → Prop where
  | idle {e} : s'.clients i = s.clients i → clientHist i o = [] → popped i o = [] →
      sent i o = [] → ClientStep i s s' o e
  | client (e r) : isSend e = false → (s.clients i).connection.next e = some r →
      s'.clients i = (s.clients i).setConn r → clientHist i o = r.2 → popped i o = [] →
      sent i o = [] → ClientStep i s s' o (.client i e)
  | send (msg) : (s.clients i).isConnected = true →
      s'.clients i = (s.clients i).setConn ((s.clients i).connection.send msg) →
      clientHist i o = [.send msg] → popped i o = [] → sent i o = [msg] →
      ClientStep i s s' o (.send i msg)
  | refuse (msg) : (s.clients i).isConnected = false → s'.clients i = s.clients i →
      clientHist i o = [] → popped i o = [] → sent i o = [msg] → ClientStep i s s' o (.send i msg)
  | pop (msg q) : (s.clients i).qMessagesIn = msg :: q →
      s'.clients i = { s.clients i with qMessagesIn := q } → clientHist i o = [] →
      popped i o = [msg] → sent i o = [] → ClientStep i s s' o (.pop i)

theorem SystemStep.client_step {e} (hs : SystemStep s e s' o) (i : ι) :
    ClientStep i s s' o e := by
  cases hs with
  | alone => exact .idle rfl (by simp) (by simp) (by simp)
  | server => exact .idle rfl (by simp) (by simp) (by simp)
  | client j e r up down he hn _ =>
      by_cases hij : j = i
      · subst hij
        exact .client e r he hn (by simp [setClient]) (by simp) (by simp) (by simp)
      · refine .idle ?_ (by simp [hij]) (by simp) (by simp)
        simp [setClient, Function.update_of_ne (Ne.symm hij)]
  | send j msg hc =>
      by_cases hij : j = i
      · subst hij
        exact .send msg hc (by simp [setClient]) (by simp [clientHist]) rfl (by simp [sent])
      · refine .idle ?_ (by simp [clientHist, hij]) rfl (by simp [sent, hij])
        simp [setClient, Function.update_of_ne (Ne.symm hij)]
  | refuse j msg hc =>
      by_cases hij : j = i
      · subst hij
        exact .refuse msg hc rfl rfl rfl (by simp [sent])
      · exact .idle rfl rfl rfl (by simp [sent, hij])
  | pop j msg q hq =>
      by_cases hij : j = i
      · subst hij
        exact .pop msg q hq (by simp [setClient]) rfl (by simp [popped]) rfl
      · refine .idle ?_ rfl (by simp [popped, hij]) rfl
        simp [setClient, Function.update_of_ne (Ne.symm hij)]

theorem run_server {Gs : Server T ι → List (ServerEffect T ι) → ServerEvent T ι → Prop}
    (hr : (machine T ι).Run G init [] s h)
    (hG : ∀ s h e, G s h (.server e) → Gs s.server (serverHist h) e) :
    (Server.machine T ι).Run Gs .init [] s.server (serverHist h) := by
  apply hr.project (·.server) serverHist serverHist_append
  intro s h e s' o hg hn
  rcases (next_systemStep hn).of_server with hidle | ⟨e', rfl, hn'⟩
  · exact Or.inl hidle
  · exact Or.inr ⟨e', hG s h e' hg, hn'⟩

theorem run_server_free (hr : (machine T ι).Run G init [] s h) :
    (Server.machine T ι).Run Mealy.free .init [] s.server (serverHist h) :=
  run_server hr fun _ _ _ _ => trivial

theorem run_client {Gc : Connection T → List (Effect T) → Connection.Event T → Prop} {i : ι}
    (hr : (machine T ι).Run G init [] s h)
    (hG : ∀ s h e, isSend e = false → G s h (.client i e) →
      Gc (s.clients i).connection (clientHist i h) e)
    (hS : ∀ s h msg, G s h (.send i msg) →
      Gc (s.clients i).connection (clientHist i h) (.send msg)) :
    (Connection.machine T).Run Gc Connection.connected [] (s.clients i).connection
      (clientHist i h) := by
  apply hr.project (fun s => (s.clients i).connection) (clientHist i) (clientHist_append i)
  intro s h e s' o hg hn
  cases (next_systemStep hn).client_step i with
  | idle hc hh _ _ => exact Or.inl ⟨by rw [hc], hh⟩
  | client e r he hn' hc hh _ _ =>
      refine Or.inr ⟨e, hG s h e he hg, ?_⟩
      rw [hc, hh]
      exact hn'
  | send msg _ hc hh _ _ =>
      refine Or.inr ⟨.send msg, hS s h msg hg, ?_⟩
      rw [hc, hh]
      rfl
  | refuse msg _ hc hh _ _ => exact Or.inl ⟨by rw [hc], hh⟩
  | pop msg q _ hc hh _ _ => exact Or.inl ⟨by rw [hc], hh⟩

theorem run_client_free (hr : (machine T ι).Run G init [] s h) (i : ι) :
    (Connection.machine T).Run Mealy.free Connection.connected [] (s.clients i).connection
      (clientHist i h) :=
  run_client hr (fun _ _ _ _ _ => trivial) (fun _ _ _ _ => trivial)

/-! ## The bytes on their way -/

omit [IdType T] in
theorem transfer_eq_some {o : List (Effect T)} {inp out inp' out' : List UInt8}
    (ht : transfer o inp out = some (inp', out')) :
    tookBytes o ++ inp' = inp ∧ out' = out ++ putBytes o := by
  simp only [transfer] at ht
  split at ht
  · rename_i hp
    cases ht
    refine ⟨?_, rfl⟩
    obtain ⟨t, rfl⟩ := hp
    simp
  · cases ht

/-- A step takes bytes from the wire in the order in which they were put on it. -/
theorem SystemStep.wire {e} (hs : SystemStep s e s' o) (i : ι) :
    tookBytes (peerHist i o) ++ s'.up i = s.up i ++ putBytes (clientHist i o) ∧
      tookBytes (clientHist i o) ++ s'.down i = s.down i ++ putBytes (peerHist i o) := by
  cases hs with
  | alone e server o _ hn hp =>
      obtain ⟨ht, hp⟩ := (Server.next_serverStep hn).silent (i := i) (by
        rintro ce rfl
        cases hp)
      simp [peerHist, ht, hp]
  | server j e server o up down hn ht =>
      by_cases hij : j = i
      · subst hij
        obtain ⟨h1, h2⟩ := transfer_eq_some ht
        simp [peerHist, h1, h2]
      · obtain ⟨ht, hp⟩ := (Server.next_serverStep hn).silent (i := i) (by
          rintro ce he
          cases he
          exact hij rfl)
        simp [peerHist, ht, hp, Function.update_of_ne (Ne.symm hij)]
  | client j e r up down _ _ ht =>
      by_cases hij : j = i
      · subst hij
        obtain ⟨h1, h2⟩ := transfer_eq_some ht
        simp [peerHist, h1, h2]
      · simp [peerHist, hij, Function.update_of_ne (Ne.symm hij)]
  | send j msg _ => by_cases hij : j = i <;> simp [peerHist, clientHist, serverHist, setClient, hij]
  | refuse => simp [peerHist, clientHist, serverHist]
  | pop => simp [peerHist, clientHist, serverHist, setClient]

/-- What one end of a connection has put on the wire is what the other end has taken, followed by
the bytes on their way. -/
theorem run_wire (hr : (machine T ι).Run G init [] s h) (i : ι) :
    tookBytes (peerHist i h) ++ s.up i = putBytes (clientHist i h) ∧
      tookBytes (clientHist i h) ++ s.down i = putBytes (peerHist i h) := by
  induction hr with
  | refl => exact ⟨rfl, rfl⟩
  | step _ _ hn ih =>
      obtain ⟨hup, hdown⟩ := (next_systemStep hn).wire i
      simp only [peerHist_append, clientHist_append, tookBytes_append, putBytes_append, append_assoc]
      rw [hup, hdown, ← append_assoc, ← append_assoc, ih.1, ih.2]
      exact ⟨rfl, rfl⟩

/-! ## The queues -/

theorem run_incoming (hr : (machine T ι).Run G init [] s h) (i : ι) :
    pushes (clientHist i h) = popped i h ++ (s.clients i).qMessagesIn := by
  induction hr with
  | refl => rfl
  | step _ _ hn ih =>
      rw [clientHist_append, pushes_append, ih, popped_append]
      cases (next_systemStep hn).client_step i with
      | idle hc hh hp _ => simp [hc, hh, hp]
      | client e r _ _ hc hh hp _ => simp [hc, hh, hp, Client.setConn]
      | send msg _ hc hh hp _ => simp [hc, hh, hp, Client.setConn, Connection.send]
      | refuse msg _ hc hh hp _ => simp [hc, hh, hp]
      | pop msg q hq hc hh hp _ => simp [hc, hh, hp, hq]

/-- The connection of a client is given the messages that the client sends while it is connected. -/
theorem run_sent (hr : (machine T ι).Run G init [] s h) (i : ι) :
    sends (clientHist i h) <+: sent i h ∧
      ((s.clients i).isConnected = true → sends (clientHist i h) = sent i h) := by
  induction hr with
  | refl => exact ⟨prefix_rfl, fun _ => rfl⟩
  | @step s h e s' o _ _ hn ih =>
      obtain ⟨hpre, heq⟩ := ih
      have grows : sends (clientHist i o) = [] → sends (clientHist i (h ++ o)) <+: sent i (h ++ o) :=
        fun hz => by
          rw [clientHist_append, sends_append, hz, append_nil, sent_append]
          exact hpre.trans (prefix_append _ _)
      cases (next_systemStep hn).client_step i with
      | idle hc hh _ hs =>
          refine ⟨grows (by simp [hh]), fun hcon => ?_⟩
          rw [hc] at hcon
          simp [hh, hs, heq hcon]
      | client e r he hn' hc hh _ hs =>
          have hz : sends r.2 = [] := by
            rcases (Connection.next_chainStep (o := r.2) hn').sends with ⟨msg, rfl, -⟩ | hz
            · cases he
            · exact hz
          refine ⟨grows (by simp [hh, hz]), fun hcon => ?_⟩
          rw [hc] at hcon
          have hcon := (Connection.next_writeStep (o := r.2) hn').isOpen hcon
          simp [hh, hs, hz, heq hcon]
      | send msg hcon _ hh _ hs =>
          have he : sends (clientHist i (h ++ o)) = sent i (h ++ o) := by simp [hh, hs, heq hcon]
          exact ⟨he ▸ prefix_rfl, fun _ => he⟩
      | refuse msg hcon hc hh _ hs =>
          refine ⟨grows (by simp [hh]), fun hcon' => ?_⟩
          rw [hc, hcon] at hcon'
          cases hcon'
      | pop msg q _ hc hh _ hs =>
          refine ⟨grows (by simp [hh]), fun hcon => ?_⟩
          rw [hc] at hcon
          simp [hh, hs, heq hcon]

end System

end AsioNetworking

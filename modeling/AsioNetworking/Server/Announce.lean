import AsioNetworking.Interface.Cleanup

/-!
# Broadcasts from `OnClientDisconnect`

A hook that announces the departure of its client calls `MessageAllClients`, while the call that
reports the client is in the middle of its loop, and has the client still in `m_dqConnections`.
-/

namespace AsioNetworking

open List

variable {T ι : Type}

/-! ## Nested calls -/

/-- A running `MessageAllClients`. -/
structure Broadcast (T ι : Type) where
  /-- The loop is at the `k`-th of `n` entries. -/
  k : Nat
  n : Nat
  msg : Message T
  pIgnoreClient : Option ι
  bInvalidConnectionsExist : Bool
  /-- `OnClientDisconnect` has been called for the `k`-th entry, and `client.reset()` has not. -/
  inHook : Bool

/-- The server and its running calls of `MessageAllClients`, the innermost one first. -/
structure Announcing (T ι : Type) where
  server : Server T ι
  calls : List (Broadcast T ι)

namespace Announcing

variable [DecidableEq ι] [IdType T]

def enter (msg : Message T) (pIgnoreClient : Option ι) (s : Server T ι) : Broadcast T ι :=
  ⟨0, s.dqConnections.length, msg, pIgnoreClient, false, false⟩

/-- The innermost call at the entry `client`. `hook client` are the arguments of the call that
`OnClientDisconnect(client)` makes. -/
def visit (hook : Option ι → Message T × Option ι) (f : Broadcast T ι) (fs : List (Broadcast T ι))
    (client : Option ι) (s : Server T ι) : Option (Announcing T ι × List (ServerEffect T ι)) :=
  let disconnected :=
    (⟨s, enter (hook client).1 (hook client).2 s :: { f with inHook := true } :: fs⟩,
      [.onClientDisconnect client])
  match client with
  | none => some disconnected
  | some i =>
      match s.conns i with
      | none => none
      | some c =>
          if c.socketOpen then
            let fs := { f with k := f.k + 1 } :: fs
            if client ≠ f.pIgnoreClient then
              (s.onConn i (.send f.msg)).map fun r => (⟨r.1, fs⟩, r.2)
            else some (⟨s, fs⟩, [])
          else some disconnected

def step (hook : Option ι → Message T × Option ι) (s : Announcing T ι) :
    Option (Announcing T ι × List (ServerEffect T ι)) :=
  match s.calls with
  | [] => none
  | f :: fs =>
      let dq := s.server.dqConnections
      if f.inHook then
        some (⟨{ s.server with dqConnections := dq.set f.k none },
          { f with k := f.k + 1, bInvalidConnectionsExist := true, inHook := false } :: fs⟩, [])
      else if f.k < f.n then
        match dq[f.k]? with
        | none => none
        | some client => visit hook f fs client s.server
      else some (⟨{ s.server with
        dqConnections := if f.bInvalidConnectionsExist then dq.filter (·.isSome) else dq }, fs⟩, [])

/-- The only event is the next step; an output comes with the number of the calls that are running. -/
def machine (hook : Option ι → Message T × Option ι) :
    Mealy (Announcing T ι) Unit (Nat × ServerEffect T ι) where
  next s _ := (s.step hook).map fun r => (r.1, r.2.map fun x => (s.calls.length, x))

/-- The clients that the outermost call has posted its message to. -/
def outerSends (o : List (Nat × ServerEffect T ι)) : List ι :=
  o.filterMap fun
    | (1, .conn i _) => some i
    | _ => none

/-- A call for the clients `l` returns, has reported each disconnected client, has posted its message
to each connected one, and leaves the connected ones. -/
def Sweeps (hook : Option ι → Message T × Option ι) (msg : Message T) (l : List ι)
    (s : Server T ι) : Prop :=
  ∃ n s' o, (machine hook).exec Mealy.free ⟨s, [enter msg none s]⟩ [] (replicate n ()) = some (s', o) ∧
    s'.calls = [] ∧ s'.server.dqConnections = (l.filter s.isConnected).map some ∧
    (∀ i, Server.reports i (o.map Prod.snd) = (l.filter fun j => !s.isConnected j).count i) ∧
    outerSends o = l.filter s.isConnected

variable {hook : Option ι → Message T × Option ι} {s s' : Announcing T ι} {f : Broadcast T ι}
  {fs : List (Broadcast T ι)} {i : ι} {c : Connection T}

theorem visit_open {server : Server T ι} (hc : server.conns i = some c) (hopen : c.socketOpen = true) :
    visit hook f fs (some i) server = some (⟨server.post f.msg (server.addressed f.pIgnoreClient [i]),
      { f with k := f.k + 1 } :: fs⟩, server.tell f.msg f.pIgnoreClient i) := by
  have hcon : server.isConnected i = true := Server.isConnected_iff.mpr ⟨c, hc, hopen⟩
  simp only [visit, hc, if_pos hopen]
  by_cases hign : some i = f.pIgnoreClient
  · simp [Server.tell, Server.addressed, hcon, hign]
  · rw [if_pos hign, Server.onConn_send (by simp [hc])]
    simp [Server.tell, Server.addressed, hcon, hign]

theorem visit_closed {server : Server T ι} (hc : server.conns i = some c)
    (hclosed : ¬ c.socketOpen = true) :
    visit hook f fs (some i) server = some (⟨server,
      enter (hook (some i)).1 (hook (some i)).2 server :: { f with inHook := true } :: fs⟩,
      [.onClientDisconnect (some i)]) := by
  simp only [visit, hc, if_neg hclosed]

/-- The step of a call that is not in the hook and has not come to the end of the list. -/
theorem step_visit (hf : s.calls = f :: fs) (hhook : f.inHook = false) (hk : f.k < f.n)
    (hget : s.server.dqConnections[f.k]? = some (some i)) :
    s.step hook = visit hook f fs (some i) s.server := by
  simp [step, hf, hhook, hk, hget]

/-! ## A disconnected client -/

/-- The innermost call is in front of the disconnected client at `d`. -/
structure Stuck (l : List ι) (d : Nat) (s : Announcing T ι) : Prop where
  entries : s.server.dqConnections = l.map some
  dead : ∃ i, l[d]? = some i ∧ s.server.isConnected i = false
  top : ∃ f fs, s.calls = f :: fs ∧ f.inHook = false ∧ f.k ≤ d ∧ f.n = l.length

theorem Stuck.step {l d o} (hs : Stuck l d s) (hn : (machine hook).next s () = some (s', o)) :
    Stuck l d s' := by
  obtain ⟨hd, ⟨i, hi, hdead⟩, f, fs, hf, hhook, hk, hlen⟩ := hs
  have hdl : d < l.length := (List.getElem?_eq_some_iff.mp hi).1
  obtain ⟨j, hj⟩ : ∃ j, l[f.k]? = some j := ⟨_, getElem?_eq_getElem (by omega)⟩
  have hget : s.server.dqConnections[f.k]? = some (some j) := by rw [hd, getElem?_map, hj]; rfl
  simp only [machine, step_visit hf hhook (by omega) hget] at hn
  cases hc : s.server.conns j with
  | none => simp [visit, hc] at hn
  | some c =>
      by_cases hopen : c.socketOpen = true
      · rw [visit_open hc hopen] at hn
        cases hn
        have hne : f.k ≠ d := by
          rintro rfl
          rw [hi] at hj
          cases hj
          rw [Server.isConnected_iff.mpr ⟨c, hc, hopen⟩] at hdead
          cases hdead
        exact ⟨hd, ⟨i, hi, by rwa [Server.isConnected_post]⟩, _, _, rfl, hhook,
          Nat.lt_of_le_of_ne hk hne, hlen⟩
      · rw [visit_closed hc hopen] at hn
        cases hn
        refine ⟨hd, ⟨i, hi, hdead⟩, _, _, rfl, rfl, Nat.zero_le d, ?_⟩
        simp [enter, hd]

/-- As long as there is a disconnected client, every call that comes to it starts another one. -/
theorem never_returns {server : Server T ι} {l : List ι} (hd : server.dqConnections = l.map some)
    (hi : i ∈ l) (hdead : server.isConnected i = false) (hook : Option ι → Message T × Option ι)
    (msg : Message T) {n s' o}
    (he : (machine hook).exec Mealy.free ⟨server, [enter msg none server]⟩ [] (replicate n ()) =
      some (s', o)) : s'.calls ≠ [] := by
  obtain ⟨d, hget⟩ := List.getElem?_of_mem hi
  have hs : Stuck l d ⟨server, [enter msg none server]⟩ :=
    ⟨hd, ⟨i, hget, hdead⟩, _, _, rfl, rfl, Nat.zero_le d, by simp [enter, hd]⟩
  have hstuck : Stuck l d s' :=
    (Mealy.Run.of_exec _ he).invariant (P := fun s _ => Stuck l d s) hs
      fun _ _ _ _ _ hs _ hn => hs.step hn
  obtain ⟨f, fs, hf, -⟩ := hstuck.top
  rw [hf]
  exact cons_ne_nil f fs

/-! ## Connected clients only -/

/-- The rest of a call whose clients are all connected. -/
theorem exec_connected (hook : Option ι → Message T × Option ι) (rest : List ι) {front : List (Option ι)} {h}
    (hf : s.calls = f :: fs) (hhook : f.inHook = false) (hb : f.bInvalidConnectionsExist = false)
    (hk : f.k = front.length) (hn : f.n = f.k + rest.length)
    (hd : s.server.dqConnections = front ++ rest.map some)
    (hc : ∀ i ∈ rest, s.server.isConnected i = true) :
    (machine hook).exec Mealy.free s h (replicate (rest.length + 1) ()) =
      some (⟨s.server.post f.msg (s.server.addressed f.pIgnoreClient rest), fs⟩,
        h ++ (rest.flatMap (s.server.tell f.msg f.pIgnoreClient)).map fun x => (s.calls.length, x)) := by
  induction rest generalizing s f front h with
  | nil =>
      have hend : ¬ f.k < f.n := by simp [hn]
      simp [Mealy.exec, machine, step, hf, hhook, hb, hend, Server.addressed]
  | cons i rest ih =>
      obtain ⟨c, hci, hopen⟩ := Server.isConnected_iff.mp (hc i mem_cons_self)
      have hlt : f.k < f.n := by simp [hn]
      have hget : s.server.dqConnections[f.k]? = some (some i) := by simp [hd, hk]
      have hnext : (machine hook).next s () = some (⟨s.server.post f.msg
          (s.server.addressed f.pIgnoreClient [i]), { f with k := f.k + 1 } :: fs⟩,
          (s.server.tell f.msg f.pIgnoreClient i).map fun x => (s.calls.length, x)) := by
        simp only [machine, step_visit hf hhook hlt hget, visit_open hci hopen, Option.map_some]
      have hsame : (s.server.post f.msg (s.server.addressed f.pIgnoreClient [i])).isConnected =
          s.server.isConnected := Server.isConnected_post
      have hstep := ih (s := ⟨s.server.post f.msg (s.server.addressed f.pIgnoreClient [i]),
          { f with k := f.k + 1 } :: fs⟩)
        (h := h ++ (s.server.tell f.msg f.pIgnoreClient i).map fun x => (s.calls.length, x)) rfl hhook hb
        (show f.k + 1 = (front ++ [some i]).length by simp [hk])
        (by simp only [hn, length_cons]; omega)
        (show s.server.dqConnections = (front ++ [some i]) ++ rest.map some by simp [hd])
        (fun j hj => by rw [hsame]; exact hc j (mem_cons_of_mem _ hj))
      rw [Server.addressed_congr hsame, Server.tell_congr hsame, Server.post_addressed_cons] at hstep
      show (machine hook).exec Mealy.free s h (() :: replicate (rest.length + 1) ()) = _
      simp only [Mealy.exec, if_true, hnext]
      rw [hstep]
      simp [hf]

omit [IdType T] in
theorem outerSends_tell {server : Server T ι} (msg : Message T) (l : List ι) :
    outerSends ((l.flatMap (server.tell msg none)).map fun x => (1, x)) =
      l.filter server.isConnected := by
  induction l with
  | nil => rfl
  | cons i l ih =>
      rw [flatMap_cons, map_append, outerSends, filterMap_append, ← outerSends, ← outerSends, ih]
      by_cases hcon : server.isConnected i = true
      · simp [Server.tell, outerSends, hcon]
      · simp [Server.tell, outerSends, hcon]

/-- With a hook that broadcasts, a call sweeps the list exactly when no client in it is
disconnected; when one is, the call never returns. -/
theorem sweeps_iff {server : Server T ι} {l : List ι} (hd : server.dqConnections = l.map some)
    (hook : Option ι → Message T × Option ι) (msg : Message T) :
    (Sweeps hook msg l server ↔ ∀ i ∈ l, server.isConnected i = true) ∧
      ∀ i ∈ l, server.isConnected i = false → ∀ n s' o,
        (machine hook).exec Mealy.free ⟨server, [enter msg none server]⟩ [] (replicate n ()) =
          some (s', o) → s'.calls ≠ [] := by
  refine ⟨⟨?_, fun hall => ?_⟩, fun i hi hdead n s' o he => never_returns hd hi hdead hook msg he⟩
  · rintro ⟨n, s', o, he, hret, -⟩ i hi
    by_contra hdead
    exact never_returns hd hi (by simpa using hdead) hook msg he hret
  · have he := exec_connected hook (s := ⟨server, [enter msg none server]⟩) (h := []) l rfl rfl rfl
      rfl (by simp [enter, hd]) (show _ = [] ++ l.map some by simpa using hd) hall
    refine ⟨_, _, _, he, rfl, ?_, fun i => ?_, outerSends_tell msg l⟩
    · show server.dqConnections = _
      rw [hd, filter_eq_self.mpr hall]
    · simp [Server.reports_tell, Function.comp_def, enter]

/-- Tells everybody. -/
def farewell : Option Bool → Message UInt32 × Option Bool := fun _ => (⟨⟨2, 8⟩, []⟩, none)

theorem sweeps_iff_twoClients :
    Sweeps farewell ⟨⟨1, 8⟩, []⟩ [false, true] Server.twoClients ↔
      ∀ i ∈ [false, true], Server.twoClients.isConnected i = true :=
  (sweeps_iff (rfl : Server.twoClients.dqConnections = [false, true].map some) farewell
    ⟨⟨1, 8⟩, []⟩).1

theorem not_sweeps :
    ¬ ∀ (server : Server UInt32 Bool) (l : List Bool), server.dqConnections = l.map some →
      (∀ i ∈ l, (server.conns i).isSome = true) → ∀ hook msg, Sweeps hook msg l server := by
  intro hall
  obtain ⟨n, s', o, he, hret, -⟩ := hall Server.twoClients [false, true] rfl (by decide) farewell
    ⟨⟨1, 8⟩, []⟩
  exact never_returns (l := [false, true]) rfl mem_cons_self (by decide) farewell _ he hret

end Announcing

end AsioNetworking

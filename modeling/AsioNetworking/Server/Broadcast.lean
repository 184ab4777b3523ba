import AsioNetworking.Server.Step

/-!
# `MessageAllClients`

What one call does to the clients and to `m_dqConnections`, when it is not interrupted and the hook
does not call the server back.
-/

namespace AsioNetworking

open List

variable {T ι : Type} [DecidableEq ι] [IdType T]

namespace Server

/-- `client->IsConnected()`. -/
def isConnected (s : Server T ι) (i : ι) : Bool := ((s.conns i).map (·.socketOpen)).getD false

/-- The user thread calls `MessageAllClients(msg, pIgnoreClient)`. -/
def callAll (msg : Message T) (pIgnoreClient : Option ι) (s : Server T ι) : Server T ι :=
  { s with user := .visit 0 s.dqConnections.length msg pIgnoreClient false :: s.user }

/-- The steps of the user thread in a call with `n` entries in `m_dqConnections`. -/
def rounds (n : Nat) : List (ServerEvent T ι) := replicate (n + 1) (.user [])

/-- The `Send` to a connected client, or the report of a disconnected one. -/
def tell (msg : Message T) (pIgnoreClient : Option ι) (s : Server T ι) (i : ι) :
    List (ServerEffect T ι) :=
  if s.isConnected i then if some i ≠ pIgnoreClient then [.conn i (.send msg)] else []
  else [.onClientDisconnect (some i)]

/-- `msg` has been posted to each of the clients `is`. -/
def post (msg : Message T) (is : List ι) (s : Server T ι) : Server T ι :=
  { s with conns := fun i => (s.conns i).map fun c =>
      { c with posted := c.posted ++ replicate (is.count i) (.send msg) } }

/-- The clients among `is` that the message is for. -/
def addressed (pIgnoreClient : Option ι) (s : Server T ι) (is : List ι) : List ι :=
  is.filter fun i => s.isConnected i && some i ≠ pIgnoreClient

section

variable {s s' : Server T ι} {msg : Message T} {ign : Option ι} {i : ι} {is : List ι}

omit [DecidableEq ι] [IdType T]

theorem isConnected_iff : s.isConnected i = true ↔ ∃ c, s.conns i = some c ∧ c.socketOpen = true := by
  cases hc : s.conns i <;> simp [isConnected, hc]

theorem isConnected_eq_false {c : Connection T} (hc : s.conns i = some c)
    (hclosed : ¬ c.socketOpen = true) : s.isConnected i = false := by
  simpa [isConnected, hc] using hclosed

theorem isConnected_congr (h : s'.conns = s.conns) : s'.isConnected = s.isConnected := by
  funext i
  rw [isConnected, isConnected, h]

variable [DecidableEq ι]

@[simp] theorem isConnected_post : (s.post msg is).isConnected = s.isConnected := by
  funext i
  cases hc : s.conns i <;> simp [isConnected, post, hc]

@[simp] theorem post_nil : s.post msg [] = s := by
  have hconns : (fun i => (s.conns i).map fun c : Connection T =>
      { c with posted := c.posted ++ replicate (([] : List ι).count i) (.send msg) }) = s.conns := by
    funext i
    cases hc : s.conns i <;> simp
  rw [post, hconns]

theorem post_post (is' : List ι) : (s.post msg is).post msg is' = s.post msg (is ++ is') := by
  have hconns : ((s.post msg is).post msg is').conns = (s.post msg (is ++ is')).conns := by
    funext i
    cases hc : s.conns i <;> simp [post, hc, count_append, replicate_append_replicate]
  simp only [post] at hconns ⊢
  rw [hconns]

theorem post_addressed_cons (i : ι) (is : List ι) :
    (s.post msg (s.addressed ign [i])).post msg (s.addressed ign is) =
      s.post msg (s.addressed ign (i :: is)) := by
  rw [post_post, addressed, addressed, ← filter_append]
  rfl

/-- The effects of a call depend on the sockets only. -/
theorem tell_congr (h : s'.isConnected = s.isConnected) : s'.tell msg ign = s.tell msg ign := by
  funext i
  simp only [tell, h]

theorem addressed_congr (h : s'.isConnected = s.isConnected) :
    s'.addressed ign is = s.addressed ign is := by
  simp only [addressed, h]

end

variable {s s' : Server T ι} {msg : Message T} {ign : Option ι}

/-- `Send` posts the message. -/
theorem onConn_send {i : ι} (hc : (s.conns i).isSome = true) :
    s.onConn i (.send msg) = some (s.post msg [i], [.conn i (.send msg)]) := by
  obtain ⟨c, hc⟩ := Option.isSome_iff_exists.mp hc
  have hconns : Function.update s.conns i (some { c with posted := c.posted ++ [.send msg] }) =
      (s.post msg [i]).conns := by
    funext j
    by_cases hij : j = i
    · subst hij
      simp [post, hc]
    · rw [Function.update_of_ne hij]
      cases hj : s.conns j <;> simp [post, hj, Ne.symm hij]
  simp only [onConn, hc, Connection.next, Connection.send, setConn, hconns, owned]
  simp [post]

/-! ## One round, and all rounds -/

section

variable {k n : Nat} {b : Bool} {tasks : List (UserTask T ι)} {i : ι} {c : Connection T}

theorem visit_connected (hu : s.user = .visit k n msg ign b :: tasks) (hk : k < n)
    (hd : s.dqConnections[k]? = some (some i)) (hc : s.conns i = some c)
    (hopen : c.socketOpen = true) :
    s.next (.user []) = some ({ s.post msg (s.addressed ign [i]) with
      user := .visit (k + 1) n msg ign b :: tasks }, s.tell msg ign i) := by
  have hcon : s.isConnected i = true := isConnected_iff.mpr ⟨c, hc, hopen⟩
  simp only [next, hu, runUser, if_pos hk, hd, visit, hc, if_pos hopen]
  by_cases hign : some i = ign
  · simp [tell, addressed, hcon, hign]
  · rw [if_pos hign, onConn_send (by simp [hc])]
    simp [tell, addressed, hcon, hign, post]

theorem visit_disconnected (hu : s.user = .visit k n msg ign b :: tasks) (hk : k < n)
    (hd : s.dqConnections[k]? = some (some i)) (hc : s.conns i = some c)
    (hclosed : ¬ c.socketOpen = true) :
    s.next (.user []) = some ({ s with
      dqConnections := s.dqConnections.set k none
      user := .visit (k + 1) n msg ign true :: tasks }, [.onClientDisconnect (some i)]) := by
  simp only [next, hu, runUser, if_pos hk, hd, visit, hc, if_neg hclosed]

end

omit [DecidableEq ι] in
/-- Without the flag there is nothing to erase. -/
theorem erase_visited {front : List (Option ι)} {b : Bool} (hb : b = false → none ∉ front) :
    (if b = true then front.filter (·.isSome) else front) = front.filter (·.isSome) := by
  cases b with
  | true => rfl
  | false =>
      refine (filter_eq_self.mpr fun x hx => ?_).symm
      rw [Option.isSome_iff_ne_none]
      rintro rfl
      exact hb rfl hx

/-- What the rest of a call does: `front` are the entries that it has visited, `rest` are those to
come, and `tasks` is what the user thread does after it. -/
theorem exec_visit (rest : List ι) {front : List (Option ι)} {k n : Nat} {b tasks h}
    (hu : s.user = .visit k n msg ign b :: tasks) (hk : k = front.length)
    (hn : n = k + rest.length) (hd : s.dqConnections = front ++ rest.map some)
    (hc : ∀ i ∈ rest, (s.conns i).isSome = true) (hb : b = false → none ∉ front) :
    (machine T ι).exec Mealy.free s h (rounds rest.length) =
      some ({ s.post msg (s.addressed ign rest) with
          dqConnections := front.filter (·.isSome) ++ (rest.filter s.isConnected).map some
          user := tasks }, h ++ rest.flatMap (s.tell msg ign)) := by
  induction rest generalizing s front k b h with
  | nil =>
      have hend : ¬ k < n := by simp [hn]
      simp [rounds, Mealy.exec, machine, next, hu, runUser, hend, hd, erase_visited hb, addressed]
  | cons i rest ih =>
      obtain ⟨c, hci⟩ := Option.isSome_iff_exists.mp (hc i mem_cons_self)
      have hrest : ∀ j ∈ rest, (s.conns j).isSome = true := fun j hj => hc j (mem_cons_of_mem _ hj)
      have hlt : k < n := by simp [hn]
      have hn' : n = k + 1 + rest.length := by rw [hn, length_cons]; omega
      have hget : s.dqConnections[k]? = some (some i) := by simp [hd, hk]
      show (machine T ι).exec Mealy.free s h (.user [] :: rounds rest.length) = _
      simp only [Mealy.exec, if_true]
      by_cases hopen : c.socketOpen = true
      · have hcon : s.isConnected i = true := isConnected_iff.mpr ⟨c, hci, hopen⟩
        have hnext : (machine T ι).next s (.user []) = _ := visit_connected hu hlt hget hci hopen
        have hdeq : s.dqConnections = (front ++ [some i]) ++ rest.map some := by simp [hd]
        have hrest' : ∀ j ∈ rest, ((s.post msg (s.addressed ign [i])).conns j).isSome = true :=
          fun j hj => by simpa [post] using hrest j hj
        have hstep := ih (s := { s.post msg (s.addressed ign [i]) with
          user := .visit (k + 1) n msg ign b :: tasks }) (h := h ++ s.tell msg ign i) rfl (by simp [hk])
          hn' hdeq hrest' (by simpa using hb)
        have hsame : Server.isConnected { s.post msg (s.addressed ign [i]) with
            user := .visit (k + 1) n msg ign b :: tasks } = s.isConnected :=
          (isConnected_congr rfl).trans isConnected_post
        rw [addressed_congr hsame, tell_congr hsame, hsame] at hstep
        rw [hnext, ← post_addressed_cons i rest, filter_cons_of_pos hcon]
        simp only
        rw [hstep]
        simp [post]
      · have hcon : s.isConnected i = false := isConnected_eq_false hci hopen
        have hnext : (machine T ι).next s (.user []) = _ := visit_disconnected hu hlt hget hci hopen
        have hdeq : s.dqConnections.set k none = (front ++ [none]) ++ rest.map some := by
          simp [hd, hk]
        have hstep := ih (s := { s with
          dqConnections := s.dqConnections.set k none
          user := .visit (k + 1) n msg ign true :: tasks }) (h := h ++ [.onClientDisconnect (some i)])
          rfl (by simp [hk]) hn' hdeq hrest (fun hf => by cases hf)
        have hsame : Server.isConnected { s with
            dqConnections := s.dqConnections.set k none
            user := .visit (k + 1) n msg ign true :: tasks } = s.isConnected := isConnected_congr rfl
        have haddr : s.addressed ign (i :: rest) = s.addressed ign rest := by simp [addressed, hcon]
        rw [addressed_congr hsame, tell_congr hsame, hsame] at hstep
        rw [hnext, haddr, filter_cons_of_neg (by simp [hcon])]
        simp only
        rw [hstep]
        simp [post, tell, hcon]

/-! ## The whole call -/

/-- Both ways to call `MessageAllClients` are calls with a null pointer or with the client of the
running `OnMessage`. -/
theorem call_eq_callAll (msg : Message T) (s : Server T ι) :
    (s.user = [] → s.next (.messageAllClients msg) = some (s.callAll msg none, [])) ∧
      ∀ calls client ignore, runUser calls (.call client (.messageAllClients msg ignore)) s =
        some (s.callAll msg (if ignore then client else none), []) := by
  refine ⟨fun hu => ?_, fun _ _ _ => rfl⟩
  simp [next, callAll, hu]

/-- The server after a call of `MessageAllClients` for the clients `l`. -/
def swept (msg : Message T) (pIgnoreClient : Option ι) (l : List ι) (s : Server T ι) : Server T ι :=
  { s.post msg (s.addressed pIgnoreClient l) with
    dqConnections := (l.filter s.isConnected).map some }

theorem exec_callAll {l : List ι} (hd : s.dqConnections = l.map some)
    (hc : ∀ i ∈ l, (s.conns i).isSome = true) (msg : Message T) (ign : Option ι)
    (h : List (ServerEffect T ι)) :
    (machine T ι).exec Mealy.free (s.callAll msg ign) h (rounds l.length) =
      some (s.swept msg ign l, h ++ l.flatMap (s.tell msg ign)) := by
  have hsame : (s.callAll msg ign).isConnected = s.isConnected := isConnected_congr rfl
  have hvisit := exec_visit (s := s.callAll msg ign) (h := h) l rfl rfl (by simp [hd])
    (show _ = [] ++ l.map some by simpa [callAll] using hd) hc (fun _ => by simp)
  rw [addressed_congr hsame, tell_congr hsame, hsame] at hvisit
  rw [hvisit]
  rfl

/-- For every content of `m_dqConnections` and every `pIgnoreClient`: one call posts the message to
the connected clients but the ignored one, reports each disconnected client, and leaves the connected
ones, all in the order of the list; the next call reports nobody and leaves the list alone. -/
theorem messageAllClients_spec {l : List ι} (hd : s.dqConnections = l.map some)
    (hc : ∀ i ∈ l, (s.conns i).isSome = true) (msg : Message T) (ign : Option ι)
    (h : List (ServerEffect T ι)) :
    (machine T ι).exec Mealy.free (s.callAll msg ign) h (rounds s.dqConnections.length) =
      some (s.swept msg ign l, h ++ l.flatMap (s.tell msg ign)) ∧
    ∀ msg' ign' h', ∃ s'' o, (machine T ι).exec Mealy.free ((s.swept msg ign l).callAll msg' ign') h'
        (rounds (s.swept msg ign l).dqConnections.length) = some (s'', h' ++ o) ∧
      (∀ client, .onClientDisconnect client ∉ o) ∧
      s''.dqConnections = (s.swept msg ign l).dqConnections := by
  have hlen (l : List ι) : (l.map some).length = l.length := length_map ..
  refine ⟨?_, fun msg' ign' h' => ?_⟩
  · rw [hd, hlen]
    exact exec_callAll hd hc msg ign h
  · have hsame : (s.swept msg ign l).isConnected = s.isConnected :=
      (isConnected_congr rfl).trans isConnected_post
    have hthere : ∀ i ∈ l.filter s.isConnected, ((s.swept msg ign l).conns i).isSome = true := by
      intro i hi
      simpa [swept, post] using hc i (mem_of_mem_filter hi)
    have hcall := exec_callAll (s := s.swept msg ign l) rfl hthere msg' ign' h'
    rw [← hlen] at hcall
    refine ⟨_, _, hcall, fun client hmem => ?_, ?_⟩
    · obtain ⟨i, hi, hx⟩ := mem_flatMap.mp hmem
      have hcon : s.isConnected i = true := (mem_filter.mp hi).2
      rw [tell_congr hsame, tell, if_pos hcon] at hx
      split at hx <;> simp at hx
    · show ((l.filter s.isConnected).filter (s.swept msg ign l).isConnected).map some = _
      rw [hsame, filter_eq_self.mpr fun i hi => (mem_filter.mp hi).2]
      rfl

/-- Two clients, the first of which is disconnected. -/
def twoClients : Server UInt32 Bool :=
  { init with
    conns := fun i => some (Connection.construct .server i true 0)
    dqConnections := [some false, some true] }

theorem messageAllClients_spec_twoClients :
    (machine UInt32 Bool).exec Mealy.free (twoClients.callAll ⟨⟨1, 8⟩, []⟩ none) [] (rounds 2) =
      some (twoClients.swept ⟨⟨1, 8⟩, []⟩ none [false, true],
        [.onClientDisconnect (some false), .conn true (.send ⟨⟨1, 8⟩, []⟩)]) :=
  (messageAllClients_spec (s := twoClients) (l := [false, true]) rfl (by decide) ⟨⟨1, 8⟩, []⟩ none
    []).1

end Server

end AsioNetworking

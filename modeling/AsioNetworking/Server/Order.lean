import AsioNetworking.Interface.Registry
import AsioNetworking.Server.Broadcast
import Mathlib.Data.List.TakeWhile

/-!
# The order of broadcasts

`MessageAllClients` goes through the clients one after the other, while the context thread accepts new
clients and closes sockets. All clients get the messages in the order of the calls: each one gets what
it is due, none twice, and none out of turn.
-/

namespace AsioNetworking

open List

variable {T ι : Type}

/-- What the observer of a server writes down. -/
inductive Mark (T ι : Type) where
  /-- A client is approved and comes into `m_dqConnections`. -/
  | registered (i : ι)
  /-- `MessageAllClients(msg, pIgnoreClient)` is called. -/
  | called (msg : Message T) (pIgnoreClient : Option ι)
  /-- `MessageAllClients` calls `client->Send(msg)`. -/
  | told (i : ι) (msg : Message T)
  deriving DecidableEq

namespace Server

/-- What the step of the server at `s` with the effects `o` is for the observer. -/
def mark (s : Server T ι) (e : ServerEvent T ι) (o : List (ServerEffect T ι)) : List (Mark T ι) :=
  match e with
  | .accept i _ _ true => [.registered i]
  | .messageAllClients msg => [.called msg none]
  | .user _ =>
      match s.user with
      | .call client (.messageAllClients msg ignore) :: _ =>
          [.called msg (if ignore then client else none)]
      | .visit _ _ _ _ _ :: _ => o.filterMap fun
          | .conn i (.send msg) => some (.told i msg)
          | _ => none
      | _ => []
  | _ => []

variable [DecidableEq ι]

/-- The messages that `MessageAllClients` gave to `Send` of the client `i`. -/
def told (i : ι) (l : List (Mark T ι)) : List (Message T) :=
  l.filterMap fun
    | .told j msg => if j = i then some msg else none
    | _ => none

/-- The messages of the calls that do not ignore the client `i`. -/
def calledFor (i : ι) (l : List (Mark T ι)) : List (Message T) :=
  l.filterMap fun
    | .called msg pIgnoreClient => if some i = pIgnoreClient then none else some msg
    | _ => none

def isRegistration (i : ι) : Mark T ι → Bool
  | .registered j => j = i
  | _ => false

/-- What the client `i` is to get: the messages of the calls since it was registered. -/
def due (i : ι) (l : List (Mark T ι)) : List (Message T) :=
  calledFor i (l.dropWhile fun x => !isRegistration i x)

/-- What the running call is still going to give to the client `i`. -/
def awaited (i : ι) (s : Server T ι) : List (Message T) :=
  match s.user with
  | .visit k n msg pIgnoreClient _ :: _ =>
      if ((s.dqConnections.take n).drop k).contains (some i) ∧ some i ≠ pIgnoreClient then [msg] else []
  | _ => []

section

variable (i : ι) (l o : List (Mark T ι))

@[simp] theorem told_append : told i (l ++ o) = told i l ++ told i o := filterMap_append

@[simp] theorem calledFor_append : calledFor i (l ++ o) = calledFor i l ++ calledFor i o :=
  filterMap_append

theorem due_append (ho : ∀ x ∈ o, isRegistration i x = false) :
    due i (l ++ o) = due i l ++ if l.any (isRegistration i) then calledFor i o else [] := by
  induction l with
  | nil =>
      have hnil : o.dropWhile (fun x => !isRegistration i x) = [] :=
        dropWhile_eq_nil_iff.mpr fun x hx => by simp [ho x hx]
      simp [due, hnil]
  | cons x l ih =>
      cases hx : isRegistration i x with
      | true =>
          simp only [due, cons_append, dropWhile_cons, hx, Bool.not_true, Bool.false_eq_true, if_false,
            any_cons, Bool.true_or, if_true]
          rw [← cons_append, calledFor_append]
      | false =>
          simp only [due, cons_append, dropWhile_cons, hx, Bool.not_false, if_true, any_cons,
            Bool.false_or] at ih ⊢
          exact ih

theorem due_of_unregistered (hl : l.any (isRegistration i) = false) : due i l = [] := by
  have hnil : l.dropWhile (fun x => !isRegistration i x) = [] :=
    dropWhile_eq_nil_iff.mpr fun x hx => by simpa using any_eq_false.mp hl x hx
  simp [due, hnil, calledFor]

end

variable {s s' : Server T ι} {i : ι} {l : List (Mark T ι)}

theorem awaited_quiet (hv : ∀ task ∈ s.user.head?, isVisit task = false) : awaited i s = [] := by
  unfold awaited
  split
  · rename_i hu
    simp [hu, isVisit] at hv
  · rfl

/-! ## The invariant -/

/-- The clients have been told what they are due; those that are registered and connected will have
been told all of it when the running call returns. -/
structure OrderInv (s : Server T ι) (h : List (ServerEffect T ι)) (l : List (Mark T ι)) : Prop where
  registry : RegistryInv s h
  nulls : Nulls s
  bound : ∀ k n msg ign b tasks, s.user = .visit k n msg ign b :: tasks → n ≤ s.dqConnections.length
  registered : ∀ i, l.any (isRegistration i) = true ↔ ∃ uid, (i, uid) ∈ approved h
  order : ∀ i, told i l <+: due i l
  exact : ∀ i, some i ∈ s.dqConnections → s.isConnected i = true →
    told i l ++ awaited i s = due i l
  among : ∀ i, told i l <+ sends (hist i h)

variable [IdType T] {h o : List (ServerEffect T ι)}

omit [IdType T] in
theorem OrderInv.init : OrderInv (T := T) (ι := ι) init [] [] :=
  ⟨.init, .idle (by simp [Server.init]) (by simp [Server.init]), by simp [Server.init],
    by simp [approved], fun _ => prefix_rfl, by simp [Server.init],
    fun _ => nil_sublist _⟩

omit [IdType T] in
theorem OrderInv.among_append (hi : OrderInv s h l) (o : List (ServerEffect T ι)) (i : ι) :
    told i l <+ sends (hist i (h ++ o)) := by
  rw [hist_append, sends_append]
  exact (hi.among i).trans (sublist_append_left _ _)

/-- A step that the observer does not note. -/
theorem OrderInv.unmarked {e} (hi : OrderInv s h l) (hs : InterfaceStep s e s' o)
    (ha : approved o = [])
    (hb : ∀ k n msg ign b tasks, s'.user = .visit k n msg ign b :: tasks → n ≤ s'.dqConnections.length)
    (hd : ∀ i, some i ∈ s'.dqConnections → s'.isConnected i = true →
      some i ∈ s.dqConnections ∧ s.isConnected i = true ∧ awaited i s' = awaited i s) :
    OrderInv s' (h ++ o) l := by
  refine ⟨hi.registry.step hs.registryStep, hi.nulls.step hs, hb, fun i => ?_, hi.order,
    fun i hm hcon => ?_, hi.among_append o⟩
  · rw [approved_append, ha, append_nil]
    exact hi.registered i
  · obtain ⟨hm, hcon, haw⟩ := hd i hm hcon
    rw [haw]
    exact hi.exact i hm hcon

/-- A call of `MessageAllClients`. -/
theorem OrderInv.called {e msg ign tasks} (hi : OrderInv s h l) (hs : InterfaceStep s e s' o)
    (ha : approved o = []) (hv : ∀ task ∈ s.user.head?, isVisit task = false)
    (hu : s'.user = .visit 0 s.dqConnections.length msg ign false :: tasks)
    (hd : s'.dqConnections = s.dqConnections) (hc : s'.conns = s.conns) :
    OrderInv s' (h ++ o) (l ++ [.called msg ign]) := by
  have hdue (i : ι) : due i (l ++ [.called msg ign]) = due i l ++
      if l.any (isRegistration i) then (if some i = ign then [] else [msg]) else [] := by
    rw [due_append i l _ (by simp [isRegistration])]
    by_cases hign : some i = ign <;> simp [calledFor, hign]
  have htold (i : ι) : told i (l ++ [.called msg ign]) = told i l := by simp [told]
  refine ⟨hi.registry.step hs.registryStep, hi.nulls.step hs, ?_, fun i => ?_, fun i => ?_,
    fun i hm hcon => ?_, fun i => htold i ▸ hi.among_append o i⟩
  · intro k n msg' ign' b tasks' hu'
    rw [hu] at hu'
    cases hu'
    rw [hd]
  · rw [approved_append, ha, append_nil, any_append]
    simpa [isRegistration] using hi.registered i
  · rw [htold, hdue]
    exact (hi.order i).trans (prefix_append _ _)
  · rw [hd] at hm
    rw [isConnected_congr hc] at hcon
    have hex := hi.exact i hm hcon
    rw [awaited_quiet hv, append_nil] at hex
    have hreg : l.any (isRegistration i) = true := (hi.registered i).mpr (hi.registry.registered i hm)
    rw [htold, hdue, hex, hreg, if_pos rfl]
    by_cases hign : some i = ign <;> simp [awaited, hu, hd, hm, hign]

/-- A client is approved. It is not in the part of the list that a running call goes through. -/
theorem OrderInv.approved {nonce sends} (hi : OrderInv s h l) (hnone : s.conns i = none) :
    OrderInv (s.accept i nonce sends true).1 (h ++ (s.accept i nonce sends true).2)
      (l ++ [.registered i]) := by
  have hs : InterfaceStep s (.server (.accept i nonce sends true)) _ _ :=
    .server (.accept i nonce sends true hnone)
  have hd : (s.accept i nonce sends true).1.dqConnections = s.dqConnections ++ [some i] := rfl
  have hu : (s.accept i nonce sends true).1.user = s.user := rfl
  have hfresh : ¬ ∃ uid, (i, uid) ∈ Server.approved h := by
    rintro ⟨uid, hp⟩
    obtain ⟨c, hc, -⟩ := hi.registry.known _ hp
    rw [hnone] at hc
    cases hc
  have hunreg : l.any (isRegistration i) = false := by
    rw [← Bool.not_eq_true, hi.registered i]
    exact hfresh
  have hnot : some i ∉ s.dqConnections := fun hm => hfresh (hi.registry.registered i hm)
  have htold (j : ι) : told j (l ++ [.registered i]) = told j l := by simp [told]
  have hdue (j : ι) (hj : j ≠ i) : due j (l ++ [.registered i]) = due j l := by
    rw [due_append j l _ (by simp [isRegistration, Ne.symm hj])]
    simp [calledFor]
  have htoldi : told i l = [] := by
    have hpre := hi.order i
    rw [due_of_unregistered i l hunreg] at hpre
    exact prefix_nil.mp hpre
  -- the entries that the running call goes through are those of the old list
  have hpart {k n msg ign b tasks} (hv : s.user = .visit k n msg ign b :: tasks) :
      ((s.dqConnections ++ [some i]).take n).drop k = (s.dqConnections.take n).drop k := by
    rw [take_append_of_le_length (hi.bound _ _ _ _ _ _ hv)]
  have haw (j : ι) : awaited j (s.accept i nonce sends true).1 = awaited j s := by
    unfold awaited
    rw [hu, hd]
    split
    · rename_i hv
      rw [hpart hv]
    · rfl
  refine ⟨hi.registry.step hs.registryStep, hi.nulls.step hs, fun k n msg ign b tasks hv => ?_,
    fun j => ?_, fun j => ?_, fun j hm hcon => ?_, fun j => htold j ▸ hi.among_append _ j⟩
  · rw [hu] at hv
    rw [hd, length_append]
    exact Nat.le_add_right_of_le (hi.bound k n msg ign b tasks hv)
  · rw [approved_append, approved_accept, if_pos rfl, any_append]
    by_cases hj : j = i
    · subst hj
      simp [isRegistration]
    · have hother := hi.registered j
      simp [isRegistration, Ne.symm hj, hj] at hother ⊢
      exact hother
  · rw [htold]
    by_cases hj : j = i
    · rw [hj, htoldi]
      exact nil_prefix
    · rw [hdue j hj]
      exact hi.order j
  · rw [htold, haw]
    by_cases hj : j = i
    · subst hj
      have hnil : awaited j s = [] := by
        unfold awaited
        split
        · rw [if_neg fun hw => hnot (mem_of_mem_take (mem_of_mem_drop (contains_iff_mem.mp hw.1)))]
        · rfl
      have hdrop : l.dropWhile (fun x => !isRegistration j x) = [] :=
        dropWhile_eq_nil_iff.mpr fun x hx => by simpa using any_eq_false.mp hunreg x hx
      rw [htoldi, hnil, due, dropWhile_append, hdrop]
      simp [isRegistration, calledFor]
    · rw [hd, mem_append, mem_singleton, Option.some.injEq] at hm
      rw [hdue j hj]
      refine hi.exact j (hm.resolve_right hj) ?_
      have hsame : (s.accept i nonce sends true).1.conns j = s.conns j := Function.update_of_ne hj ..
      rw [isConnected, hsame] at hcon
      exact hcon

omit [IdType T] in
theorem awaited_visit {k n : Nat} {msg : Message T} {ign b tasks}
    (hu : s.user = .visit k n msg ign b :: tasks) : awaited i s =
      if some i ∈ (s.dqConnections.take n).drop k ∧ some i ≠ ign then [msg] else [] := by
  simp only [awaited, hu, contains_iff_mem]

omit [DecidableEq ι] in
/-- The entry that a running call has come to, and those to come after it. -/
theorem part_eq_cons {dq : List (Option ι)} {k n : Nat} {client} (hk : k < n)
    (hd : dq[k]? = some client) : (dq.take n).drop k = client :: (dq.take n).drop (k + 1) := by
  obtain ⟨hlt, hget⟩ := List.getElem?_eq_some_iff.mp hd
  have hlen : k < (dq.take n).length := by
    rw [length_take]
    omega
  rw [drop_eq_getElem_cons hlen, getElem_take, hget]

omit [IdType T] in
/-- A client is visited once. -/
theorem RegistryInv.not_mem_part (hi : RegistryInv s h) {k n : Nat} (hk : k < n)
    (hd : s.dqConnections[k]? = some (some i)) : some i ∉ (s.dqConnections.take n).drop (k + 1) := by
  intro hm
  have hcount := hi.count i
  have hle : ((s.dqConnections.take n).drop k).count (some i) ≤ s.dqConnections.count (some i) :=
    ((drop_sublist _ _).trans (take_sublist _ _)).count_le _
  rw [part_eq_cons hk hd, count_cons_self] at hle
  have hpos := count_pos_iff.mpr hm
  omega

/-- A socket that is open after a step of its connection was open before. -/
theorem isConnected_setConn {s₁ : Server T ι} {j : ι} {c e r} (hc : s.conns j = some c)
    (hr : c.next e = some r) (h₁ : s₁.conns = s.conns) (hcon : (s₁.setConn j r).isConnected i = true) :
    s.isConnected i = true := by
  by_cases hij : i = j
  · subst hij
    simp only [isConnected, setConn, Function.update_self, Option.map_some, Option.getD_some] at hcon
    exact isConnected_iff.mpr ⟨c, hc, (Connection.next_writeStep (o := r.2) hr).isOpen hcon⟩
  · simpa [isConnected, setConn, Function.update_of_ne hij, h₁] using hcon

/-- A running call has come to the next client, and tells it. -/
theorem OrderInv.tell {calls k n msg ign b tasks c r} (hi : OrderInv s h l)
    (hs : ServerStep s (.user calls)
      (setConn i r { s with user := .visit (k + 1) n msg ign b :: tasks }) (r.2.map (.conn i)))
    (hu : s.user = .visit k n msg ign b :: tasks) (hk : k < n)
    (hd : s.dqConnections[k]? = some (some i)) (hc : s.conns i = some c) (hopen : c.socketOpen = true)
    (hne : some i ≠ ign) (hr : c.next (.send msg) = some r) :
    OrderInv (setConn i r { s with user := .visit (k + 1) n msg ign b :: tasks })
      (h ++ r.2.map (.conn i)) (l ++ [.told i msg]) := by
  have hdue (j : ι) : due j (l ++ [.told i msg]) = due j l := by
    rw [due_append j l _ (by simp [isRegistration])]
    simp [calledFor]
  have htold (j : ι) : told j (l ++ [.told i msg]) = told j l ++ if i = j then [msg] else [] := by
    by_cases hij : i = j <;> simp [told, hij]
  have hpart := part_eq_cons hk hd
  have haw (j : ι) : awaited j s = (if i = j then [msg] else []) ++
      awaited j (setConn i r { s with user := .visit (k + 1) n msg ign b :: tasks }) := by
    rw [awaited_visit hu, awaited_visit rfl, hpart]
    show _ = _ ++ if some j ∈ (s.dqConnections.take n).drop (k + 1) ∧ some j ≠ ign then [msg] else []
    by_cases hij : i = j
    · subst hij
      rw [if_pos rfl, if_pos ⟨mem_cons_self, hne⟩, if_neg fun hw => hi.registry.not_mem_part hk hd hw.1]
      rfl
    · simp only [mem_cons, Option.some.injEq, Ne.symm hij, false_or, if_neg hij, nil_append]
  refine ⟨hi.registry.step (InterfaceStep.server hs).registryStep, hi.nulls.step (.server hs), ?_,
    fun j => ?_, fun j => ?_, fun j hm hcon => ?_, fun j => ?_⟩
  · intro k' n' msg' ign' b' tasks' hu'
    cases hu'
    exact hi.bound k n msg ign b tasks hu
  · rw [approved_append, approved_map_conn, append_nil, any_append]
    simpa [isRegistration] using hi.registered j
  · rw [htold, hdue]
    by_cases hij : i = j
    · subst hij
      have hex := hi.exact i (mem_of_getElem? hd) (isConnected_iff.mpr ⟨c, hc, hopen⟩)
      rw [← hex, haw, if_pos rfl, ← append_assoc]
      exact prefix_append _ _
    · rw [if_neg hij, append_nil]
      exact hi.order j
  · have hex := hi.exact j hm (isConnected_setConn hc hr (by rfl) hcon)
    rw [htold, hdue, ← hex, haw j, append_assoc]
  · have hsent : r.2 = [.send msg] := by
      cases hr
      rfl
    rw [htold, hist_append, hist_map_conn, hsent, sends_append]
    by_cases hij : i = j
    · rw [if_pos hij, if_pos hij]
      exact (hi.among j).append (Sublist.refl _)
    · rw [if_neg hij, if_neg hij, append_nil, sends, append_nil]
      exact hi.among j

theorem OrderInv.step {e} (hi : OrderInv s h l) (hs : ServerStep s e s' o) :
    OrderInv s' (h ++ o) (l ++ mark s e o) := by
  have hs' := InterfaceStep.server hs
  -- a step of the user thread before and after which no call is running
  have quiet {tasks} (hm : mark s e o = []) (ha : Server.approved o = [])
      (hv : ∀ task ∈ s.user.head?, isVisit task = false) (hu : s'.user = tasks)
      (ht : ∀ task ∈ tasks, isVisit task = false) (hd : s'.dqConnections = s.dqConnections)
      (hc : ∀ i, s'.isConnected i = true → s.isConnected i = true) :
      OrderInv s' (h ++ o) (l ++ mark s e o) := by
    rw [hm, append_nil]
    refine hi.unmarked hs' ha (fun k n msg ign b ts hu' => ?_) fun i hmem hcon => ?_
    · have := ht _ (hu ▸ hu' ▸ mem_cons_self)
      cases this
    · refine ⟨hd ▸ hmem, hc i hcon, ?_⟩
      rw [awaited_quiet hv, awaited_quiet fun task htask => ht task (hu ▸ mem_of_mem_head? htask)]
  cases hs with
  | accept i nonce sends approve hnone =>
      cases approve with
      | true => exact hi.approved hnone
      | false =>
          rw [show mark s (.accept i nonce sends false) _ = [] from rfl, append_nil]
          refine hi.unmarked hs' (approved_accept s i nonce sends false) hi.bound fun j hmem hcon => ?_
          have hij : j ≠ i := by
            rintro rfl
            obtain ⟨uid, hp⟩ := hi.registry.registered j hmem
            obtain ⟨c, hc, -⟩ := hi.registry.known _ hp
            rw [hnone] at hc
            cases hc
          have hsame : (s.accept i nonce sends false).1.conns j = s.conns j :=
            Function.update_of_ne hij ..
          rw [isConnected, hsame] at hcon
          exact ⟨hmem, hcon, rfl⟩
  | conn i ce c r hc hr hcall =>
      rw [show mark s (.conn i ce) _ = [] from rfl, append_nil]
      exact hi.unmarked hs' (approved_map_conn _ _) hi.bound fun j hmem hcon =>
        ⟨hmem, isConnected_setConn hc hr rfl hcon, rfl⟩
  | update maxMessages bWait hu =>
      exact quiet rfl rfl (by simp [hu]) rfl (by cases bWait <;> simp [isVisit]) rfl fun _ hcon => hcon
  | messageAllClients msg hu =>
      exact hi.called hs' rfl (by simp [hu]) rfl rfl rfl
  | done calls task tasks hu htask =>
      have hv : ∀ task ∈ s.user.head?, isVisit task = false := by
        rcases htask with rfl | ⟨_, rfl⟩ | ⟨_, rfl⟩ <;> simp [hu, isVisit]
      have hm : mark s (.user calls) [] = [] := by
        rcases htask with rfl | ⟨_, rfl⟩ | ⟨_, rfl⟩ <;> simp [mark, hu]
      have ht := (hi.nulls.quiet hv).1
      rw [hu] at ht
      exact quiet hm rfl hv rfl (fun t htask => ht t (mem_cons_of_mem _ htask)) rfl fun _ hcon => hcon
  | pop calls left tasks m q hu hq =>
      have hv : ∀ task ∈ s.user.head?, isVisit task = false := by simp [hu, isVisit]
      have ht := (hi.nulls.quiet hv).1
      rw [hu] at ht
      refine quiet (by simp [mark, hu]) rfl hv rfl (fun t htask => ?_) rfl fun _ hcon => hcon
      simp only [mem_append, mem_map, mem_cons] at htask
      rcases htask with ⟨call, _, rfl⟩ | rfl | rfl | htask
      · rfl
      · rfl
      · rfl
      · exact ht t (mem_cons_of_mem _ htask)
  | call calls i call tasks ce c r hu he hc hr =>
      have hv : ∀ task ∈ s.user.head?, isVisit task = false := by simp [hu, isVisit]
      have ht := (hi.nulls.quiet hv).1
      rw [hu] at ht
      have hm : mark s (.user calls) (r.2.map (.conn i)) = [] := by
        cases call <;> simp [mark, hu, Call.event] at he ⊢
      exact quiet hm (approved_map_conn _ _) hv rfl (fun t htask => ht t (mem_cons_of_mem _ htask)) rfl
        fun j hcon => isConnected_setConn hc hr rfl hcon
  | broadcast calls client msg ignore tasks hu =>
      have hm : mark s (.user calls) [] = [.called msg (if ignore then client else none)] := by
        simp [mark, hu]
      rw [hm]
      exact hi.called hs' rfl (by simp [hu, isVisit]) rfl rfl rfl
  | tell calls k n msg ign b tasks i c r hu hk hd hc hopen hne hr =>
      have hm : mark s (.user calls) (r.2.map (.conn i)) = [.told i msg] := by
        cases hr
        simp [mark, hu, Connection.send]
      rw [hm]
      exact hi.tell (.tell calls k n msg ign b tasks i c r hu hk hd hc hopen hne hr) hu hk hd hc hopen
        hne hr
  | skip calls k n msg ign b tasks i c hu hk hd hc hopen hign =>
      rw [show mark s (.user calls) [] = [] by simp [mark, hu], append_nil l]
      refine hi.unmarked hs' rfl (fun k' n' msg' ign' b' ts hu' => ?_) fun j hmem hcon =>
        ⟨hmem, hcon, ?_⟩
      · cases hu'
        exact hi.bound k n msg ign b tasks hu
      · rw [awaited_visit hu, awaited_visit rfl, part_eq_cons hk hd]
        by_cases hij : i = j
        · subst hij
          simp [hign]
        · simp only [mem_cons, Option.some.injEq, Ne.symm hij, false_or]
  | drop calls k n msg ign b tasks client hu hk hd hclosed =>
      rw [show mark s (.user calls) [.onClientDisconnect client] = [] by simp [mark, hu], append_nil]
      refine hi.unmarked hs' rfl (fun k' n' msg' ign' b' ts hu' => ?_) fun j hmem hcon => ?_
      · cases hu'
        rw [length_set]
        exact hi.bound k n msg ign b tasks hu
      · have hmem' : some j ∈ s.dqConnections := by
          rcases mem_or_eq_of_mem_set hmem with hmem | hnone
          · exact hmem
          · cases hnone
        refine ⟨hmem', hcon, ?_⟩
        -- a client that is connected is not the one that is dropped
        have hne : some j ≠ client := by
          rintro rfl
          obtain ⟨c, hc, hopen⟩ := hclosed j rfl
          have hcon' : s.isConnected j = true := hcon
          rw [isConnected_eq_false hc (by simp [hopen])] at hcon'
          cases hcon'
        rw [awaited_visit hu, awaited_visit rfl, part_eq_cons hk hd]
        simp only [take_set, drop_set_of_lt (Nat.lt_succ_self k), mem_cons, hne, false_or]
  | erase calls k n msg ign b tasks hu hk =>
      rw [show mark s (.user calls) [] = [] by simp [mark, hu], append_nil l]
      have ht := (hi.nulls.visit hu).1
      refine hi.unmarked hs' rfl (fun k' n' msg' ign' b' ts hu' => ?_) fun j hmem hcon =>
        ⟨?_, hcon, ?_⟩
      · have := ht _ (hu' ▸ mem_cons_self)
        cases this
      · split at hmem
        · exact mem_of_mem_filter hmem
        · exact hmem
      · have hdone : (s.dqConnections.take n).drop k = [] :=
          drop_eq_nil_of_le (by rw [length_take]; omega)
        rw [awaited_visit hu, hdone, awaited_quiet fun task htask => ht task (mem_of_mem_head? htask)]
        simp

/-! ## Runs -/

end Server

end AsioNetworking

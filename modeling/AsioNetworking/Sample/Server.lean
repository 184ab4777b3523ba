import AsioNetworking.Sample
import AsioNetworking.Server.Theorems
import Mathlib.Data.List.Forall2

/-!
# What a `CustomServer` sends

For each client: the greeting, the pings it sent, in order, and one message for each request of
another client. A request that is still under way has a part of its messages to send.
-/

namespace AsioNetworking

open List Server

variable {ι : Type} [DecidableEq ι]

namespace CustomServer

variable {s s' : Server CustomMsgTypes ι} {h o : List (ServerEffect CustomMsgTypes ι)} {i d : ι}

/-! ## Requests under way -/

def isPing (msg : Message CustomMsgTypes) : Bool := msg.header.id = .serverPing

def isMessageAll (msg : Message CustomMsgTypes) : Bool := msg.header.id = .messageAll

/-- The ping that is about to be bounced back to the client `i`. -/
def echo (i : ι) (s : Server CustomMsgTypes ι) : List (Message CustomMsgTypes) :=
  match s.user with
  | .call (some j) (.send msg) :: _ => if j = i then [msg] else []
  | _ => []

/-- How many messages on behalf of the client `d` are still to be sent to the client `i`. -/
def casts (d i : ι) (s : Server CustomMsgTypes ι) : Nat :=
  match s.user with
  | .call (some j) (.messageAllClients _ _) :: _ => if j = d then 1 else 0
  | .visit k n _ (some j) _ :: _ =>
      if j = d then ((s.dqConnections.take n).drop k).count (some i) else 0
  | _ => 0

def isQuiet : UserTask CustomMsgTypes ι → Bool
  | .loop _ | .release _ => true
  | _ => false

inductive IsTask (s : Server CustomMsgTypes ι) : UserTask CustomMsgTypes ι → Prop where
  | quiet {task} : isQuiet task = true → IsTask s task
  | send {i c} (msg) : s.conns i = some c → isPing msg = true → IsTask s (.call (some i) (.send msg))
  | messageAllClients {i c} : s.conns i = some c →
      IsTask s (.call (some i) (.messageAllClients (msgOut c.id) true))
  | visit {i c} (k n b) : s.conns i = some c → n ≤ s.dqConnections.length →
      IsTask s (.visit k n (msgOut c.id) (some i) b)

structure Orderly (s : Server CustomMsgTypes ι) : Prop where
  top : ∀ task tasks, s.user = task :: tasks → IsTask s task ∧ ∀ t ∈ tasks, isQuiet t = true
  registered : ∀ i, s.dqConnections.count (some i) ≤ if (s.conns i).isSome then 1 else 0

def greeting (i : ι) (s : Server CustomMsgTypes ι) : List (Message CustomMsgTypes) :=
  if (s.conns i).isSome then [.withId .serverAccept] else []

/-- The message was sent to the client `i` on behalf of the client `d`. -/
def OnBehalf (s : Server CustomMsgTypes ι) (i : ι) (msg : Message CustomMsgTypes) (d : ι) : Prop :=
  d ≠ i ∧ ∃ c, s.conns d = some c ∧ msg = msgOut c.id

/-- What was sent to the client `i`: the greeting, its pings and the messages of the clients `ds`. -/
def Posts (s : Server CustomMsgTypes ι) (h : List (ServerEffect CustomMsgTypes ι)) (i : ι) : Prop :=
  ∃ rest ds, sends (hist i h) = greeting i s ++ rest ∧
    rest.filter isPing ++ echo i s = (onMessages i h).filter isPing ∧
    Forall₂ (OnBehalf s i) (rest.filter (!isPing ·)) ds ∧
    ∀ d, ds.count d + casts d i s ≤ (onMessages d h).countP isMessageAll

/-! ## What a step keeps -/

/-- The connections of `s` are there in `s'`, with their ids. -/
def SameIds (s s' : Server CustomMsgTypes ι) : Prop :=
  ∀ d c, s.conns d = some c → ∃ c', s'.conns d = some c' ∧ c'.id = c.id

theorem sameIds_step {e} (hs : ServerStep s e s' o) : SameIds s s' := by
  intro d c hc
  have hstep := hs.conn_step d
  generalize hist d o = od at hstep
  generalize nonces d o = ns at hstep
  cases hstep with
  | idle he => exact ⟨c, he.trans hc, rfl⟩
  | accept _ _ _ _ hnone _ => rw [hc] at hnone; cases hnone
  | step ce c₁ c' _ hc₁ _ hn hc' =>
      rw [hc] at hc₁
      cases hc₁
      exact ⟨c', hc', (Connection.next_readStep hn).sameSelf.uid⟩

omit [DecidableEq ι] in
theorem OnBehalf.mono {msg} (hb : OnBehalf s i msg d) (hid : SameIds s s') :
    OnBehalf s' i msg d := by
  obtain ⟨hne, c, hc, rfl⟩ := hb
  obtain ⟨c', hc', he⟩ := hid d c hc
  exact ⟨hne, c', hc', by rw [he]⟩

omit [DecidableEq ι] in
theorem IsTask.mono {task} (ht : IsTask s task) (hid : SameIds s s')
    (hdq : s.dqConnections.length ≤ s'.dqConnections.length) : IsTask s' task := by
  cases ht with
  | quiet hq => exact .quiet hq
  | send msg hc hp =>
      obtain ⟨c', hc', -⟩ := hid _ _ hc
      exact .send msg hc' hp
  | messageAllClients hc =>
      obtain ⟨c', hc', he⟩ := hid _ _ hc
      rw [← he]
      exact .messageAllClients hc'
  | visit k n b hc hn =>
      obtain ⟨c', hc', he⟩ := hid _ _ hc
      rw [← he]
      exact .visit k n b hc' (hn.trans hdq)

omit [DecidableEq ι] in
theorem IsTask.visited {k n msg ign b k' b'} (ht : IsTask s (.visit k n msg ign b))
    (hid : SameIds s s') (hdq : s.dqConnections.length ≤ s'.dqConnections.length) :
    IsTask s' (.visit k' n msg ign b') := by
  refine IsTask.mono (s := s) ?_ hid hdq
  cases ht with
  | quiet h => cases h
  | visit _ _ _ hc hn => exact .visit _ _ _ hc hn

theorem Posts.keep (hp : Posts s h i) (hid : SameIds s s') (hg : greeting i s' = greeting i s)
    (hs : sends (hist i o) = []) (he : echo i s' = echo i s ++ (onMessages i o).filter isPing)
    (hc : ∀ d, casts d i s' ≤ casts d i s + (onMessages d o).countP isMessageAll) :
    Posts s' (h ++ o) i := by
  obtain ⟨rest, ds, hsend, hecho, hall, hcount⟩ := hp
  refine ⟨rest, ds, ?_, ?_, hall.imp fun _ _ hb => hb.mono hid, fun d => ?_⟩
  · rw [hist_append, sends_append, hs, append_nil, hsend, hg]
  · rw [he, ← append_assoc, hecho, onMessages_append, filter_append]
  · have := hcount d
    have := hc d
    rw [onMessages_append, countP_append]
    omega

theorem Posts.add (hp : Posts s h i) (msg) (hid : SameIds s s') (hg : greeting i s' = greeting i s)
    (hs : sends (hist i o) = [msg]) (hon : ∀ d, onMessages d o = [])
    (hm : isPing msg = true ∧ echo i s = [msg] ∧ echo i s' = [] ∧
        (∀ d, casts d i s' ≤ casts d i s) ∨
      isPing msg = false ∧ echo i s' = echo i s ∧ ∃ j, OnBehalf s i msg j ∧
        ∀ d, casts d i s' + [j].count d ≤ casts d i s) :
    Posts s' (h ++ o) i := by
  obtain ⟨rest, ds, hsend, hecho, hall, hcount⟩ := hp
  have hsend' : sends (hist i (h ++ o)) = greeting i s' ++ (rest ++ [msg]) := by
    rw [hist_append, sends_append, hs, hsend, hg, append_assoc]
  rcases hm with ⟨hping, he, he', hc⟩ | ⟨hping, he', j, hj, hc⟩
  · refine ⟨rest ++ [msg], ds, hsend', ?_, ?_, fun d => ?_⟩
    · rw [he', onMessages_append, hon, append_nil, append_nil, ← hecho, he, filter_append]
      simp [hping]
    · rw [filter_append]
      simpa [hping] using hall.imp fun _ _ hb => hb.mono hid
    · have := hcount d
      have := hc d
      rw [onMessages_append, hon, append_nil]
      omega
  · refine ⟨rest ++ [msg], ds ++ [j], hsend', ?_, ?_, fun d => ?_⟩
    · rw [he', onMessages_append, hon, append_nil, ← hecho, filter_append]
      simp [hping]
    · rw [filter_append]
      simp only [hping, Bool.not_false, filter_cons_of_pos, filter_nil]
      exact rel_append (hall.imp fun _ _ hb => hb.mono hid) (.cons (hj.mono hid) .nil)
    · have := hcount d
      have := hc d
      rw [onMessages_append, hon, append_nil, count_append]
      omega

/-! ## Steps -/

theorem isSome_conns {e} (hs : ServerStep s e s' o) (he : ∀ n ms a, e ≠ .accept i n ms a) :
    (s'.conns i).isSome = (s.conns i).isSome := by
  have hstep := hs.conn_step i
  generalize hist i o = oi at hstep
  generalize nonces i o = ns at hstep
  cases hstep with
  | idle hc => rw [hc]
  | accept n ms a h _ _ => exact absurd h (he n ms a)
  | step ce c c' _ hc _ _ hc' => rw [hc, hc']; rfl

omit [DecidableEq ι] in
theorem isTask_head {task tasks} (ht : ∀ t ∈ task :: tasks, isQuiet t = true) :
    IsTask s task ∧ ∀ t ∈ tasks, isQuiet t = true :=
  ⟨.quiet (ht task mem_cons_self), fun t hm => ht t (mem_cons_of_mem _ hm)⟩

theorem count_set_none_le (l : List (Option ι)) (k : Nat) :
    (l.set k none).count (some i) ≤ l.count (some i) := by
  induction l generalizing k with
  | nil => exact Nat.le_refl _
  | cons x l ih =>
      cases k with
      | zero => simp [count_cons]
      | succ k => simpa [count_cons] using ih k

omit [DecidableEq ι] in
theorem calls_cases (s : Server CustomMsgTypes ι) {left tasks m q}
    (hu : s.user = .loop (left + 1) :: tasks) (hq : s.qMessagesIn = m :: q) :
    (calls s = [] ∧ ∀ i, m.remote = some i → (s.conns i).isSome = true →
        isPing m.msg = false ∧ isMessageAll m.msg = false) ∨
      ∃ i c, m.remote = some i ∧ s.conns i = some c ∧
        ((calls s = [.send m.msg] ∧ isPing m.msg = true ∧ isMessageAll m.msg = false) ∨
          (calls s = [.messageAllClients (msgOut c.id) true] ∧ isPing m.msg = false ∧
            isMessageAll m.msg = true)) := by
  simp only [calls, hu, hq]
  cases hr : m.remote with
  | none => exact Or.inl ⟨rfl, fun i h => by cases h⟩
  | some i =>
      cases hc : s.conns i with
      | none =>
          refine Or.inl ⟨by simp only [hc], fun j h hj => ?_⟩
          cases h
          rw [hc] at hj; cases hj
      | some c =>
          simp only [hc]
          cases hid : m.msg.header.id with
          | serverPing =>
              exact Or.inr ⟨i, c, rfl, hc, Or.inl (by simp [onMessage, isPing, isMessageAll, hid])⟩
          | messageAll =>
              exact Or.inr ⟨i, c, rfl, hc, Or.inr (by simp [onMessage, isPing, isMessageAll, hid])⟩
          | _ => exact Or.inl (by simp [onMessage, isPing, isMessageAll, hid])

theorem Orderly.step {e} (ho : Orderly s) (hg : Hooks s e) (hs : ServerStep s e s' o) :
    Orderly s' := by
  have hid := sameIds_step hs
  obtain ⟨htop, hreg⟩ := ho
  cases hs with
  | accept j nonce ms approve hj =>
      constructor
      · intro task tasks hu
        obtain ⟨ht, hq⟩ := htop task tasks hu
        refine ⟨ht.mono hid ?_, hq⟩
        simp only [Server.accept]
        split <;> simp
      · intro i
        cases hg
        by_cases hij : j = i
        · subst hij
          have := hreg j
          simp only [hj, Option.isSome_none, Bool.false_eq_true, if_false] at this
          simp [Server.accept, count_append]
          omega
        · simpa [Server.accept, count_append, Function.update_of_ne (Ne.symm hij), hij] using hreg i
  | conn j ce c r hc hn hcall =>
      constructor
      · intro task tasks hu
        obtain ⟨ht, hq⟩ := htop task tasks hu
        exact ⟨ht.mono hid (Nat.le_refl _), hq⟩
      · intro i
        have := isSome_conns (i := i) (.conn j ce c r hc hn hcall) (by simp)
        rw [this]
        exact hreg i
  | update maxMessages bWait hu =>
      obtain ⟨-, rfl⟩ := hg
      refine ⟨fun task tasks hu' => ?_, hreg⟩
      simp only [Bool.false_eq_true, if_false, nil_append, cons.injEq] at hu'
      obtain ⟨rfl, rfl⟩ := hu'
      exact ⟨.quiet rfl, by simp⟩
  | messageAllClients => exact hg.elim
  | done calls task tasks hu hk =>
      refine ⟨fun t ts hu' => ?_, hreg⟩
      simp only at hu'
      subst hu'
      exact isTask_head (htop _ _ hu).2
  | pop cs left tasks m q hu hq =>
      refine ⟨fun t ts hu' => ?_, hreg⟩
      cases hg
      have hquiet := (htop _ _ hu).2
      have hrest : ∀ t ∈ UserTask.release m.remote :: .loop left :: tasks, isQuiet t = true := by
        simpa [isQuiet] using hquiet
      rcases calls_cases s hu hq with ⟨hcs, -⟩ | ⟨i, c, hr, hc, ⟨hcs, hp, -⟩ | ⟨hcs, -, -⟩⟩
      · simp only [hcs, map_nil, nil_append] at hu'
        exact isTask_head (hu' ▸ hrest)
      · simp only [hcs, map_cons, map_nil, singleton_append, cons.injEq, hr] at hu' hrest
        obtain ⟨rfl, rfl⟩ := hu'
        exact ⟨.send m.msg hc hp, hrest⟩
      · simp only [hcs, map_cons, map_nil, singleton_append, cons.injEq, hr] at hu' hrest
        obtain ⟨rfl, rfl⟩ := hu'
        exact ⟨.messageAllClients hc, hrest⟩
  | call cs j call tasks ce c r hu hce hc hn =>
      constructor
      · intro t ts hu'
        simp only [setConn] at hu'
        subst hu'
        exact isTask_head (htop _ _ hu).2
      · intro i
        rw [isSome_conns (i := i) (.call cs j call tasks ce c r hu hce hc hn) (by simp)]
        exact hreg i
  | broadcast cs client msg ignore tasks hu =>
      refine ⟨fun t ts hu' => ?_, hreg⟩
      obtain ⟨ht, hq⟩ := htop _ _ hu
      simp only [cons.injEq] at hu'
      obtain ⟨rfl, rfl⟩ := hu'
      refine ⟨?_, hq⟩
      cases ht with
      | quiet h => cases h
      | messageAllClients hc => exact .visit 0 _ false hc (Nat.le_refl _)
  | tell cs k n msg pIgnoreClient b tasks j c r hu hk hd hc hop hne hn =>
      constructor
      · intro t ts hu'
        obtain ⟨ht, hq⟩ := htop _ _ hu
        simp only [setConn, cons.injEq] at hu'
        obtain ⟨rfl, rfl⟩ := hu'
        exact ⟨ht.visited hid (Nat.le_refl _), hq⟩
      · intro i
        rw [isSome_conns (i := i) (.tell cs k n msg pIgnoreClient b tasks j c r hu hk hd hc hop hne hn)
          (by simp)]
        exact hreg i
  | skip cs k n msg pIgnoreClient b tasks j c hu hk hd hc hop he =>
      refine ⟨fun t ts hu' => ?_, hreg⟩
      obtain ⟨ht, hq⟩ := htop _ _ hu
      simp only [cons.injEq] at hu'
      obtain ⟨rfl, rfl⟩ := hu'
      exact ⟨ht.visited hid (Nat.le_refl _), hq⟩
  | drop cs k n msg pIgnoreClient b tasks client hu hk hd hcl =>
      refine ⟨fun t ts hu' => ?_, fun i => (count_set_none_le _ _).trans (hreg i)⟩
      obtain ⟨ht, hq⟩ := htop _ _ hu
      simp only [cons.injEq] at hu'
      obtain ⟨rfl, rfl⟩ := hu'
      exact ⟨ht.visited hid (by simp), hq⟩
  | erase cs k n msg pIgnoreClient b tasks hu hk =>
      constructor
      · intro t ts hu'
        simp only at hu'
        subst hu'
        exact isTask_head (htop _ _ hu).2
      · intro i
        refine Nat.le_trans ?_ (hreg i)
        simp only
        split
        · exact filter_sublist.count_le _
        · exact Nat.le_refl _

/-! ## Posts -/

theorem echo_of_quiet (hq : ∀ task tasks, s.user = task :: tasks → isQuiet task = true) :
    echo i s = [] := by
  simp only [echo]
  split
  · rename_i hu
    cases hq _ _ hu
  · rfl

theorem casts_of_quiet (hq : ∀ task tasks, s.user = task :: tasks → isQuiet task = true) :
    casts d i s = 0 := by
  simp only [casts]
  split
  · rename_i hu
    cases hq _ _ hu
  · rename_i hu
    cases hq _ _ hu
  · rfl

theorem nothing_under_way {tasks} (hu : s.user = tasks) (hq : ∀ t ∈ tasks, isQuiet t = true) :
    echo i s = [] ∧ casts d i s = 0 := by
  have hq' : ∀ task ts, s.user = task :: ts → isQuiet task = true := fun task ts h =>
    hq task (by rw [← hu, h]; exact mem_cons_self)
  exact ⟨echo_of_quiet hq', casts_of_quiet hq'⟩

/-- A step after which nothing is under way, and before which no ping was. -/
theorem Posts.settle {tasks} (hp : Posts s h i) (hid : SameIds s s')
    (hg : greeting i s' = greeting i s) (hs : sends (hist i o) = []) (hu : s'.user = tasks)
    (hq : ∀ t ∈ tasks, isQuiet t = true)
    (he : echo i s ++ (onMessages i o).filter isPing = []) : Posts s' (h ++ o) i := by
  refine hp.keep hid hg hs ?_ fun d => ?_
  · rw [(nothing_under_way (d := i) hu hq).1, he]
  · rw [(nothing_under_way hu hq).2]
    exact Nat.zero_le _

/-- Looking at one more client leaves fewer to be sent to. -/
theorem casts_next {k n msg ign b b' tasks} (hu : s.user = .visit k n msg ign b :: tasks)
    (hu' : s'.user = .visit (k + 1) n msg ign b' :: tasks)
    (hdq : (s'.dqConnections.take n).drop (k + 1) = (s.dqConnections.take n).drop (k + 1)) :
    casts d i s' ≤ casts d i s := by
  cases ign with
  | none => simp only [casts, hu, hu', Nat.le_refl]
  | some j =>
      simp only [casts, hu, hu', hdq]
      split
      · exact (drop_sublist_drop_left _ (Nat.le_succ k)).count_le _
      · exact Nat.le_refl _

/-- The client `j` is the next to be sent to. -/
theorem casts_visit {l : List (Option ι)} {k n : Nat} {j : ι} (hk : k < n)
    (hd : l[k]? = some (some j)) :
    ((l.take n).drop (k + 1)).count (some j) + 1 = ((l.take n).drop k).count (some j) := by
  have hget : (l.take n)[k]? = some (some j) := by rw [getElem?_take_of_lt hk, hd]
  obtain ⟨hlt, he⟩ := List.getElem?_eq_some_iff.mp hget
  rw [drop_eq_getElem_cons hlt, he, count_cons_self]

/-- A client that is accepted during a broadcast is not sent to by it. -/
theorem casts_append (ho : Orderly s) (hu : s'.user = s.user) {l}
    (hdq : s'.dqConnections = s.dqConnections ++ l) : casts d i s' = casts d i s := by
  simp only [casts, hu, hdq]
  cases hus : s.user with
  | nil => rfl
  | cons task tasks =>
      cases (ho.top _ _ hus).1 with
      | quiet hq => cases task <;> first | rfl | cases hq
      | send => rfl
      | messageAllClients => rfl
      | visit k n b _ hn => simp only [take_append_of_le_length hn]

theorem posts_step {e} (ho : Orderly s) (hp : ∀ i, Posts s h i)
    (hfresh : ∀ i, s.conns i = none → hist i h = [])
    (hqueue : ∀ m q, s.qMessagesIn = m :: q → ∀ i, m.remote = some i → (s.conns i).isSome = true)
    (hg : Hooks s e) (hs : ServerStep s e s' o) (i : ι) : Posts s' (h ++ o) i := by
  have hid := sameIds_step hs
  have hgreet (he : ∀ n ms a, e ≠ .accept i n ms a) : greeting i s' = greeting i s := by
    simp only [greeting, isSome_conns hs he]
  cases hs with
  | accept j nonce ms approve hj =>
      cases hg
      have hon (d) : onMessages d (s.accept j nonce [.withId .serverAccept] true).2 = [] := by
        rw [accept_effects, onMessages_append, onMessages_map_conn]
        rfl
      have hcasts (d) : casts d i (s.accept j nonce [.withId .serverAccept] true).1 = casts d i s :=
        casts_append ho rfl rfl
      by_cases hij : j = i
      · subst hij
        obtain ⟨rest, ds, hsend, hecho, hall, hcount⟩ := hp j
        have hnil : rest = [] := by
          rw [hfresh j hj] at hsend
          simpa [greeting, hj] using hsend.symm
        subst hnil
        refine ⟨[], ds, ?_, ?_, by cases hall; exact .nil, fun d => ?_⟩
        · rw [hist_append, hfresh j hj, accept_effects, hist_append, hist_map_conn, if_pos rfl]
          simp [greeting, Server.accept, hist]
        · rw [onMessages_append, hon, append_nil, ← hecho]
          rfl
        · rw [onMessages_append, hon, append_nil, hcasts]
          exact hcount d
      · refine (hp i).keep hid (hgreet (by simp [hij])) ?_ ?_ fun d => ?_
        · rw [accept_effects, hist_append, hist_map_conn, if_neg hij]
          rfl
        · rw [hon]
          exact (append_nil _).symm
        · rw [hcasts]
          omega
  | conn j ce c r hc hn _ =>
      refine (hp i).keep hid (hgreet (by simp)) ?_ ?_ fun d => ?_
      · rw [hist_map_conn]
        split
        · rcases (Connection.next_chainStep (o := r.2) hn).sends with ⟨msg, rfl, -⟩ | hz
          · cases hg
          · exact hz
        · rfl
      · rw [onMessages_map_conn]
        exact (append_nil _).symm
      · exact Nat.le_add_right _ _
  | update maxMessages bWait hu =>
      obtain ⟨-, rfl⟩ := hg
      exact (hp i).settle hid (hgreet (by simp)) rfl rfl (by simp [isQuiet])
        (by simp [echo, hu, onMessages])
  | messageAllClients => exact hg.elim
  | done cs task tasks hu hk =>
      have he : echo i s = [] := by
        rcases hk with rfl | ⟨left, rfl⟩ | ⟨remote, rfl⟩ <;> simp [echo, hu]
      exact (hp i).settle hid (hgreet (by simp)) rfl rfl (ho.top _ _ hu).2 (by simp [he, onMessages])
  | pop cs left tasks m q hu hq =>
      cases hg
      have hon (d) : onMessages d [ServerEffect.onMessage m.remote m.msg] =
          if m.remote = some d then [m.msg] else [] := by
        by_cases hd : m.remote = some d <;> simp [onMessages, hd]
      have hrest : ∀ t ∈ UserTask.release m.remote :: .loop left :: tasks, isQuiet t = true := by
        simpa [isQuiet] using (ho.top _ _ hu).2
      have he : echo i s = [] := by simp [echo, hu]
      rcases calls_cases s hu hq with ⟨hcs, hno⟩ | ⟨j, c, hr, hc, hcall⟩
      · rw [hcs] at hid hgreet ⊢
        refine (hp i).settle hid (hgreet (by simp)) rfl rfl hrest ?_
        rw [he, hon]
        split
        · rename_i hr
          simp [(hno i hr (hqueue m q hq i hr)).1]
        · rfl
      · rcases hcall with ⟨hcs, hping, -⟩ | ⟨hcs, hping, hall⟩
        · rw [hcs] at hid hgreet ⊢
          refine (hp i).keep hid (hgreet (by simp)) rfl ?_ fun d => by simp [casts]
          rw [he, hon, hr]
          by_cases hij : j = i <;> simp [echo, hij, hping]
        · rw [hcs] at hid hgreet ⊢
          refine (hp i).keep hid (hgreet (by simp)) rfl ?_ fun d => ?_
          · rw [he, hon, hr]
            by_cases hij : j = i <;> simp [echo, hij, hping]
          · rw [hon, hr]
            by_cases hij : j = d <;> simp [casts, hij, hall]
  | call cs j call tasks ce c r hu hce hc hn =>
      obtain ⟨ht, hq⟩ := ho.top _ _ hu
      cases ht with
      | quiet h => cases h
      | messageAllClients => cases hce
      | send msg _ hping =>
          cases hce
          cases hn
          have hon (d) : onMessages d ((c.send msg).2.map (.conn j)) = [] := onMessages_map_conn ..
          by_cases hij : j = i
          · subst hij
            have hz (d) := nothing_under_way (s := setConn j (c.send msg) { s with user := tasks })
              (i := j) (d := d) rfl hq
            refine (hp j).add msg hid (hgreet (by simp)) (by rw [hist_map_conn, if_pos rfl]; rfl) hon
              (Or.inl ⟨hping, by simp [echo, hu], (hz j).1, fun d => ?_⟩)
            rw [(hz d).2]
            exact Nat.zero_le _
          · exact (hp i).settle hid (hgreet (by simp)) (by simp [hij]) rfl hq
              (by simp [echo, hu, hij, hon])
  | broadcast cs client msg ignore tasks hu =>
      obtain ⟨ht, hq⟩ := ho.top _ _ hu
      cases ht with
      | quiet h => cases h
      | messageAllClients hc =>
          rename_i j c
          apply (hp i).keep hid (hgreet (by simp)) rfl (by simp [echo, hu, onMessages])
          intro d
          have := ho.registered i
          by_cases hjd : j = d
          · simp only [casts, hu, if_true, hjd, take_length, drop_zero]
            split at this <;> omega
          · simp [casts, hjd]
  | tell cs k n msg pIgnoreClient b tasks j c r hu hk hd hc hop hne hn =>
      obtain ⟨ht, hq⟩ := ho.top _ _ hu
      cases ht with
      | quiet h => cases h
      | visit _ _ _ hc' _ =>
          rename_i d' c' _
          cases hn
          have hon (d) : onMessages d ((c.send (msgOut c'.id)).2.map (.conn j)) = [] :=
            onMessages_map_conn ..
          by_cases hij : j = i
          · subst hij
            have hbehalf : OnBehalf s j (msgOut c'.id) d' :=
              ⟨fun h => hne (by rw [h]), c', hc', rfl⟩
            refine (hp j).add (msgOut c'.id) hid (hgreet (by simp))
              (by rw [hist_map_conn, if_pos rfl]; rfl) hon
              (Or.inr ⟨rfl, by simp [echo, hu, setConn], d', hbehalf, fun d => ?_⟩)
            by_cases hdd : d' = d
            · have := casts_visit hk hd
              simp only [casts, hu, setConn, hdd, if_true, count_singleton_self]
              omega
            · simp [casts, setConn, hdd]
          · refine (hp i).keep hid (hgreet (by simp)) (by simp [hij]) ?_ fun d => ?_
            · rw [hon]
              simp [echo, hu, setConn]
            · exact Nat.le_trans (casts_next hu rfl rfl) (Nat.le_add_right _ _)
  | skip cs k n msg pIgnoreClient b tasks j c hu hk hd hc hop he =>
      apply (hp i).keep hid (hgreet (by simp)) rfl (by simp [echo, hu, onMessages])
      intro d
      exact Nat.le_trans (casts_next hu rfl rfl) (Nat.le_add_right _ _)
  | drop cs k n msg pIgnoreClient b tasks client hu hk hd hcl =>
      apply (hp i).keep hid (hgreet (by simp)) rfl (by simp [echo, hu, onMessages])
      intro d
      have hset : ((s.dqConnections.set k none).take n).drop (k + 1) =
          (s.dqConnections.take n).drop (k + 1) := by
        rw [take_set, drop_set_of_lt (Nat.lt_succ_self k)]
      exact Nat.le_trans (casts_next hu rfl hset) (Nat.le_add_right _ _)
  | erase cs k n msg pIgnoreClient b tasks hu hk =>
      exact (hp i).settle hid (hgreet (by simp)) rfl rfl (ho.top _ _ hu).2
        (by simp [echo, hu, onMessages])

theorem run_posts (hr : (Server.machine CustomMsgTypes ι).Run (fun s _ e => Hooks s e) .init [] s h) :
    Orderly s ∧ ∀ i, Posts s h i := by
  induction hr with
  | refl =>
      refine ⟨⟨fun _ _ hu => ?_, fun i => Nat.zero_le _⟩, fun i => ?_⟩
      · cases hu
      · exact ⟨[], [], rfl, rfl, .nil, fun d => Nat.le_refl _⟩
  | @step s h e s' o hr hg hn ih =>
      obtain ⟨ho, hp⟩ := ih
      have hs := next_serverStep hn
      have hfresh : ∀ i, s.conns i = none → hist i h = [] := by
        intro i hnone
        rcases run_conn_free hr i with ⟨-, hh, -⟩ | ⟨c, _, _, _, _, hc, -⟩
        · exact hh
        · rw [hc] at hnone; cases hnone
      have hqueue : ∀ m q, s.qMessagesIn = m :: q → ∀ i, m.remote = some i →
          (s.conns i).isSome = true := by
        intro m q hq i hi
        rcases run_conn_free hr i with ⟨-, hh, -⟩ | ⟨c, _, _, _, _, hc, -⟩
        · have hpush := run_queue hr i
          rw [hh] at hpush
          simp [queued, hq, hi] at hpush
        · rw [hc]; rfl
      exact ⟨ho.step hg hs, posts_step ho hp hfresh hqueue hg hs⟩

end CustomServer

end AsioNetworking

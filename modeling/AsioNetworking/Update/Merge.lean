import AsioNetworking.Update
import AsioNetworking.Lib.Lists

/-!
# The shared queue as a merge

A run of the taken apart `update` is a run of `Server`, in which a message leaves the queue when
`OnMessage` is called with it: what is known of runs of `Server` holds of it.
-/

namespace AsioNetworking

open List

variable {T ι : Type} [DecidableEq ι] [IdType T]

namespace Consumer

variable {c c' : Consumer T ι} {h : List (ConsumerEffect T ι)}

/-! ## The server seen from outside -/

/-- The server with the messages `q` before those in its queue and the tasks `tasks` after its own. -/
def extend (q : List (OwnedMessage T ι)) (tasks : List (UserTask T ι)) (s : Server T ι) :
    Server T ι := { s with qMessagesIn := q ++ s.qMessagesIn, user := s.user ++ tasks }

def roundsLeft (u : Update T ι) : Nat := u.maxMessages.toNat - u.messageCount.toNat

def pending : Option (Update T ι) → List (UserTask T ι)
  | none => []
  | some u =>
      match u.place with
      | .wait => [.wait, .loop (roundsLeft u)]
      | .running remote => [.release remote, .loop (roundsLeft u - 1)]
      | _ => [.loop (roundsLeft u)]

/-- The server whose `update` takes a whole round in one step. -/
def abs (c : Consumer T ι) : Server T ι := extend c.popped (pending c.update) c.server

def isOwnTask : UserTask T ι → Bool
  | .call .. | .visit .. => true
  | _ => false

section

variable (q : List (OwnedMessage T ι)) (tasks : List (UserTask T ι)) (s : Server T ι)

def Extends (r r' : Option (Server T ι × List (ServerEffect T ι))) : Prop :=
  r' = r.map fun p => (extend q tasks p.1, p.2)

theorem onConn_extend (i : ι) (e : Connection.Event T) :
    Extends q tasks (s.onConn i e) ((extend q tasks s).onConn i e) := by
  simp only [Extends, Server.onConn, extend]
  cases s.conns i with
  | none => rfl
  | some c =>
      cases hr : c.next e with
      | none => simp [hr]
      | some r => simp [hr, Server.setConn, append_assoc]

theorem visit_extend (k n msg ign b client) : Extends q tasks (s.visit k n msg ign b client)
    ((extend q tasks s).visit k n msg ign b client) := by
  cases client with
  | none => rfl
  | some i =>
      simp only [Extends, Server.visit]
      rw [show (extend q tasks s).conns i = s.conns i from rfl]
      cases s.conns i with
      | none => rfl
      | some c =>
          simp only
          split
          · split
            · exact onConn_extend q tasks
                { s with user := .visit (k + 1) n msg ign b :: s.user } i (.send msg)
            · rfl
          · rfl

theorem runUser_extend (calls) (task : UserTask T ι) (ht : isOwnTask task = true) :
    Extends q tasks (Server.runUser calls task s)
      (Server.runUser calls task (extend q tasks s)) := by
  cases task with
  | call client call =>
      cases call with
      | messageAllClients msg ignore => rfl
      | send msg =>
          cases client with
          | none => rfl
          | some i => exact onConn_extend q tasks s i (.send msg)
      | disconnect =>
          cases client with
          | none => rfl
          | some i => exact onConn_extend q tasks s i .disconnect
  | visit k n msg ign b =>
      simp only [Extends, Server.runUser]
      split
      · rw [show (extend q tasks s).dqConnections[k]? = s.dqConnections[k]? from rfl]
        cases s.dqConnections[k]? with
        | none => rfl
        | some client => exact visit_extend q tasks s k n msg ign b client
      · rfl
  | _ => cases ht

end

/-! ## The invariant -/

/-- What holds in every state: only a running `OnMessage` leaves tasks to the user thread while it is
in `update`, and past the test of the loop a round is left and its message is there. -/
structure Inv (c : Consumer T ι) : Prop where
  own : ∀ task ∈ c.server.user, isOwnTask task = true
  idle : ∀ u ∈ c.update, (∀ remote, u.place ≠ .running remote) → c.server.user = []
  round : ∀ u ∈ c.update, u.place ≠ .wait → u.place ≠ .test → u.messageCount < u.maxMessages
  nonEmpty : ∀ u ∈ c.update, u.place = .popFront → c.server.qMessagesIn ≠ []

omit [DecidableEq ι] [IdType T] in
theorem Inv.mono {s : Server T ι} (hi : Inv c) (q : List (OwnedMessage T ι))
    (hq : s.qMessagesIn = c.server.qMessagesIn ++ q)
    (hu : s.user = c.server.user ∨ c.server.user ≠ [] ∧ ∀ task ∈ s.user, isOwnTask task = true) :
    Inv { c with server := s } := by
  refine ⟨?_, fun u hm hp => ?_, hi.round, fun u hm hp => ?_⟩
  · rcases hu with hu | ⟨-, hu⟩
    · exact fun task ht => hi.own task (hu ▸ ht)
    · exact hu
  · rcases hu with hu | ⟨hne, -⟩
    · exact hu.trans (hi.idle u hm hp)
    · exact absurd (hi.idle u hm hp) hne
  · rw [hq]
    simp [hi.nonEmpty u hm hp]

/-- A step of the server keeps the invariant and does not call `OnMessage`. -/
theorem Inv.server {s : Server T ι} {e o} (hi : Inv c) (hs : Server.ServerStep c.server e s o)
    (he : ∀ max b, e ≠ .update max b) (hm : ∀ msg, e = .messageAllClients msg → c.update = none) :
    Inv { c with server := s } ∧ ∀ remote msg, .onMessage remote msg ∉ o := by
  have htop {task tasks} (hu : c.server.user = task :: tasks) : isOwnTask task = true ∧
      ∀ t ∈ tasks, isOwnTask t = true := by
    have := hi.own
    rw [hu] at this
    exact forall_mem_cons.mp this
  cases hs with
  | accept => exact ⟨hi.mono [] (by simp [Server.accept]) (Or.inl rfl), by simp [Server.accept]⟩
  | conn => exact ⟨hi.mono _ rfl (Or.inl rfl), by simp⟩
  | update max b => exact absurd rfl (he max b)
  | messageAllClients msg hu =>
      refine ⟨⟨by simp [isOwnTask], ?_, hi.round, hi.nonEmpty⟩, by simp⟩
      rw [hm msg rfl]
      simp
  | done _ task tasks hu htask =>
      have := (htop hu).1
      rcases htask with rfl | ⟨_, rfl⟩ | ⟨_, rfl⟩ <;> cases this
  | pop _ _ _ _ _ hu => cases (htop hu).1
  | call _ _ _ tasks _ _ _ hu =>
      exact ⟨hi.mono _ rfl (Or.inr ⟨by simp [hu], (htop hu).2⟩), by simp⟩
  | broadcast _ _ _ _ tasks hu =>
      refine ⟨hi.mono [] (by simp) (Or.inr ⟨by simp [hu], ?_⟩), by simp⟩
      exact forall_mem_cons.mpr ⟨rfl, (htop hu).2⟩
  | tell _ _ _ _ _ _ tasks _ _ _ hu =>
      refine ⟨hi.mono _ rfl (Or.inr ⟨by simp [hu], ?_⟩), by simp⟩
      exact forall_mem_cons.mpr ⟨rfl, (htop hu).2⟩
  | skip _ _ _ _ _ _ tasks _ _ hu =>
      refine ⟨hi.mono [] (by simp) (Or.inr ⟨by simp [hu], ?_⟩), by simp⟩
      exact forall_mem_cons.mpr ⟨rfl, (htop hu).2⟩
  | drop _ _ _ _ _ _ tasks _ hu =>
      refine ⟨hi.mono [] (by simp) (Or.inr ⟨by simp [hu], ?_⟩), by simp⟩
      exact forall_mem_cons.mpr ⟨rfl, (htop hu).2⟩
  | erase _ _ _ _ _ _ tasks hu =>
      exact ⟨hi.mono [] (by simp) (Or.inr ⟨by simp [hu], (htop hu).2⟩), by simp⟩

theorem Inv.step {e o} (hi : Inv c) (hs : ConsumerStep c e c' o) : Inv c' := by
  cases hs with
  | server e s o he _ hm hn => exact (hi.server (Server.next_serverStep hn) he hm).1
  | conn i e s o _ hn =>
      obtain ⟨_, r, _, _, rfl, _⟩ := Server.onConn_eq_some hn
      exact hi.mono _ rfl (Or.inl rfl)
  | update max bWait _ hu =>
      refine ⟨hi.own, fun u _ _ => hu, fun u hm hw ht => ?_, fun u hm hp => ?_⟩
      · cases hm
        cases bWait <;> simp at hw ht
      · cases hm
        cases bWait <;> cases hp
  | waited _ max n hu _ =>
      refine ⟨hi.own, fun u _ _ => hi.idle _ hu (by simp), fun u hm _ ht => ?_, fun u hm hp => ?_⟩
      · cases hm; exact absurd rfl ht
      · cases hm; cases hp
  | sawEmpty => exact ⟨hi.own, by simp, by simp, by simp⟩
  | reached => exact ⟨hi.own, by simp, by simp, by simp⟩
  | entered _ max n hu hlt hq =>
      refine ⟨hi.own, fun u _ _ => hi.idle _ hu (by simp), fun u hm _ _ => ?_, fun _ _ _ => hq⟩
      cases hm
      exact hlt
  | popEmpty => exact hi
  | popped _ max n msg q hu _ =>
      refine ⟨hi.own, fun u _ _ => hi.idle _ hu (by simp), fun u hm _ _ => ?_, fun u hm hp => ?_⟩
      · cases hm
        exact hi.round ⟨max, n, .popFront⟩ hu (by simp) (by simp)
      · cases hm; cases hp
  | onMessage calls max n msg hu =>
      refine ⟨fun task ht => ?_, fun u hm hr => ?_, fun u hm _ _ => ?_, fun u hm hp => ?_⟩
      · rcases mem_append.mp ht with ht | ht
        · obtain ⟨call, _, rfl⟩ := mem_map.mp ht
          rfl
        · exact hi.own task ht
      · cases hm; exact absurd rfl (hr msg.remote)
      · cases hm
        exact hi.round ⟨max, n, .onMessage msg⟩ hu (by simp) (by simp)
      · cases hm; cases hp
  | again _ max n remote hu huser =>
      refine ⟨hi.own, fun _ _ _ => huser, fun u hm _ ht => ?_, fun u hm hp => ?_⟩
      · cases hm; exact absurd rfl ht
      · cases hm; cases hp

/-! ## The simulation -/

omit [IdType T] in
theorem owners_abs (i : ι) : (abs c).owners i = c.owners i := by
  obtain ⟨s, update⟩ := c
  cases update with
  | none => simp [abs, extend, popped, pending, owners, held, Server.owners]
  | some u =>
      obtain ⟨max, n, place⟩ := u
      cases place with
      | onMessage msg =>
          by_cases hr : msg.remote = some i <;>
            simp [abs, extend, popped, pending, owners, held, Server.owners, Server.held, hr]
          omega
      | running remote =>
          by_cases hr : remote = some i <;>
            simp [abs, extend, popped, pending, owners, held, Server.owners, Server.held, hr]
          omega
      | _ => simp [abs, extend, popped, pending, owners, held, Server.owners, Server.held]

omit [DecidableEq ι] [IdType T] in
@[simp] theorem view_append (o : List (ConsumerEffect T ι)) : view (h ++ o) = view h ++ view o :=
  filterMap_append

omit [DecidableEq ι] [IdType T] in
@[simp] theorem view_map_server (o : List (ServerEffect T ι)) : view (o.map .server) = o := by
  induction o with
  | nil => rfl
  | cons x o ih => simp [view]

omit [DecidableEq ι] [IdType T] in
theorem abs_idle (hu : c.update = none) : abs c = c.server := by
  simp [abs, extend, popped, pending, hu]

theorem next_pending {task tasks} (hu : c.server.user = []) (hp : pending c.update = task :: tasks)
    (calls : List (Call T)) :
    (abs c).next (.user calls) = Server.runUser calls task { abs c with user := tasks } := by
  have hau : (abs c).user = task :: tasks := by simp [abs, extend, hu, hp]
  simp only [Server.next, hau]

omit [IdType T] [DecidableEq ι] in
theorem roundsLeft_pos {max n : UInt64} (place : Place T ι) (h : n < max) :
    ∃ k, roundsLeft ⟨max, n, place⟩ = k + 1 :=
  Nat.exists_eq_add_one.mpr (Nat.sub_pos_of_lt (UInt64.lt_iff_toNat_lt.mp h))

/-- `messageCount++` does not overflow: `maxMessages` is not reached yet. -/
theorem succ_toNat {max n : UInt64} (h : n < max) : (n + 1).toNat = n.toNat + 1 := by
  have hlt := UInt64.lt_iff_toNat_lt.mp h
  have hmax := max.toNat_lt
  rw [UInt64.toNat_add]
  simp
  omega

/-- A step of `update` is a step of the server seen from outside, or none. -/
theorem abs_step {e o} (hi : Inv c) (hs : ConsumerStep c e c' o) :
    (abs c' = abs c ∧ view o = []) ∨ ∃ e', (abs c).next e' = some (abs c', view o) := by
  cases hs with
  | server e s o he hne hm hn =>
      refine Or.inr ⟨e, ?_⟩
      rw [view_map_server]
      cases e with
      | update max b => exact absurd rfl (he max b)
      | conn i e => exact absurd rfl (hne i e)
      | messageAllClients msg =>
          have hu := hm msg rfl
          rw [abs_idle hu, abs_idle (c := { c with server := s }) hu]
          exact hn
      | accept i nonce sends approve =>
          simp only [Server.next] at hn ⊢
          split at hn <;> cases hn
          rename_i hnone
          exact if_pos hnone
      | user calls =>
          simp only [Server.next] at hn
          split at hn
          · cases hn
          · rename_i task tasks hu
            have htask : isOwnTask task = true := hi.own task (by rw [hu]; exact mem_cons_self)
            have hext := runUser_extend c.popped (pending c.update) { c.server with user := tasks }
              calls task htask
            rw [Extends, hn] at hext
            have hau : (abs c).user = task :: (tasks ++ pending c.update) := by
              simp [abs, extend, hu]
            simp only [Server.next, hau]
            exact hext
  | conn i e s o hcall hn =>
      refine Or.inr ⟨.conn i e, ?_⟩
      have hno : ¬ (Server.isCall e = true ∧ (abs c).owners i = 0) := by
        rintro ⟨hc, h0⟩
        have := hcall hc
        rw [owners_abs] at h0
        omega
      have hext := onConn_extend c.popped (pending c.update) c.server i e
      rw [Extends, hn] at hext
      rw [view_map_server]
      exact (if_neg hno).trans hext
  | update max bWait hu huser =>
      refine Or.inr ⟨.update max bWait, ?_⟩
      rw [abs_idle hu]
      cases bWait <;>
        simp [Server.next, huser, abs, extend, popped, pending, roundsLeft, view]
  | waited calls max n hu hq =>
      have huser := hi.idle _ hu (by simp)
      refine Or.inr ⟨.user calls, ?_⟩
      rw [next_pending huser (by rw [hu]; rfl)]
      simp [Server.runUser, abs, extend, popped, pending, hu, huser, hq, view, roundsLeft]
  | sawEmpty calls max n hu hlt hq =>
      have huser := hi.idle _ hu (by simp)
      obtain ⟨k, hk⟩ := roundsLeft_pos (.test (ι := ι) (T := T)) hlt
      refine Or.inr ⟨.user calls, ?_⟩
      rw [next_pending huser (by rw [hu]; rfl), hk]
      simp [Server.runUser, abs, extend, popped, pending, hu, huser, hq, view]
  | reached calls max n hu hlt =>
      have huser := hi.idle _ hu (by simp)
      have hk : roundsLeft (T := T) (ι := ι) ⟨max, n, .test⟩ = 0 :=
        Nat.sub_eq_zero_of_le (UInt64.le_iff_toNat_le.mp (UInt64.not_lt.mp hlt))
      refine Or.inr ⟨.user calls, ?_⟩
      rw [next_pending huser (by rw [hu]; rfl), hk]
      simp [Server.runUser, abs, extend, popped, pending, hu, huser, view]
  | entered calls max n hu => exact Or.inl ⟨by simp [abs, popped, pending, hu, roundsLeft], rfl⟩
  | popEmpty => exact Or.inl ⟨rfl, rfl⟩
  | popped calls max n msg q hu hq =>
      exact Or.inl ⟨by simp [abs, extend, popped, pending, hu, hq, roundsLeft], rfl⟩
  | onMessage calls max n msg hu =>
      have huser := hi.idle _ hu (by simp)
      obtain ⟨k, hk⟩ := roundsLeft_pos (.onMessage msg) (hi.round _ hu (by simp) (by simp))
      have hk' : roundsLeft (T := T) (ι := ι) ⟨max, n, .running msg.remote⟩ = k + 1 := hk
      refine Or.inr ⟨.user calls, ?_⟩
      rw [next_pending huser (by rw [hu]; rfl), hk]
      simp [Server.runUser, abs, extend, popped, pending, hu, huser, hk', view]
  | again calls max n remote hu huser =>
      have hn := succ_toNat (hi.round _ hu (by simp) (by simp))
      refine Or.inr ⟨.user calls, ?_⟩
      rw [next_pending huser (by rw [hu]; rfl)]
      simp [Server.runUser, abs, extend, popped, pending, hu, huser, view, roundsLeft, hn]
      omega

/-! ## Calls of `OnMessage` -/

/-- `OnMessage` is called only while fewer than `maxMessages` calls were made by the running `update`;
it returns when it has made that many, or when it has just seen the queue empty. -/
def Orderly (p : List (ConsumerEffect T ι)) : ConsumerEffect T ι → Prop
  | .popEmpty => False
  | .server (.onMessage _ _) => ∃ max n, tracked p = some (max, n) ∧ n < max.toNat
  | .returned => ∃ max n, tracked p = some (max, n) ∧ (n = max.toNat ∨ n < max.toNat ∧
      ∃ p₀, p = p₀ ++ [.sawEmpty] ∧
        ∀ i, pushes (Server.hist i (view p₀)) = Server.onMessages i (view p₀))
  | _ => True

def delivered (u : Update T ι) : Nat :=
  match u.place with
  | .running _ => u.messageCount.toNat + 1
  | _ => u.messageCount.toNat

structure Counted (c : Consumer T ι) (h : List (ConsumerEffect T ι)) : Prop where
  tracked : tracked h = c.update.map fun u => (u.maxMessages, delivered u)
  le : ∀ u ∈ c.update, u.messageCount ≤ u.maxMessages

omit [DecidableEq ι] [IdType T] in
theorem tracked_append (o : List (ConsumerEffect T ι)) :
    tracked (h ++ o) = o.foldl track (tracked h) := foldl_append

omit [DecidableEq ι] [IdType T] in
theorem tracked_server {o : List (ServerEffect T ι)} (ho : ∀ remote msg, .onMessage remote msg ∉ o)
    (r : Option (UInt64 × Nat)) : (o.map .server).foldl track r = r := by
  induction o with
  | nil => rfl
  | cons x o ih =>
      have ih := ih fun remote msg hx => ho remote msg (mem_cons_of_mem _ hx)
      cases x with
      | onMessage remote msg => exact absurd mem_cons_self (ho remote msg)
      | _ => exact ih

omit [IdType T] in
theorem orderly_server {o : List (ServerEffect T ι)} (ho : ∀ remote msg, .onMessage remote msg ∉ o) :
    Past (fun p => Orderly (h ++ p)) (o.map (.server (T := T) (ι := ι))) := by
  apply Past.of_forall
  intro x hx p
  obtain ⟨y, hy, rfl⟩ := mem_map.mp hx
  cases y with
  | onMessage remote msg => exact absurd hy (ho remote msg)
  | _ => trivial

omit [DecidableEq ι] [IdType T] in
theorem Counted.move {max n place place'} (hc : Counted c h)
    (hu : c.update = some ⟨max, n, place⟩) (hu' : c'.update = some ⟨max, n, place'⟩)
    (hd : delivered ⟨max, n, place'⟩ = delivered ⟨max, n, place⟩) : Counted c' (h ++ []) := by
  rw [append_nil]
  refine ⟨?_, fun u hm => ?_⟩
  · rw [hc.tracked, hu, hu', Option.map_some, Option.map_some, hd]
  · rw [hu'] at hm
    cases hm
    exact hc.le ⟨max, n, place⟩ hu

theorem Counted.step {e o} (hc : Counted c h) (hi : Inv c) (hs : ConsumerStep c e c' o) :
    Counted c' (h ++ o) := by
  have htr := hc.tracked
  cases hs with
  | server e s o he _ hm hn =>
      have ho := (hi.server (Server.next_serverStep hn) he hm).2
      exact ⟨by rw [tracked_append, tracked_server ho, htr], hc.le⟩
  | conn i e s o _ hn =>
      obtain ⟨_, r, _, _, _, rfl⟩ := Server.onConn_eq_some hn
      exact ⟨by rw [tracked_append, tracked_server (by simp), htr], hc.le⟩
  | update max bWait =>
      refine ⟨?_, fun u hm => ?_⟩
      · cases bWait <;> simp [tracked_append, track, delivered]
      · cases hm
        exact UInt64.zero_le
  | waited _ max n hu => exact hc.move hu rfl rfl
  | sawEmpty => exact ⟨by simp [tracked_append, track], by simp⟩
  | reached => exact ⟨by simp [tracked_append, track], by simp⟩
  | entered _ max n hu => exact hc.move hu rfl rfl
  | popEmpty => exact ⟨by simp [tracked_append, track, htr], hc.le⟩
  | popped _ max n msg q hu => exact hc.move hu rfl rfl
  | onMessage calls max n msg hu =>
      refine ⟨by simp [tracked_append, track, htr, hu, delivered], fun u hm => ?_⟩
      cases hm
      exact hc.le ⟨max, n, .onMessage msg⟩ hu
  | again _ max n remote hu =>
      have hlt : n < max := hi.round _ hu (by simp) (by simp)
      have hn := succ_toNat hlt
      refine ⟨?_, fun u hm => ?_⟩
      · rw [append_nil, htr, hu]
        simp [delivered, hn]
      · cases hm
        apply UInt64.le_iff_toNat_le.mpr
        show (n + 1).toNat ≤ max.toNat
        rw [hn]
        exact UInt64.lt_iff_toNat_lt.mp hlt

/-- A step calls `OnMessage` and returns only when it may. -/
theorem orderly_step {e o} (hi : Inv c) (hc : Counted c h) (hs : ConsumerStep c e c' o)
    (hq : ∀ i, pushes (Server.hist i (view h)) =
      Server.onMessages i (view h) ++ (abs c).queued i) : Past (fun p => Orderly (h ++ p)) o := by
  have htr := hc.tracked
  cases hs with
  | server e s o he _ hm hn => exact orderly_server (hi.server (Server.next_serverStep hn) he hm).2
  | conn i e s o _ hn =>
      obtain ⟨_, r, _, _, _, rfl⟩ := Server.onConn_eq_some hn
      exact orderly_server (by simp)
  | update => simp [past_cons, Orderly]
  | sawEmpty calls max n hu hlt hempty =>
      have hlt := UInt64.lt_iff_toNat_lt.mp hlt
      have hall (i : ι) : pushes (Server.hist i (view h)) = Server.onMessages i (view h) := by
        rw [hq i]
        simp [abs, extend, popped, hu, Server.queued, hempty]
      simp only [past_cons, Orderly, past_nil, true_and, and_true]
      refine ⟨max, n.toNat, ?_, Or.inr ⟨hlt, h, rfl, hall⟩⟩
      simp [tracked_append, track, htr, hu, delivered]
  | reached calls max n hu hlt =>
      have hle := UInt64.le_iff_toNat_le.mp (hc.le _ hu)
      have hge := UInt64.le_iff_toNat_le.mp (UInt64.not_lt.mp hlt)
      simp only [past_cons, Orderly, append_nil, past_nil, and_true]
      exact ⟨max, n.toNat, by simp [htr, hu, delivered], Or.inl (Nat.le_antisymm hle hge)⟩
  | popEmpty calls max n hu hempty => exact absurd hempty (hi.nonEmpty _ hu rfl)
  | onMessage calls max n msg hu =>
      have hlt := UInt64.lt_iff_toNat_lt.mp (hi.round _ hu (by simp) (by simp))
      simp only [past_cons, Orderly, append_nil, past_nil, and_true]
      exact ⟨max, n.toNat, by simp [htr, hu, delivered], hlt⟩
  | _ => exact past_nil

/-! ## Runs -/

/-- A run is a run of the server whose `update` takes a whole round in one step. -/
theorem run_abs {G : Consumer T ι → List (ConsumerEffect T ι) → ConsumerEvent T ι → Prop}
    (hr : (machine T ι).Run G init [] c h) :
    Inv c ∧ (Server.machine T ι).Run Mealy.free Server.init [] (abs c) (view h) := by
  refine hr.invariant (P := fun c h => Inv c ∧
    (Server.machine T ι).Run Mealy.free Server.init [] (abs c) (view h)) ?_ ?_
  · exact ⟨⟨by simp [init, Server.init], by simp [init], by simp [init], by simp [init]⟩, .refl⟩
  · rintro c h e c' o ⟨hi, hrun⟩ - hn
    have hs := next_consumerStep hn
    refine ⟨hi.step hs, ?_⟩
    rw [view_append]
    rcases abs_step hi hs with ⟨habs, hview⟩ | ⟨e', he'⟩
    · rw [habs, hview, append_nil]
      exact hrun
    · exact .step hrun trivial he'

omit [IdType T] in
theorem queued_abs (i : ι) : (abs c).queued i = c.poppedFrom i ++ c.server.queued i := by
  simp [abs, extend, Server.queued, poppedFrom]

/-- For any connections that push to `m_qMessagesIn` and any calls of `update`, in any order of their
steps: `pop_front` is not applied to an empty queue; a call passes at most `maxMessages` messages to
`OnMessage`, and fewer only when it has just seen the queue empty; and what the reader of a connection
completed is what was passed to `OnMessage` for it, at most one message that has been popped, and what
is still queued. -/
theorem faithful_merge (hr : (machine T ι).Run Mealy.free init [] c h) :
    .popEmpty ∉ h ∧
      (∀ h₁ remote msg h₂, h = h₁ ++ .server (.onMessage remote msg) :: h₂ →
        ∃ max n, tracked h₁ = some (max, n) ∧ n < max.toNat) ∧
      (∀ h₁ h₂, h = h₁ ++ .returned :: h₂ → ∃ max n, tracked h₁ = some (max, n) ∧
        (n = max.toNat ∨ n < max.toNat ∧ ∃ h₀, h₁ = h₀ ++ [.sawEmpty] ∧
          ∀ i, pushes (Server.hist i (view h₀)) = Server.onMessages i (view h₀))) ∧
      c.popped.length ≤ 1 ∧
      ∀ i, pushes (Server.hist i (view h)) =
        Server.onMessages i (view h) ++ c.poppedFrom i ++ c.server.queued i := by
  have hord : Counted c h ∧ Past Orderly h := by
    induction hr with
    | refl => exact ⟨⟨rfl, by simp [init]⟩, past_nil⟩
    | step hr _ hn ih =>
        obtain ⟨hi, hrun⟩ := run_abs hr
        have hs := next_consumerStep hn
        exact ⟨ih.1.step hi hs,
          past_append.mpr ⟨ih.2, orderly_step hi ih.1 hs (Server.run_queue hrun)⟩⟩
  obtain ⟨-, hrun⟩ := run_abs hr
  refine ⟨fun hm => ?_, fun h₁ remote msg h₂ he => hord.2 _ _ _ he, fun h₁ h₂ he => hord.2 _ _ _ he,
    ?_, fun i => ?_⟩
  · obtain ⟨h₁, h₂, he⟩ := append_of_mem hm
    exact hord.2 _ _ _ he
  · unfold popped
    split <;> simp
  · rw [Server.run_queue hrun i, queued_abs, append_assoc]

/-- One message is popped while the next one arrives. -/
def overlapping : Consumer UInt32 Unit × List (ConsumerEffect UInt32 Unit) :=
  ((machine UInt32 Unit).exec Mealy.free init [] [.server (.accept () 7 [] true),
    .server (.conn () (.readOk 0 (uint64Bytes (scramble 7)))),
    .server (.conn () (.readOk 0 [1, 0, 0, 0, 8, 0, 0, 0])), .update 5 true, .step [], .step [],
    .step [], .server (.conn () (.readOk 0 [2, 0, 0, 0, 8, 0, 0, 0]))]).get (by decide +kernel)

theorem faithful_merge_overlapping : pushes (Server.hist () (view overlapping.2)) =
    Server.onMessages () (view overlapping.2) ++ overlapping.1.poppedFrom () ++
      overlapping.1.server.queued () ∧
    (overlapping.1.poppedFrom ()).length = 1 ∧ (overlapping.1.server.queued ()).length = 1 := by
  have hr : (machine UInt32 Unit).Run Mealy.free init [] overlapping.1 overlapping.2 := .of_isSome _ _
  exact ⟨(faithful_merge hr).2.2.2.2 (), by decide +kernel, by decide +kernel⟩

end Consumer

end AsioNetworking

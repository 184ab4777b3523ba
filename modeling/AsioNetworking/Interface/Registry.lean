import AsioNetworking.Interface
import Mathlib.Data.List.Count
import Mathlib.Data.List.Nodup

/-!
# The clients in `m_dqConnections`

The entries are pairwise distinct, and only a running `MessageAllClients` leaves null pointers
behind. Ids are the values of a 32-bit counter: they are distinct as long as no client stays
registered while the counter goes around.
-/

namespace AsioNetworking

open List

variable {T ι : Type}

namespace Server

def approved (h : List (ServerEffect T ι)) : List (ι × UInt32) :=
  h.filterMap fun
    | .accepted i _ _ true uid => some (i, uid)
    | _ => none

@[simp] theorem approved_append (h o : List (ServerEffect T ι)) :
    approved (h ++ o) = approved h ++ approved o := filterMap_append

@[simp] theorem approved_map_conn (i : ι) (o : List (Effect T)) :
    approved (o.map (.conn (ι := ι) i)) = [] := by
  induction o <;> simp_all [approved]

def isVisit : UserTask T ι → Bool
  | .visit .. => true
  | _ => false

variable [DecidableEq ι] [IdType T]

theorem approved_accept (s : Server T ι) (i : ι) (nonce : UInt64) (sends : List (Message T))
    (approve : Bool) : approved (s.accept i nonce sends approve).2 =
      if approve then [(i, s.nIDCounter)] else [] := by
  rw [accept_effects, approved_append, approved_map_conn, append_nil]
  cases approve <;> rfl

/-! ## Null pointers -/

/-- Null pointers are behind a running `MessageAllClients`, which knows of them. -/
inductive Nulls (s : Server T ι) : Prop where
  | idle : (∀ task ∈ s.user, isVisit task = false) → none ∉ s.dqConnections → Nulls s
  | visiting (k n msg pIgnoreClient bInvalid tasks) :
      s.user = .visit k n msg pIgnoreClient bInvalid :: tasks →
      (∀ task ∈ tasks, isVisit task = false) →
      (∀ j, k ≤ j → s.dqConnections[j]? ≠ some none) →
      (bInvalid = false → none ∉ s.dqConnections) → Nulls s

section

omit [DecidableEq ι] [IdType T]

variable {s s' : Server T ι}

theorem Nulls.quiet (hi : Nulls s) (hv : ∀ task ∈ s.user.head?, isVisit task = false) :
    (∀ task ∈ s.user, isVisit task = false) ∧ none ∉ s.dqConnections := by
  cases hi with
  | idle hu hn => exact ⟨hu, hn⟩
  | visiting k n msg ign b tasks hu _ _ _ => simp [hu, isVisit] at hv

theorem Nulls.inUserCode (hi : Nulls s) (hu : s.inUserCode = true) :
    (∀ task ∈ s.user, isVisit task = false) ∧ none ∉ s.dqConnections := by
  apply hi.quiet
  intro task ht
  cases hs : s.user with
  | nil => simp [hs] at ht
  | cons t ts =>
      simp only [hs, head?_cons, Option.mem_def, Option.some.injEq] at ht
      subst ht
      simp only [Server.inUserCode, hs] at hu
      cases t <;> simp_all [isVisit]

theorem Nulls.visit {k n : Nat} {msg ign b tasks} (hi : Nulls s)
    (hu : s.user = .visit k n msg ign b :: tasks) : (∀ task ∈ tasks, isVisit task = false) ∧
      (∀ j, k ≤ j → s.dqConnections[j]? ≠ some none) ∧ (b = false → none ∉ s.dqConnections) := by
  cases hi with
  | idle hv _ => simp [hu, isVisit] at hv
  | visiting k' n' msg' ign' b' tasks' hu' ht hj hb =>
      rw [hu] at hu'
      cases hu'
      exact ⟨ht, hj, hb⟩

theorem Nulls.same (hi : Nulls s) (hu : s'.user = s.user) (hd : s'.dqConnections = s.dqConnections) :
    Nulls s' := by
  cases hi with
  | idle hv hn => exact .idle (by rw [hu]; exact hv) (by rw [hd]; exact hn)
  | visiting k n msg ign b tasks hu' ht hj hb =>
      exact .visiting k n msg ign b tasks (hu.trans hu') ht (by rw [hd]; exact hj)
        (by rw [hd]; exact hb)

theorem Nulls.push {i : ι} (hi : Nulls s) (hu : s'.user = s.user)
    (hd : s'.dqConnections = s.dqConnections ++ [some i]) : Nulls s' := by
  have hmem (hn : none ∉ s.dqConnections) : none ∉ s'.dqConnections := by simp [hd, hn]
  cases hi with
  | idle hv hn => exact .idle (by rw [hu]; exact hv) (hmem hn)
  | visiting k n msg ign b tasks hu' ht hj hb =>
      refine .visiting k n msg ign b tasks (hu.trans hu') ht (fun j hk => ?_) fun h => hmem (hb h)
      rw [hd, getElem?_append]
      split
      · exact hj j hk
      · intro h
        have := mem_of_getElem? h
        simp at this

end

theorem Nulls.step {s s' : Server T ι} {e o} (hi : Nulls s) (hs : InterfaceStep s e s' o) :
    Nulls s' := by
  cases hs with
  | acceptError => exact hi
  | send i msg c r => exact hi.same rfl rfl
  | disconnected client msg hu _ =>
      exact .idle (hi.inUserCode hu).1 (by simp)
  | server hs =>
      cases hs with
      | accept i nonce sends approve _ =>
          cases approve with
          | true => exact hi.push rfl rfl
          | false => exact hi.same rfl rfl
      | conn i e c r => exact hi.same rfl rfl
      | update maxMessages bWait hu =>
          obtain ⟨-, hn⟩ := hi.quiet (by simp [hu])
          exact .idle (by cases bWait <;> simp [isVisit]) hn
      | messageAllClients msg hu =>
          obtain ⟨-, hn⟩ := hi.quiet (by simp [hu])
          exact .visiting 0 _ msg none false [] rfl (by simp)
            (fun j _ h => hn (mem_of_getElem? h)) fun _ => hn
      | done calls task tasks hu htask =>
          have hnot : ∀ task ∈ s.user.head?, isVisit task = false := by
            rcases htask with rfl | ⟨_, rfl⟩ | ⟨_, rfl⟩ <;> simp [hu, isVisit]
          obtain ⟨hv, hn⟩ := hi.quiet hnot
          exact .idle (fun t ht => hv t (by rw [hu]; exact mem_cons_of_mem _ ht)) hn
      | pop calls left tasks m q hu _ =>
          obtain ⟨hv, hn⟩ := hi.quiet (by simp [hu, isVisit])
          rw [hu] at hv
          refine .idle (fun t ht => ?_) hn
          simp only [mem_append, mem_map, mem_cons] at ht
          rcases ht with ⟨call, _, rfl⟩ | rfl | rfl | ht
          · rfl
          · rfl
          · rfl
          · exact hv t (mem_cons_of_mem _ ht)
      | call calls i call tasks e c r hu =>
          obtain ⟨hv, hn⟩ := hi.quiet (by simp [hu, isVisit])
          exact .idle (fun t ht => hv t (by rw [hu]; exact mem_cons_of_mem _ ht)) hn
      | broadcast calls client msg ignore tasks hu =>
          obtain ⟨hv, hn⟩ := hi.quiet (by simp [hu, isVisit])
          exact .visiting 0 _ msg _ false tasks rfl
            (fun t ht => hv t (by rw [hu]; exact mem_cons_of_mem _ ht))
            (fun j _ h => hn (mem_of_getElem? h)) fun _ => hn
      | tell calls k n msg ign b tasks i c r hu =>
          obtain ⟨ht, hj, hb⟩ := hi.visit hu
          exact .visiting (k + 1) n msg ign b tasks rfl ht (fun j hk => hj j (by omega)) hb
      | skip calls k n msg ign b tasks i c hu =>
          obtain ⟨ht, hj, hb⟩ := hi.visit hu
          exact .visiting (k + 1) n msg ign b tasks rfl ht (fun j hk => hj j (by omega)) hb
      | drop calls k n msg ign b tasks client hu =>
          obtain ⟨ht, hj, -⟩ := hi.visit hu
          refine .visiting (k + 1) n msg ign true tasks rfl ht (fun j hk => ?_) (by simp)
          simp only [getElem?_set_ne (show k ≠ j by omega)]
          exact hj j (by omega)
      | erase calls k n msg ign b tasks hu =>
          obtain ⟨ht, -, hb⟩ := hi.visit hu
          refine .idle ht ?_
          cases b with
          | true => simp
          | false => exact hb rfl

/-! ## What a step does to the clients -/

/-- A step approves a new client, or it adds none. -/
inductive RegistryStep (s s' : Server T ι) :
    InterfaceEvent T ι → List (ι × UInt32) → Prop where
  | approve (i nonce sends c) : s.conns i = none →
      s'.dqConnections = s.dqConnections ++ [some i] → s'.nIDCounter = s.nIDCounter + 1 →
      s'.conns = Function.update s.conns i (some c) → c.id = s.nIDCounter →
      RegistryStep s s' (.server (.accept i nonce sends true)) [(i, s.nIDCounter)]
  | other {e} : (∀ i nonce sends, e ≠ .server (.accept i nonce sends true)) →
      (∀ i, s'.dqConnections.count (some i) ≤ s.dqConnections.count (some i)) →
      s'.nIDCounter = s.nIDCounter →
      (∀ i c, s.conns i = some c → ∃ c', s'.conns i = some c' ∧ c'.id = c.id) →
      RegistryStep s s' e []

theorem InterfaceStep.sameId {s s' : Server T ι} {e o} (hs : InterfaceStep s e s' o) {i : ι}
    {c : Connection T} (hc : s.conns i = some c) :
    ∃ c', s'.conns i = some c' ∧ c'.id = c.id := by
  obtain ⟨e', hstep⟩ := hs.conn_step i
  generalize hist i o = oi at hstep
  generalize nonces i o = ns at hstep
  cases hstep with
  | idle h => exact ⟨c, h.trans hc, rfl⟩
  | accept _ _ _ _ hnone _ => rw [hc] at hnone; cases hnone
  | step ce c₁ c' _ hc₁ _ hn hc' =>
      rw [hc] at hc₁
      cases hc₁
      exact ⟨c', hc', (Connection.next_readStep hn).sameSelf.uid⟩

theorem InterfaceStep.registryStep {s s' : Server T ι} {e o} (hs : InterfaceStep s e s' o) :
    RegistryStep s s' e (approved o) := by
  have hid := fun i c => hs.sameId (i := i) (c := c)
  -- a step that approves nobody
  have quiet (ho : approved o = []) (he : ∀ i nonce sends, e ≠ .server (.accept i nonce sends true))
      (hd : ∀ i, s'.dqConnections.count (some i) ≤ s.dqConnections.count (some i))
      (hn : s'.nIDCounter = s.nIDCounter) : RegistryStep s s' e (approved o) :=
    ho ▸ .other he hd hn hid
  cases hs with
  | acceptError => exact quiet rfl (by simp) (fun _ => le_rfl) rfl
  | send => exact quiet (approved_map_conn _ _) (by simp) (fun _ => le_rfl) rfl
  | disconnected => exact quiet rfl (by simp) (fun _ => filter_sublist.count_le _) rfl
  | server hs =>
      cases hs with
      | accept i nonce sends approve hi =>
          cases approve with
          | false =>
              exact quiet (approved_accept s i nonce sends false) (by simp) (fun _ => le_rfl) rfl
          | true =>
              rw [approved_accept, if_pos rfl]
              refine .approve i nonce sends _ hi rfl rfl rfl ?_
              rw [Connection.accepted_approved]
      | conn => exact quiet (approved_map_conn _ _) (by simp) (fun _ => le_rfl) rfl
      | call => exact quiet (approved_map_conn _ _) (by simp) (fun _ => le_rfl) rfl
      | tell => exact quiet (approved_map_conn _ _) (by simp) (fun _ => le_rfl) rfl
      | drop _ k _ _ _ _ _ client _ _ hd =>
          refine quiet rfl (by simp) (fun i => ?_) rfl
          obtain ⟨l₁, l₂, hl, -, hset, -⟩ := exists_split_of_getElem? hd
          show (s.dqConnections.set k none).count (some i) ≤ _
          rw [hset, hl]
          simp [count_append, count_cons]
      | erase _ _ _ _ _ b _ =>
          refine quiet rfl (by simp) (fun i => ?_) rfl
          cases b with
          | true => exact filter_sublist.count_le _
          | false => exact le_rfl
      | _ => exact quiet rfl (by simp) (fun _ => le_rfl) rfl

/-! ## The invariant -/

/-- The id that the `k`-th approved client gets. -/
def nthId (k : Nat) : UInt32 := 10000 + UInt32.ofNat k

/-- How often the counter was read since the client `i` was approved, its own id included. -/
def since (i : ι) (h : List (ServerEffect T ι)) : Nat :=
  ((approved h).dropWhile (·.1 ≠ i)).length

structure RegistryInv (s : Server T ι) (h : List (ServerEffect T ι)) : Prop where
  counter : s.nIDCounter = nthId (approved h).length
  given : Past (fun l p => p.2 = nthId l.length) (approved h)
  once : ((approved h).map (·.1)).Nodup
  known : ∀ p ∈ approved h, ∃ c, s.conns p.1 = some c ∧ c.id = p.2
  count : ∀ i, s.dqConnections.count (some i) ≤ 1
  registered : ∀ i, some i ∈ s.dqConnections → ∃ uid, (i, uid) ∈ approved h

omit [DecidableEq ι] [IdType T] in
theorem nthId_inj {k n : Nat} (hk : k < n) (hn : n < k + 2 ^ 32) : nthId k ≠ nthId n := by
  intro he
  have := UInt32.add_right_inj 10000 |>.mp he
  have := congrArg UInt32.toNat this
  simp only [UInt32.toNat_ofNat'] at this
  omega

omit [DecidableEq ι] [IdType T] in
theorem nthId_add (k : Nat) : nthId (k + 2 ^ 32) = nthId k := by
  have h : UInt32.ofNat (k + 2 ^ 32) = UInt32.ofNat k := by
    apply UInt32.toNat_inj.mp
    simp
  rw [nthId, h, nthId]

omit [IdType T] in
theorem RegistryInv.init : RegistryInv (T := T) (ι := ι) init [] :=
  ⟨rfl, by simp [approved], by simp [approved], by simp [approved], by simp [Server.init],
    by simp [Server.init]⟩

variable {s s' : Server T ι} {h : List (ServerEffect T ι)}

omit [IdType T] in
theorem RegistryInv.step {e o} (hi : RegistryInv s h) (hs : RegistryStep s s' e (approved o)) :
    RegistryInv s' (h ++ o) := by
  generalize ha : approved o = a at hs
  have happ : approved (h ++ o) = approved h ++ a := by rw [approved_append, ha]
  cases hs with
  | other _ hd hn hid =>
      rw [append_nil] at happ
      refine ⟨?_, ?_, ?_, ?_, fun i => (hd i).trans (hi.count i), fun i hm => ?_⟩
      · rw [hn, happ]; exact hi.counter
      · rw [happ]; exact hi.given
      · rw [happ]; exact hi.once
      · intro p hp
        rw [happ] at hp
        obtain ⟨c, hc, hcid⟩ := hi.known p hp
        obtain ⟨c', hc', hid'⟩ := hid p.1 c hc
        exact ⟨c', hc', hid'.trans hcid⟩
      · rw [happ]
        exact hi.registered i (count_pos_iff.mp ((count_pos_iff.mpr hm).trans_le (hd i)))
  | approve i nonce sends c hnone hd hn hc hid =>
      have hnew : i ∉ (approved h).map (·.1) := by
        intro hm
        obtain ⟨p, hp, rfl⟩ := mem_map.mp hm
        obtain ⟨c, hc, -⟩ := hi.known p hp
        rw [hnone] at hc
        cases hc
      have hnd : some i ∉ s.dqConnections := by
        intro hm
        obtain ⟨uid, hp⟩ := hi.registered i hm
        exact hnew (mem_map.mpr ⟨_, hp, rfl⟩)
      refine ⟨?_, ?_, ?_, ?_, fun j => ?_, fun j hm => ?_⟩
      · rw [hn, happ, hi.counter, length_append, nthId, nthId]
        simp [UInt32.add_assoc]
      · rw [happ, past_append]
        exact ⟨hi.given, by simp [past_cons, hi.counter]⟩
      · rw [happ, map_append, nodup_append]
        exact ⟨hi.once, by simp, fun j hj k hk => by
          rintro rfl
          simp only [map_cons, map_nil, mem_singleton] at hk
          exact hnew (hk ▸ hj)⟩
      · intro p hp
        rw [hc]
        rw [happ, mem_append, mem_singleton] at hp
        rcases hp with hp | rfl
        · have hne : p.1 ≠ i := fun he => hnew (he ▸ mem_map.mpr ⟨p, hp, rfl⟩)
          rw [Function.update_of_ne hne]
          exact hi.known p hp
        · exact ⟨c, Function.update_self .., hid⟩
      · rw [hd, count_append]
        by_cases hij : i = j
        · subst hij
          rw [count_eq_zero.mpr hnd]
          simp
        · simpa [hij] using hi.count j
      · rw [hd, mem_append, mem_singleton, Option.some.injEq] at hm
        rw [happ]
        rcases hm with hm | rfl
        · obtain ⟨uid, hp⟩ := hi.registered j hm
          exact ⟨uid, mem_append_left _ hp⟩
        · exact ⟨_, mem_append_right _ (mem_singleton.mpr rfl)⟩

/-! ## Ids of registered clients -/

/-- The entries of `m_dqConnections` are pairwise distinct connections with pairwise distinct ids,
null only behind a running `MessageAllClients`, and the id of a client that is still there has not
been given to another one since. -/
structure Identified (s : Server T ι) (h : List (ServerEffect T ι)) : Prop where
  nonNull : (∀ task ∈ s.user, isVisit task = false) → none ∉ s.dqConnections
  distinct : ∀ i, s.dqConnections.count (some i) ≤ 1
  connections : ∀ i, some i ∈ s.dqConnections → ∃ c, s.conns i = some c
  ids : ∀ i j c d, some i ∈ s.dqConnections → some j ∈ s.dqConnections → s.conns i = some c →
    s.conns j = some d → c.id = d.id → i = j
  kept : ∀ i c, some i ∈ s.dqConnections → s.conns i = some c → ∀ l₁ uid l₂,
    approved h = l₁ ++ (i, uid) :: l₂ → ∀ p ∈ l₂, p.2 ≠ c.id

/-- A client is approved only while the counter has not gone around since the approval of any
client that is still registered. -/
def NotAround (s : Server T ι) (h : List (ServerEffect T ι)) : InterfaceEvent T ι → Prop
  | .server (.accept _ _ _ true) => ∀ i, some i ∈ s.dqConnections → since i h < 2 ^ 32
  | _ => True

section

variable (hi : RegistryInv s h)

include hi

omit [IdType T]

theorem RegistryInv.since_eq {i : ι} {uid l₁ l₂} (ha : approved h = l₁ ++ (i, uid) :: l₂) :
    since i h = l₂.length + 1 := by
  have hnd := hi.once
  rw [ha, map_append, map_cons, nodup_append] at hnd
  have hl : ∀ p ∈ l₁, decide (p.1 ≠ i) = true := fun p hp =>
    decide_eq_true (hnd.2.2 p.1 (mem_map_of_mem hp) i mem_cons_self)
  rw [since, ha, dropWhile_append_of_pos hl, dropWhile_cons_of_neg (by simp)]
  simp

/-- An id comes back when the counter has gone around. -/
theorem RegistryInv.again_iff {i : ι} {uid : UInt32} {l₁ l₂ : List (ι × UInt32)}
    (ha : approved h = l₁ ++ (i, uid) :: l₂) : (∀ p ∈ l₂, p.2 ≠ uid) ↔ since i h ≤ 2 ^ 32 := by
  have huid : uid = nthId l₁.length := hi.given l₁ (i, uid) l₂ ha
  have hnth (m₁ : List (ι × UInt32)) (p : ι × UInt32) (m₂) (hl : l₂ = m₁ ++ p :: m₂) :
      p.2 = nthId (l₁.length + 1 + m₁.length) := by
    have := hi.given (l₁ ++ (i, uid) :: m₁) p m₂ (by rw [ha, hl, append_assoc, cons_append])
    rw [this, length_append, length_cons]
    congr 1
    omega
  rw [hi.since_eq ha]
  constructor
  · intro hne
    by_contra hlt
    have hlong : 2 ^ 32 - 1 < l₂.length := by omega
    obtain ⟨m₁, m₂, hl, -, -, hm⟩ := exists_split_of_getElem? (getElem?_eq_getElem hlong)
    apply hne _ (getElem_mem hlong)
    rw [hnth m₁ _ m₂ hl, huid, hm, show l₁.length + 1 + (2 ^ 32 - 1) = l₁.length + 2 ^ 32 by omega,
      nthId_add]
  · intro hle p hp
    obtain ⟨m₁, m₂, hl⟩ := append_of_mem hp
    have hlen : m₁.length < l₂.length := by rw [hl]; simp
    rw [hnth m₁ p m₂ hl, huid]
    exact Ne.symm (nthId_inj (by omega) (by omega))

theorem RegistryInv.id_eq {i : ι} {c uid} (hc : s.conns i = some c) (ha : (i, uid) ∈ approved h) :
    c.id = uid := by
  obtain ⟨d, hd, hid⟩ := hi.known _ ha
  rw [hc] at hd
  cases hd
  exact hid

theorem RegistryInv.ids {i j : ι} {c d} (hdi : some i ∈ s.dqConnections)
    (hdj : some j ∈ s.dqConnections) (hc : s.conns i = some c) (hd : s.conns j = some d)
    (hid : c.id = d.id) (hsi : since i h ≤ 2 ^ 32) (hsj : since j h ≤ 2 ^ 32) : i = j := by
  obtain ⟨u, hu⟩ := hi.registered i hdi
  obtain ⟨v, hv⟩ := hi.registered j hdj
  have huv : u = v := by rw [← hi.id_eq hc hu, ← hi.id_eq hd hv, hid]
  obtain ⟨l₁, l₂, hl⟩ := append_of_mem hu
  have hlater := (hi.again_iff hl).mpr hsi
  have hmem := hv
  rw [hl, mem_append, mem_cons] at hmem
  rcases hmem with hmem | hmem | hmem
  · -- `j` was approved before `i`
    obtain ⟨m₁, m₂, hm⟩ := append_of_mem hmem
    have hl' : approved h = m₁ ++ (j, v) :: (m₂ ++ (i, u) :: l₂) := by rw [hl, hm]; simp
    exact absurd huv ((hi.again_iff hl').mpr hsj (i, u) (by simp))
  · cases hmem
    rfl
  · exact absurd huv.symm (hlater (j, v) hmem)

theorem RegistryInv.identified_iff_since (hn : Nulls s) :
    Identified s h ↔ ∀ i, some i ∈ s.dqConnections → since i h ≤ 2 ^ 32 := by
  constructor
  · intro hp i hd
    obtain ⟨uid, hu⟩ := hi.registered i hd
    obtain ⟨c, hc, hid⟩ := hi.known _ hu
    obtain ⟨l₁, l₂, hl⟩ := append_of_mem hu
    apply (hi.again_iff hl).mp
    intro p hp'
    rw [← show c.id = uid from hid]
    exact hp.kept i c hd hc l₁ uid l₂ hl p hp'
  · intro hs
    refine ⟨?_, hi.count, fun i hd => ?_, ?_, ?_⟩
    · intro hu
      cases hn with
      | idle _ h => exact h
      | visiting _ _ _ _ _ _ hv => simp [hv, isVisit] at hu
    · obtain ⟨uid, hu⟩ := hi.registered i hd
      obtain ⟨c, hc, -⟩ := hi.known _ hu
      exact ⟨c, hc⟩
    · intro i j c d hdi hdj hc hd hid
      exact hi.ids hdi hdj hc hd hid (hs i hdi) (hs j hdj)
    · intro i c hd hc l₁ uid l₂ hl
      have hu : (i, uid) ∈ approved h := by rw [hl]; simp
      rw [hi.id_eq hc hu]
      exact (hi.again_iff hl).mpr (hs i hd)

theorem RegistryInv.since_le_iff {e o} (hs : RegistryStep s s' e (approved o))
    (hle : ∀ i, some i ∈ s.dqConnections → since i h ≤ 2 ^ 32) :
    (∀ i, some i ∈ s'.dqConnections → since i (h ++ o) ≤ 2 ^ 32) ↔ NotAround s h e := by
  have hi' := hi.step hs
  generalize ha : approved o = a at hs
  have happ : approved (h ++ o) = approved h ++ a := by rw [approved_append, ha]
  cases hs with
  | other he hd _ _ =>
      rw [append_nil] at happ
      have hg : NotAround s h e := by
        unfold NotAround
        split
        · exact absurd rfl (he _ _ _)
        · trivial
      refine iff_of_true (fun i hm => ?_) hg
      rw [since, happ]
      exact hle i (count_pos_iff.mp ((count_pos_iff.mpr hm).trans_le (hd i)))
  | approve i nonce sends c _ hd _ _ _ =>
      have hnext (j : ι) (hj : some j ∈ s.dqConnections) : since j (h ++ o) = since j h + 1 := by
        obtain ⟨uid, hu⟩ := hi.registered j hj
        obtain ⟨l₁, l₂, hl⟩ := append_of_mem hu
        have hl' : approved (h ++ o) = l₁ ++ (j, uid) :: (l₂ ++ [(i, s.nIDCounter)]) := by
          rw [happ, hl]
          simp
        rw [hi.since_eq hl, hi'.since_eq hl', length_append, length_singleton]
      have hnew : since i (h ++ o) = 1 := hi'.since_eq happ
      constructor
      · intro hall j hj
        have := hall j (hd ▸ mem_append_left _ hj)
        rw [hnext j hj] at this
        exact Nat.lt_of_succ_le this
      · intro hg j hj
        rw [hd, mem_append, mem_singleton, Option.some.injEq] at hj
        rcases hj with hj | rfl
        · rw [hnext j hj]
          exact hg j hj
        · rw [hnew]
          decide

end

/-- A run keeps the ids of the registered clients distinct if and only if every client is approved
before the counter has gone around since the approval of one that is still registered. -/
theorem identified_iff (es : List (InterfaceEvent T ι)) :
    (interface T ι).Always Identified init [] es ↔ (interface T ι).Along NotAround init [] es := by
  have hnulls : Nulls (init : Server T ι) := .idle (by simp [init]) (by simp [init])
  refine Mealy.always_iff_along (I := fun s h => RegistryInv s h ∧ Nulls s) ?_ ?_ es
    ⟨.init, hnulls⟩ ((RegistryInv.init.identified_iff_since hnulls).mpr (by simp [init]))
  · rintro s h e s' o ⟨hi, hn⟩ hnext
    have hs := next_interfaceStep hnext
    exact ⟨hi.step hs.registryStep, hn.step hs⟩
  · rintro s h e s' o ⟨hi, hn⟩ hp hnext
    have hs := next_interfaceStep hnext
    rw [(hi.step hs.registryStep).identified_iff_since (hn.step hs)]
    exact hi.since_le_iff hs.registryStep ((hi.identified_iff_since hn).mp hp)

/-! ## The counter goes around -/

/-- The server after `n` clients were approved, none of which has left. -/
def crowd (n : Nat) : Server UInt32 ℕ where
  conns i := if i < n then some (Connection.accepted 0 [] true (nthId i)).1 else none
  dqConnections := (range n).map some
  qMessagesIn := []
  nIDCounter := nthId n
  user := []

theorem accept_crowd (n : Nat) : ((crowd n).accept n 0 [] true).1 = crowd (n + 1) := by
  have hconns : Function.update (crowd n).conns n
      (some (Connection.accepted 0 [] true (nthId n)).1) = (crowd (n + 1)).conns := by
    funext i
    by_cases hi : i = n
    · subst hi
      simp [crowd]
    · rw [Function.update_of_ne hi]
      have : i < n ↔ i < n + 1 := by omega
      simp [crowd, this]
  have hcounter : (crowd n).nIDCounter + 1 = nthId (n + 1) := by
    simp [crowd, nthId, UInt32.add_assoc]
  simp only [Server.accept, if_true, hcounter]
  rw [show (crowd n).nIDCounter = nthId n from rfl, hconns]
  simp [crowd, range_succ]

theorem run_crowd (n : Nat) : ∃ h, (interface UInt32 ℕ).Run Mealy.free init [] (crowd n) h := by
  induction n with
  | zero => exact ⟨[], .refl⟩
  | succ n ih =>
      obtain ⟨h, hr⟩ := ih
      refine ⟨_, hr.step (e := .server (.accept n 0 [] true)) trivial
        (o := ((crowd n).accept n 0 [] true).2) ?_⟩
      rw [← accept_crowd]
      have hnone : ((crowd n).conns n).isNone = true := by simp [crowd]
      simp only [interface, nextInterface, next, hnone, if_true]

/-- The last client of the crowd may not have the id of the first. -/
theorem Identified.crowd {n : Nat} {h} (hp : Identified (crowd (n + 1)) h)
    (hn : nthId n = nthId 0) : n = 0 := by
  have hmem (i : ℕ) (hi : i < n + 1) : some i ∈ (Server.crowd (n + 1)).dqConnections :=
    mem_map.mpr ⟨i, mem_range.mpr hi, rfl⟩
  have hconn (i : ℕ) (hi : i < n + 1) : (Server.crowd (n + 1)).conns i =
      some (Connection.accepted 0 [] true (nthId i)).1 := if_pos hi
  exact hp.ids n 0 _ _ (hmem n (by omega)) (hmem 0 (by omega)) (hconn n (by omega))
    (hconn 0 (by omega)) (by rw [hn])

/-- The clients `0` and `2 ^ 32` have the same id. -/
theorem not_identified : ¬ ∀ (s : Server UInt32 ℕ) (h : List (ServerEffect UInt32 ℕ)),
    (interface UInt32 ℕ).Run Mealy.free init [] s h → Identified s h := by
  intro hall
  obtain ⟨h, hr⟩ := run_crowd (2 ^ 32 + 1)
  have hid : nthId (2 ^ 32) = nthId 0 := by rw [← nthId_add 0, Nat.zero_add]
  exact absurd ((hall _ h hr).crowd hid) (by decide)

end Server

end AsioNetworking

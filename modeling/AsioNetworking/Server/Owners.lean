import AsioNetworking.Server.Theorems
import Mathlib.Data.List.Count

/-!
# Owners of connections

Tasks and operations refer to their connection by a bare `this`. A connection with one of them
pending has an owner as long as no step takes away its last one; `Safe` says which steps may.
-/

namespace AsioNetworking

open List

variable {T ι : Type} [DecidableEq ι] [IdType T]

namespace Server

/-- Every connection with something pending has an owner. -/
def Owned (s : Server T ι) : Prop :=
  ∀ i c, s.conns i = some c → c.busy = true → 0 < s.owners i

/-- The connection has nothing pending, or it has an owner to spare. -/
def Spare (s : Server T ι) (i : ι) : Prop :=
  ∀ c, s.conns i = some c → c.busy = true → 1 < s.owners i

/-- The step takes no owner away that is needed: a denied connection was sent nothing, and a message
is released, or a closed connection reset, only with an owner to spare. -/
def Safe (s : Server T ι) : ServerEvent T ι → Prop
  | .accept _ _ sends approve => approve = true ∨ sends = []
  | .user _ =>
      match s.user with
      | .release (some i) :: _ => s.Spare i
      | .visit k n _ _ _ :: _ => k < n → ∀ i c, s.dqConnections[k]? = some (some i) →
          s.conns i = some c → c.socketOpen = false → s.Spare i
      | _ => True
  | _ => True

/-! ## What the owners refer to -/

/-- Every call that `OnMessage` is going to make is made before its message is released. -/
def Stacked : List (UserTask T ι) → Prop
  | [] => True
  | .call (some i) _ :: tasks => .release (some i) ∈ tasks ∧ Stacked tasks
  | _ :: tasks => Stacked tasks

structure OwnerInv (s : Server T ι) : Prop where
  known : ∀ i, s.conns i = none → s.owners i = 0
  stacked : Stacked s.user

omit [IdType T] [DecidableEq ι] in
theorem Stacked.tail {task : UserTask T ι} {tasks} (h : Stacked (task :: tasks)) :
    Stacked tasks := by
  cases task with
  | call client call =>
      cases client with
      | none => exact h
      | some i => exact h.2
  | _ => exact h

omit [IdType T] [DecidableEq ι] in
theorem Stacked.calls {remote : Option ι} {tasks : List (UserTask T ι)} (h : Stacked tasks)
    (hm : .release remote ∈ tasks) (calls : List (Call T)) :
    Stacked (calls.map (.call remote) ++ tasks) := by
  induction calls with
  | nil => exact h
  | cons call calls ih =>
      cases remote with
      | none => exact ih
      | some i => exact ⟨mem_append_right _ hm, ih⟩

/-! ## Steps that take no owner away -/

omit [IdType T] in
theorem held_of_release {i : ι} {tasks : List (UserTask T ι)} (hm : .release (some i) ∈ tasks) :
    0 < (tasks.map held).count (some i) :=
  count_pos_iff.mpr (mem_map.mpr ⟨_, hm, rfl⟩)

theorem busy_of_next {c : Connection T} {e r} (hn : c.next e = some r) (hc : isCall e = false) :
    c.busy = true :=
  Connection.busy_of_next hn (fun _ he => by subst he; cases hc) (fun he => by subst he; cases hc)

/-- A step of the connection `i`, which has an owner when it is called, keeps the owners. -/
theorem Owned.setConn {s s₁ : Server T ι} {j : ι} {c e r} (hP : s.Owned) (hc : s.conns j = some c)
    (hr : c.next e = some r) (hcall : isCall e = true → 0 < s.owners j)
    (hconns : s₁.conns = s.conns) (hown : ∀ i, s₁.owners i = s.owners i) :
    (s₁.setConn j r).Owned := by
  have hle (i : ι) : s.owners i ≤ (s₁.setConn j r).owners i := by
    rw [← hown]
    simp only [owners, Server.setConn, map_append, count_append]
    omega
  intro i c' hc' hb
  refine lt_of_lt_of_le ?_ (hle i)
  by_cases hij : i = j
  · subst hij
    cases he : isCall e with
    | true => exact hcall he
    | false => exact hP i c hc (busy_of_next hr he)
  · simp only [Server.setConn, Function.update_of_ne hij, hconns] at hc'
    exact hP i c' hc' hb

omit [IdType T] in
theorem Owned.same {s s' : Server T ι} (hP : s.Owned) (hc : s'.conns = s.conns)
    (ho : ∀ i, s'.owners i = s.owners i) : s'.Owned := by
  intro i c hci hb
  rw [hc] at hci
  rw [ho]
  exact hP i c hci hb

omit [IdType T] in
/-- A step that takes one owner of `j` away keeps the property exactly if `j` can spare it. -/
theorem Owned.iff_spare {s s' : Server T ι} {j : ι} (hP : s.Owned) (hc : s'.conns = s.conns)
    (ho : ∀ i, s.owners i = s'.owners i + if j = i then 1 else 0) : s'.Owned ↔ s.Spare j := by
  constructor
  · intro hP' c hcj hb
    have := hP' j c (by rw [hc]; exact hcj) hb
    rw [ho, if_pos rfl]
    omega
  · intro hs i c hci hb
    rw [hc] at hci
    by_cases hij : j = i
    · subst hij
      have := hs c hci hb
      rw [ho, if_pos rfl] at this
      omega
    · have := hP i c hci hb
      rwa [ho, if_neg hij] at this

/-! ## Safe steps -/

theorem accepted_busy (nonce : UInt64) (msgs : List (Message T)) (uid : UInt32) :
    (Connection.accepted nonce msgs false uid).1.busy = true ↔ msgs ≠ [] := by
  simp [Connection.accepted_denied, Connection.busy, Connection.construct]

theorem Owned.accept_iff {s : Server T ι} {j nonce sends approve} (hP : s.Owned)
    (hi : OwnerInv s) (hj : s.conns j = none) :
    (s.accept j nonce sends approve).1.Owned ↔ approve = true ∨ sends = [] := by
  have hconns {i} (hij : i ≠ j) : (s.accept j nonce sends approve).1.conns i = s.conns i := by
    simp [Server.accept, Function.update_of_ne hij]
  have hself : (s.accept j nonce sends approve).1.conns j =
      some (Connection.accepted nonce sends approve s.nIDCounter).1 := by
    simp [Server.accept]
  have howners (i) : (s.accept j nonce sends approve).1.owners i =
      s.owners i + if approve = true ∧ j = i then 1 else 0 := by
    cases approve with
    | false => simp [owners, Server.accept]
    | true =>
        by_cases hij : j = i
        · simp [owners, Server.accept, count_append, hij]; omega
        · simp [owners, Server.accept, count_append, hij]
  constructor
  · intro hP'
    cases approve with
    | true => exact Or.inl rfl
    | false =>
        refine Or.inr (by_contra fun hne => ?_)
        have := hP' j _ hself ((accepted_busy _ _ _).mpr hne)
        rw [howners, hi.known j hj] at this
        simp at this
  · intro hsafe i c hci hb
    rw [howners]
    by_cases hij : i = j
    · subst hij
      rcases hsafe with rfl | rfl
      · simp
      · cases approve with
        | true => simp
        | false =>
            rw [hself] at hci
            cases hci
            exact absurd rfl ((accepted_busy _ _ _).mp hb)
    · rw [hconns hij] at hci
      have := hP i c hci hb
      omega

omit [IdType T] in
/-- `OnMessage` is going to be called with a message that was in the queue: it keeps its owner. -/
theorem owners_pop {s : Server T ι} {left tasks m q} (hu : s.user = .loop (left + 1) :: tasks)
    (hq : s.qMessagesIn = m :: q) (calls : List (Call T)) (i : ι) :
    owners { s with
      qMessagesIn := q
      user := calls.map (.call m.remote) ++ .release m.remote :: .loop left :: tasks } i =
      s.owners i := by
  have hcalls : (calls.map fun call => held (.call m.remote call)).count (some i) = 0 := by
    simp [held, count_replicate]
  simp only [held] at hcalls
  simp only [owners, hu, hq, map_append, map_cons, map_map, count_append, count_cons, held,
    Function.comp_def, hcalls]
  omega

omit [IdType T] in
theorem owners_drop {s : Server T ι} {k n : Nat} {msg ign b tasks client}
    (hu : s.user = .visit k n msg ign b :: tasks) (hd : s.dqConnections[k]? = some client) (i : ι) :
    s.owners i = owners { s with
      dqConnections := s.dqConnections.set k none
      user := .visit (k + 1) n msg ign true :: tasks } i + if client = some i then 1 else 0 := by
  obtain ⟨hlt, hget⟩ := List.getElem?_eq_some_iff.mp hd
  simp only [owners, hu, map_cons, count_cons, held, count_set hlt, hget, beq_iff_eq, reduceCtorEq,
    if_false]
  split
  · rename_i he
    have : 0 < s.dqConnections.count (some i) := count_pos_iff.mpr (he ▸ mem_of_getElem? hd)
    omega
  · omega

omit [IdType T] in
theorem safe_of_open {s : Server T ι} {calls k n msg ign b tasks j c}
    (hu : s.user = .visit k n msg ign b :: tasks) (hd : s.dqConnections[k]? = some (some j))
    (hc : s.conns j = some c) (hopen : c.socketOpen = true) : s.Safe (.user calls) := by
  simp only [Safe, hu]
  intro _ i c' hdi hci hclosed
  rw [hd] at hdi
  cases hdi
  rw [hc] at hci
  cases hci
  rw [hopen] at hclosed; cases hclosed

/-- From an owned state, the steps that lead to an owned state are exactly the safe ones. -/
theorem ServerStep.owned_iff_safe {s s' : Server T ι} {e o} (hs : ServerStep s e s' o)
    (hi : OwnerInv s) (hP : s.Owned) : s'.Owned ↔ s.Safe e := by
  cases hs with
  | accept i nonce sends approve hnone => exact hP.accept_iff hi hnone
  | conn j e c r hc hr hcall =>
      simp only [Safe, iff_true]
      exact hP.setConn hc hr hcall rfl fun _ => rfl
  | update maxMessages bWait hu =>
      simp only [Safe, iff_true]
      refine hP.same rfl fun i => ?_
      cases bWait <;> simp [owners, hu, held]
  | messageAllClients msg hu =>
      simp only [Safe, iff_true]
      exact hP.same rfl fun i => by simp [owners, hu, held]
  | broadcast calls client msg ignore tasks hu =>
      simp only [Safe, hu, iff_true]
      exact hP.same rfl fun i => by simp [owners, hu, held]
  | pop calls left tasks m q hu hq =>
      simp only [Safe, hu, iff_true]
      exact hP.same rfl (owners_pop hu hq calls)
  | call calls j call tasks e c r hu hce hc hr =>
      simp only [Safe, hu, iff_true]
      have hst := hi.stacked
      rw [hu] at hst
      refine hP.setConn hc hr (fun _ => ?_) rfl fun i => by simp [owners, hu, held]
      have := held_of_release hst.1
      simp only [owners, hu, map_cons, count_cons]
      omega
  | done calls task tasks hu htask =>
      rcases htask with rfl | ⟨left, rfl⟩ | ⟨remote, rfl⟩
      · simp only [Safe, hu, iff_true]
        exact hP.same rfl fun i => by simp [owners, hu, held]
      · simp only [Safe, hu, iff_true]
        exact hP.same rfl fun i => by simp [owners, hu, held]
      · cases remote with
        | none =>
            simp only [Safe, hu, iff_true]
            exact hP.same rfl fun i => by simp [owners, hu, held]
        | some j =>
            simp only [Safe, hu]
            refine hP.iff_spare rfl fun i => ?_
            simp only [owners, hu, map_cons, count_cons, held, beq_iff_eq, Option.some.injEq]
            omega
  | tell calls k n msg ign bInvalid tasks j c r hu hk hd hc hopen hne hr =>
      simp only [safe_of_open hu hd hc hopen, iff_true]
      refine hP.setConn hc hr (fun _ => ?_) rfl fun i => by simp [owners, hu, held]
      have : 0 < s.dqConnections.count (some j) := count_pos_iff.mpr (mem_of_getElem? hd)
      simp only [owners]
      omega
  | skip calls k n msg ign bInvalid tasks j c hu hk hd hc hopen he =>
      simp only [safe_of_open hu hd hc hopen, iff_true]
      exact hP.same rfl fun i => by simp [owners, hu, held]
  | drop calls k n msg ign bInvalid tasks client hu hk hd hclosed =>
      have howners := owners_drop hu hd
      cases client with
      | none =>
          simp only [Safe, hu, hd]
          refine iff_of_true (hP.same rfl fun i => ?_) (fun _ i c h => by simp at h)
          exact (howners i).symm
      | some j =>
          obtain ⟨c, hc, hcl⟩ := hclosed j rfl
          have hsafe : s.Safe (.user calls) ↔ s.Spare j := by
            simp only [Safe, hu, hd]
            exact ⟨fun h => h hk j c rfl hc hcl, fun h _ i c' hi _ _ => by cases hi; exact h⟩
          rw [hsafe]
          simp only [Option.some.injEq] at howners
          exact hP.iff_spare rfl howners
  | erase calls k n msg ign bInvalid tasks hu hk =>
      have hsafe : s.Safe (.user calls) := by
        simp only [Safe, hu]
        exact fun h => absurd h (Nat.not_lt.mpr hk)
      simp only [hsafe, iff_true]
      refine hP.same rfl fun i => ?_
      cases bInvalid <;> simp [owners, hu, held, count_filter]

/-! ## The invariant -/

omit [IdType T] in
theorem OwnerInv.init : OwnerInv (init : Server T ι) := ⟨fun _ _ => rfl, trivial⟩

omit [IdType T] in
theorem known_setConn {s s₁ : Server T ι} {j : ι} {c : Connection T} {r}
    (hknown : ∀ i, s.conns i = none → s.owners i = 0) (hc : s.conns j = some c)
    (hconns : s₁.conns = s.conns) (hown : ∀ i, s₁.owners i = s.owners i) :
    ∀ i, (s₁.setConn j r).conns i = none → (s₁.setConn j r).owners i = 0 := by
  intro i hnone
  by_cases hij : i = j
  · subst hij
    simp [Server.setConn] at hnone
  · simp only [Server.setConn, Function.update_of_ne hij, hconns] at hnone
    have hz : ((owned j r.2).map (·.remote)).count (some i) = 0 := by
      refine count_eq_zero.mpr fun hm => ?_
      obtain ⟨m, hm, hi⟩ := mem_map.mp hm
      obtain ⟨x, _, hx⟩ := mem_filterMap.mp hm
      split at hx
      · cases hx; simp at hi; exact hij hi.symm
      · cases hx; simp at hi
      · cases hx
    have h0 := hknown i hnone
    rw [← hown] at h0
    simp only [owners, Server.setConn, map_append, count_append] at h0 ⊢
    omega

theorem ServerStep.known {s s' : Server T ι} {e o} (hs : ServerStep s e s' o) (hi : OwnerInv s) :
    ∀ i, s'.conns i = none → s'.owners i = 0 := by
  obtain ⟨hknown, hst⟩ := hi
  have fewer {s' : Server T ι} (hc : s'.conns = s.conns) (ho : ∀ i, s'.owners i ≤ s.owners i) :
      ∀ i, s'.conns i = none → s'.owners i = 0 := fun i hnone => by
    have := hknown i (hc ▸ hnone)
    have := ho i
    omega
  cases hs with
  | accept j nonce sends approve hnone =>
      intro i hnone'
      by_cases hij : j = i
      · subst hij
        simp [Server.accept] at hnone'
      · simp only [Server.accept, Function.update_of_ne (Ne.symm hij)] at hnone'
        have h0 := hknown i hnone'
        cases approve <;> simp_all [owners, Server.accept, count_append]
  | conn j e c r hc hr _ => exact known_setConn hknown hc rfl fun _ => rfl
  | call calls j call tasks e c r hu _ hc hr =>
      exact known_setConn hknown hc rfl fun i => by simp [owners, hu, held]
  | tell calls k n msg ign bInvalid tasks j c r hu hk hd hc _ _ hr =>
      exact known_setConn hknown hc rfl fun i => by simp [owners, hu, held]
  | update maxMessages bWait hu =>
      exact fewer rfl fun i => by cases bWait <;> simp [owners, hu, held]
  | messageAllClients msg hu => exact fewer rfl fun i => by simp [owners, hu, held]
  | broadcast calls client msg ignore tasks hu =>
      exact fewer rfl fun i => by simp [owners, hu, held]
  | done calls task tasks hu htask =>
      refine fewer rfl fun i => ?_
      simp only [owners, hu, map_cons, count_cons]
      omega
  | pop calls left tasks m q hu hq =>
      exact fewer rfl fun i => (owners_pop hu hq calls i).le
  | skip calls k n msg ign bInvalid tasks j c hu hk hd hc hopen he =>
      exact fewer rfl fun i => by simp [owners, hu, held]
  | drop calls k n msg ign bInvalid tasks client hu hk hd hclosed =>
      refine fewer rfl fun i => ?_
      rw [owners_drop hu hd]
      exact Nat.le_add_right _ _
  | erase calls k n msg ign bInvalid tasks hu hk =>
      refine fewer rfl fun i => ?_
      cases bInvalid <;> simp [owners, hu, held, count_filter]

theorem ServerStep.stacked {s s' : Server T ι} {e o} (hs : ServerStep s e s' o)
    (hst : Stacked s.user) : Stacked s'.user := by
  cases hs with
  | accept => exact hst
  | conn => exact hst
  | update maxMessages bWait hu => cases bWait <;> trivial
  | messageAllClients => trivial
  | done _ _ _ hu _ => exact (hu ▸ hst).tail
  | call _ _ _ _ _ _ _ hu _ _ _ => exact (hu ▸ hst).tail
  | erase _ _ _ _ _ _ _ hu _ => exact (hu ▸ hst).tail
  | broadcast _ _ _ _ tasks hu =>
      have ht : Stacked tasks := (hu ▸ hst : Stacked (_ :: tasks)).tail
      exact ht
  | tell _ _ _ _ _ _ tasks _ _ _ hu =>
      have ht : Stacked tasks := (hu ▸ hst : Stacked (_ :: tasks)).tail
      exact ht
  | skip _ _ _ _ _ _ tasks _ _ hu =>
      have ht : Stacked tasks := (hu ▸ hst : Stacked (_ :: tasks)).tail
      exact ht
  | drop _ _ _ _ _ _ tasks _ hu =>
      have ht : Stacked tasks := (hu ▸ hst : Stacked (_ :: tasks)).tail
      exact ht
  | pop calls left tasks m q hu _ =>
      have ht : Stacked tasks := (hu ▸ hst : Stacked (_ :: tasks)).tail
      have hr : Stacked (.release m.remote :: .loop left :: tasks) := ht
      exact hr.calls mem_cons_self calls

/-- In the run that the events lead through, every connection with something pending has an owner
in every state, if and only if every step is safe. -/
theorem owned_iff (es : List (ServerEvent T ι)) :
    (machine T ι).Always (fun s _ => s.Owned) init [] es ↔
      (machine T ι).Along (fun s _ e => s.Safe e) init [] es :=
  Mealy.always_iff_along (I := fun s _ => OwnerInv s)
    (fun _ _ _ _ _ hi hn => ⟨(next_serverStep hn).known hi, (next_serverStep hn).stacked hi.stacked⟩)
    (fun _ _ _ _ _ hi hP hn => (next_serverStep hn).owned_iff_safe hi hP)
    es OwnerInv.init (fun i c hc => by cases hc)

/-- The peer of an approved connection goes away while the nonce is written; a broadcast then resets
the entry, and the handler of the write has not run. -/
def resetWhileWriting : List (ServerEvent UInt32 Unit) :=
  [.accept () 7 [] true, .conn () (.readFail 0 []), .messageAllClients ⟨⟨0, 0⟩, []⟩, .user []]

theorem not_owned : ¬ ∀ es : List (ServerEvent UInt32 Unit),
    (machine UInt32 Unit).Always (fun s _ => s.Owned) init [] es := by
  intro hall
  have hown := (hall resetWhileWriting).of_isSome _ (by decide +kernel)
  have hpos := hown () _ (Option.some_get (by decide +kernel)).symm (by decide +kernel)
  exact absurd hpos (by decide +kernel)

end Server

end AsioNetworking

import AsioNetworking.Interface.Registry

/-!
# The order of the hooks

The hooks are called by the accept handler, by the reader, by `update` and by the sends that find a
client closed. Only the last take a client out of `m_dqConnections`; what is queued for it, and a
read of it that has succeeded already, are left behind.
-/

namespace AsioNetworking

open List

variable {T ι : Type}

inductive Hook where
  | onClientConnection (approve : Bool)
  | onClientValidated
  | onMessage
  | onClientDisconnect
  deriving DecidableEq

/-- `OnClientValidated` called `v` times, and then `OnMessage` called `m` times. -/
def Hook.work (v m : Nat) : List Hook := replicate v .onClientValidated ++ replicate m .onMessage

/-- The hooks called for one client, in the order that its user may rely on. -/
inductive CallbackOrder : List Hook → Prop where
  | unknown : CallbackOrder []
  | known (approve work left) :
      work = [] ∨ (approve = true ∧ ∃ m, work = .onClientValidated :: replicate m .onMessage) →
      left = [] ∨ left = [.onClientDisconnect] →
      CallbackOrder (.onClientConnection approve :: work ++ left)

theorem CallbackOrder.last {l l' : List Hook} (hw : CallbackOrder (l ++ .onClientDisconnect :: l')) :
    l' = [] := by
  generalize he : l ++ .onClientDisconnect :: l' = w at hw
  cases hw with
  | unknown => simp at he
  | known approve work left hwork hleft =>
      have hnot : Hook.onClientDisconnect ∉ .onClientConnection approve :: work := by
        rcases hwork with rfl | ⟨-, m, rfl⟩
        · simp
        · simp [mem_replicate]
      rcases hleft with rfl | rfl
      · rw [append_nil] at he
        exact absurd (he ▸ mem_append_right l mem_cons_self) hnot
      · -- both lists end with the only `OnClientDisconnect`
        rcases eq_nil_or_concat l' with hnil | ⟨l'', x, rfl⟩
        · exact hnil
        · rw [concat_eq_append, ← cons_append, ← append_assoc] at he
          have hinit := append_inj_left' he rfl
          exact absurd (hinit ▸ mem_append_right l mem_cons_self) hnot

theorem Hook.work_append {v m v' m' : Nat} (h : v' = 0 ∨ v = 0 ∧ m = 0) :
    Hook.work v m ++ Hook.work v' m' = Hook.work (v + v') (m + m') := by
  rcases h with rfl | ⟨rfl, rfl⟩
  · simp [Hook.work, replicate_append_replicate]
  · simp [Hook.work]

theorem Hook.work_order {v m : Nat} {left : List Hook} (hv : v ≤ 1) (hm : v = 0 → m = 0)
    (hl : left = [] ∨ left = [.onClientDisconnect]) :
    CallbackOrder (.onClientConnection true :: Hook.work v m ++ left) := by
  refine .known true _ left ?_ hl
  rcases Nat.le_one_iff_eq_zero_or_eq_one.mp hv with rfl | rfl
  · exact Or.inl (by simp [Hook.work, hm rfl])
  · exact Or.inr ⟨rfl, m, rfl⟩

namespace Connection

variable [IdType T]

/-- The read validates the client, or it completes a message. -/
def finishes (kind : OpKind) (bs : List UInt8) (c : Connection T) : Bool :=
  match kind with
  | .validation => uint64OfBytes bs == c.nHandshakeCheck
  | .header => (MessageHeader.ofBytes (T := T) bs).size ≤ 8
  | .body => true

end Connection

namespace Server

def hooks [DecidableEq ι] (i : ι) (h : List (ServerEffect T ι)) : List Hook :=
  h.filterMap fun
    | .accepted j _ _ approve _ => if j = i then some (.onClientConnection approve) else none
    | .conn j .onClientValidated => if j = i then some .onClientValidated else none
    | .onMessage remote _ => if remote = some i then some .onMessage else none
    | .onClientDisconnect client => if client = some i then some .onClientDisconnect else none
    | _ => none

variable [DecidableEq ι]

/-! ## Hooks of a step -/

section

variable (i j : ι) (h o : List (ServerEffect T ι))

@[simp] theorem hooks_append : hooks i (h ++ o) = hooks i h ++ hooks i o := filterMap_append

end

variable [IdType T]

def closedNext (s : Server T ι) : Option ι :=
  match s.user with
  | .visit k n _ _ _ :: _ =>
      if k < n then
        (s.dqConnections[k]?).join.filter fun i => (s.conns i).any fun c => !c.socketOpen
      else none
  | _ => none

/-- A read that finishes something is that of a client which is still registered. -/
def TidyRead (s : Server T ι) (i : ι) : Connection.Event T → Prop
  | .readOk j bs => ∀ c ∈ s.conns i, ∀ op ∈ c.reads[j]?,
      Connection.finishes op.kind bs c = true → some i ∈ s.dqConnections
  | _ => True

/-- `MessageClient` is called with a connected client, and `MessageAllClients` finds a client closed
only when no message of it is queued and no read of it finishes anything afterwards. -/
def Tidy (s : Server T ι) (_ : List (ServerEffect T ι)) : InterfaceEvent T ι → Prop
  | .messageClient client _ => ∃ c ∈ client.bind s.conns, c.socketOpen = true
  | .server (.user _) => ∀ i ∈ closedNext s, s.queued i = []
  | .server (.conn i e) => s.TidyRead i e
  | _ => True

instance (s : Server T ι) (i : ι) : DecidablePred (TidyRead s i)
  | .readOk _ _ => inferInstanceAs (Decidable (∀ _ ∈ _, _))
  | .send _ | .disconnect | .runTask | .established | .onConnect _ | .readFail _ _ | .put _ _
  | .writeOk _ | .writeFail _ => .isTrue trivial

instance [DecidableEq T] (s : Server T ι) (h : List (ServerEffect T ι)) :
    DecidablePred (Tidy s h)
  | .messageClient _ _ => inferInstanceAs (Decidable (∃ _ ∈ _, _))
  | .server (.user _) => inferInstanceAs (Decidable (∀ _ ∈ _, _))
  | .server (.conn _ _) => inferInstanceAs (Decidable (TidyRead _ _ _))
  | .server (.accept _ _ _ _) | .server (.update _ _) | .server (.messageAllClients _)
  | .acceptError => .isTrue trivial

/-! ## What a step does for one client -/

/-- A step from `s` to `s'` that calls the hooks `a` for the client `i`: it accepts the client, it
reports it, or it calls `OnClientValidated` `v` times and `OnMessage` `m` times for it. -/
inductive HookStep (i : ι) (s s' : Server T ι) : List Hook → Nat → Nat → Prop where
  | accept (approve : Bool) : s.conns i = none → (s'.conns i).isSome = true →
      (some i ∈ s'.dqConnections ↔ some i ∈ s.dqConnections ∨ approve = true) →
      s'.queued i = s.queued i → HookStep i s s' [.onClientConnection approve] 0 0
  | report : some i ∈ s.dqConnections → some i ∉ s'.dqConnections →
      (s'.conns i).isSome = (s.conns i).isSome → s.queued i = [] → s'.queued i = [] →
      HookStep i s s' [.onClientDisconnect] 0 0
  | work (v m) : (s'.conns i).isSome = (s.conns i).isSome →
      (some i ∈ s'.dqConnections ↔ some i ∈ s.dqConnections) →
      (some i ∉ s.dqConnections → s.queued i = [] → v = 0 ∧ m = 0 ∧ s'.queued i = []) →
      HookStep i s s' (Hook.work v m) v m

theorem InterfaceStep.queued {s s' : Server T ι} {e o} (hs : InterfaceStep s e s' o)
    (hown : ∀ j c, s.conns j = some c → c.nOwnerType = .server) (i : ι) :
    onMessages i o ++ s'.queued i = s.queued i ++ pushes (hist i o) := by
  cases hs with
  | server hs => exact hs.queued hown i
  | acceptError => simp [onMessages, hist]
  | send j msg c r hc _ hr =>
      rw [onMessages_map_conn, nil_append]
      exact queued_setConn (hown j c hc) hr
  | disconnected => simp [Server.queued, onMessages, hist]

variable {s s' : Server T ι} {h : List (ServerEffect T ι)} {i : ι}

theorem InterfaceStep.nonNull {e o} (hs : InterfaceStep s e s' o) (ht : Tidy s h e)
    (hn : Nulls s) : .onClientDisconnect none ∉ o := by
  cases hs with
  | acceptError => simp
  | send => simp
  | disconnected client =>
      obtain ⟨c, hc, -⟩ := ht
      obtain ⟨i, rfl, -⟩ := Option.bind_eq_some_iff.mp hc
      simp
  | server hs =>
      cases hs with
      | accept => simp [Server.accept]
      | drop _ k _ _ _ _ _ client hu _ hd =>
          cases client with
          | none => exact absurd hd ((hn.visit hu).2.1 k le_rfl)
          | some j => simp
      | _ => simp

theorem Known.served (hk : Known Mealy.free i s h) :
    (∀ c, s.conns i = some c → c.nOwnerType = .server) ∧ validations (hist i h) ≤ 1 ∧
      (validations (hist i h) = 0 → pushes (hist i h) = []) := by
  rcases hk with ⟨hnone, hh, -⟩ | ⟨c, nonce, sends, approve, uid, hc, hacc⟩
  · rw [hnone, hh]
    exact ⟨by simp, by simp, by simp⟩
  · obtain ⟨hown, -⟩ := Connection.run_accepted hacc.run
    obtain ⟨hread, -⟩ := (Connection.Start.server nonce sends approve uid).run_readInv hacc.run
    refine ⟨fun c' hc' => ?_, ?_⟩
    · rw [hc] at hc'
      cases hc'
      exact hown
    · rcases hread.handshake with ⟨hp, hv, -⟩ | ⟨_, _, _, -, hpass, -⟩
      · exact ⟨by omega, fun _ => hp⟩
      · have := (hpass.server hown).1
        exact ⟨by omega, fun _ => by omega⟩

/-- Not accepted yet; registered; or denied or reported, with nothing queued. -/
inductive HookInv (i : ι) (s : Server T ι) (h : List (ServerEffect T ι)) : Prop where
  | absent : s.conns i = none → some i ∉ s.dqConnections → s.queued i = [] → hooks i h = [] →
      HookInv i s h
  | present : (s.conns i).isSome = true → some i ∈ s.dqConnections →
      hooks i h = .onClientConnection true ::
        Hook.work (validations (hist i h)) (onMessages i h).length → HookInv i s h
  | gone : (s.conns i).isSome = true → some i ∉ s.dqConnections → s.queued i = [] →
      CallbackOrder (hooks i h) → HookInv i s h

omit [IdType T] in
theorem HookInv.step {o} (hi : HookInv i s h)
    (hs : HookStep i s s' (hooks i o) (validations (hist i o)) (onMessages i o).length)
    (hzero : s.conns i = none → validations (hist i h) = 0 ∧ onMessages i h = [])
    (hone : validations (hist i (h ++ o)) ≤ 1)
    (hbefore : validations (hist i h) = 0 → onMessages i h = []) : HookInv i s' (h ++ o) := by
  generalize ha : hooks i o = a at hs
  generalize hv : validations (hist i o) = v at hs
  generalize hm : (onMessages i o).length = m at hs
  have hh : hooks i (h ++ o) = hooks i h ++ a := by rw [hooks_append, ha]
  have hvs : validations (hist i (h ++ o)) = validations (hist i h) + v := by
    rw [hist_append, validations_append, hv]
  have hms : (onMessages i (h ++ o)).length = (onMessages i h).length + m := by
    rw [onMessages_append, length_append, hm]
  cases hs with
  | accept approve hnone hsome hd hq =>
      cases hi with
      | absent _ hnd hqueue hhooks =>
          cases approve with
          | true =>
              obtain ⟨hv0, hm0⟩ := hzero hnone
              refine .present hsome (hd.mpr (Or.inr rfl)) ?_
              rw [hh, hvs, hms, hv0, hm0, hhooks]
              rfl
          | false =>
              refine .gone hsome (fun h => ?_) (hq.trans hqueue) ?_
              · exact hnd ((hd.mp h).resolve_right (by simp))
              · rw [hh, hhooks]
                exact .known false [] [] (Or.inl rfl) (Or.inl rfl)
      | present hs => rw [hnone] at hs; cases hs
      | gone hs => rw [hnone] at hs; cases hs
  | report hd hnd hsome _ hq =>
      cases hi with
      | absent _ h => exact absurd hd h
      | present hs _ hhooks =>
          refine .gone (hsome.trans hs) hnd hq ?_
          rw [hh, hhooks]
          exact Hook.work_order (by omega) (fun h0 => by rw [hbefore h0]; rfl) (Or.inr rfl)
      | gone _ h => exact absurd hd h
  | work v m hsome hd hquiet =>
      cases hi with
      | absent hnone hnd hqueue hhooks =>
          obtain ⟨rfl, rfl, hq⟩ := hquiet hnd hqueue
          refine .absent ?_ (fun h => hnd (hd.mp h)) hq (by rw [hh, hhooks]; rfl)
          rw [hnone] at hsome
          simpa using hsome
      | present hs hmem hhooks =>
          refine .present (hsome.trans hs) (hd.mpr hmem) ?_
          rw [hh, hvs, hms, hhooks, cons_append, Hook.work_append]
          by_cases hv0 : validations (hist i h) = 0
          · exact Or.inr ⟨hv0, by rw [hbefore hv0]; rfl⟩
          · exact Or.inl (by omega)
      | gone hs hnd hqueue hhooks =>
          obtain ⟨rfl, rfl, hq⟩ := hquiet hnd hqueue
          refine .gone (hsome.trans hs) (fun h => hnd (hd.mp h)) hq ?_
          rw [hh]
          simpa [Hook.work] using hhooks

/-! ## Runs -/

/-- A client is validated and sends a message without a body. -/
def talked : List (InterfaceEvent UInt32 Unit) :=
  [.server (.accept () 7 [] true), .server (.conn () (.readOk 0 (uint64Bytes (scramble 7)))),
    .server (.conn () (.readOk 0 [1, 0, 0, 0, 8, 0, 0, 0]))]

/-- Its message is processed, it leaves, and a broadcast finds it closed. -/
def left : Server UInt32 Unit × List (ServerEffect UInt32 Unit) :=
  ((interface UInt32 Unit).exec Tidy init [] (talked ++ [.server (.update 1 false),
    .server (.user []), .server (.user []), .server (.user []),
    .server (.conn () (.readFail 0 [])), .server (.messageAllClients ⟨⟨0, 8⟩, []⟩),
    .server (.user []), .server (.user [])])).get (by decide +kernel)

/-- It leaves, a broadcast finds it closed, and then its message is processed. -/
def late : Server UInt32 Unit × List (ServerEffect UInt32 Unit) :=
  ((interface UInt32 Unit).exec Mealy.free init [] (talked ++ [
    .server (.conn () (.readFail 0 [])), .server (.messageAllClients ⟨⟨0, 8⟩, []⟩),
    .server (.user []), .server (.user []), .server (.update 1 false),
    .server (.user [])])).get (by decide +kernel)

end Server

end AsioNetworking

import AsioNetworking.ClientInterface

/-!
# `Disconnect` of the client

`Disconnect` posts the close and stops the context right after it. The close runs only if the context
thread gets to it in between: behind all the `Send` tasks that are posted before it.
-/

namespace AsioNetworking

open List

variable {T : Type} [IdType T]

/-! ## What handlers do to the socket -/

namespace Connection

variable {c c' : Connection T}

def fails : Event T → Bool
  | .onConnect ok => !ok
  | .readFail _ _ | .writeFail _ => true
  | _ => false

def Keeps (c : Connection T) (r : Result T) : Prop :=
  r.1.posted = c.posted ∧ r.1.socketOpen = c.socketOpen

theorem keeps_writeHeader (c : Connection T) : Keeps c c.writeHeader := by
  unfold writeHeader
  split <;> exact ⟨rfl, rfl⟩

theorem keeps_popFront (c : Connection T) : Keeps c c.popFront := by
  unfold popFront
  split
  · exact ⟨rfl, rfl⟩
  · simp only
    split
    · exact ⟨rfl, rfl⟩
    · exact keeps_writeHeader { c with qMessagesOut := _ }

theorem keeps_onWrite (kind : OpKind) (c : Connection T) : Keeps c (onWrite kind c) := by
  cases kind with
  | validation =>
      simp only [onWrite, onWriteValidation]
      split <;> exact ⟨rfl, rfl⟩
  | body => exact keeps_popFront c
  | header =>
      simp only [onWrite, onWriteHeader]
      split
      · exact ⟨rfl, rfl⟩
      · split
        · unfold writeBody
          split <;> exact ⟨rfl, rfl⟩
        · exact keeps_popFront c

theorem keeps_onRead (kind : OpKind) (bs : List UInt8) (ho : c.nOwnerType = .client) :
    Keeps c (onRead kind bs c) := by
  cases kind with
  | validation =>
      simp only [onRead, onReadValidation, ho]
      exact ⟨rfl, rfl⟩
  | header =>
      simp only [onRead, onReadHeader]
      split <;> exact ⟨rfl, rfl⟩
  | body => exact ⟨rfl, rfl⟩

theorem keeps_sendTask (msg : Message T) (c : Connection T) : Keeps c (sendTask msg c) := by
  simp only [sendTask]
  split
  · exact keeps_writeHeader { c with qMessagesOut := _ }
  · exact ⟨rfl, rfl⟩

/-- A task is taken from the front; the socket is closed by a task that closes it or by an error. -/
inductive SocketStep (c c' : Connection T) : Event T → Prop where
  | task (task) : c.posted = task :: c'.posted →
      (c'.socketOpen = false ↔ c.socketOpen = false ∨ task = .close) → SocketStep c c' .runTask
  | other {e} : e ≠ .runTask → c'.posted = c.posted →
      (c'.socketOpen = false ↔ c.socketOpen = false ∨ fails e = true) → SocketStep c c' e

omit [IdType T] in
theorem Keeps.socketStep {c₁ : Connection T} {r : Result T} {e} (hk : Keeps c₁ r)
    (hp : c₁.posted = c.posted) (ho : c₁.socketOpen = c.socketOpen) (he : e ≠ .runTask)
    (hf : fails e = false) : SocketStep c r.1 e :=
  .other he (hk.1.trans hp) (by rw [hk.2, ho, hf]; simp)

theorem Step.socket {e o} (hs : Step c e c' o) (ho : c.nOwnerType = .client)
    (he : isHandler e = true ∨ ClientInterface.isSystem e = true) : SocketStep c c' e := by
  cases hs with
  | send => simp [isHandler, ClientInterface.isSystem] at he
  | disconnect => simp [isHandler, ClientInterface.isSystem] at he
  | disconnectClosed => simp [isHandler, ClientInterface.isSystem] at he
  | runTask task tasks hp =>
      cases task with
      | send msg =>
          have hk := keeps_sendTask msg { c with posted := tasks }
          refine .task (.send msg) ?_ ?_
          · rw [hp]
            exact congrArg _ hk.1.symm
          · show (sendTask msg _).1.socketOpen = false ↔ _
            rw [hk.2]
            simp
      | close => exact .task .close hp (by simp [Connection.runTask, close])
  | established => exact .other (by simp) rfl (by simp [fails])
  | connected => exact .other (by simp) rfl (by simp [fails, readValidation, startRead])
  | connectFailed => exact .other (by simp) rfl (by simp [fails, close])
  | @readOk op l₁ l₂ bs =>
      exact (keeps_onRead op.kind bs (c := { c with reads := l₁ ++ l₂ }) ho).socketStep rfl rfl
        (by simp) rfl
  | readFail => exact .other (by simp) rfl (by simp [fails, close])
  | put => exact .other (by simp) rfl (by simp [fails])
  | @writeOk op l₁ l₂ =>
      exact (keeps_onWrite op.kind { c with writes := l₁ ++ l₂ }).socketStep rfl rfl (by simp) rfl
  | writeFail => exact .other (by simp) rfl (by simp [fails, close])

end Connection

namespace ClientInterface

/-! ## Reachable clients -/

/-- What holds in every state: the connection is that of a client, and its close is posted only by the
`Disconnect` that gives it away. -/
structure Inv (c : ClientInterface T) : Prop where
  handler : ∀ e ∈ c.handler, Connection.isHandler e = true
  owner : ∀ conn ∈ c.pConnection, conn.nOwnerType = .client
  noClose : ∀ conn ∈ c.pConnection,
    c.place = .outside ∨ c.place = .isConnected ∨ c.place = .disconnect → .close ∉ conn.posted

variable {c c' : ClientInterface T} {h : List (ClientEffect T)}

theorem socketStep {e conn r} (hi : Inv c) (hc : c.pConnection = some conn)
    (he : Connection.isHandler e = true ∨ isSystem e = true) (hn : conn.next e = some r) :
    r.1.nOwnerType = .client ∧ Connection.SocketStep conn r.1 e := by
  have ho := hi.owner conn hc
  exact ⟨(Connection.next_readStep (o := r.2) hn).owner.trans ho,
    (Connection.next_step (o := r.2) hn).socket ho he⟩

omit [IdType T] in
theorem Inv.init : Inv (init : ClientInterface T) :=
  ⟨by simp [ClientInterface.init], by simp [ClientInterface.init], by simp [ClientInterface.init]⟩

theorem Inv.onConnection {e conn r} {handler : Option (Connection.Event T)} (hi : Inv c)
    (hc : c.pConnection = some conn) (he : Connection.isHandler e = true ∨ isSystem e = true)
    (hn : conn.next e = some r) (hh : ∀ e ∈ handler, Connection.isHandler e = true) :
    Inv { c with pConnection := some r.1, handler } := by
  obtain ⟨ho, hs⟩ := socketStep hi hc he hn
  refine ⟨hh, fun conn' hm => by cases hm; exact ho, fun conn' hm hp => ?_⟩
  cases hm
  have hno := hi.noClose conn hc hp
  cases hs with
  | task task htask _ => exact fun hm => hno (htask ▸ mem_cons_of_mem _ hm)
  | other _ hposted _ => exact hposted ▸ hno

theorem Inv.step {e o} (hi : Inv c) (hs : ClientStep c e c' o) : Inv c' := by
  have hnew : ∀ conn ∈ some (Connection.connected (T := T)), conn.nOwnerType = .client ∧
      .close ∉ conn.posted := by
    rintro conn ⟨⟩
    exact ⟨rfl, by simp [Connection.connected, Connection.construct, Connection.connectToServer]⟩
  cases hs with
  | connect attempt =>
      cases attempt with
      | unresolved => exact hi
      | noThread =>
          exact ⟨hi.handler, fun conn hm => (hnew conn hm).1, fun conn hm _ => (hnew conn hm).2⟩
      | started =>
          exact ⟨hi.handler, fun conn hm => (hnew conn hm).1, fun conn hm _ => (hnew conn hm).2⟩
  | send msg hp =>
      simp only [send]
      split
      · exact hi
      · rename_i conn hc
        split
        · refine ⟨hi.handler, fun conn' hm => ?_, fun conn' hm _ => ?_⟩
          · cases hm
            exact hi.owner conn hc
          · cases hm
            simpa [Connection.send] using hi.noClose conn hc (Or.inl hp)
        · exact hi
  | disconnect hp => exact ⟨hi.handler, hi.owner, fun conn hc _ => hi.noClose conn hc (Or.inl hp)⟩
  | isConnected hp =>
      exact ⟨hi.handler, hi.owner, fun conn hc _ => hi.noClose conn hc (Or.inr (Or.inl hp))⟩
  | post conn _ hc =>
      refine ⟨hi.handler, fun conn' hm => ?_, fun _ _ hp => by simp at hp⟩
      cases hm
      unfold Connection.disconnect
      split <;> exact hi.owner conn hc
  | stop => exact ⟨hi.handler, hi.owner, fun _ _ hp => by simp at hp⟩
  | join => exact ⟨hi.handler, hi.owner, fun _ _ hp => by simp at hp⟩
  | release => exact ⟨hi.handler, by simp, by simp⟩
  | take e he => exact ⟨fun e' hm => by cases hm; exact he, hi.owner, hi.noClose⟩
  | finish e conn r hh hc hn => exact hi.onConnection hc (Or.inl (hi.handler e hh)) hn (by simp)
  | system e conn r he hc hn => exact hi.onConnection hc (Or.inr he) hn hi.handler
  | quit => exact ⟨hi.handler, hi.owner, hi.noClose⟩

/-! ## A call of `Disconnect` -/

def isTask : Connection.Event T → Bool
  | .runTask => true
  | _ => false

def ranTask : ClientEffect T → Bool
  | .ran e => isTask e
  | _ => false

/-- A handler has closed the socket after an error. -/
def ranFailure : ClientEffect T → Bool
  | .ran e => Connection.fails e
  | _ => false

def tasksRun (h : List (ClientEffect T)) : Nat := h.countP ranTask

def failed (h : List (ClientEffect T)) : Bool := h.any ranFailure

/-- Where a call of `Disconnect` is that found `n` tasks posted. -/
inductive Leaving (n : Nat) (c : ClientInterface T) (h : List (ClientEffect T)) : Prop where
  /-- The close is not posted yet. -/
  | posting (conn) : c.pConnection = some conn → c.place = .isConnected ∨ c.place = .disconnect →
      conn.posted.length + tasksRun h = n → (conn.socketOpen = false ↔ failed h = true) →
      Leaving n c h
  /-- The socket was found closed. -/
  | closed (conn) : c.pConnection = some conn →
      c.place = .stop ∨ c.place = .join ∨ c.place = .release → failed h = true →
      conn.socketOpen = false → Leaving n c h
  /-- The close is behind the other tasks. -/
  | posted (conn tasks) : c.pConnection = some conn →
      c.place = .stop ∨ c.place = .join ∨ c.place = .release → conn.posted = tasks ++ [.close] →
      .close ∉ tasks → tasks.length + tasksRun h = n →
      (conn.socketOpen = false ↔ failed h = true) → Leaving n c h
  /-- The close has run. -/
  | done (conn) : c.pConnection = some conn →
      c.place = .stop ∨ c.place = .join ∨ c.place = .release → n < tasksRun h →
      conn.socketOpen = false → Leaving n c h
  | returned (conn) : c.released.head? = some conn → c.place = .outside →
      (conn.socketOpen = false ↔ n < tasksRun h ∨ failed h = true) → Leaving n c h

section

omit [IdType T]

@[simp] theorem tasksRun_nil : tasksRun ([] : List (ClientEffect T)) = 0 := rfl

@[simp] theorem failed_nil : failed ([] : List (ClientEffect T)) = false := rfl

theorem tasksRun_conn (o : List (Effect T)) : tasksRun (h ++ o.map .conn) = tasksRun h := by
  have ho : (o.map ClientEffect.conn).countP ranTask = 0 := countP_eq_zero.mpr (by simp [ranTask])
  rw [tasksRun, countP_append, ho]
  rfl

theorem failed_conn (o : List (Effect T)) : failed (h ++ o.map .conn) = failed h := by
  have ho : (o.map ClientEffect.conn).any ranFailure = false := by simp [ranFailure]
  rw [failed, any_append, ho, Bool.or_false]
  rfl

theorem tasksRun_ran (e : Connection.Event T) (o : List (Effect T)) :
    tasksRun (h ++ .ran e :: o.map .conn) = tasksRun h + (isTask e).toNat := by
  have hr : tasksRun [ClientEffect.ran e] = (isTask e).toNat := by
    cases he : isTask e <;> simp [tasksRun, ranTask, he]
  rw [append_cons, tasksRun_conn, tasksRun, countP_append]
  exact congrArg _ hr

theorem failed_ran (e : Connection.Event T) (o : List (Effect T)) :
    failed (h ++ .ran e :: o.map .conn) = (failed h || Connection.fails e) := by
  rw [append_cons, failed_conn, failed, any_append]
  simp [failed, ranFailure]

end

variable {n : Nat}

omit [IdType T] in
/-- A handler has run, or the system has done its part. -/
theorem Leaving.socket {e conn r h'} {handler : Option (Connection.Event T)} (hl : Leaving n c h)
    (hi : Inv c) (hp : c.place ≠ .outside) (hc : c.pConnection = some conn)
    (hs : Connection.SocketStep conn r e) (ht : tasksRun h' = tasksRun h + (isTask e).toNat)
    (hf : failed h' = (failed h || Connection.fails e)) :
    Leaving n { c with pConnection := some r, handler } h' := by
  cases hl with
  | posting conn' hc' hplace hlen hopen =>
      rw [hc] at hc'
      cases hc'
      refine .posting r rfl hplace ?_ ?_
      · cases hs with
        | task task htask _ =>
            rw [ht, ← hlen, htask]
            simp [isTask]
            omega
        | other hne hposted _ =>
            have : isTask e = false := by cases e <;> first | rfl | exact absurd rfl hne
            rw [ht, ← hlen, hposted, this]
            rfl
      · cases hs with
        | task task htask hiff =>
            have hno := hi.noClose conn hc (Or.inr hplace)
            have hne : task ≠ .close := fun he => hno (by rw [htask, he]; exact mem_cons_self)
            rw [hiff, hopen, hf]
            simp [hne, Connection.fails]
        | other _ _ hiff =>
            rw [hiff, hopen, hf, Bool.or_eq_true]
  | closed conn' hc' hplace hfail hcl =>
      rw [hc] at hc'
      cases hc'
      refine .closed r rfl hplace (by rw [hf, hfail]; rfl) ?_
      cases hs with
      | task _ _ hiff => exact hiff.mpr (Or.inl hcl)
      | other _ _ hiff => exact hiff.mpr (Or.inl hcl)
  | posted conn' tasks hc' hplace hposted hno hlen hopen =>
      rw [hc] at hc'
      cases hc'
      cases hs with
      | task task htask hiff =>
          cases tasks with
          | nil =>
              -- the close itself
              obtain ⟨rfl, -⟩ := cons.inj (htask.symm.trans hposted)
              refine .done r rfl hplace ?_ (hiff.mpr (Or.inr rfl))
              rw [ht, ← hlen]
              simp [isTask]
          | cons task' tasks =>
              obtain ⟨rfl, hrest⟩ := cons.inj (htask.symm.trans hposted)
              have hne : task ≠ .close := fun he => hno (he ▸ mem_cons_self)
              refine .posted r tasks rfl hplace hrest (fun hm => hno (mem_cons_of_mem _ hm)) ?_ ?_
              · rw [ht, ← hlen]
                simp [isTask]
                omega
              · rw [hiff, hopen, hf]
                simp [hne, Connection.fails]
      | other hne hposted' hiff =>
          have : isTask e = false := by cases e <;> first | rfl | exact absurd rfl hne
          refine .posted r tasks rfl hplace (hposted'.trans hposted) hno ?_ ?_
          · rw [ht, ← hlen, this]
            rfl
          · rw [hiff, hopen, hf, Bool.or_eq_true]
  | done conn' hc' hplace hlt hcl =>
      rw [hc] at hc'
      cases hc'
      refine .done r rfl hplace (by rw [ht]; omega) ?_
      cases hs with
      | task _ _ hiff => exact hiff.mpr (Or.inl hcl)
      | other _ _ hiff => exact hiff.mpr (Or.inl hcl)
  | returned _ _ hplace => exact absurd hplace hp

omit [IdType T] in
theorem Leaving.congr (hl : Leaving n c h) (hp : c.place ≠ .outside)
    (hc : c'.pConnection = c.pConnection) (hplace : c'.place = c.place) : Leaving n c' (h ++ []) := by
  rw [append_nil]
  cases hl with
  | posting conn h1 h2 h3 h4 => exact .posting conn (hc.trans h1) (hplace ▸ h2) h3 h4
  | closed conn h1 h2 h3 h4 => exact .closed conn (hc.trans h1) (hplace ▸ h2) h3 h4
  | posted conn tasks h1 h2 h3 h4 h5 h6 =>
      exact .posted conn tasks (hc.trans h1) (hplace ▸ h2) h3 h4 h5 h6
  | done conn h1 h2 h3 h4 => exact .done conn (hc.trans h1) (hplace ▸ h2) h3 h4
  | returned _ _ hout => exact absurd hout hp

omit [IdType T] in
theorem Leaving.goOn (hl : Leaving n c h) (hp : c.place = .stop ∨ c.place = .join)
    (hc : c'.pConnection = c.pConnection) (hp' : c'.place = .join ∨ c'.place = .release) :
    Leaving n c' (h ++ []) := by
  rw [append_nil]
  cases hl with
  | posting _ _ h2 => rcases hp with hp | hp <;> simp [hp] at h2
  | closed conn h1 _ h3 h4 => exact .closed conn (hc.trans h1) (Or.inr hp') h3 h4
  | posted conn tasks h1 _ h3 h4 h5 h6 =>
      exact .posted conn tasks (hc.trans h1) (Or.inr hp') h3 h4 h5 h6
  | done conn h1 _ h3 h4 => exact .done conn (hc.trans h1) (Or.inr hp') h3 h4
  | returned _ _ hout => rcases hp with hp | hp <;> simp [hp] at hout

theorem Leaving.step {e o} (hl : Leaving n c h) (hi : Inv c) (hp : c.place ≠ .outside)
    (hs : ClientStep c e c' o) : Leaving n c' (h ++ o) := by
  cases hs with
  | connect _ hout => exact absurd hout hp
  | send _ hout => exact absurd hout hp
  | disconnect hout => exact absurd hout hp
  | isConnected hplace =>
      rw [append_nil]
      cases hl with
      | posting conn h1 h2 h3 h4 =>
          cases hopen : conn.socketOpen with
          | true => exact .posting conn h1 (Or.inr (by simp [isConnected, h1, hopen])) h3 h4
          | false =>
              exact .closed conn h1 (Or.inl (by simp [isConnected, h1, hopen]))
                (h4.mp hopen) hopen
      | closed _ _ h2 => simp [hplace] at h2
      | posted _ _ _ h2 => simp [hplace] at h2
      | done _ _ h2 => simp [hplace] at h2
      | returned _ _ hout => exact absurd hout hp
  | post conn hplace hc =>
      rw [append_nil]
      cases hl with
      | posting conn' h1 h2 h3 h4 =>
          rw [hc] at h1
          cases h1
          have hno := hi.noClose conn hc (Or.inr h2)
          cases hopen : conn.socketOpen with
          | true =>
              refine .posted conn.disconnect.1 conn.posted rfl (Or.inl rfl) ?_ hno h3 ?_
              · simp [Connection.disconnect, hopen]
              · simpa [Connection.disconnect, hopen] using h4
          | false =>
              refine .closed conn.disconnect.1 rfl (Or.inl rfl) (h4.mp hopen) ?_
              simp [Connection.disconnect, hopen]
      | closed _ _ h2 => simp [hplace] at h2
      | posted _ _ _ h2 => simp [hplace] at h2
      | done _ _ h2 => simp [hplace] at h2
      | returned _ _ hout => exact absurd hout hp
  | stop hplace => exact hl.goOn (Or.inl hplace) rfl (Or.inl rfl)
  | join _ hplace _ => exact hl.goOn (Or.inr hplace) rfl (Or.inr rfl)
  | release hplace =>
      have hh : tasksRun (h ++ [.returned]) = tasksRun h ∧ failed (h ++ [.returned]) = failed h := by
        simp [tasksRun, failed, ranTask, ranFailure]
      cases hl with
      | posting _ _ h2 => simp [hplace] at h2
      | closed conn h1 _ h3 h4 =>
          refine .returned conn (by simp [h1]) rfl ?_
          rw [hh.1, hh.2]
          simp [h3, h4]
      | posted conn tasks h1 _ h3 h4 h5 h6 =>
          refine .returned conn (by simp [h1]) rfl ?_
          rw [hh.1, hh.2, h6]
          have : ¬ n < tasksRun h := by omega
          simp [this]
      | done conn h1 _ h3 h4 =>
          refine .returned conn (by simp [h1]) rfl ?_
          rw [hh.1]
          simp [h3, h4]
      | returned _ _ hout => exact absurd hout hp
  | take => exact hl.congr hp rfl rfl
  | quit => exact hl.congr hp rfl rfl
  | finish e conn r hh hc hn =>
      exact hl.socket hi hp hc (socketStep hi hc (Or.inl (hi.handler e hh)) hn).2
        (tasksRun_ran e r.2) (failed_ran e r.2)
  | system e conn r he hc hn =>
      have ht : isTask e = false := by cases e <;> first | rfl | cases he
      have hf : Connection.fails e = false := by cases e <;> first | rfl | cases he
      refine hl.socket hi hp hc (socketStep hi hc (Or.inr he) hn).2 ?_ ?_
      · rw [tasksRun_conn, ht]
        rfl
      · rw [failed_conn, hf, Bool.or_false]

/-! ## Runs -/

theorem run_inv {G : ClientInterface T → List (ClientEffect T) → ClientEvent T → Prop}
    (hr : (machine T).Run G init [] c h) : Inv c :=
  hr.invariant (P := fun c _ => Inv c) .init fun _ _ _ _ _ hi _ hn => hi.step (next_clientStep hn)

def inDisconnect (c : ClientInterface T) (_ : List (ClientEffect T)) (_ : ClientEvent T) : Prop :=
  c.place ≠ .outside

instance (c : ClientInterface T) (h : List (ClientEffect T)) (e : ClientEvent T) :
    Decidable (inDisconnect c h e) := inferInstanceAs (Decidable (_ ≠ _))

/-- From every reachable client with an open connection and for every order of the steps of
`Disconnect` and the handlers of the context thread: when `Disconnect` has returned, the socket is
closed if and only if the thread got through more tasks than were posted before, or ran a handler
with an error. -/
theorem disconnect_closes_iff {c₀ c₁ : ClientInterface T} {h₀ o} {conn₀ : Connection T}
    (hr₀ : (machine T).Run Mealy.free init [] c₀ h₀) (hc₀ : c₀.pConnection = some conn₀)
    (hopen : conn₀.socketOpen = true) (hcall : c₀.next .disconnect = some (c₁, o))
    (hr : (machine T).Run inDisconnect c₁ [] c h) (hret : c.place = .outside) :
    ∃ conn, c.released.head? = some conn ∧
      (conn.socketOpen = false ↔ conn₀.posted.length < tasksRun h ∨ failed h = true) := by
  have hi₀ := run_inv hr₀
  have hstep := next_clientStep hcall
  have hi₁ := hi₀.step hstep
  have hleaving : Inv c ∧ Leaving conn₀.posted.length c h := by
    refine hr.invariant (P := fun c h => Inv c ∧ Leaving conn₀.posted.length c h) ?_ ?_
    · refine ⟨hi₁, ?_⟩
      cases hstep
      exact .posting conn₀ hc₀ (Or.inl rfl) rfl (by simp [hopen])
    · rintro c h e c' o ⟨hi, hl⟩ hp hn
      have hs := next_clientStep hn
      exact ⟨hi.step hs, hl.step hi hp hs⟩
  cases hleaving.2 with
  | posting _ _ hp => simp [hret] at hp
  | closed _ _ hp => simp [hret] at hp
  | posted _ _ _ hp => simp [hret] at hp
  | done _ _ hp => simp [hret] at hp
  | returned conn hconn _ hiff => exact ⟨conn, hconn, hiff⟩

/-- A client that has just connected, with a message posted. -/
def connecting : ClientInterface UInt32 × List (ClientEffect UInt32) :=
  ((machine UInt32).exec Mealy.free init [] [.connect .started, .system .established,
    .take (.onConnect true), .finish, .send ⟨⟨0, 8⟩, []⟩]).get (by decide +kernel)

def itsConnection : Connection UInt32 := connecting.1.pConnection.get (by decide +kernel)

theorem itsConnection_eq : connecting.1.pConnection = some itsConnection :=
  (Option.some_get (by decide +kernel)).symm

def called : ClientInterface UInt32 × List (ClientEffect UInt32) :=
  (connecting.1.next .disconnect).get (by decide +kernel)

theorem called_eq : connecting.1.next .disconnect = some called :=
  (Option.some_get (by decide +kernel)).symm

/-- The context thread runs both tasks before the stop. -/
def patient : ClientInterface UInt32 × List (ClientEffect UInt32) :=
  ((machine UInt32).exec inDisconnect called.1 [] [.goOn, .goOn, .take .runTask, .finish,
    .take .runTask, .goOn, .finish, .quit, .goOn, .goOn]).get (by decide +kernel)

theorem disconnect_closes_iff_patient :
    ∃ conn, patient.1.released.head? = some conn ∧ conn.socketOpen = false := by
  obtain ⟨conn, hconn, hiff⟩ := disconnect_closes_iff (.of_isSome _ _ : (machine UInt32).Run
    Mealy.free init [] connecting.1 connecting.2) itsConnection_eq (by decide +kernel) called_eq
    (.of_isSome _ _ : (machine UInt32).Run inDisconnect called.1 [] patient.1 patient.2)
    (by decide +kernel)
  exact ⟨conn, hconn, hiff.mpr (Or.inl (by decide +kernel))⟩

/-- The context is stopped before the thread gets to the close. -/
def hasty : ClientInterface UInt32 × List (ClientEffect UInt32) :=
  ((machine UInt32).exec inDisconnect called.1 [] [.goOn, .goOn, .goOn, .quit, .goOn,
    .goOn]).get (by decide +kernel)

theorem not_disconnect_closes : ¬ ∀ (c₀ c₁ c : ClientInterface UInt32)
    (h₀ h o : List (ClientEffect UInt32)) (conn₀ : Connection UInt32),
      (machine UInt32).Run Mealy.free init [] c₀ h₀ →
      c₀.pConnection = some conn₀ → conn₀.socketOpen = true →
      c₀.next .disconnect = some (c₁, o) → (machine UInt32).Run inDisconnect c₁ [] c h →
      c.place = .outside → ∃ conn, c.released.head? = some conn ∧ conn.socketOpen = false := by
  intro hall
  obtain ⟨conn, hconn, hcl⟩ := hall connecting.1 called.1 hasty.1 connecting.2 hasty.2 called.2
    itsConnection (.of_isSome _ _) itsConnection_eq (by decide +kernel) called_eq (.of_isSome _ _)
    (by decide +kernel)
  have hopen : (hasty.1.released.head?.map fun conn => conn.socketOpen) = some true := by
    decide +kernel
  rw [hconn, Option.map_some, hcl] at hopen
  cases hopen

end ClientInterface

end AsioNetworking

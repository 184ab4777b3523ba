import AsioNetworking.Connection.Reading

/-!
# Runs of a connection

Both roles start with the invariants of the message chain and of the reader, so every run of a
connection keeps them.
-/

namespace AsioNetworking

open List Framing

variable {T : Type} [IdType T]

namespace Connection

/-! ## The accept handler -/

omit [IdType T] in
theorem sendAll_eq (msgs : List (Message T)) (c : Connection T) :
    sendAll msgs c =
      ({ c with posted := c.posted ++ msgs.map .send }, msgs.map .send) := by
  induction msgs generalizing c with
  | nil => simp [sendAll]
  | cons msg msgs ih => simp [sendAll, Result.andThen, send, ih]

/-- An approved connection has posted the messages of `OnClientConnection`, and both directions of
the handshake are under way. -/
theorem accepted_approved (nonce : UInt64) (msgs : List (Message T)) (uid : UInt32) :
    accepted nonce msgs true uid =
      ({ construct .server true true nonce with
          id := uid
          posted := msgs.map .send
          reads := [⟨.validation, 8, true⟩]
          writes := [⟨.validation, uint64Bytes nonce, true⟩] },
        msgs.map .send ++
          [.startWrite .validation (uint64Bytes nonce), .startRead .validation 8]) := by
  simp [accepted, sendAll_eq, Result.andThen, construct, connectToClient]

theorem accepted_denied (nonce : UInt64) (msgs : List (Message T)) (uid : UInt32) :
    accepted nonce msgs false uid =
      ({ construct .server false true nonce with posted := msgs.map .send }, msgs.map .send) := by
  simp [accepted, sendAll_eq, Result.andThen, construct, close]

section Calls

variable (msgs : List (Message T))

omit [IdType T]

@[simp] theorem sends_map_send : sends (msgs.map .send) = msgs := by
  induction msgs with
  | nil => rfl
  | cons msg msgs ih => simp [ih]

@[simp] theorem runs_map_send : runs (msgs.map .send) = [] := by
  induction msgs with
  | nil => rfl
  | cons msg msgs ih => simp [ih]

@[simp] theorem putBytes_map_send : putBytes (msgs.map .send) = [] := by
  induction msgs with
  | nil => rfl
  | cons msg msgs ih => simp [ih]

@[simp] theorem pops_map_send : pops (msgs.map .send) = [] := by
  induction msgs with
  | nil => rfl
  | cons msg msgs ih => simp [ih]

@[simp] theorem chain_map_send :
    chainBytes (msgs.map .send) = [] ∧ chainStarted (msgs.map .send) = [] ∧
      chainFailed (msgs.map .send) = false := by
  induction msgs with
  | nil => simp
  | cons msg msgs ih => simpa using ih

theorem sameHeard_map_send :
    tookBytes (msgs.map .send) = [] ∧ SameHeard [] (msgs.map .send) ∧
      readEnded (msgs.map .send) = false := by
  simpa using SameHeard.of_offReader (h := []) (o := msgs.map .send) (by simp [Effect.onReader])

@[simp] theorem pendingSends_map_send (c : Connection T) :
    pendingSends { c with posted := msgs.map .send } = msgs := by
  simp only [pendingSends, filterMap_map]
  exact filterMap_some ..

end Calls

/-- The accept handler passes no message on and moves no bytes. -/
theorem accepted_silent (nonce : UInt64) (msgs : List (Message T)) (approve : Bool) (uid : UInt32) :
    pushes (accepted nonce msgs approve uid).2 = [] ∧
      tookBytes (accepted nonce msgs approve uid).2 = [] ∧
        putBytes (accepted nonce msgs approve uid).2 = [] := by
  obtain ⟨ht, hp, -⟩ := sameHeard_map_send msgs
  have hp : pushes (msgs.map .send) = [] := hp.pushes
  cases approve with
  | true => simp [accepted_approved, hp, ht]
  | false => simp [accepted_denied, hp, ht]

@[simp] theorem sends_accepted (nonce : UInt64) (msgs : List (Message T)) (approve : Bool)
    (uid : UInt32) : sends (accepted nonce msgs approve uid).2 = msgs := by
  cases approve with
  | true => simp [accepted_approved]
  | false => simp [accepted_denied]

/-! ## The invariants at the start -/

theorem Start.chainInv {c : Connection T} {h} (hs : Start c h) : ChainInv c h := by
  cases hs with
  | client =>
      exact ⟨rfl, rfl, by simp, by simp, [], [], .idle, rfl, rfl⟩
  | server nonce msgs approve uid =>
      have hq : Past Quiet (msgs.map Effect.send) := Past.of_forall fun x hx p => by
        obtain ⟨msg, _, rfl⟩ := mem_map.mp hx
        simp [Quiet, Effect.startsChain]
      cases approve with
      | true =>
          rw [accepted_approved]
          refine ⟨by simp [pendingSends], by simp [construct], by simp, ?_, [], [], ?_, by simp,
            by simp⟩
          · exact past_append.mpr ⟨hq, by simp [past_cons, Quiet, Effect.startsChain]⟩
          · simpa [chainWrites, construct] using Chain.idle
      | false =>
          rw [accepted_denied]
          refine ⟨by simp, by simp [construct], by simp, hq, [], [], ?_, by simp, by simp⟩
          simpa [chainWrites, construct] using Chain.idle

theorem Start.readInv {c : Connection T} {h} (hs : Start c h) : ReadInv c h := by
  cases hs with
  | client =>
      refine ⟨.connecting rfl rfl rfl rfl rfl ?_, by simp⟩
      exact ⟨rfl, rfl, rfl, rfl, fun _ => ⟨rfl, rfl⟩⟩
  | server nonce msgs approve uid =>
      obtain ⟨hto, hh, he⟩ := sameHeard_map_send msgs
      have ho (owner) : Past (Orderly owner) (msgs.map Effect.send) :=
        Past.of_forall fun x hx p => by
          obtain ⟨msg, _, rfl⟩ := mem_map.mp hx
          trivial
      have hu (c : Connection T) (hc : c.nOwnerType = .server) (ht : c.msgTemporaryIn = .default) :
          Unread c (msgs.map Effect.send) :=
        ⟨hh.pushes, hh.headers, hh.validations, ht, fun hcl => by simp [hc] at hcl⟩
      cases approve with
      | true =>
          rw [accepted_approved]
          refine ⟨.awaiting true rfl rfl (by simp [he]) (by simp [hto]) ?_, past_append.mpr ⟨ho _, ?_⟩⟩
          · obtain ⟨h1, h2, h3, h4, -⟩ := hu (construct .server true true nonce) rfl rfl
            exact ⟨by simp [h1], by simp [h2], by simp [h3], h4, fun hcl => by
              simp [construct] at hcl⟩
          · simp [past_cons, Orderly, he]
      | false =>
          rw [accepted_denied]
          exact ⟨.lost rfl rfl (by simp [hto]) (hu _ rfl rfl), ho _⟩

/-! ## Runs -/

variable {c₀ c : Connection T} {h₀ h : List (Effect T)}
  {G : Connection T → List (Effect T) → Event T → Prop}

theorem Start.run_chainInv (hs : Start c₀ h₀) (hr : (machine T).Run G c₀ h₀ c h) : ChainInv c h :=
  hr.invariant hs.chainInv fun _ _ _ _ _ hi _ hn => hi.step (next_chainStep hn)

theorem Start.run_readInv (hs : Start c₀ h₀) (hr : (machine T).Run G c₀ h₀ c h) : ReadInv c h :=
  hr.invariant hs.readInv fun _ _ _ _ _ hi _ hn => hi.step (next_readStep hn)

end Connection

end AsioNetworking

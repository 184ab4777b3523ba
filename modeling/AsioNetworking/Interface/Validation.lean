import AsioNetworking.Connection.Nonce
import AsioNetworking.Interface

/-!
# What goes out before a client is validated

Broadcasts and `MessageClient` choose their clients by `IsConnected` alone, and `OnClientConnection`
may send before the handshake starts: a client can get messages before it is validated.
-/

namespace AsioNetworking

open List

variable {T ι : Type} [DecidableEq ι] [IdType T]

namespace Server

variable {s : Server T ι} {h : List (ServerEffect T ι)}

/-- In every run of a server, validated or not, a client gets a part of its nonce and a part of the
messages that were given to `Send` for it, in their order: the nonce alone as long as no `Send` task
of it has run, and nothing more once its answer was wrong or a read from it has failed. -/
theorem sent_to_client (hr : (interface T ι).Run Mealy.free init [] s h) (i : ι) :
    ∀ nonce ∈ nonces i h,
      (runs (hist i h) = [] → putBytes (hist i h) <+: uint64Bytes nonce) ∧
      handshakeBytes (hist i h) <+: uint64Bytes nonce ∧
      chainBytes (hist i h) <+: Connection.stream (sends (hist i h)) ∧
      ∀ h₁ x h₂, hist i h = h₁ ++ x :: h₂ → readEnded h₁ = true → putBytes [x] = [] := by
  intro nonce hnonce
  rcases known_interface hr i with ⟨-, -, hz⟩ | ⟨c, nonce', msgs, approve, uid, -, hacc⟩
  · rw [hz] at hnonce; cases hnonce
  · rw [hacc.once, mem_singleton] at hnonce
    subst hnonce
    obtain ⟨hhand, hchain, hruns, hpast⟩ := Connection.run_accepted_sent hacc.run
    refine ⟨fun hnone => ?_, hhand, hchain.trans ?_, hpast⟩
    · rw [hnone, Connection.stream_nil, prefix_nil] at hchain
      rw [putBytes_eq_handshake hchain]
      exact hhand
    · obtain ⟨ms, hms⟩ := hruns
      rw [← hms, Connection.stream_append]
      exact prefix_append _ _

/-- `OnClientConnection` greets its client, as `CustomServer` does; the client says nothing. -/
def greeted : Server UInt32 Unit × List (ServerEffect UInt32 Unit) :=
  ((interface UInt32 Unit).exec Mealy.free init [] [.server (.accept () 7 [⟨⟨0, 0⟩, []⟩] true),
    .server (.conn () .runTask), .server (.conn () (.put 0 8)),
    .server (.conn () (.put 1 8))]).get (by decide +kernel)

theorem sent_to_client_greeted :
    chainBytes (hist () greeted.2) <+: Connection.stream (sends (hist () greeted.2)) :=
  (sent_to_client (.of_isSome _ _ : (interface UInt32 Unit).Run Mealy.free init [] greeted.1
    greeted.2) () 7 (by decide +kernel)).2.2.1

theorem not_only_nonce :
    ¬ ∀ (s : Server UInt32 Unit) (h : List (ServerEffect UInt32 Unit)),
      (interface UInt32 Unit).Run Mealy.free init [] s h → ∀ i, validations (hist i h) = 0 →
        ∀ nonce ∈ nonces i h, putBytes (hist i h) <+: uint64Bytes nonce := by
  intro hall
  have hp := hall greeted.1 greeted.2 (.of_isSome _ _) () (by decide +kernel) 7 (by decide +kernel)
  exact absurd hp (by decide +kernel)

end Server

end AsioNetworking

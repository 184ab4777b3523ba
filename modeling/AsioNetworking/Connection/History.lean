import AsioNetworking.Connection
import AsioNetworking.Lib.Lists

/-!
# What a history of a connection says
-/

namespace AsioNetworking

variable {T : Type}

/-- The operations of the message chain: headers and bodies, not the handshake. -/
def OpKind.isChain : OpKind → Bool
  | .validation => false
  | .header => true
  | .body => true

@[simp] theorem OpKind.isChain_validation : OpKind.validation.isChain = false := rfl
@[simp] theorem OpKind.isChain_header : OpKind.header.isChain = true := rfl
@[simp] theorem OpKind.isChain_body : OpKind.body.isChain = true := rfl

/-- The messages given to `Send`. -/
@[simp] def sends : List (Effect T) → List (Message T)
  | [] => []
  | .send msg :: h => msg :: sends h
  | _ :: h => sends h

/-- The messages whose `Send` task has run. -/
@[simp] def runs : List (Effect T) → List (Message T)
  | [] => []
  | .run msg :: h => msg :: runs h
  | _ :: h => runs h

/-- The messages taken off `m_qMessagesOut`. -/
@[simp] def pops : List (Effect T) → List (Message T)
  | [] => []
  | .pop msg :: h => msg :: pops h
  | _ :: h => pops h

/-- The messages pushed to `m_qMessagesIn`. -/
@[simp] def pushes : List (Effect T) → List (Message T)
  | [] => []
  | .push _ msg :: h => msg :: pushes h
  | _ :: h => pushes h

/-- The bytes taken from the wire, those of a failed read included. -/
@[simp] def tookBytes : List (Effect T) → List UInt8
  | [] => []
  | .took _ bytes :: h => bytes ++ tookBytes h
  | .readFail _ bytes :: h => bytes ++ tookBytes h
  | _ :: h => tookBytes h

@[simp] def putBytes : List (Effect T) → List UInt8
  | [] => []
  | .put _ bytes :: h => bytes ++ putBytes h
  | _ :: h => putBytes h

/-- The bytes put on the wire by the message chain. -/
@[simp] def chainBytes : List (Effect T) → List UInt8
  | [] => []
  | .put kind bytes :: h => if kind.isChain then bytes ++ chainBytes h else chainBytes h
  | _ :: h => chainBytes h

@[simp] def startedBytes : List (Effect T) → List UInt8
  | [] => []
  | .startWrite _ bytes :: h => bytes ++ startedBytes h
  | _ :: h => startedBytes h

/-- The bytes given to `async_write` by the message chain. -/
@[simp] def chainStarted : List (Effect T) → List UInt8
  | [] => []
  | .startWrite kind bytes :: h => if kind.isChain then bytes ++ chainStarted h else chainStarted h
  | _ :: h => chainStarted h

/-- The buffers given to `async_write` by `WriteValidation`. -/
@[simp] def answers : List (Effect T) → List (List UInt8)
  | [] => []
  | .startWrite .validation bytes :: h => bytes :: answers h
  | _ :: h => answers h

@[simp] def chainFailed : List (Effect T) → Bool
  | [] => false
  | .writeFail kind :: h => kind.isChain || chainFailed h
  | _ :: h => chainFailed h

def Effect.startsChain : Effect T → Bool
  | .startWrite kind _ => kind.isChain
  | _ => false

/-- The entry is about the message chain. -/
def Effect.onChain : Effect T → Bool
  | .send _ | .run _ | .pop _ | .emptyQueue => true
  | .startWrite kind _ | .put kind _ | .wrote kind | .writeFail kind => kind.isChain
  | _ => false

section Append

variable (h o : List (Effect T))

@[simp] theorem sends_append : sends (h ++ o) = sends h ++ sends o := by
  induction h using sends.induct <;> simp_all

@[simp] theorem runs_append : runs (h ++ o) = runs h ++ runs o := by
  induction h using runs.induct <;> simp_all

@[simp] theorem pops_append : pops (h ++ o) = pops h ++ pops o := by
  induction h using pops.induct <;> simp_all

@[simp] theorem pushes_append : pushes (h ++ o) = pushes h ++ pushes o := by
  induction h using pushes.induct <;> simp_all

@[simp] theorem tookBytes_append : tookBytes (h ++ o) = tookBytes h ++ tookBytes o := by
  induction h using tookBytes.induct <;> simp_all

@[simp] theorem putBytes_append : putBytes (h ++ o) = putBytes h ++ putBytes o := by
  induction h using putBytes.induct <;> simp_all

@[simp] theorem chainBytes_append : chainBytes (h ++ o) = chainBytes h ++ chainBytes o := by
  induction h using chainBytes.induct <;> simp_all

@[simp] theorem startedBytes_append : startedBytes (h ++ o) = startedBytes h ++ startedBytes o := by
  induction h using startedBytes.induct <;> simp_all

@[simp] theorem chainStarted_append : chainStarted (h ++ o) = chainStarted h ++ chainStarted o := by
  induction h using chainStarted.induct <;> simp_all

@[simp] theorem answers_append : answers (h ++ o) = answers h ++ answers o := by
  induction h using answers.induct <;> simp_all

@[simp] theorem chainFailed_append : chainFailed (h ++ o) = (chainFailed h || chainFailed o) := by
  induction h using chainFailed.induct <;> simp_all [Bool.or_assoc]

end Append

end AsioNetworking

import AsioNetworking.Connection
import AsioNetworking.Lib.Lists

/-!
# Steps of a connection

`Step` says once what a step of a connection does; the steps of its message chain, of its reader and
of its writes are read off from it.
-/

namespace AsioNetworking

open List

variable {T : Type} [IdType T]

namespace Connection

inductive Step (c : Connection T) : Event T → Connection T → List (Effect T) → Prop where
  | send (msg) : Step c (.send msg) { c with posted := c.posted ++ [.send msg] } [.send msg]
  | disconnect : c.socketOpen = true →
      Step c .disconnect { c with posted := c.posted ++ [.close] } []
  | disconnectClosed : c.socketOpen = false → Step c .disconnect c []
  | runTask (task tasks) : c.posted = task :: tasks →
      Step c .runTask (runTask task { c with posted := tasks }).1
        (runTask task { c with posted := tasks }).2
  | established : c.connecting = true → c.socketOpen = true →
      Step c .established { c with socketConnected := true } []
  | connected : c.connecting = true → c.socketConnected = true →
      Step c (.onConnect true) (readValidation { c with connecting := false }).1
        [.startRead .validation 8]
  | connectFailed : c.connecting = true →
      Step c (.onConnect false) (close { c with connecting := false }) []
  | readOk {op : ReadOp} (l₁ l₂ bs) : c.reads = l₁ ++ op :: l₂ → op.live = true →
      bs.length = op.size →
      Step c (.readOk l₁.length bs) (onRead op.kind bs { c with reads := l₁ ++ l₂ }).1
        (.took op.kind bs :: (onRead op.kind bs { c with reads := l₁ ++ l₂ }).2)
  | readFail {op : ReadOp} (l₁ l₂ bs) : c.reads = l₁ ++ op :: l₂ →
      (bs = [] ∨ op.live = true ∧ bs.length < op.size) →
      Step c (.readFail l₁.length bs) (close { c with reads := l₁ ++ l₂ }) [.readFail op.kind bs]
  | put {op : WriteOp} (l₁ l₂ k) : c.writes = l₁ ++ op :: l₂ → op.live = true →
      c.socketOpen = true → k ≤ op.rest.length →
      Step c (.put l₁.length k)
        { c with writes := l₁ ++ { op with rest := op.rest.drop k } :: l₂ }
        [.put op.kind (op.rest.take k)]
  | writeOk {op : WriteOp} (l₁ l₂) : c.writes = l₁ ++ op :: l₂ → op.live = true → op.rest = [] →
      Step c (.writeOk l₁.length) (onWrite op.kind { c with writes := l₁ ++ l₂ }).1
        (.wrote op.kind :: (onWrite op.kind { c with writes := l₁ ++ l₂ }).2)
  | writeFail {op : WriteOp} (l₁ l₂) : c.writes = l₁ ++ op :: l₂ →
      Step c (.writeFail l₁.length) (close { c with writes := l₁ ++ l₂ }) [.writeFail op.kind]

theorem next_step {c c' : Connection T} {e o} (hn : c.next e = some (c', o)) : Step c e c' o := by
  cases e with
  | send msg => cases hn; exact .send msg
  | disconnect =>
      simp only [next, Connection.disconnect, Option.some.injEq] at hn
      split at hn <;> cases hn
      · rename_i ho
        exact .disconnect ho
      · rename_i ho
        exact .disconnectClosed (by simpa using ho)
  | runTask =>
      simp only [next] at hn
      split at hn
      · cases hn
      · rename_i task tasks hp
        obtain ⟨rfl, rfl⟩ := Prod.ext_iff.mp (Option.some.inj hn)
        exact .runTask task tasks hp
  | established =>
      simp only [next, Bool.and_eq_true] at hn
      split at hn <;> cases hn
      rename_i hc
      exact .established hc.1 hc.2
  | onConnect ok =>
      simp only [next] at hn
      split at hn
      · rename_i hc
        cases ok with
        | true =>
            simp only [if_true] at hn
            split at hn <;> cases hn
            rename_i hcon
            exact .connected hc hcon
        | false => cases hn; exact .connectFailed hc
      · cases hn
  | readOk j bs =>
      simp only [next] at hn
      repeat' split at hn
      all_goals cases hn
      rename_i op hj hc
      obtain ⟨l₁, l₂, hr, herase, -, rfl⟩ := exists_split_of_getElem? hj
      simp only [herase]
      exact .readOk l₁ l₂ bs hr hc.1 hc.2
  | readFail j bs =>
      simp only [next] at hn
      repeat' split at hn
      all_goals cases hn
      rename_i op hj hc
      obtain ⟨l₁, l₂, hr, herase, -, rfl⟩ := exists_split_of_getElem? hj
      simp only [herase]
      exact .readFail l₁ l₂ bs hr hc
  | put j k =>
      simp only [next] at hn
      repeat' split at hn
      all_goals cases hn
      rename_i op hj hc
      obtain ⟨l₁, l₂, hw, -, hset, rfl⟩ := exists_split_of_getElem? hj
      simp only [hset]
      exact .put l₁ l₂ k hw hc.1 hc.2.1 hc.2.2
  | writeOk j =>
      simp only [next] at hn
      repeat' split at hn
      all_goals cases hn
      rename_i op hj hc
      obtain ⟨l₁, l₂, hw, herase, -, rfl⟩ := exists_split_of_getElem? hj
      simp only [herase]
      exact .writeOk l₁ l₂ hw hc.1 hc.2
  | writeFail j =>
      simp only [next] at hn
      split at hn <;> cases hn
      rename_i op hj
      obtain ⟨l₁, l₂, hw, herase, -, rfl⟩ := exists_split_of_getElem? hj
      simp only [herase]
      exact .writeFail l₁ l₂ hw

theorem busy_of_next {c : Connection T} {e r} (hn : c.next e = some r)
    (hsend : ∀ msg, e ≠ .send msg) (hdis : e ≠ .disconnect) : c.busy = true := by
  obtain ⟨c', o⟩ := r
  cases next_step hn with
  | send msg => exact absurd rfl (hsend msg)
  | disconnect => exact absurd rfl hdis
  | disconnectClosed => exact absurd rfl hdis
  | runTask _ _ hp => simp [busy, hp]
  | established hcon => simp [busy, hcon]
  | connected hcon => simp [busy, hcon]
  | connectFailed hcon => simp [busy, hcon]
  | readOk _ _ _ hr => simp [busy, hr]
  | readFail _ _ _ hr => simp [busy, hr]
  | put _ _ _ hw => simp [busy, hw]
  | writeOk _ _ hw => simp [busy, hw]
  | writeFail _ _ hw => simp [busy, hw]

end Connection

end AsioNetworking

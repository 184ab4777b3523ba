import AsioNetworking.ClientInterface
import AsioNetworking.Host

/-!
# Starting and stopping

Nothing restarts a context that was stopped, and only a stop joins its thread: a client can be
connected once and a server can be started once.
-/

namespace AsioNetworking

open List

variable {T ι : Type} [IdType T]

/-! ## The client -/

namespace ClientInterface

/-- No thread was assigned over a joinable one, and each `Connect` that returned `true` left the
context running. -/
structure Sound (c : ClientInterface T) (h : List (ClientEffect T)) : Prop where
  alive : c.context.aborted = false
  runs : .connect true true ∉ h

def isUse : ClientEffect T → Bool
  | .connect result _ => result
  | .disconnect => true
  | _ => false

/-- A `Connect` that succeeds comes before any other one and before any `Disconnect`. -/
def FirstUse (_ : ClientInterface T) (h : List (ClientEffect T)) : ClientEvent T → Prop
  | .connect .started => h.any isUse = false
  | _ => True

/-- The context is fresh exactly as long as the client has not been used. -/
structure UseInv (c : ClientInterface T) (h : List (ClientEffect T)) : Prop where
  unused : h.any isUse = false → c.context.fresh = true ∧ c.place = .outside
  used : h.any isUse = true → c.place = .outside → c.context.fresh = false
  stopped : c.place = .join ∨ c.place = .release → c.context.stopped = true

variable {c c' : ClientInterface T} {h : List (ClientEffect T)}

omit [IdType T] in
theorem UseInv.congr {o} (hi : UseInv c h) (ho : o.any isUse = false)
    (hc : c'.context = c.context) (hp : c'.place = c.place) : UseInv c' (h ++ o) := by
  refine ⟨fun hu => ?_, fun hu hout => ?_, fun hp' => ?_⟩
  · rw [any_append, Bool.or_eq_false_iff] at hu
    rw [hc, hp]
    exact hi.unused hu.1
  · rw [any_append, ho, Bool.or_false] at hu
    rw [hc]
    exact hi.used hu (hp ▸ hout)
  · rw [hc]
    exact hi.stopped (hp ▸ hp')

omit [IdType T] in
theorem any_isUse_conn (o : List (Effect T)) : (o.map ClientEffect.conn).any isUse = false := by
  simp [isUse]

omit [IdType T] in
theorem UseInv.inside {o} (hi : UseInv c h) (hp : c.place ≠ .outside) (hp' : c'.place ≠ .outside)
    (hs : c'.place = .join ∨ c'.place = .release → c'.context.stopped = true) :
    UseInv c' (h ++ o) := by
  refine ⟨fun hu => ?_, fun _ hout => absurd hout hp', hs⟩
  rw [any_append, Bool.or_eq_false_iff] at hu
  exact absurd (hi.unused hu.1).2 hp

theorem UseInv.step {e o} (hi : UseInv c h) (ha : c.context.aborted = false)
    (hs : ClientStep c e c' o) : UseInv c' (h ++ o) := by
  cases hs with
  | connect attempt hp =>
      cases attempt with
      | unresolved => exact hi.congr rfl rfl rfl
      | noThread => exact hi.congr rfl rfl rfl
      | started =>
          have hused : (h ++ (c.connect .started).2).any isUse = true := by
            cases hu : h.any isUse with
            | true => simp [hu]
            | false =>
                have hno := ((EventLoop.spawn_iff ha).mpr (hi.unused hu).1).1
                simp [connect, hno, isUse]
          refine ⟨fun hu => ?_, fun _ _ => EventLoop.fresh_spawn _, fun hp' => ?_⟩
          · rw [hused] at hu
            cases hu
          · have hplace : (c.connect .started).1.place = .outside := hp
            rw [hplace] at hp'
            rcases hp' with hp' | hp' <;> cases hp'
  | send msg =>
      simp only [send]
      split
      · exact hi.congr rfl rfl rfl
      · split
        · exact hi.congr (any_isUse_conn _) rfl rfl
        · exact hi.congr rfl rfl rfl
  | disconnect hp => exact ⟨fun hu => by simp [isUse] at hu, by simp, by simp⟩
  | isConnected hp =>
      refine hi.inside (by simp [hp]) ?_ ?_ <;> cases c.isConnected <;> simp
  | post _ hp => exact hi.inside (by simp [hp]) (by simp) (by simp)
  | stop hp => exact hi.inside (by simp [hp]) (by simp) fun _ => rfl
  | join context hp hj =>
      exact hi.inside (by simp [hp]) (by simp) fun _ =>
        (EventLoop.join_spec hj).1.trans (hi.stopped (Or.inl hp))
  | release hp =>
      refine ⟨fun hu => ?_, fun _ _ => EventLoop.fresh_of_stopped (hi.stopped (Or.inr hp)), by simp⟩
      rw [any_append, Bool.or_eq_false_iff] at hu
      have := (hi.unused hu.1).2
      rw [hp] at this
      cases this
  | take => exact hi.congr rfl rfl rfl
  | finish e conn r => exact hi.congr (by simp [isUse]) rfl rfl
  | system e conn r => exact hi.congr (any_isUse_conn _) rfl rfl
  | quit b context hq =>
      obtain ⟨hf, hstop, -⟩ := EventLoop.quit_spec hq
      refine ⟨fun hu => ?_, fun _ _ => EventLoop.fresh_of_stopped hstop, fun _ => hstop⟩
      rw [append_nil] at hu
      rw [(hi.unused hu).1] at hf
      cases hf

omit [IdType T] in
theorem Sound.congr {o} (hp : Sound c h) (ha : c'.context.aborted = c.context.aborted)
    (ho : .connect true true ∉ o) : Sound c' (h ++ o) :=
  ⟨ha.trans hp.alive, fun hm => (mem_append.mp hm).elim hp.runs ho⟩

theorem sound_step {e o} (hi : UseInv c h) (hp : Sound c h) (hs : ClientStep c e c' o) :
    Sound c' (h ++ o) ↔ FirstUse c h e := by
  cases hs with
  | connect attempt hout =>
      cases attempt with
      | unresolved => exact iff_of_true (hp.congr rfl (by simp [connect])) trivial
      | noThread => exact iff_of_true (hp.congr rfl (by simp [connect])) trivial
      | started =>
          have hspawn := EventLoop.spawn_iff hp.alive
          constructor
          · rintro ⟨halive, hruns⟩
            cases hu : h.any isUse with
            | false => exact hu
            | true =>
                have hno : c.context.spawn.aborted = false := halive
                have hstop : c.context.stopped = false := by
                  cases hst : c.context.stopped with
                  | false => rfl
                  | true => simp [connect, hno, hst] at hruns
                rw [hi.used hu hout] at hspawn
                cases hspawn.mp ⟨hno, hstop⟩
          · intro hu
            obtain ⟨hno, hstop⟩ := hspawn.mpr (hi.unused hu).1
            refine ⟨hno, fun hm => (mem_append.mp hm).elim hp.runs fun hm => ?_⟩
            simp [connect, hno, hstop] at hm
  | send msg =>
      refine iff_of_true (hp.congr ?_ ?_) trivial
      · simp only [send]
        split
        · rfl
        · split <;> rfl
      · simp only [send]
        split
        · simp
        · split <;> simp
  | disconnect => exact iff_of_true (hp.congr rfl (by simp)) trivial
  | isConnected => exact iff_of_true (hp.congr rfl (by simp)) trivial
  | post => exact iff_of_true (hp.congr rfl (by simp)) trivial
  | stop => exact iff_of_true (hp.congr rfl (by simp)) trivial
  | join _ _ hj => exact iff_of_true (hp.congr (EventLoop.join_spec hj).2 (by simp)) trivial
  | release => exact iff_of_true (hp.congr rfl (by simp)) trivial
  | take => exact iff_of_true (hp.congr rfl (by simp)) trivial
  | finish => exact iff_of_true (hp.congr rfl (by simp)) trivial
  | system => exact iff_of_true (hp.congr rfl (by simp)) trivial
  | quit _ _ hq => exact iff_of_true (hp.congr (EventLoop.quit_spec hq).2.2 (by simp)) trivial

theorem alive_of_next {e o} (hn : c.next e = some (c', o)) : c.context.aborted = false := by
  unfold next at hn
  split at hn
  · cases hn
  · rename_i ha
    simpa using ha

theorem sound_iff_firstUse (es : List (ClientEvent T)) :
    (machine T).Always Sound init [] es ↔ (machine T).Along FirstUse init [] es :=
  Mealy.always_iff_along (I := UseInv)
    (fun _ _ _ _ _ hi hn => hi.step (alive_of_next hn) (next_clientStep hn))
    (fun _ _ _ _ _ hi hp hn => sound_step hi hp (next_clientStep hn)) es
    ⟨fun _ => ⟨rfl, rfl⟩, by simp, by simp [init]⟩ ⟨rfl, by simp⟩

end ClientInterface

/-! ## The server -/

namespace Host

variable [DecidableEq ι]

/-- No thread was assigned over a joinable one, each `Start` that returned `true` left the context
running, and at most one accept is outstanding. -/
structure Sound (h : Host T ι) (l : List (HostEffect T ι)) : Prop where
  alive : h.context.aborted = false
  runs : .start true true ∉ l
  accepts : h.accepts ≤ 1

def isStart : HostEffect T ι → Bool
  | .start _ _ => true
  | _ => false

/-- `Start` is called at most once, and not after `Stop` (unless it cannot create its thread). -/
def FirstStart (_ : Host T ι) (l : List (HostEffect T ι)) : HostEvent T ι → Prop
  | .start spawns => l.countP isStart = 0 ∧ (spawns = true → .stop ∉ l)
  | _ => True

/-- Each `Start` has left an accept outstanding, and `Stop` has left the context stopped. -/
structure StartInv (h : Host T ι) (l : List (HostEffect T ι)) : Prop where
  accepts : h.escaped = true ∨ h.context.aborted = true ∨ h.accepts = l.countP isStart
  stopped : h.context.stopped = true ↔ .stop ∈ l
  thread : h.context.thread.joinable = true → h.context.aborted = true ∨ 0 < l.countP isStart

variable {h h' : Host T ι} {l : List (HostEffect T ι)}

omit [DecidableEq ι] in
theorem StartInv.step {e o} (hi : StartInv h l) (hesc : h.escaped = false)
    (ha : h.context.aborted = false) (hs : HostStep h e h' o) : StartInv h' (l ++ o) := by
  have hacc : h.accepts = l.countP isStart := by simpa [hesc, ha] using hi.accepts
  have hthread (hj : h.context.thread.joinable = true) : 0 < l.countP isStart := by
    simpa [ha] using hi.thread hj
  cases hs with
  | start spawns =>
      cases spawns with
      | false =>
          refine ⟨Or.inr (Or.inr ?_), ?_, fun hj => Or.inr ?_⟩
          · simp [start, waitForClientConnection, hacc, isStart]
          · simpa [start, waitForClientConnection] using hi.stopped
          · have := hthread hj
            simp [start, waitForClientConnection, isStart]
      | true =>
          cases hab : h.context.spawn.aborted with
          | true =>
              refine ⟨Or.inr (Or.inl hab), ?_, fun _ => Or.inl hab⟩
              simpa [start, waitForClientConnection, hab] using hi.stopped
          | false =>
              refine ⟨Or.inr (Or.inr ?_), ?_, fun _ => Or.inr ?_⟩
              · simp [start, waitForClientConnection, hab, hacc, isStart]
              · simpa [start, waitForClientConnection, hab] using hi.stopped
              · simp [start, waitForClientConnection, hab, isStart]
  | stop =>
      refine ⟨Or.inr (Or.inr ?_), ?_, fun hj => by cases hj⟩
      · simp [hacc, isStart]
      · simp [EventLoop.halt]
  | serve e h' o hserved =>
      have hcount : (l ++ o.map HostEffect.server).countP isStart = l.countP isStart := by
        have : (o.map HostEffect.server).countP isStart = 0 :=
          countP_eq_zero.mpr (by simp [isStart])
        rw [countP_append, this, Nat.add_zero]
      have hmem : .stop ∈ l ++ o.map HostEffect.server ↔ .stop ∈ l := by simp
      have hcontext : h'.context = h.context ∧ (h'.escaped = true ∨ h'.accepts = h.accepts) := by
        cases hserved with
        | interface => exact ⟨rfl, Or.inr rfl⟩
        | oversized => exact ⟨rfl, Or.inl rfl⟩
        | reset => exact ⟨rfl, Or.inl rfl⟩
      refine ⟨?_, ?_, fun hj => ?_⟩
      · rw [hcount]
        exact hcontext.2.imp id fun h => Or.inr (h.trans hacc)
      · rw [hmem, hcontext.1]
        exact hi.stopped
      · rw [hcontext.1] at hj
        rw [hcount]
        exact Or.inr (hthread hj)
  | quit context hq =>
      obtain ⟨hstop, hj⟩ := EventLoop.stopped_of_quit hq
      rw [append_nil]
      refine ⟨Or.inr (Or.inr hacc), ?_, fun _ => Or.inr (hthread hj)⟩
      exact iff_of_true (EventLoop.quit_spec hq).2.1 (hi.stopped.mp hstop)

omit [DecidableEq ι] in
theorem sound_step {e o} (hi : StartInv h l) (hp : Sound h l) (hesc : h.escaped = false)
    (hs : HostStep h e h' o) : Sound h' (l ++ o) ↔ FirstStart h l e := by
  have hacc : h.accepts = l.countP isStart := by simpa [hesc, hp.alive] using hi.accepts
  have hthread (hj : h.context.thread.joinable = true) : 0 < l.countP isStart := by
    simpa [hp.alive] using hi.thread hj
  cases hs with
  | start spawns =>
      constructor
      · rintro ⟨halive, hruns, hle⟩
        refine ⟨?_, fun hsp hstop => ?_⟩
        · have : (h.start spawns).1.accepts = h.accepts + 1 := by cases spawns <;> rfl
          omega
        · subst hsp
          have hstopped := hi.stopped.mpr hstop
          have hab : h.context.spawn.aborted = false := halive
          simp [start, waitForClientConnection, hab, hstopped] at hruns
      · rintro ⟨hz, hnot⟩
        have hle : (h.start spawns).1.accepts ≤ 1 := by
          have : (h.start spawns).1.accepts = h.accepts + 1 := by cases spawns <;> rfl
          omega
        cases spawns with
        | false => exact ⟨hp.alive, by simpa [start] using hp.runs, hle⟩
        | true =>
            have hj : h.context.thread.joinable = false := by
              by_contra hj
              have := hthread (by simpa using hj)
              omega
            have hstopped : h.context.stopped = false := by
              by_contra hs
              exact hnot rfl (hi.stopped.mp (by simpa using hs))
            have hab : h.context.spawn.aborted = false := by
              simp [EventLoop.spawn, hj, hp.alive]
            refine ⟨hab, fun hm => (mem_append.mp hm).elim hp.runs fun hm => ?_, hle⟩
            simp [start, waitForClientConnection, hab, hstopped] at hm
  | stop => exact iff_of_true ⟨hp.alive, by simpa using hp.runs, hp.accepts⟩ trivial
  | serve e h' o hserved =>
      refine iff_of_true ?_ trivial
      have hruns : HostEffect.start true true ∉ l ++ o.map .server := by simpa using hp.runs
      cases hserved with
      | interface => exact ⟨hp.alive, hruns, hp.accepts⟩
      | oversized => exact ⟨hp.alive, hruns, hp.accepts⟩
      | reset => exact ⟨hp.alive, hruns, (Nat.sub_le _ _).trans hp.accepts⟩
  | quit context hq =>
      exact iff_of_true ⟨(EventLoop.quit_spec hq).2.2.trans hp.alive, by simpa using hp.runs,
        hp.accepts⟩ trivial

theorem sound_iff_firstStart (es : List (HostEvent T ι)) :
    (machine T ι).Always Sound init [] es ↔ (machine T ι).Along FirstStart init [] es := by
  refine Mealy.always_iff_along (I := StartInv) ?_ ?_ es
    ⟨Or.inr (Or.inr rfl), by simp [init, EventLoop.init], fun hj => by cases hj⟩
    ⟨rfl, by simp, Nat.zero_le 1⟩
  · intro h l e h' o hi hn
    obtain ⟨hesc, ha, hs⟩ := next_hostStep hn
    exact hi.step hesc ha hs
  · intro h l e h' o hi hp hn
    obtain ⟨hesc, -, hs⟩ := next_hostStep hn
    exact sound_step hi hp hesc hs

end Host

/-! ## Both -/

/-- A client is sound in a run exactly when every `Connect` that succeeds comes before any other one
and before any `Disconnect`; a server exactly when `Start` is called at most once, and not after
`Stop`. -/
theorem lifecycle_iff [DecidableEq ι] :
    (∀ es : List (ClientEvent T),
      (ClientInterface.machine T).Always ClientInterface.Sound ClientInterface.init [] es ↔
        (ClientInterface.machine T).Along ClientInterface.FirstUse ClientInterface.init [] es) ∧
    ∀ es : List (HostEvent T ι), (Host.machine T ι).Always Host.Sound Host.init [] es ↔
      (Host.machine T ι).Along Host.FirstStart Host.init [] es :=
  ⟨ClientInterface.sound_iff_firstUse, Host.sound_iff_firstStart⟩

/-- The server cannot be reached, and the user tries again. -/
def again : List (ClientEvent UInt32) :=
  [.connect .started, .take (.onConnect false), .finish, .quit, .connect .started]

/-- The user disconnects and connects again. -/
def reconnect : List (ClientEvent UInt32) :=
  [.connect .started, .disconnect, .goOn, .goOn, .goOn, .quit, .goOn, .goOn, .connect .started]

/-- A server is stopped and started again. -/
def restart : List (HostEvent UInt32 Unit) := [.start true, .stop, .start true]

theorem not_lifecycle :
    ¬ (ClientInterface.machine UInt32).Always ClientInterface.Sound .init [] again ∧
      ¬ (ClientInterface.machine UInt32).Always ClientInterface.Sound .init [] reconnect ∧
      ¬ (Host.machine UInt32 Unit).Always Host.Sound .init [] restart := by
  refine ⟨fun ha => ?_, fun ha => ?_, fun ha => ?_⟩
  · have hs := ha.of_isSome _ (by decide +kernel)
    exact absurd hs.alive (by decide +kernel)
  · have hs := ha.of_isSome _ (by decide +kernel)
    exact absurd hs.runs (by decide +kernel)
  · have hs := ha.of_isSome _ (by decide +kernel)
    exact absurd hs.accepts (by decide +kernel)

end AsioNetworking

import RelayUpkeep.Proofs.Bystanders

/-! # How a setup comes by its channels

A setup that has the reservation lock finds channels stored, or asks for them and waits for the
answer. What it does in each of these steps is given exactly, with what it notes in the journal. It
collects its candidates in the step in which it has channels. -/

namespace RelayUpkeep

theorem Script.immediate?_eq_some {s : Script} {o : Outcome} :
    s.immediate? = some o ↔ s.delay = 0 ∧ s.outcome = o := by
  simp [immediate?]

namespace Overlay

variable {t : TaskId} {u w : Overlay} {manual : List PeerAddress} {maxFail : Nat}
  {stage : SetupStage} {o : Outcome}

/-! ## Which step it is -/

/-- Whether a setup that goes on has the lock in this step. -/
def seizes (w : Overlay) (t : TaskId) : SetupStage → Bool
  | .entering => !w.manager.isShutDown && w.manager.gate.holder.isNone
  | .queued => w.manager.gate.holder = some t
  | .reserving _ | .settling .. => false

/-- Whether it asks for channels: there are none, and the manager is not shut down. -/
def asks (w : Overlay) (t : TaskId) (stage : SetupStage) : Bool :=
  w.seizes t stage && w.manager.creator.isNone && !w.manager.isShutDown

/-- The answer to its reservation that it hears in this step. -/
def hears? (w : Overlay) (t : TaskId) : SetupStage → Option Outcome
  | .reserving o => some o
  | stage => if w.asks t stage then w.reserveScript.immediate? else none

/-- Whether it has channels in this step. -/
def supplied (w : Overlay) (t : TaskId) (stage : SetupStage) : Bool :=
  w.seizes t stage && w.manager.creator.isSome || w.hears? t stage = some .succeed

/-- The setup that collects its candidates in a step. -/
def collects (w : Overlay) (t : TaskId) : Bool :=
  match w.going? t with
  | some (.setup _ _ stage) => w.supplied t stage
  | _ => false

/-! ## What happens in it -/

/-- The lock may have changed hands, and something was noted. -/
def passing (w : Overlay) (gate : FairLock TaskId) (ready : List TaskId) (more : List Entry) :
    Overlay :=
  { w with manager := { w.manager with gate }, ready, journal := w.journal ++ more }

/-- New channels are stored. -/
def granting (w : Overlay) (gate : FairLock TaskId) (ready : List TaskId) (more : List Entry) :
    Overlay :=
  { w with
    granted := w.granted + 1
    manager := { w.manager with gate, creator := some w.granted }
    ready
    journal := w.journal ++ more ++ [⟨w.clock, .granted w.granted⟩] }

/-- What a setup notes when it asks for channels. -/
def asking (w : Overlay) (t : TaskId) : Entry := ⟨w.clock, .reserve t 0 w.manager.config.maxRelays⟩

/-- An answer is heard in the step in which it was asked for, or in a later one. -/
inductive Heard (t : TaskId) (u : Overlay) : SetupStage → Outcome → List Entry → Prop
  | later (o : Outcome) : Heard t u (.reserving o) o []
  | atOnce {stage : SetupStage} {o : Outcome} (h : u.asks t stage = true)
      (ho : u.reserveScript.immediate? = some o) : Heard t u stage o [u.asking t]

/-- What a setup does in a step before its round has started. -/
inductive Prepares (t : TaskId) (manual : List PeerAddress) (maxFail : Nat) (u : Overlay) :
    SetupStage → Overlay → Prop
  | refused (ready : List TaskId) (hdown : u.manager.isShutDown = true) :
      Prepares t manual maxFail u .entering
        ((u.passing u.manager.gate ready []).finish t (.failed .shutDown))
  | queues (gate : FairLock TaskId) (ready : List TaskId) (hup : u.manager.isShutDown = false)
      (hh : u.manager.gate.holder ≠ none) : Prepares t manual maxFail u .entering
        ((u.passing gate ready []).setJob t (.setup manual maxFail .queued))
  | lines (ready : List TaskId) (hh : u.manager.gate.holder ≠ some t) :
      Prepares t manual maxFail u .queued (u.passing u.manager.gate ready [])
  | reuses {stage : SetupStage} (gate : FairLock TaskId) (ready : List TaskId)
      (h : u.seizes t stage = true) (hc : u.manager.creator.isSome = true) :
      Prepares t manual maxFail u stage ((u.passing gate ready []).collect t manual maxFail)
  | denied {stage : SetupStage} (gate : FairLock TaskId) (ready : List TaskId)
      (h : u.seizes t stage = true) (hc : u.manager.creator = none)
      (hdown : u.manager.isShutDown = true) : Prepares t manual maxFail u stage
        ((u.passing gate ready []).finish t (.failed .shutDown))
  | waits {stage : SetupStage} (gate : FairLock TaskId) (ready : List TaskId)
      (h : u.asks t stage = true) (hd : u.reserveScript.delay ≠ 0) :
      Prepares t manual maxFail u stage ((u.passing gate ready [u.asking t]).sleep t
        (.setup manual maxFail (.reserving u.reserveScript.outcome)) u.reserveScript.delay)
  | crashes {stage : SetupStage} (gate : FairLock TaskId) (ready : List TaskId)
      {more : List Entry} (text : String) (h : u.Heard t stage (.crash text) more) :
      Prepares t manual maxFail u stage
        ((u.passing gate ready more).finish t (.crashed (.collaborator text)))
  | fails {stage : SetupStage} (gate : FairLock TaskId) (ready : List TaskId)
      {more : List Entry} (e : RelayError) (h : u.Heard t stage (.fail e) more) :
      Prepares t manual maxFail u stage
        ((u.passing gate ready more).finish t (.failed e.asResourceUnavailable))
  | gains {stage : SetupStage} (gate : FairLock TaskId) (ready : List TaskId)
      {more : List Entry} (h : u.Heard t stage .succeed more) :
      Prepares t manual maxFail u stage ((u.granting gate ready more).collect t manual maxFail)

theorem releaseGate_passing (w : Overlay) (gate : FairLock TaskId) (ready : List TaskId)
    (more : List Entry) : ∃ gate' ready', (w.passing gate ready more).releaseGate =
      w.passing gate' ready' more := by
  obtain ⟨rs, h⟩ := (w.passing gate ready more).releaseGate_frame
  exact ⟨_, rs, h⟩

theorem prepares_reserved (gate : FairLock TaskId) (ready : List TaskId) {more : List Entry}
    (h : u.Heard t stage o more) : u.Prepares t manual maxFail stage
      ((u.passing gate ready more).reserved t manual maxFail o) := by
  cases o with
  | crash text =>
    obtain ⟨gate', ready', he⟩ := u.releaseGate_passing gate ready more
    rw [reserved, he]
    exact .crashes gate' ready' text h
  | fail e =>
    obtain ⟨gate', ready', he⟩ := u.releaseGate_passing gate ready more
    rw [reserved, he]
    exact .fails gate' ready' e h
  | succeed =>
    obtain ⟨rs, he⟩ := (u.granting gate ready more).releaseGate_frame
    have hv : (u.passing gate ready more).reserved t manual maxFail .succeed =
        (u.granting gate ready more).releaseGate.collect t manual maxFail := rfl
    rw [hv, he]
    exact .gains _ rs h

/-- A setup that has the lock reuses the channels that are stored, or asks for some. -/
theorem prepares_reserve (gate : FairLock TaskId) (ready : List TaskId)
    (h : u.seizes t stage = true) : u.Prepares t manual maxFail stage
      ((u.passing gate ready []).reserve t manual maxFail) := by
  obtain ⟨gate', ready', hrel⟩ := u.releaseGate_passing gate ready []
  have hcreator : (u.passing gate ready []).manager.creator = u.manager.creator := rfl
  have hshut : (u.passing gate ready []).manager.isShutDown = u.manager.isShutDown := rfl
  rw [reserve, hcreator, hshut, hrel]
  cases hc : u.manager.creator with
  | some k => exact .reuses gate' ready' h (by simp [hc])
  | none =>
    simp only
    split_ifs with hdown
    · exact .denied gate' ready' h hc hdown
    · have hasks : u.asks t stage = true := by simp [asks, h, hc, hdown]
      have hask : (u.passing gate ready []).log (.reserve t 0
          (u.passing gate ready []).manager.config.maxRelays) =
          u.passing gate ready [u.asking t] := by simp [passing, log, asking]
      rw [hask, play]
      split
      · next hd =>
        exact prepares_reserved gate ready (.atOnce hasks (Script.immediate?_eq_some.mpr ⟨hd, rfl⟩))
      · next hd => exact .waits gate ready hasks hd

theorem prepares_pollSetup (ready : List TaskId) (hs : stage.isEarly = true) :
    u.Prepares t manual maxFail stage
      ((u.passing u.manager.gate ready []).pollSetup t manual maxFail stage) := by
  have hpass : ∀ gate, ((u.passing u.manager.gate ready []).withManager fun m => { m with gate }) =
      u.passing gate ready [] := fun gate => rfl
  cases stage with
  | entering =>
    simp only [pollSetup, enterSetup, hpass]
    split
    · next hdown => exact .refused ready hdown
    · next hup =>
      have hup : u.manager.isShutDown = false := by simpa [passing] using hup
      split
      · next hheld =>
        have hfree : u.manager.gate.holder = none := FairLock.holder_of_acquire hheld
        exact prepares_reserve _ ready (by simp [seizes, hup, hfree])
      · next hheld =>
        refine .queues _ ready hup fun hh => hheld ?_
        simp [passing, FairLock.acquire, hh]
  | queued =>
    simp only [pollSetup]
    split
    · next hh => exact prepares_reserve _ ready (decide_eq_true hh)
    · next hh => exact .lines ready hh
  | reserving o => exact prepares_reserved _ ready (.later o)
  | settling => simp [SetupStage.isEarly] at hs

/-- What a setup does when it goes on and its round has not started. -/
theorem prepares_act (h : w.going? t = some (.setup manual maxFail stage))
    (hs : stage.isEarly = true) : w.Prepares t manual maxFail stage (w.act (.poll t)) := by
  have hact : w.act (.poll t) = (w.passing w.manager.gate (w.ready.erase t) []).pollSetup t manual
      maxFail stage := by
    rw [act_of_going h]
    simp [resume, passing]
  rw [hact]
  exact prepares_pollSetup _ hs

end Overlay

end RelayUpkeep

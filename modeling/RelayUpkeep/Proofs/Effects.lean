import RelayUpkeep.Proofs.Interleaving
import Mathlib.Data.List.Basic

/-! # What the small steps change

Each of the steps that tasks are made of changes a few fields only. The steps that wake someone are
given by an equation that leaves just the new queue of ready tasks open. -/

namespace RelayUpkeep.Overlay

variable (w : Overlay)

/-! ## Ends of tasks -/

theorem isFinished_iff {w : Overlay} {t : TaskId} :
    w.isFinished t = true ↔ ∃ e, (t, e) ∈ w.exits := by
  simp only [isFinished, exit?, Option.isSome_iff_exists]
  constructor
  · rintro ⟨e, he⟩
    exact ⟨e, by
      obtain ⟨l, r, hl, -⟩ := List.lookup_eq_some_iff.mp he
      simp [hl]⟩
  · rintro ⟨e, he⟩
    cases hl : w.exits.lookup t with
    | some e' => exact ⟨e', rfl⟩
    | none => exact absurd (List.lookup_eq_none_iff.mp hl _ he) (by simp)

theorem not_isFinished_iff {w : Overlay} {t : TaskId} :
    w.isFinished t = false ↔ ∀ e, (t, e) ∉ w.exits := by
  rw [← Bool.not_eq_true, isFinished_iff]
  simp

theorem exit?_append {w w' : Overlay} {l : List (TaskId × Exit)} (h : w'.exits = w.exits ++ l)
    (t : TaskId) : w'.exit? t = (w.exit? t).or (l.lookup t) := by
  simp only [exit?, h, List.lookup_append]

theorem mem_running {w : Overlay} {t : TaskId} {task : Task} :
    (t, task) ∈ w.running ↔ w.tasks[t]? = some task ∧ w.isFinished t = false := by
  simp [running, List.mem_zipIdx_iff_getElem?]

/-! ## Waking -/

/-- The queue of ready tasks after some were woken. -/
structure Rouses (ts rs : List TaskId) : Prop where
  keeps : ∀ u ∈ w.ready, u ∈ rs
  only : ∀ u ∈ rs, u ∈ w.ready ∨ u ∈ ts
  nodup : w.ready.Nodup → rs.Nodup
  wakes : ∀ u ∈ ts, w.isFinished u = false → u ∈ rs
  length : rs.length ≤ w.ready.length + ts.length

theorem Rouses.refl : w.Rouses [] w.ready :=
  ⟨fun _ h => h, fun _ h => .inl h, id, by simp, by simp⟩

theorem wake_eq (t : TaskId) : ∃ rs, w.wake t = { w with ready := rs } ∧ w.Rouses [t] rs := by
  unfold wake
  split
  · next h =>
    refine ⟨w.ready, rfl, fun _ h => h, fun _ h => .inl h, id, ?_, by simp⟩
    intro u hu hf
    rw [List.mem_singleton.mp hu] at hf ⊢
    simpa [hf] using h
  · next h =>
    refine ⟨w.ready ++ [t], rfl, ?_, ?_, ?_, ?_, by simp⟩
    · intro u hu
      exact List.mem_append_left _ hu
    · intro u hu
      exact List.mem_append.mp hu
    · intro hn
      exact List.nodup_append.mpr ⟨hn, by simp, by rintro a ha b hb rfl; simp_all⟩
    · intro u hu _
      exact List.mem_append_right _ hu

theorem wakeAll_eq (ts : List TaskId) :
    ∃ rs, w.wakeAll ts = { w with ready := rs } ∧ w.Rouses ts rs := by
  induction ts generalizing w with
  | nil => exact ⟨w.ready, rfl, .refl w⟩
  | cons t ts ih =>
    obtain ⟨rs, hw, hr⟩ := w.wake_eq t
    obtain ⟨qs, hq, hr'⟩ := ih { w with ready := rs }
    refine ⟨qs, by simp only [wakeAll, List.foldl_cons, hw] at hq ⊢; exact hq, ?_, ?_, ?_, ?_, ?_⟩
    · intro u hu
      exact hr'.keeps u (hr.keeps u hu)
    · intro u hu
      rcases hr'.only u hu with hu | hu
      · exact (hr.only u hu).imp id (by simp +contextual)
      · exact .inr (List.mem_cons_of_mem _ hu)
    · exact fun hn => hr'.nodup (hr.nodup hn)
    · intro u hu hf
      rcases List.mem_cons.mp hu with rfl | hu
      · exact hr'.keeps u (hr.wakes u (by simp) hf)
      · exact hr'.wakes u hu hf
    · have h₁ := hr.length
      have h₂ := hr'.length
      simp only [List.length_cons, List.length_nil] at h₁ h₂ ⊢
      omega

theorem finish_eq (t : TaskId) (e : Exit) : ∃ rs,
    w.finish t e = { w with
      exits := w.exits ++ [(t, e)], timers := w.timers.filter (·.task ≠ t), ready := rs } ∧
    { w with exits := w.exits ++ [(t, e)] }.Rouses (w.parent? t).toList rs := by
  unfold finish
  have hp : ∀ exits timers, ({ w with exits, timers } : Overlay).parent? t = w.parent? t :=
    fun _ _ => rfl
  simp only [hp]
  cases w.parent? t with
  | none => exact ⟨w.ready, rfl, fun _ h => h, fun _ h => .inl h, id, by simp, by simp⟩
  | some parent =>
    obtain ⟨rs, h, hr⟩ := ({ w with
      exits := w.exits ++ [(t, e)],
      timers := w.timers.filter (·.task ≠ t) } : Overlay).wake_eq parent
    exact ⟨rs, h, hr.keeps, hr.only, hr.nodup, hr.wakes, hr.length⟩

theorem cancel_eq (u : TaskId) : w.isFinished u = true ∧ w.cancel u = w ∨ w.isFinished u = false ∧
    ∃ rs, w.cancel u = { w with
      tasks := w.tasks.modify u fun task => { task with isCancelled := true }, ready := rs } ∧
      w.Rouses [u] rs := by
  unfold cancel
  cases hf : w.isFinished u with
  | true => exact .inl ⟨rfl, rfl⟩
  | false =>
    obtain ⟨rs, h, hr⟩ := ({ w with tasks := w.tasks.modify u fun task =>
      { task with isCancelled := true } } : Overlay).wake_eq u
    exact .inr ⟨rfl, rs, by simpa using h, hr.keeps, hr.only, hr.nodup, hr.wakes, hr.length⟩

theorem cancelAll_eq (ts : List TaskId) :
    ∃ tasks rs, ts.foldl cancel w = { w with tasks, ready := rs } := by
  induction ts generalizing w with
  | nil => exact ⟨w.tasks, w.ready, rfl⟩
  | cons u ts ih =>
    rcases w.cancel_eq u with ⟨-, h⟩ | ⟨-, rs, h, -⟩ <;> rw [List.foldl_cons, h]
    · exact ih w
    · obtain ⟨tasks, rs', h'⟩ := ih { w with
        tasks := w.tasks.modify u fun task => { task with isCancelled := true }, ready := rs }
      exact ⟨tasks, rs', h'⟩

theorem dropConn_eq (c : ConnId) : w.isOpen c = false ∧ w.dropConn c = w ∨ w.isOpen c = true ∧
    ∃ rs, w.dropConn c = { w with
      conns := w.conns.modify c fun conn => { conn with isOpen := false }, ready := rs } ∧
      w.Rouses (w.watchersOf c) rs := by
  unfold dropConn
  cases ho : w.isOpen c with
  | false => exact .inl ⟨rfl, rfl⟩
  | true =>
    obtain ⟨rs, h, hr⟩ := ({ w with conns := w.conns.modify c fun conn =>
      { conn with isOpen := false } } : Overlay).wakeAll_eq (w.watchersOf c)
    exact .inr ⟨rfl, rs, by simpa using h, hr.keeps, hr.only, hr.nodup, hr.wakes, hr.length⟩

theorem closeConn_frame (c : ConnId) : ∃ conns ready journal,
    w.closeConn c = { w with conns, ready, journal } := by
  unfold closeConn
  split
  · next conn _ =>
    rcases (w.log (.close c conn.remote)).dropConn_eq c with ⟨-, h⟩ | ⟨-, rs, h, -⟩ <;> rw [h] <;>
      exact ⟨_, _, _, rfl⟩
  · exact ⟨_, _, _, rfl⟩

theorem advanceTo_eq (clock : Nat) : ∃ rs, w.advanceTo clock = { w with
      clock, timers := w.timers.filter (clock < ·.due), ready := rs } ∧
    w.Rouses ((w.timers.filter (·.due ≤ clock)).map Timer.task) rs := by
  obtain ⟨rs, h, hr⟩ := ({ w with clock, timers := w.timers.filter (clock < ·.due) } :
    Overlay).wakeAll_eq ((w.timers.filter (·.due ≤ clock)).map Timer.task)
  exact ⟨rs, h, hr.keeps, hr.only, hr.nodup, hr.wakes, hr.length⟩

/-! ## Spawning -/

@[simp] theorem spawn_tasks (job : Job) (parent : Option TaskId) :
    (w.spawn job parent).1.tasks = w.tasks ++ [⟨job, parent, false⟩] := rfl

private theorem foldl_spawn (parent : Option TaskId) (jobs : List Job) (ts : List TaskId) :
    jobs.foldl (fun (x : Overlay × List TaskId) job =>
      ((x.1.spawn job parent).1, x.2 ++ [(x.1.spawn job parent).2])) (w, ts) =
    ({ w with
      tasks := w.tasks ++ jobs.map (⟨·, parent, false⟩)
      ready := w.ready ++ List.range' w.tasks.length jobs.length },
    ts ++ List.range' w.tasks.length jobs.length) := by
  induction jobs generalizing w ts with
  | nil => simp
  | cons job jobs ih =>
    simp only [List.foldl_cons, ih]
    simp [spawn, List.range'_succ]

theorem spawnAll_eq (jobs : List Job) (parent : Option TaskId) :
    w.spawnAll jobs parent =
      ({ w with
        tasks := w.tasks ++ jobs.map (⟨·, parent, false⟩)
        ready := w.ready ++ List.range' w.tasks.length jobs.length },
      List.range' w.tasks.length jobs.length) := by
  have h := w.foldl_spawn parent jobs []
  rw [List.nil_append] at h
  exact h

/-! ## Telling -/

/-- The observers that are told: those up to and including the first one that crashes. -/
def heard : List Observer → List Observer
  | [] => []
  | o :: rest => if o.crashes then [o] else o :: heard rest

theorem tellAll_eq (address : PeerAddress) (os : List Observer) :
    (w.tellAll address os).1 = { w with
      journal := w.journal ++
        (heard os).map fun o => ⟨w.clock, .lost o address (w.sight address)⟩ } := by
  induction os generalizing w with
  | nil => simp [tellAll, heard]
  | cons o os ih =>
    simp only [tellAll, heard]
    split
    · rfl
    · rw [ih]
      simp [tell, log, sight, now]

/-! ## Signals -/

theorem setSignal_self {w : Overlay} {r : RelayId} {relay : Relay} (h : w.relays[r]? = some relay) :
    w.setSignal r relay.signal = w := by
  have hm : w.relays.modify r (fun x => { x with signal := relay.signal }) = w.relays := by
    refine List.ext_getElem? fun i => ?_
    rw [List.getElem?_modify]
    by_cases hi : r = i
    · subst hi
      simp [h]
    · simp [hi]
  simp only [setSignal, hm]

theorem setSignal_setSignal (r : RelayId) (s s' : CloseSignal CloseListener) :
    (w.setSignal r s).setSignal r s' = w.setSignal r s' := by
  simp only [setSignal, List.modify_modify_eq]
  rfl

/-- A listener that only takes notes leaves no more than notes. -/
theorem callListener_note (r : RelayId) (relay : Relay) (hs : relay.signal = .lost true)
    (label : String) (nested : Option String) (crashes : Bool) :
    ((w.setSignal r (.lost true)).callListener r relay (.note label nested crashes)).1 =
      (w.setSignal r (.lost true)).log (.notified label relay.address (some true)) := by
  cases nested with
  | none => simp [callListener, hs, CloseSignal.isClosed]
  | some inner =>
    simp only [callListener, hs, CloseSignal.isClosed, CloseSignal.listen]
    exact congrArg (log · _) (w.setSignal_setSignal r (.lost true) (.lost true))

/-- The signal of a relay that is lost, and what comes of it. -/
inductive Loses (r : RelayId) (relay : Relay) : Overlay → Prop
  | unheard (h : relay.signal = .live none) : Loses r relay (w.setSignal r (.lost false))
  | noted (label : String) (nested : Option String) (crashes : Bool)
      (h : relay.signal = .live (some (.note label nested crashes))) :
      Loses r relay
        ((w.setSignal r (.lost true)).log (.notified label relay.address (some true)))
  | ownerless (h : relay.signal = .live (some .manager)) (hl : w.managerLives = false) :
      Loses r relay (w.setSignal r (.lost true))
  | told (h : relay.signal = .live (some .manager)) (hl : w.managerLives = true) :
      Loses r relay ((w.setSignal r (.lost true)).relayLost r relay.address).1

theorem lose_eq {w : Overlay} {r : RelayId} {relay : Relay} (hr : w.relays[r]? = some relay) :
    (w.lose r).1 = (w.signalled r relay relay.signal.lose.1 relay.signal.lose.2.1).1 := by
  simp [lose, hr]

theorem lose_cases (r : RelayId) : (w.lose r).1 = w ∨
    ∃ relay, w.relays[r]? = some relay ∧ w.Loses r relay (w.lose r).1 := by
  cases hr : w.relays[r]? with
  | none => exact .inl (by simp [lose, hr])
  | some relay =>
    rw [lose_eq hr]
    cases hs : relay.signal with
    | live listener =>
      refine .inr ⟨relay, rfl, ?_⟩
      cases listener with
      | none => exact .unheard hs
      | some l =>
        cases l with
        | note label nested crashes =>
          have h := w.callListener_note r { relay with signal := .lost true } rfl label nested
            crashes
          change w.Loses r relay ((w.setSignal r (.lost true)).callListener r
            { relay with signal := .lost true } (.note label nested crashes)).1
          rw [h]
          exact .noted label nested crashes hs
        | manager =>
          change w.Loses r relay (if w.managerLives then
            (w.setSignal r (.lost true)).relayLost r relay.address
            else (w.setSignal r (.lost true), none)).1
          split
          · next h => exact .told hs h
          · next h => exact .ownerless hs (Bool.not_eq_true _ ▸ h)
    | lost notified =>
      have h := setSignal_self hr
      rw [hs] at h
      exact .inl h
    | shutDown =>
      have h := setSignal_self hr
      rw [hs] at h
      exact .inl h

theorem listen_note_cases (r : RelayId) (label : String) (nested : Option String)
    (crashes : Bool) :
    (w.listen r (.note label nested crashes)).1 = w ∨ ∃ relay, w.relays[r]? = some relay ∧
      ((∃ l, relay.signal = .live l) ∧ (w.listen r (.note label nested crashes)).1 =
        w.setSignal r (.live (some (.note label nested crashes))) ∨
      relay.signal = .lost false ∧ (w.listen r (.note label nested crashes)).1 =
        (w.setSignal r (.lost true)).log (.notified label relay.address (some true))) := by
  cases hr : w.relays[r]? with
  | none => exact .inl (by simp [listen, hr])
  | some relay =>
    have he : (w.listen r (.note label nested crashes)).1 = (w.signalled r relay
        (relay.signal.listen (.note label nested crashes)).1
        (relay.signal.listen (.note label nested crashes)).2).1 := by
      simp [listen, hr]
    have hw := setSignal_self hr
    rw [he]
    cases hs : relay.signal with
    | live l => exact .inr ⟨relay, rfl, .inl ⟨⟨l, hs⟩, rfl⟩⟩
    | lost notified =>
      rw [hs] at hw
      cases notified with
      | true => exact .inl hw
      | false => exact .inr ⟨relay, rfl, .inr ⟨hs,
          w.callListener_note r { relay with signal := .lost true } rfl label nested crashes⟩⟩
    | shutDown =>
      rw [hs] at hw
      exact .inl hw

/-- What is left of the pool and the cache after a relay is gone. -/
def bereft (w : Overlay) (r : RelayId) (address : PeerAddress) : Overlay :=
  w.withManager fun m => { m with
    pool := (m.pool.remove r).1, failed := (m.failed.add address w.now).1 }

/-- What the upkeep of the pool comes to. -/
theorem relayLost_cases (r : RelayId) (address : PeerAddress) :
    w.manager.pool.contains r = false ∧ (w.relayLost r address).1 = w ∨
    w.manager.pool.contains r = true ∧ Instant.add? w.now w.manager.failed.ttl = none ∧
      (w.relayLost r address).1 = w.bereft r address ∨
    w.manager.pool.contains r = true ∧ (∃ e, Instant.add? w.now w.manager.failed.ttl = some e) ∧
      (w.relayLost r address).1 =
        ((((w.bereft r address).log (.markFailed address)).publish).tellAll address
          w.manager.observers).1 := by
  unfold relayLost
  cases hc : w.manager.pool.contains r with
  | false => exact .inl ⟨rfl, by simp [Pool.remove, hc]⟩
  | true =>
    refine .inr ?_
    simp only [Pool.remove, hc, withManager, markFailed, FailedCache.add, now, bereft]
    cases ha : Instant.add? (Instant.start + nanosPerMilli * w.clock) w.manager.failed.ttl with
    | none => exact .inl ⟨trivial, rfl, rfl⟩
    | some e => exact .inr ⟨trivial, ⟨e, rfl⟩, rfl⟩

/-- Telling, publishing and forgetting leave all else alone. -/
theorem relayLost_frame (r : RelayId) (address : PeerAddress) : ∃ mine pool failed journal,
    (w.relayLost r address).1 = { w with
      node := { w.node with address := mine },
      manager := { w.manager with pool, failed }, journal } := by
  rcases w.relayLost_cases r address with ⟨-, h⟩ | ⟨-, -, h⟩ | ⟨-, -, h⟩ <;> rw [h]
  · exact ⟨_, _, _, _, rfl⟩
  · exact ⟨_, _, _, _, rfl⟩
  · rw [tellAll_eq]
    exact ⟨_, _, _, _, rfl⟩

theorem lose_frame (r : RelayId) : ∃ s mine pool failed journal,
    (w.lose r).1 = { w.setSignal r s with
      node := { w.node with address := mine },
      manager := { w.manager with pool, failed }, journal } ∧
    ∀ relay, w.relays[r]? = some relay → relay.signal = s ∨ ∃ l, relay.signal = .live l := by
  rcases w.lose_cases r with h | ⟨relay, hr, h⟩
  · rw [h]
    cases hr : w.relays[r]? with
    | none =>
      refine ⟨.shutDown, w.node.address, w.manager.pool, w.manager.failed, w.journal, ?_, by simp⟩
      have hm : w.relays.modify r (fun x => { x with signal := .shutDown }) = w.relays :=
        List.modify_eq_self (List.getElem?_eq_none_iff.mp hr)
      simp only [setSignal, hm]
    | some relay =>
      refine ⟨relay.signal, w.node.address, w.manager.pool, w.manager.failed, w.journal, ?_, ?_⟩
      · rw [setSignal_self hr]
      · rintro _ ⟨⟩
        exact .inl rfl
  · generalize (w.lose r).1 = v at h
    have hl : ∀ s l, relay.signal = .live l → ∀ relay', some relay = some relay' →
        relay'.signal = s ∨ ∃ l, relay'.signal = .live l := by
      rintro s l hs _ ⟨⟩
      exact .inr ⟨l, hs⟩
    rw [hr]
    cases h with
    | unheard hs => exact ⟨_, _, _, _, _, rfl, hl _ _ hs⟩
    | noted label nested crashes hs => exact ⟨_, _, _, _, _, rfl, hl _ _ hs⟩
    | ownerless hs => exact ⟨_, _, _, _, _, rfl, hl _ _ hs⟩
    | told hs =>
      obtain ⟨mine, pool, failed, journal, h⟩ :=
        (w.setSignal r (.lost true)).relayLost_frame r relay.address
      exact ⟨_, _, _, _, _, h, hl _ _ hs⟩

theorem shutRelay_cases (r : RelayId) : (w.shutRelay r).1 = w ∨
    ∃ relay l, w.relays[r]? = some relay ∧ relay.signal = .live l ∧
      (w.shutRelay r).1 = (relay.watcher.elim id fun u => (cancel · u))
        (w.setSignal r .shutDown) := by
  unfold shutRelay
  cases hr : w.relays[r]? with
  | none => exact .inl rfl
  | some relay =>
    simp only
    cases hs : relay.signal with
    | live l =>
      refine .inr ⟨relay, l, rfl, hs, ?_⟩
      simp only [CloseSignal.shut]
      cases relay.watcher <;> rfl
    | lost | shutDown => exact .inl rfl

theorem shutRelay_frame (r : RelayId) : ∃ relays tasks ready,
    (w.shutRelay r).1 = { w with relays, tasks, ready } := by
  rcases w.shutRelay_cases r with h | ⟨relay, l, -, -, h⟩ <;> rw [h]
  · exact ⟨_, _, _, rfl⟩
  · cases relay.watcher with
    | none => exact ⟨_, _, _, rfl⟩
    | some a =>
      rcases (w.setSignal r .shutDown).cancel_eq a with ⟨-, h⟩ | ⟨-, rs, h, -⟩ <;>
        simp only [Option.elim, h] <;> exact ⟨_, _, _, rfl⟩

end RelayUpkeep.Overlay

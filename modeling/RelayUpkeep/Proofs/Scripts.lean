import RelayUpkeep.Scenario.Upkeep
import RelayUpkeep.Proofs.Runs

/-! # Scripts are interleavings

Whatever the steps of a script do to a manager, they do by acts: so what holds of every run holds of
all that a script reports. -/

namespace RelayUpkeep

namespace Overlay

variable {u v w : Overlay}

/-- What acts can make of an overlay. -/
def Leads (u v : Overlay) : Prop := ∃ acts, v = u.run acts

theorem Leads.refl (w : Overlay) : w.Leads w := ⟨[], rfl⟩

theorem Leads.trans (h : u.Leads v) (h' : v.Leads w) : u.Leads w := by
  obtain ⟨acts, rfl⟩ := h
  obtain ⟨more, rfl⟩ := h'
  exact ⟨acts ++ more, (run_append u acts more).symm⟩

theorem Leads.act (w : Overlay) (a : Act) : w.Leads (w.act a) := ⟨[a], rfl⟩

theorem Follows.leads (h : u.Follows v) : u.Leads v := by
  obtain ⟨acts, -, he⟩ := h
  exact ⟨acts, he⟩

theorem Leads.sound (h : u.Leads v) (hs : u.Sound) : v.Sound := by
  obtain ⟨acts, rfl⟩ := h
  exact sound_run hs acts

theorem Leads.grows (h : u.Leads v) (hs : u.Sound) : u.Grows v := by
  obtain ⟨acts, rfl⟩ := h
  exact grows_run hs acts

theorem leads_dropLinks (peers : List PeerAddress) (w : Overlay) :
    w.Leads (peers.foldl (fun w p => w.dropLink p.id) w) := by
  induction peers generalizing w with
  | nil => exact .refl w
  | cons p peers ih =>
    refine Leads.trans ?_ (ih (w.dropLink p.id))
    unfold dropLink
    split
    · next c _ => exact .act w (.dropConn c)
    · exact .refl w

end Overlay

namespace Scenario

open Overlay (Leads)

variable {config : RelayConfig} {mine : PeerAddress} {watched : List PeerAddress} {r : Run}
  {u w : Overlay}

/-! ## Steps -/

/-- Steps have led from `u` to where a script is, and each tag is that of a call. -/
structure Run.Reached (u : Overlay) (r : Run) : Prop where
  origin : u.Sound
  leads : u.Leads r.overlay
  tags : ∀ x ∈ r.tags, r.overlay.isCall x.2 = true

namespace Run.Reached

theorem sound (h : r.Reached u) : r.overlay.Sound := h.leads.sound h.origin

theorem again (h : r.Reached u) : r.Reached r.overlay := ⟨h.sound, .refl _, h.tags⟩

theorem go (h : r.Reached u) (hl : r.overlay.Leads w) :
    ({ r with overlay := w } : Run).Reached u where
  origin := h.origin
  leads := h.leads.trans hl
  tags x hx := (hl.grows h.sound).isCall (h.tags x hx)

theorem forget (h : r.Reached u) (tag : String) : (r.forget tag).Reached u :=
  { h with tags := fun x hx => h.tags x (List.mem_of_mem_filter hx) }

theorem ended (h : r.Reached u) {result : Overlay × Option Exit}
    (hl : r.overlay.Leads result.1) : (r.ended result).1.Reached u := by
  obtain ⟨w, _ | e⟩ := result <;> exact h.go hl

theorem lookup (h : r.Reached u) {tag : String} {t : TaskId}
    (ht : r.tags.lookup tag = some t) : r.overlay.isCall t = true := by
  obtain ⟨older, newer, he, -⟩ := List.lookup_eq_some_iff.mp ht
  exact h.tags (tag, t) (by simp [he])

theorem relayAt (h : r.Reached u) {index : Nat} {relay : RelayId}
    (hr : r.relayAt? index = some relay) : relay < r.overlay.relays.length := by
  obtain ⟨m, hm, rfl⟩ := List.mem_map.mp (List.mem_of_getElem? hr)
  obtain ⟨_, hr, -⟩ := h.sound.pooled m hm
  exact (List.getElem?_eq_some_iff.mp hr).1

/-- A call is made in the background. -/
theorem spawn (h : r.Reached u) (tag : String) {job : Job} {a : Act}
    (ha : r.overlay.act a = (r.overlay.spawn job none).1)
    (hc : (r.overlay.act a).isCall r.overlay.tasks.length = true) :
    (r.spawn tag job).1.Reached u := by
  have hgo := h.go (.act r.overlay a)
  rw [ha] at hgo hc
  refine { hgo with tags := fun x hx => ?_ }
  rcases List.mem_cons.mp hx with rfl | hx
  · exact hc
  · exact (hgo.forget tag).tags x hx

/-- A call is made, and the caller waits for its end. -/
theorem called (h : r.Reached u) {job : Job} {a : Act}
    (ha : r.overlay.act a = (r.overlay.spawn job none).1) (foreground : Option TaskId)
    (goal : TaskId) (fuel : Nat) (e : Option Exit) :
    (r.ended (Overlay.runUntil foreground goal fuel (r.overlay.spawn job none).1, e)).1.Reached
      u := by
  have hl := Leads.act r.overlay a
  rw [ha] at hl
  exact h.ended (hl.trans ((hl.sound h.sound).follows_runUntil foreground goal fuel).leads)

theorem stepOutside (h : r.Reached u) (s : Step) : (r.stepOutside s).1.Reached u := by
  cases s with
  | behave peers b => exact h.go (.act r.overlay (.behave peers b))
  | learn peers => exact h.go (.act r.overlay (.learn peers))
  | moveTo address => exact h.go (.act r.overlay (.moveTo address))
  | nodeDown isDown => exact h.go (.act r.overlay (.nodeDown isDown))
  | reservation reserve release => exact h.go (.act r.overlay (.reservation reserve release))
  | await tag =>
    simp only [Run.stepOutside]
    split
    · exact (h.forget tag).ended (h.sound.follows_runUntil _ _ _).leads
    · exact h
  | abort tag =>
    simp only [Run.stepOutside]
    split
    · next t ht =>
      have hl := Leads.act r.overlay (.cancel t)
      rw [Overlay.act, if_pos (h.lookup ht)] at hl
      exact h.go hl
    · exact h
  | advance ms => exact h.go (h.sound.follows_pass ms).leads
  | dropLinks peers => exact h.go (Overlay.leads_dropLinks peers r.overlay)
  | _ => exact h

theorem stepInside (h : r.Reached u) (s : Step) : (r.stepInside s).1.Reached u := by
  cases s with
  | setup manual maxFail => exact h.called (a := .setUp manual maxFail) rfl _ _ _ _
  | spawnSetup tag manual maxFail =>
    refine h.spawn tag (a := .setUp manual maxFail) rfl ?_
    simp [Overlay.isCall, Overlay.act, Overlay.spawn]
  | shutdown => exact h.called (a := .shutDown) rfl _ _ _ _
  | spawnShutdown tag =>
    refine h.spawn tag (a := .shutDown) rfl ?_
    simp [Overlay.isCall, Overlay.act, Overlay.spawn]
  | observe o => exact h.go (.act r.overlay (.observe o))
  | closeRelay index =>
    simp only [Run.stepInside]
    split
    · next relay hr => exact h.called (a := .closeRelay relay) (if_pos (h.relayAt hr)) _ _ _ _
    · exact h
  | listen index label =>
    simp only [Run.stepInside]
    split
    · next relay _ => exact h.go (.act r.overlay (.listen relay label none))
    · exact h
  | hold => exact h.go (.act r.overlay .hold)
  | dropManager => exact h.go (.act r.overlay .dropManager)
  | isFailed | config | describe => exact h
  | behave | learn | moveTo | nodeDown | reservation | await | abort | advance | dropLinks =>
    exact h.stepOutside _

theorem advance (h : r.Reached u) (watched : List PeerAddress) (s : Step) (deferred : Bool) :
    (Scenario.advance watched r s deferred).1.Reached u := by
  have hstep : (r.step s).1.Reached u := by
    unfold Run.step
    split
    · exact h.stepInside s
    · exact h.stepOutside s
  simp only [Scenario.advance]
  split
  · exact hstep
  · exact hstep.go (Overlay.follows_drain _ _ _).leads

end Run.Reached

theorem reached_start (h : Run.start config mine = .ok r) :
    r.overlay = Overlay.start config mine ∧ r.Reached (Overlay.start config mine) := by
  unfold Run.start at h
  cases hc : config.validate with
  | error e => exact absurd h (by simp [hc, Except.map])
  | ok =>
    obtain rfl : ⟨Overlay.start config mine, []⟩ = r := by simpa [hc, Except.map] using h
    exact ⟨rfl, Overlay.sound_start config mine, .refl _, by simp⟩

/-! ## Reports -/

/-- A report tells what has become of overlay `u` when it is `v`. -/
structure Report.Tells (watched : List PeerAddress) (u v : Overlay) (report : Report) : Prop where
  clock : report.clock = v.clock
  address : report.address = v.node.address
  manager : report.manager = if v.managerHeld then some (managerReport v watched) else none
  held : report.held = v.views v.held
  events : report.events = (v.journal.drop u.journal.length).map Entry.event

theorem tells_advance (watched : List PeerAddress) (r : Run) (s : Step) (deferred : Bool) :
    (advance watched r s deferred).2.Tells watched r.overlay
      (advance watched r s deferred).1.overlay :=
  ⟨rfl, rfl, rfl, rfl, rfl⟩

/-- Reports tell of one run, which goes on from each of them to the next. -/
inductive Tale (watched : List PeerAddress) : Overlay → List Report → Prop
  | done (v : Overlay) : Tale watched v []
  | next {v : Overlay} (acts : List Act) {report : Report} {rest : List Report}
      (h : report.Tells watched v (v.run acts)) (hrest : Tale watched (v.run acts) rest) :
      Tale watched v (report :: rest)

theorem tale_play (h : r.Reached r.overlay) (steps : List (Step × Bool)) :
    Tale watched r.overlay (play watched r steps) := by
  induction steps generalizing r with
  | nil => exact .done _
  | cons step steps ih =>
    obtain ⟨s, deferred⟩ := step
    have hgo := h.advance watched s deferred
    obtain ⟨acts, he⟩ := hgo.leads
    have htells := tells_advance watched r s deferred
    have hrest := ih hgo.again
    rw [he] at htells hrest
    exact .next acts htells hrest

/-- A script tells of one interleaving, from the start of the manager on. -/
theorem tale_run {steps : List (Step × Bool)} {reports : List Report}
    (h : run config mine watched steps = .ok reports) :
    Tale watched (Overlay.start config mine) reports := by
  unfold run at h
  cases hr : Run.start config mine with
  | error e => exact absurd h (by simp [hr, Except.map])
  | ok r =>
    obtain rfl : play watched r steps = reports := by simpa [hr, Except.map] using h
    obtain ⟨he, hreached⟩ := reached_start hr
    exact he ▸ tale_play hreached.again steps

theorem Tale.of_mem {reports : List Report} (h : Tale watched w reports) {report : Report}
    (hr : report ∈ reports) :
    ∃ u v, w.Leads u ∧ u.Leads v ∧ report.Tells watched u v := by
  induction h with
  | done => exact absurd hr List.not_mem_nil
  | next acts h hrest ih =>
    rcases List.mem_cons.mp hr with rfl | hr
    · exact ⟨_, _, .refl _, ⟨acts, rfl⟩, h⟩
    · obtain ⟨u, v, hu, hv, htells⟩ := ih hr
      exact ⟨u, v, Leads.trans ⟨acts, rfl⟩ hu, hv, htells⟩

/-- No report ever shows more relays than are allowed, or two of one peer. -/
theorem reported_relays {steps : List (Step × Bool)} {reports : List Report}
    (h : run config mine watched steps = .ok reports) {report : Report} (hr : report ∈ reports)
    {m : ManagerReport} (hm : report.manager = some m) :
    m.relays.length ≤ config.maxRelays ∧ (m.relays.map fun v => v.address.id).Nodup := by
  obtain ⟨u, v, hu, hv, htells⟩ := (tale_run h).of_mem hr
  have hstart := Overlay.sound_start config mine
  have hs := (hu.trans hv).sound hstart
  have hg := (hu.trans hv).grows hstart
  have hviews := hs.addresses_views
  rw [htells.manager] at hm
  split at hm
  · obtain rfl := Option.some.inj hm
    constructor
    · have hlen := congrArg List.length hviews
      rw [List.length_map, Pool.addresses, List.length_map] at hlen
      have hle := hs.pool.bounded
      rw [hs.capacity, hg.config] at hle
      exact hlen ▸ hle
    · have hids := congrArg (List.map PeerAddress.id) hviews
      rw [List.map_map] at hids
      change (List.map (PeerAddress.id ∘ RelayView.address) _).Nodup
      rw [managerReport, hids, Pool.addresses, List.map_map]
      exact hs.pool.peers
  · exact absurd hm (by simp)

end Scenario

end RelayUpkeep

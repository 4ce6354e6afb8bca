import RelayUpkeep.Proofs.Healing

/-! # Watchers of pooled relays

As long as nobody shuts a pooled relay down or listens to it in the place of the manager, its
watcher waits for its link to drop, and goes on when it has. -/

namespace RelayUpkeep.Overlay

variable {t a : TaskId} {r : RelayId} {c : ConnId} {u v w : Overlay} {relay : Relay}

/-- The manager listens to a relay, and its watcher is at work: the link is up, or the watcher is
about to go on. -/
structure Attended (w : Overlay) (relay : Relay) : Prop where
  listens : relay.signal = .live (some .manager)
  unfinished : ∀ a, relay.watcher = some a → w.isFinished a = false
  steady : ∀ a, relay.watcher = some a → ∀ task : Task, w.tasks[a]? = some task →
    task.isCancelled = false
  ready : ∀ c a, relay.conn = some c → relay.watcher = some a →
    w.isOpen c = true ∨ a ∈ w.ready

/-- If a relay is pooled, it is looked after. -/
def Minds (w : Overlay) (r : RelayId) : Prop :=
  ∀ relay : Relay, w.relays[r]? = some relay → r ∈ w.pooled → w.Attended relay

theorem minds_of_not_mem (h : r ∉ w.pooled) : w.Minds r := fun _ _ hp => absurd hp h

/-! ## Queues and links -/

theorem isOpen_of_conns (h : v.conns = u.conns) (c : ConnId) : v.isOpen c = u.isOpen c := by
  simp only [isOpen, h]

/-- What is ready stays so, but for the one who goes on; and whoever watches a link is ready when it
drops. -/
structure Heeds (t : TaskId) (u v : Overlay) : Prop where
  ready : ∀ a ≠ t, a ∈ u.ready → a ∈ v.ready
  drops : ∀ c, u.isOpen c = true → v.isOpen c = false → ∀ a ∈ u.watchersOf c,
    u.isFinished a = false → a ∈ v.ready

namespace Heeds

theorem of_ready (hr : ∀ a ≠ t, a ∈ u.ready → a ∈ v.ready)
    (hc : ∀ c, u.isOpen c = true → v.isOpen c = true) : Heeds t u v :=
  ⟨hr, fun c ho hn => absurd ((hc c ho).symm.trans hn) (by simp)⟩

theorem of_conns (hr : ∀ a ≠ t, a ∈ u.ready → a ∈ v.ready) (hc : v.conns = u.conns) :
    Heeds t u v :=
  of_ready hr fun c ho => (isOpen_of_conns hc c).trans ho

theorem wake (w : Overlay) (b : TaskId) : Heeds t w (w.wake b) := by
  obtain ⟨rs, h, hr⟩ := w.wake_eq b
  rw [h]
  exact of_conns (fun a _ ha => hr.keeps a ha) rfl

theorem cancel (w : Overlay) (b : TaskId) : Heeds t w (w.cancel b) := by
  rcases w.cancel_eq b with ⟨-, h⟩ | ⟨-, rs, h, hr⟩ <;> rw [h]
  · exact of_conns (fun _ _ ha => ha) rfl
  · exact of_conns (fun a _ ha => hr.keeps a ha) rfl

theorem finish (w : Overlay) (b : TaskId) (e : Exit) : Heeds t w (w.finish b e) := by
  obtain ⟨rs, h, hr⟩ := w.finish_eq b e
  rw [h]
  exact of_conns (fun a _ ha => hr.keeps a ha) rfl

theorem dropConn (w : Overlay) (c : ConnId) : Heeds t w (w.dropConn c) := by
  rcases w.dropConn_eq c with ⟨-, h⟩ | ⟨-, rs, h, hr⟩ <;> rw [h]
  · exact of_conns (fun _ _ ha => ha) rfl
  · refine ⟨fun a _ ha => hr.keeps a ha, fun d ho hn a ha hf => ?_⟩
    by_cases hcd : c = d
    · subst hcd
      exact hr.wakes a ha hf
    · simp only [isOpen, List.getElem?_modify_ne _ _ hcd] at ho hn
      exact absurd (ho.symm.trans hn) (by simp)

theorem stir (h : Stir t u v) : Heeds t u v := by
  cases h with
  | rest => exact of_conns (fun a hat ha => (List.mem_erase_of_ne hat).mpr ha) rfl
  | wake b => exact wake u b
  | spawn job => exact of_conns (fun a _ ha => List.mem_append_left _ ha) rfl
  | setJob | sleep | log | manage | grant => exact of_conns (fun _ _ ha => ha) rfl
  | cancel b => exact cancel u b
  | openConn remote =>
    refine of_ready (fun _ _ ha => ha) fun c ho => ?_
    obtain ⟨conn, hc, hopen⟩ := (Option.any_eq_true _ _).mp ho
    have hlt := (List.getElem?_eq_some_iff.mp hc).1
    simp [isOpen, openConn, List.getElem?_append_left hlt, hc, hopen]
  | dropConn c => exact dropConn u c

theorem made {p : PeerAddress} (h : Made u v r p) : Heeds t u v := by
  cases h with
  | openTcp => exact of_conns (fun a _ ha => List.mem_append_left _ ha) rfl
  | push => exact of_conns (fun _ _ ha => ha) rfl

theorem shutRelay (w : Overlay) (r : RelayId) : Heeds t w (w.shutRelay r).1 := by
  have hconns : (w.shutRelay r).1.conns = w.conns := by
    obtain ⟨relays, tasks, ready, h⟩ := w.shutRelay_frame r
    rw [h]
  refine of_conns (fun a hat ha => ?_) hconns
  rcases w.shutRelay_cases r with h | ⟨relay, l, -, -, h⟩ <;> rw [h]
  · exact ha
  · cases relay.watcher with
    | none => exact ha
    | some b =>
      have hc : Heeds t (w.setSignal r .shutDown) ((w.setSignal r .shutDown).cancel b) :=
        cancel _ b
      exact hc.ready a hat ha

theorem lose (w : Overlay) (r : RelayId) : Heeds t w (w.lose r).1 := by
  obtain ⟨s, mine, pool, failed, journal, h, -⟩ := w.lose_frame r
  rw [h]
  exact of_conns (fun _ _ ha => ha) rfl

end Heeds

/-! ## Moves -/

theorem relays_shutRelay_ne {s : RelayId} (h : r ≠ s) :
    (w.shutRelay s).1.relays[r]? = w.relays[r]? := by
  have hset : (w.setSignal s .shutDown).relays[r]? = w.relays[r]? :=
    List.getElem?_modify_ne _ _ h.symm
  rcases w.shutRelay_cases s with he | ⟨relay, l, -, -, he⟩ <;> rw [he]
  cases relay.watcher with
  | none => exact hset
  | some b => simpa using hset

theorem Made.relays_lt {s : RelayId} {p : PeerAddress} (h : Made u v s p)
    (hlt : r < u.relays.length) : v.relays[r]? = u.relays[r]? := by
  cases h <;> exact List.getElem?_append_left hlt

/-- A relay changes if its link is lost or someone closes it, and not otherwise. -/
theorem Move.relays_eq (h : Move t u v) (hlt : r < u.relays.length)
    (hw : u.role? t ≠ some (.watch r)) (hc : u.role? t ≠ some (.close r)) :
    v.relays[r]? = u.relays[r]? := by
  cases h with
  | stir h => rw [h.relays]
  | publish | drain => rfl
  | @accept x s p q hr hm ha =>
    have hne : s ≠ r := hm.id ▸ Nat.ne_of_gt hlt
    rw [admitted_relays, List.getElem?_modify_ne _ _ hne, hm.relays_lt hlt]
  | @refuse x s p q hr hm ha =>
    have hne : r ≠ s := hm.id ▸ Nat.ne_of_lt hlt
    exact (relays_shutRelay_ne hne).trans (hm.relays_lt hlt)
  | shut s hr =>
    refine relays_shutRelay_ne ?_
    rintro rfl
    exact hc hr
  | lose s hr hh =>
    have hne : s ≠ r := by
      rintro rfl
      exact hw hr
    obtain ⟨x, mine, pool, failed, journal, h, -⟩ := u.lose_frame s
    rw [h]
    exact List.getElem?_modify_ne _ _ hne

theorem Move.heeds (h : Move t u v) : Heeds t u v := by
  cases h with
  | stir h => exact .stir h
  | publish | drain => exact .of_conns (fun _ _ ha => ha) rfl
  | @accept x s p q hr hm ha =>
    have hx : Heeds t u x := .made hm
    exact ⟨hx.ready, hx.drops⟩
  | @refuse x s p q hr hm ha =>
    have hx : Heeds t u x := .made hm
    have hs : Heeds t (x.log (.offer s (u.verdict p))) (x.refused s (u.verdict p)) :=
      .shutRelay _ s
    have hconns : (x.refused s (u.verdict p)).conns = x.conns := by
      obtain ⟨relays, tasks, ready, h⟩ := (x.log (.offer s (u.verdict p))).shutRelay_frame s
      rw [refused, h]
      rfl
    refine ⟨fun a hat ha => hs.ready a hat (hx.ready a hat ha), fun c ho hn => ?_⟩
    have hu : x.conns = u.conns := by cases hm <;> rfl
    rw [isOpen_of_conns hconns, isOpen_of_conns hu, ho] at hn
    exact absurd hn (by simp)
  | shut s => exact .shutRelay u s
  | lose s => exact .lose u s

/-- Only a new relay comes into the pool, and an attempt brings it. -/
theorem Move.pooled_or (h : Move t u v) (hp : r ∈ v.pooled) :
    r ∈ u.pooled ∨ r = u.relays.length ∧ ∃ q, u.role? t = some (.attempt q) := by
  unfold Overlay.pooled at hp ⊢
  cases h.pool with
  | same he => exact .inl (he ▸ hp)
  | @joined q p hr ha he =>
    rw [he, List.map_append, List.mem_append] at hp
    exact hp.imp id fun hnew => ⟨by simpa using hnew, q, hr⟩
  | @lost s hr he =>
    rw [he, remove_relays] at hp
    exact .inl (List.mem_of_mem_erase hp)
  | cleared hr hs he => simp [he] at hp

/-- A relay leaves the pool by its own watcher, unless the manager is shut down. -/
theorem Move.pooled (h : Move t u v) (hw : u.role? t ≠ some (.watch r))
    (hv : v.manager.isShutDown = false) (hp : r ∈ u.pooled) : r ∈ v.pooled := by
  unfold Overlay.pooled at hp ⊢
  cases h.pool with
  | same he => rwa [he]
  | joined hr ha he =>
    rw [he, List.map_append]
    exact List.mem_append_left _ hp
  | @lost s hr he =>
    rw [he, remove_relays]
    refine (List.mem_erase_of_ne ?_).mpr hp
    rintro rfl
    exact hw hr
  | cleared hr hs he => exact absurd (hs.symm.trans hv) (by simp)

theorem Attended.mono {relay : Relay} (h : u.Attended relay)
    (hf : ∀ a, relay.watcher = some a → v.isFinished a = u.isFinished a)
    (hc : ∀ a, relay.watcher = some a → ∀ task : Task, v.tasks[a]? = some task →
      task.isCancelled = true →
      ∃ before : Task, u.tasks[a]? = some before ∧ before.isCancelled = true)
    (hr : ∀ c a, relay.conn = some c → relay.watcher = some a →
      u.isOpen c = true ∨ a ∈ u.ready → v.isOpen c = true ∨ a ∈ v.ready) : v.Attended relay where
  listens := h.listens
  unfinished a ha := (hf a ha).trans (h.unfinished a ha)
  steady a ha task ht := by
    by_contra hcan
    obtain ⟨before, hb, hbc⟩ := hc a ha task ht (by simpa using hcan)
    exact absurd (hbc.symm.trans (h.steady a ha before hb)) (by simp)
  ready c a hconn ha := hr c a hconn ha (h.ready c a hconn ha)

/-- The watcher of a relay is among those of its link. -/
theorem mem_watchersOf {relay : Relay} (hr : w.relays[r]? = some relay)
    (hc : relay.conn = some c) (ha : relay.watcher = some a) : a ∈ w.watchersOf c := by
  refine List.mem_filterMap.mpr ⟨relay, List.mem_filter.mpr ⟨?_, by simpa using hc⟩, ha⟩
  exact List.mem_of_getElem? hr

theorem Heeds.watcher (h : Heeds t u v) {relay : Relay} (hr : u.relays[r]? = some relay)
    (hc : relay.conn = some c) (ha : relay.watcher = some a) (hat : a ≠ t)
    (hf : u.isFinished a = false) (ho : u.isOpen c = true ∨ a ∈ u.ready) :
    v.isOpen c = true ∨ a ∈ v.ready := by
  rcases ho with ho | hready
  · cases hv : v.isOpen c with
    | true => exact .inl rfl
    | false => exact .inr (h.drops c ho hv a (mem_watchersOf hr hc ha) hf)
  · exact .inr (h.ready a hat hready)

/-- A relay that was just admitted is looked after. -/
theorem attended_admitted {p : PeerAddress} (h : Made u v r p)
    (hx : ∀ x ∈ u.exits, x.1 < u.tasks.length) {relay : Relay}
    (hr : (v.admitted r p).relays[r]? = some relay) : (v.admitted r p).Attended relay := by
  cases h with
  | openTcp c conn hc =>
    obtain rfl : relay =
        ⟨.openTcp, conn.remote, some c, .live (some .manager), some u.tasks.length⟩ := by
      simpa [admitted_relays, addOpenRelay, spawn] using hr.symm
    refine ⟨rfl, ?_, ?_, ?_⟩
    · rintro _ ⟨⟩
      refine not_isFinished_iff.mpr fun e he => ?_
      exact absurd (hx _ he) (Nat.lt_irrefl _)
    · rintro _ ⟨⟩ task ht
      obtain rfl := Option.some.inj (List.getElem?_concat_length.symm.trans ht)
      rfl
    · rintro c' _ ⟨⟩ ⟨⟩
      exact .inr (List.mem_append_right _ (by simp))
  | push =>
    obtain rfl : relay = ⟨.push, p, none, .live (some .manager), none⟩ := by
      simpa [admitted_relays, addPushRelay] using hr.symm
    exact ⟨rfl, by simp, by simp, by simp⟩

/-- As long as a relay stays as it is, it stays looked after whoever goes on, but for its own
watcher. -/
theorem Attended.stays (h : u.Attended relay) (hr : u.relays[r]? = some relay)
    (hr' : v.relays[r]? = some relay) (hs : u.Sound) (hv : v.Linked) (hm : Move t u v)
    (hw : u.role? t ≠ some (.watch r)) : v.Attended relay := by
  have hg := Grows.move hm
  have hrole : ∀ a, relay.watcher = some a → u.role? a = some (.watch r) :=
    fun a ha => hs.role?_watcher hr ha
  refine h.mono ?_ ?_ ?_
  · exact fun a _ => hm.isFinished a
  · intro a ha task htask hcan
    rcases hm.cancels a task htask hcan with (hserves | ⟨s, relay', hs', hw', hshut⟩) | hb
    · rcases hserves with ⟨_, _, hplays⟩ | ⟨_, hplays⟩ | ⟨_, hplays⟩ <;>
        exact absurd (hplays.role?.symm.trans (hrole a ha)) (by simp)
    · have hwatch := hv.role?_watcher hs' hw'
      rw [hg.role? (hrole a ha)] at hwatch
      obtain rfl : r = s := by simpa using hwatch
      obtain rfl := Option.some.inj (hr'.symm.trans hs')
      exact absurd (h.listens.symm.trans hshut) (by simp)
    · exact hb
  · intro c a hconn ha ho
    have hat : a ≠ t := by
      rintro rfl
      exact hw (hrole a ha)
    exact hm.heeds.watcher hr hconn ha hat (h.unfinished a ha) ho

/-- A relay of another watcher stays as it is, and stays looked after, unless it is closed. -/
theorem Attended.move (h : u.Attended relay) (hr : u.relays[r]? = some relay) (hs : u.Sound)
    (hv : v.Linked) (hm : Move t u v) (hw : u.role? t ≠ some (.watch r))
    (hc : u.role? t ≠ some (.close r)) : v.relays[r]? = some relay ∧ v.Attended relay := by
  have hr' : v.relays[r]? = some relay :=
    (hm.relays_eq (List.getElem?_eq_some_iff.mp hr).1 hw hc).trans hr
  exact ⟨hr', h.stays hr hr' hs hv hm hw⟩

/-- The relay of a new member of the pool was just admitted. -/
theorem Move.attended_new (h : Move t u v) (hs : u.Sound) (hnew : r ∉ u.pooled)
    (hp : r ∈ v.pooled) (hr : v.relays[r]? = some relay) : v.Attended relay := by
  obtain ⟨rfl, q, hq⟩ := (h.pooled_or hp).resolve_left hnew
  have hsame : v.manager.pool ≠ u.manager.pool := by
    intro he
    exact hnew (he ▸ hp : _ ∈ u.manager.pool.members.map Member.relay)
  cases h with
  | @accept x s p q hrole hmade ha =>
    obtain rfl := hmade.id
    exact attended_admitted hmade hs.exits hr
  | stir hst => exact absurd hst.pool hsame
  | publish => exact absurd rfl hsame
  | @refuse x s p q hrole hmade ha =>
    refine absurd ?_ hsame
    rw [refused, manager_shutRelay, log, hmade.manager]
  | shut s => exact absurd (by rw [manager_shutRelay]) hsame
  | lose s hrole => exact absurd (hrole.symm.trans hq) (by simp)
  | drain hrole => exact absurd (hrole.symm.trans hq) (by simp)

theorem Linked.lt_of_pooled (h : w.Linked) (hp : r ∈ w.pooled) : r < w.relays.length := by
  obtain ⟨m, hm, rfl⟩ := List.mem_map.mp hp
  obtain ⟨relay, hr, -⟩ := h.pooled m hm
  exact (List.getElem?_eq_some_iff.mp hr).1

theorem Minds.move (h : u.Minds r) (hs : u.Sound) (hv : v.Linked) (hm : Move t u v)
    (hw : u.role? t ≠ some (.watch r)) (hc : u.role? t = some (.close r) → r ∉ u.pooled) :
    v.Minds r := by
  intro relay hr hp
  by_cases hpu : r ∈ u.pooled
  · have hb := List.getElem?_eq_getElem (hs.lt_of_pooled hpu)
    obtain ⟨hr', ha⟩ := (h _ hb hpu).move hb hs hv hm hw fun hrole => hc hrole hpu
    obtain rfl := Option.some.inj (hr.symm.trans hr')
    exact ha
  · exact hm.attended_new hs hpu hp hr

/-- A relay that is pooled is looked after whoever goes on, unless it is closed. -/
theorem Minds.moves (h : u.Minds r) (hs : u.Sound) (hm : Moves t u v) (hlt : t < u.tasks.length)
    (hf : u.isFinished t = false) (hw : u.role? t ≠ some (.watch r))
    (hc : u.role? t = some (.close r) → r ∉ u.pooled) :
    v.Minds r ∧ (u.role? t = some (.close r) → r ∉ v.pooled) := by
  induction hm with
  | refl => exact ⟨h, hc⟩
  | @tail x y hx hy ih =>
    obtain ⟨hminds, hnot⟩ := ih
    have hrole : x.role? t = u.role? t := (Grows.moves hx).role?_eq hlt
    refine ⟨hminds.move (hs.moves hx hlt hf) (hs.moves (hx.tail hy) hlt hf).toLinked hy
      (hrole ▸ hw) (hrole ▸ hnot), fun hclose hp => ?_⟩
    rcases hy.pooled_or hp with hp | ⟨-, q, hq⟩
    · exact hnot hclose hp
    · exact absurd (hq.symm.trans (hrole.trans hclose)) (by simp)

theorem isFinished_finish_ne {b : TaskId} (h : b ≠ t) (e : Exit) :
    (w.finish t e).isFinished b = w.isFinished b := by
  simp only [isFinished, (Frame.finish (t := t) w e).exits b h]

theorem Minds.finish (h : w.Minds r) (hs : w.Sound) (hw : w.role? t ≠ some (.watch r)) (e : Exit) :
    (w.finish t e).Minds r := by
  intro relay hr hp
  rw [relays_finish] at hr
  rw [Overlay.pooled, manager_finish] at hp
  have ha := h relay hr hp
  have hne : ∀ b, relay.watcher = some b → b ≠ t := by
    rintro b hb rfl
    exact hw (hs.role?_watcher hr hb)
  refine ha.mono ?_ ?_ ?_
  · exact fun b hb => isFinished_finish_ne (hne b hb) e
  · intro b _ task htask hcan
    exact ⟨task, by rwa [tasks_finish] at htask, hcan⟩
  · intro c b hc hb ho
    exact (Heeds.finish w t e).watcher hr hc hb (hne b hb) (ha.unfinished b hb) ho

theorem Minds.turns (h : u.Minds r) (hs : u.Sound) (ht : Turns t u v) (hlt : t < u.tasks.length)
    (hf : u.isFinished t = false) (hw : u.role? t ≠ some (.watch r))
    (hc : u.role? t = some (.close r) → r ∉ u.pooled) : v.Minds r := by
  obtain ⟨x, hx, rfl | ⟨e, rfl⟩⟩ := ht
  · exact (h.moves hs hx hlt hf hw hc).1
  · refine (h.moves hs hx hlt hf hw hc).1.finish (hs.moves hx hlt hf) ?_ e
    exact (Grows.moves hx).role?_eq hlt ▸ hw

theorem Turns.pooled (h : Turns t u v) (hlt : t < u.tasks.length)
    (hw : u.role? t ≠ some (.watch r)) (hv : v.manager.isShutDown = false) (hp : r ∈ u.pooled) :
    r ∈ v.pooled := by
  refine h.keep (P := fun x => x.manager.isShutDown = false → r ∈ x.pooled) hlt (fun _ => hp)
    (fun x y hx hrole hm hv => ?_) (fun x e hx hv => ?_) hv
  · have hup : x.manager.isShutDown = false := by
      by_contra hdown
      exact absurd ((Grows.move hm).shutDown (by simpa using hdown)) (by simp [hv])
    exact hm.pooled (hrole ▸ hw) hv (hx hup)
  · rw [manager_finish] at hv
    rw [Overlay.pooled, manager_finish]
    exact hx hv

/-! ## What watchers do -/

/-- Neither the pool, the failed peers nor the address change, and no observer is told of a loss. -/
structure Unmoved (u v : Overlay) : Prop where
  manager : v.manager = u.manager
  node : v.node = u.node
  losses : v.losses = u.losses

theorem losses_append {more : List Entry} (h : v.journal = u.journal ++ more)
    (hm : ∀ e ∈ more, e.event.isLoss = false) : v.losses = u.losses := by
  have hn : more.filter (fun e => e.event.isLoss) = [] :=
    List.filter_eq_nil_iff.mpr (by simpa using hm)
  rw [losses, h, List.filter_append, hn, List.append_nil, losses]

theorem Event.isLoss_of_isPlain {e : Event} (h : e.isPlain = true) : e.isLoss = false := by
  cases e <;> first | rfl | exact absurd h (by simp [Event.isPlain])

theorem Calm.losses (h : u.Calm v) : v.losses = u.losses := by
  obtain ⟨more, hj, hp⟩ := h.journal
  exact losses_append hj fun e he => Event.isLoss_of_isPlain (hp e he)

/-- A relay that is not pooled is lost in silence. -/
theorem unmoved_lose (h : r ∉ w.pooled) : w.Unmoved (w.lose r).1 := by
  have hc : w.manager.pool.contains r = false := by
    rw [← Bool.not_eq_true, contains_iff]
    exact h
  rcases w.lose_cases r with he | ⟨relay, -, hl⟩
  · rw [he]
    exact ⟨rfl, rfl, rfl⟩
  · generalize (w.lose r).1 = v at hl
    cases hl with
    | unheard | ownerless => exact ⟨rfl, rfl, rfl⟩
    | noted => exact ⟨rfl, rfl, losses_append rfl (by simp [Event.isLoss])⟩
    | told =>
      rcases (w.setSignal r (.lost true)).relayLost_cases r relay.address with
        ⟨-, he⟩ | ⟨hn, -⟩ | ⟨hn, -⟩
      · rw [he]
        exact ⟨rfl, rfl, rfl⟩
      · exact absurd (hn.symm.trans hc) (by simp)
      · exact absurd (hn.symm.trans hc) (by simp)

/-- A watcher that goes on waits on, notices that its link is down, or leaves because it was asked
to or because nobody holds its relay. -/
inductive Watches (r : RelayId) (relay : Relay) (a : TaskId) (w : Overlay) : Overlay → Prop
  | waits {c : ConnId} (hc : relay.conn = some c) (ho : w.isOpen c = true) :
      Watches r relay a w { w with ready := w.ready.erase a }
  | notices {c : ConnId} {e : Exit} (hc : relay.conn = some c) (ho : w.isOpen c = false) :
      Watches r relay a w ((({ w with ready := w.ready.erase a } : Overlay).lose r).1.finish a e)
  | leaves {e : Exit} (h : (∃ task : Task, w.tasks[a]? = some task ∧ task.isCancelled = true) ∨
        w.isHeld r = false) :
      Watches r relay a w (({ w with ready := w.ready.erase a } : Overlay).finish a e)

/-- A relay that is watched keeps its connection. -/
theorem Sound.conn_of_watcher (h : w.Sound) (hr : w.relays[r]? = some relay)
    (hw : relay.watcher = some a) : ∃ c, relay.conn = some c := by
  have htends := h.tends r relay hr
  unfold Tends at htends
  split at htends
  · obtain ⟨c, -, hconn, -⟩ := htends
    exact ⟨c, hconn⟩
  · exact absurd (htends.2.symm.trans hw) (by simp)

theorem Sound.poll_watcher (h : w.Sound) (hr : w.relays[r]? = some relay)
    (hw : relay.watcher = some a) (hf : w.isFinished a = false) :
    w.Watches r relay a (w.poll a) := by
  obtain ⟨task, ht, hrole⟩ := role?_eq_some.mp (h.role?_watcher hr hw)
  have hjob : task.job = .watch r := by
    cases hj : task.job <;> simp [hj, Job.role] at hrole ⊢
    exact hrole
  cases hc : task.isCancelled with
  | true =>
    rw [poll_abandon ht hf hc, hjob]
    exact .leaves (.inl ⟨task, ht, hc⟩)
  | false =>
    obtain ⟨c, hconn⟩ := h.conn_of_watcher hr hw
    rw [poll_resume ht hf hc, hjob]
    simp only [resume, pollWatch, hr, Option.bind_some, hconn]
    split
    · next ho => exact .waits hconn ho
    · next ho =>
      have ho' : w.isOpen c = false := Bool.eq_false_iff.mpr ho
      split
      · split <;> next hl =>
          have hl' := congrArg Prod.fst hl
          simp only at hl'
          rw [← hl']
          exact .notices hconn ho'
      · next hh => exact .leaves (.inr (Bool.eq_false_iff.mpr hh))

theorem isHeld_of_pooled (hm : w.managerLives = true) (h : r ∈ w.pooled) : w.isHeld r = true := by
  simp [isHeld, hm, contains_iff.mpr h]

/-- The loss of a pooled relay is healed when its watcher goes on. -/
theorem Attended.healed (h : w.Attended relay) (hr : w.relays[r]? = some relay) (hs : w.Sound)
    (hp : r ∈ w.pooled) (hm : w.managerLives = true) (ht : w.InTime)
    (hw : relay.watcher = some a) (hc : relay.conn = some c) (ho : w.isOpen c = false) :
    Healed r relay.address w (w.poll a) := by
  have hv := hs.poll_watcher hr hw (h.unfinished a hw)
  generalize w.poll a = v at hv
  cases hv with
  | waits hc' ho' =>
    obtain rfl := Option.some.inj (hc.symm.trans hc')
    exact absurd (ho.symm.trans ho') (by simp)
  | notices =>
    have hh : Healed r relay.address { w with ready := w.ready.erase a }
        (({ w with ready := w.ready.erase a } : Overlay).lose r).1 :=
      healed_lose hr h.listens hm hp (hs.rest a).toLinked ht
    obtain ⟨rs, hfin, -⟩ :=
      (({ w with ready := w.ready.erase a } : Overlay).lose r).1.finish_eq a ‹_›
    rw [hfin]
    exact { hh with }
  | leaves hl =>
    rcases hl with ⟨task, htask, hcan⟩ | hn
    · exact absurd ((h.steady a hw task htask).symm.trans hcan) (by simp)
    · exact absurd ((isHeld_of_pooled hm hp).symm.trans hn) (by simp)

theorem Unmoved.trans (h : u.Unmoved v) (h' : v.Unmoved w) : u.Unmoved w :=
  ⟨h'.manager.trans h.manager, h'.node.trans h.node, h'.losses.trans h.losses⟩

theorem Unmoved.finish (h : u.Unmoved v) (e : Exit) : u.Unmoved (v.finish t e) := by
  obtain ⟨rs, hfin, -⟩ := v.finish_eq t e
  rw [hfin]
  exact { h with }

/-- Nothing comes of the watcher of a relay that is not pooled. -/
theorem Sound.unmoved_poll (h : w.Sound) (hrole : w.role? a = some (.watch r))
    (hp : r ∉ w.pooled) : w.Unmoved (w.poll a) := by
  have hrest : w.Unmoved { w with ready := w.ready.erase a } := ⟨rfl, rfl, rfl⟩
  cases hf : w.isFinished a with
  | true =>
    rw [poll_finished hf]
    exact hrest
  | false =>
    obtain ⟨relay, hr, hw⟩ := h.watches a r hrole
    have hv := h.poll_watcher hr hw hf
    generalize w.poll a = v at hv
    cases hv with
    | waits => exact hrest
    | notices =>
      have hl := unmoved_lose (w := { w with ready := w.ready.erase a }) hp
      exact (hrest.trans hl).finish _
    | leaves => exact hrest.finish _

theorem Minds.poll_watcher (h : w.Minds r) (hs : w.Sound) (hr : w.relays[r]? = some relay)
    (hw : relay.watcher = some a) (hf : w.isFinished a = false) (hm : w.managerLives = true) :
    (w.poll a).Minds r := by
  by_cases hp : r ∈ w.pooled
  · have ha := h relay hr hp
    have hv := hs.poll_watcher hr hw hf
    generalize w.poll a = v at hv
    cases hv with
    | waits hc ho =>
      intro relay' hr' _
      obtain rfl := Option.some.inj (hr.symm.trans hr')
      refine ⟨ha.listens, ha.unfinished, ha.steady, fun c' b hc' _ => .inl ?_⟩
      obtain rfl := Option.some.inj (hc.symm.trans hc')
      exact ho
    | notices hc ho =>
      refine minds_of_not_mem ?_
      rw [pooled, manager_finish]
      exact not_pooled_lose hr ha.listens hm (hs.rest a).toLinked
    | leaves hl =>
      rcases hl with ⟨task, htask, hcan⟩ | hn
      · exact absurd ((ha.steady a hw task htask).symm.trans hcan) (by simp)
      · exact absurd ((isHeld_of_pooled hm hp).symm.trans hn) (by simp)
  · refine minds_of_not_mem ?_
    have hu := hs.unmoved_poll (hs.role?_watcher hr hw) hp
    rwa [Overlay.pooled, hu.manager]

/-! ## Every act -/

/-- Somebody shuts a pooled relay down, or listens to it in the place of the manager. -/
def meddles (w : Overlay) : Act → Bool
  | .poll t => w.pooled.any fun r => w.role? t = some (.close r)
  | .listen r _ _ => w.pooled.contains r
  | _ => false

/-- The manager lives and is not shut down, nobody meddles with what it looks after, and the clock
does not overflow. -/
def Heedful (w : Overlay) (a : Act) : Prop :=
  w.managerLives = true ∧ (w.act a).manager.isShutDown = false ∧ w.meddles a = false ∧ w.InTime

instance (w : Overlay) (a : Act) : Decidable (w.Heedful a) :=
  inferInstanceAs
    (Decidable (_ ∧ _ ∧ _ ∧ (Instant.add? w.now w.manager.config.failedWait).isSome = true))

/-- The watcher of a relay goes on while the link is down. -/
def notices (w : Overlay) (r : RelayId) : Act → Bool
  | .poll a => w.ready.contains a && (w.relays[r]?).any fun relay =>
      relay.watcher = some a && relay.conn.any fun c => !w.isOpen c
  | _ => false

theorem Heedful.not_close (h : w.Heedful (.poll t)) (hrole : w.role? t = some (.close r)) :
    r ∉ w.pooled := by
  intro hp
  have hm := h.2.2.1
  simp only [meddles, List.any_eq_false] at hm
  exact hm r hp (by simpa using hrole)

theorem Minds.rest (h : w.Minds r) (hf : w.isFinished t = true) :
    ({ w with ready := w.ready.erase t } : Overlay).Minds r := by
  intro relay hr hp
  have ha := h relay hr hp
  refine ⟨ha.listens, ha.unfinished, ha.steady, fun c a hc hw => (ha.ready c a hc hw).imp id ?_⟩
  refine (List.mem_erase_of_ne ?_).mpr
  rintro rfl
  exact absurd ((ha.unfinished a hw).symm.trans hf) (by simp)

theorem Minds.poll (h : w.Minds r) (hs : w.Sound) (ht : t ∈ w.ready) (ha : w.Heedful (.poll t)) :
    (w.poll t).Minds r := by
  cases hf : w.isFinished t with
  | true =>
    rw [poll_finished hf]
    exact h.rest hf
  | false =>
    by_cases hrole : w.role? t = some (.watch r)
    · obtain ⟨relay, hr, hw⟩ := hs.watches t r hrole
      exact h.poll_watcher hs hr hw hf ha.1
    · exact h.turns hs (hs.poll_turns t) (hs.ready t ht) hf hrole ha.not_close

theorem heeds_act {x : Act} (hp : x.isPoll = false) : Heeds t w (w.act x) := by
  have hrefl : ∀ v : Overlay, v.ready = w.ready → v.conns = w.conns → Heeds t w v :=
    fun v hr hc => .of_conns (fun a _ ha => hr ▸ ha) hc
  have hspawn : ∀ job, Heeds t w (w.spawn job none).1 :=
    fun job => .of_conns (fun a _ ha => List.mem_append_left _ ha) rfl
  cases x with
  | poll => exact absurd hp (by simp [Act.isPoll])
  | elapse ms =>
    obtain ⟨rs, h, hr⟩ := w.advanceTo_eq (w.clock + ms)
    simp only [act, h]
    exact .of_conns (fun a _ ha => hr.keeps a ha) rfl
  | setUp | shutDown => exact hspawn _
  | closeRelay s =>
    simp only [act]
    split
    · exact hspawn _
    · exact hrefl w rfl rfl
  | cancel b =>
    simp only [act]
    split
    · exact .cancel w b
    · exact hrefl w rfl rfl
  | listen s label nested =>
    obtain ⟨relays, more, h, -⟩ := w.listen_note_frame s label nested
    simp only [act, h]
    exact hrefl _ rfl rfl
  | dropConn c => exact .dropConn w c
  | observe | behave | learn | nodeDown | reservation | hold | dropManager | moveTo =>
    exact hrefl _ rfl rfl

/-- A pooled relay stays as it is from outside, unless someone else listens to it. -/
theorem relays_act {x : Act} (hp : x.isPoll = false)
    (hm : ∀ label nested, x ≠ .listen r label nested) : (w.act x).relays[r]? = w.relays[r]? := by
  cases x with
  | poll => exact absurd hp (by simp [Act.isPoll])
  | elapse ms =>
    obtain ⟨rs, h, -⟩ := w.advanceTo_eq (w.clock + ms)
    simp only [act, h]
  | closeRelay s =>
    simp only [act]
    split <;> rfl
  | cancel b =>
    simp only [act]
    split
    · rcases w.cancel_eq b with ⟨-, h⟩ | ⟨-, rs, h, -⟩ <;> rw [h]
    · rfl
  | listen s label nested =>
    have hrs : s ≠ r := by
      rintro rfl
      exact hm label nested rfl
    rcases w.listen_note_cases s label nested false with h | ⟨relay, -, ⟨-, h⟩ | ⟨-, h⟩⟩ <;>
      simp only [act, h]
    · exact List.getElem?_modify_ne _ _ hrs
    · exact List.getElem?_modify_ne _ _ hrs
  | dropConn c => rcases w.dropConn_eq c with ⟨-, h⟩ | ⟨-, rs, h, -⟩ <;> simp only [act, h]
  | setUp | shutDown | observe | behave | learn | nodeDown | reservation | hold | dropManager
  | moveTo => rfl

/-- From outside nothing becomes of the pool, and no observer is told of a loss. -/
theorem quiet_act {x : Act} (hp : x.isPoll = false) :
    (w.act x).manager.pool = w.manager.pool ∧ (w.act x).losses = w.losses := by
  cases hn : x.movesNode with
  | true =>
    cases x with
    | moveTo => exact ⟨rfl, rfl⟩
    | _ => exact absurd hn (by simp [Act.movesNode])
  | false =>
    have ho : w.Outside (w.act x) := outside_act hp hn
    exact ⟨ho.pool, ho.toCalm.losses⟩

theorem exits_act {x : Act} (hp : x.isPoll = false) : (w.act x).exits = w.exits := by
  cases hn : x.movesNode with
  | true =>
    cases x with
    | moveTo => rfl
    | _ => exact absurd hn (by simp [Act.movesNode])
  | false =>
    have ho : w.Outside (w.act x) := outside_act hp hn
    exact ho.exits

theorem isCall_watcher (h : w.role? a = some (.watch r)) : w.isCall a = false := by
  obtain ⟨⟨job, parent, isCancelled⟩, ht, hr⟩ := role?_eq_some.mp h
  cases job <;> simp [isCall, ht, Job.role] at hr ⊢

theorem Minds.outside (h : w.Minds r) (hs : w.Sound) {x : Act} (hp : x.isPoll = false)
    (hm : w.meddles x = false) : (w.act x).Minds r := by
  intro relay hr hpool
  have hp' : r ∈ w.pooled := by
    rw [Overlay.pooled, (quiet_act hp).1] at hpool
    exact hpool
  have hlisten : ∀ label nested, x ≠ .listen r label nested := by
    rintro label nested rfl
    simp [meddles, hp'] at hm
  rw [relays_act hp hlisten] at hr
  have ha := h relay hr hp'
  refine ha.mono ?_ ?_ ?_
  · exact fun a _ => isFinished_of_exits (exits_act hp) a
  · intro a hw task htask hcan
    rcases act_cancels hp a task htask hcan with ⟨-, hcall⟩ | hb
    · exact absurd (hcall.symm.trans (isCall_watcher (hs.role?_watcher hr hw))) (by simp)
    · exact hb
  · intro c a hc hw ho
    have hh : Heeds (a + 1) w (w.act x) := heeds_act hp
    exact hh.watcher hr hc hw (Nat.ne_of_lt (Nat.lt_succ_self a)) (ha.unfinished a hw) ho

theorem Minds.act (h : w.Minds r) (hs : w.Sound) {x : Act} (hx : w.Heedful x) :
    (w.act x).Minds r := by
  rcases w.poll_cases x with ⟨t, ht, rfl, he⟩ | ⟨t, -, rfl, he⟩ | hp
  · rw [he]
    exact h.poll hs ht hx
  · rwa [he]
  · exact h.outside hs hp hx.2.2.1

end RelayUpkeep.Overlay

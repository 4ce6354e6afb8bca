import RelayUpkeep.Proofs.Remains

/-! # Which relays stay in the pool

A relay whose link is down leaves the pool as soon as its watcher goes on, and a shutdown of the
manager empties the pool in its first step. But nobody tells the manager when a holder of a pooled
relay shuts that relay down: it stays in the pool, and is advertised as before. -/

namespace RelayUpkeep.Overlay

variable {t s a : TaskId} {r : RelayId} {u v w : Overlay}

/-! ## Parts of a shutdown -/

/-- Shutdown `s` is under way, or has started someone to shut a relay down. -/
def Empties (s : TaskId) (w : Overlay) : Prop :=
  w.Doing Job.isClosing s ∨ ∃ a r, w.Plays a (.close r) (some s)

theorem Job.isFresh_of_isClosing {job : Job} (h : job.isClosing = true) : job.isFresh = false := by
  unfold Job.isClosing at h
  split at h <;> first | rfl | exact absurd h (by simp)

theorem Job.role_of_isClosing {job : Job} (h : job.isClosing = true) : job.role = .shutdown := by
  unfold Job.isClosing at h
  split at h <;> first | rfl | exact absurd h (by simp)

/-- Whoever does so goes on, or has done so before. -/
theorem Sound.empties_act (h : w.Sound) {x : Act} (he : (w.act x).Empties s) :
    w.Empties s ∨ x = .poll s ∧ s ∈ w.ready ∧ w.role? s = some .shutdown := by
  have hg := h.grows_act x
  rcases he with hd | ⟨a, r, hplays⟩
  · by_cases hx : x = .poll s
    · subst hx
      by_cases hready : s ∈ w.ready
      · obtain ⟨-, task, ht, hj⟩ := hd
        rw [← hg.role?_eq (h.ready s hready)]
        exact .inr ⟨rfl, hready, role?_eq_some.mpr ⟨task, ht, Job.role_of_isClosing hj⟩⟩
      · rw [Overlay.act, if_neg hready] at hd
        exact .inl (.inl hd)
    · exact .inl (.inl ((h.doing_act hx fun _ => Job.isFresh_of_isClosing).mp hd))
  · by_cases hlt : a < w.tasks.length
    · exact .inl (.inr ⟨a, r, hplays.back hg hlt⟩)
    · obtain ⟨task, ht, hrole, hp⟩ := hplays
      rcases h.parent_new ht (Nat.le_of_not_lt hlt) with hn | ⟨s', hready, hx, hp'⟩
      · exact absurd (hp.symm.trans hn) (by simp)
      · obtain rfl := Option.some.inj (hp.symm.trans hp')
        obtain ⟨-, role, hr, hlead⟩ := (h.act x).parents a task s ht hp
        rw [hg.role?_eq (h.ready s hready)] at hr
        rw [hrole] at hlead
        refine .inr ⟨hx, hready, ?_⟩
        cases role with
        | shutdown => exact hr
        | setup | guard | attempt | watch | close | release =>
          exact absurd hlead (by simp [Role.leads])

/-- The first to do so is a shutdown that takes its first step. -/
theorem begins_of_empties (hready : s ∈ w.ready) (hr : w.role? s = some .shutdown)
    (hn : ¬w.Empties s) (he : (w.poll s).Empties s) : w.begins s = true := by
  obtain ⟨task, ht, hrole⟩ := role?_eq_some.mp hr
  have hkeep : w.Keeps (w.poll s) → (w.poll s).Doing Job.isClosing s := fun hk =>
    he.resolve_right fun ⟨a, r, child, hc, hcr, hcp⟩ => by
      obtain ⟨before, hb, hj, hp⟩ := hk a child hc
      exact hn (.inr ⟨a, r, before, hb, hj ▸ hcr, hp ▸ hcp⟩)
  cases hf : w.isFinished s with
  | true =>
    rw [poll_finished hf] at hkeep
    exact absurd (.inl (hkeep (.of_eq rfl))) hn
  | false =>
    cases hc : task.isCancelled with
    | true =>
      rw [poll_abandon ht hf hc] at hkeep
      have hend := (hkeep (keeps_abandon _ _ _)).1
      exact absurd (isFinished_finish _ _ _) (by simpa [abandon] using hend)
    | false =>
      refine begins_iff.mpr ⟨hready, hf, task, ht, ?_, hc⟩
      cases hj : task.job with
      | shutdown stage =>
        cases stage with
        | entering => rfl
        | queued | closing => exact absurd (.inl ⟨hf, task, ht, by rw [hj]; rfl⟩) hn
      | setup | guardAttempt | attempt | watch | closeRelay | releaseCreator =>
        simp [hj, Job.role] at hrole

/-- The manager is stopped before any shutdown has a relay shut down. -/
def Heralded (w : Overlay) : Prop := ∀ s, w.Empties s → w.Stopped

theorem heralded_start (config : RelayConfig) (address : PeerAddress) :
    (start config address).Heralded := by
  rintro s (⟨-, task, ht, -⟩ | ⟨a, r, task, ht, -⟩) <;> simp [start] at ht

theorem Heralded.act (h : w.Heralded) (hs : w.Sound) (x : Act) : (w.act x).Heralded := by
  intro s he
  by_cases hw : w.Empties s
  · exact (hs.act_stopped (h s hw) x).1
  · obtain ⟨rfl, hready, hr⟩ := (hs.empties_act he).resolve_left hw
    refine (hs.stopped_of_begins (begins_of_empties hready hr hw ?_)).1
    rwa [Overlay.act, if_pos hready] at he

theorem heralded_run (config : RelayConfig) (mine : PeerAddress) (acts : List Act) :
    ((start config mine).run acts).Heralded := by
  induction acts using List.reverseRecOn with
  | nil => exact heralded_start config mine
  | append_singleton acts x ih =>
    exact run_concat _ acts x ▸ ih.act (sound_run (sound_start config mine) acts) x

/-! ## Relays that are shut down in the pool -/

def IsShut (r : RelayId) (w : Overlay) : Prop :=
  ∃ relay, w.relays[r]? = some relay ∧ relay.signal = .shutDown

/-- A holder of relay `r` has shut it down. -/
def ShutByHolder (r : RelayId) (w : Overlay) : Prop :=
  w.IsShut r ∧ ∃ a, w.Plays a (.close r) none

theorem IsShut.mono (h : u.IsShut r) (hg : u.Grows v) : v.IsShut r := by
  obtain ⟨relay, hr, hs⟩ := h
  obtain ⟨relay', hr', hk⟩ := hg.relays r relay hr
  have hleads := hk.signal
  refine ⟨relay', hr', ?_⟩
  rw [hs] at hleads
  generalize relay'.signal = sig at hleads
  cases hleads
  rfl

theorem ShutByHolder.mono (h : u.ShutByHolder r) (hg : u.Grows v) : v.ShutByHolder r := by
  obtain ⟨hs, a, ha⟩ := h
  exact ⟨hs.mono hg, a, ha.mono hg⟩

/-- The task that shuts a relay down does, and otherwise leaves it to its watcher. -/
theorem Minds.close_move (h : u.Minds r) (hs : u.Sound) (hv : v.Linked) (hm : Move t u v)
    (hrole : u.role? t = some (.close r)) : v.IsShut r ∨ v.Minds r := by
  have hsame : v.relays = u.relays → v.pooled = u.pooled → v.Minds r := by
    intro hrel hpool relay hr hp
    rw [hrel] at hr
    refine (h relay hr (hpool ▸ hp)).stays hr (hrel ▸ hr) hs hv hm ?_
    simp [hrole]
  cases hm with
  | stir hst => exact .inr (hsame hst.relays (by rw [pooled, hst.pool, pooled]))
  | publish => exact .inr (hsame rfl rfl)
  | shut s hr =>
    obtain rfl : s = r := by simpa [hrole] using hr.symm
    by_cases hp : s ∈ u.pooled
    · have hrel := List.getElem?_eq_getElem (hs.lt_of_pooled hp)
      exact .inl ⟨_, relays_shutRelay_self hrel (h _ hrel hp).listens, rfl⟩
    · refine .inr (minds_of_not_mem ?_)
      rwa [pooled, manager_shutRelay]
  | accept hr | refuse hr | lose _ hr | drain hr => exact absurd (hrole.symm.trans hr) (by simp)

theorem Minds.close_turns (h : u.Minds r) (hs : u.Sound) (ht : Turns t u v)
    (hlt : t < u.tasks.length) (hf : u.isFinished t = false)
    (hrole : u.role? t = some (.close r)) : v.IsShut r ∨ v.Minds r := by
  have hmoves : ∀ {x}, Moves t u x → x.IsShut r ∨ x.Minds r := by
    intro x hx
    induction hx with
    | refl => exact .inr h
    | @tail x y hx hy ih =>
      refine ih.elim (fun ih => .inl (ih.mono (.move hy))) fun ih => ?_
      refine ih.close_move (hs.moves hx hlt hf) (hs.moves (hx.tail hy) hlt hf).toLinked hy ?_
      rwa [(Grows.moves hx).role?_eq hlt]
  obtain ⟨x, hx, rfl | ⟨e, rfl⟩⟩ := ht
  · exact hmoves hx
  · refine (hmoves hx).imp (fun hi => hi.mono (.finish x t e)) fun hm => ?_
    refine hm.finish (hs.moves hx hlt hf) ?_ e
    simp [(Grows.moves hx).role?_eq hlt, hrole]

/-! ## Runs -/

/-- Someone listens to a pooled relay in the place of the manager. -/
def deafens (w : Overlay) : Act → Bool
  | .listen r _ _ => w.pooled.contains r
  | _ => false

/-- The manager lives, and nobody else listens to its relays. -/
def Attentive (w : Overlay) (x : Act) : Prop := w.managerLives = true ∧ w.deafens x = false

instance (w : Overlay) (x : Act) : Decidable (w.Attentive x) :=
  inferInstanceAs (Decidable (_ ∧ _))

/-- If relay `r` is pooled, it is looked after, or a holder has shut it down. -/
def Keeping (r : RelayId) (w : Overlay) : Prop := w.ShutByHolder r ∨ w.Minds r

theorem Minds.keeping_poll (h : w.Minds r) (hs : w.Sound) (hh : w.Heralded)
    (hm : w.managerLives = true) (hready : t ∈ w.ready) : (w.poll t).Keeping r := by
  have hlt := hs.ready t hready
  cases hf : w.isFinished t with
  | true =>
    rw [poll_finished hf]
    exact .inr (h.rest hf)
  | false =>
    by_cases hw : w.role? t = some (.watch r)
    · obtain ⟨relay, hr, ha⟩ := hs.watches t r hw
      exact .inr (h.poll_watcher hs hr ha hf hm)
    by_cases hc : w.role? t = some (.close r) ∧ r ∈ w.pooled
    · obtain ⟨hrole, hp⟩ := hc
      refine (h.close_turns hs (hs.poll_turns t) hlt hf hrole).imp (fun hi => ⟨hi, t, ?_⟩) id
      obtain ⟨task, ht, hr⟩ := role?_eq_some.mp hrole
      refine Plays.mono (.turns (hs.poll_turns t)) ⟨task, ht, hr, ?_⟩
      -- no shutdown has begun, for the pool is not empty
      cases hpar : task.parent with
      | none => rfl
      | some s =>
        have hstop := hh s (.inr ⟨t, r, task, ht, hr, hpar⟩)
        exact absurd hp (by simp [pooled, hstop.pool])
    · exact .inr (h.turns hs (hs.poll_turns t) hlt hf hw fun hrole hp => hc ⟨hrole, hp⟩)

theorem Keeping.act (h : w.Keeping r) (hs : w.Sound) (hh : w.Heralded) {x : Act}
    (hx : w.Attentive x) : (w.act x).Keeping r := by
  rcases h with h | h
  · exact .inl (h.mono (hs.grows_act x))
  rcases w.poll_cases x with ⟨t, hready, rfl, he⟩ | ⟨t, -, rfl, he⟩ | hp
  · rw [he]
    exact h.keeping_poll hs hh hx.1 hready
  · exact .inr (he.symm ▸ h)
  · refine .inr (h.outside hs hp ?_)
    cases x with
    | poll => exact absurd hp (by simp [Act.isPoll])
    | listen s label nested => exact hx.2
    | _ => rfl

theorem keeping_run (config : RelayConfig) (mine : PeerAddress) {acts : List Act}
    (ha : (start config mine).Along Attentive acts) (r : RelayId) :
    ((start config mine).run acts).Keeping r := by
  refine (run_induction (P := fun v => v.Sound ∧ v.Heralded ∧ v.Keeping r)
    ⟨sound_start config mine, heralded_start config mine, .inr (minds_of_not_mem ?_)⟩ ?_ acts ha).2.2
  · simp [start, pooled, Manager.new, Pool.empty]
  · rintro v x ⟨hs, hh, hk⟩ hx
    exact ⟨hs.act x, hh.act hs x, hk.act hs hh hx⟩

/-- The link of relay `r` is up. -/
def Live (r : RelayId) (w : Overlay) : Prop :=
  ∃ relay, w.relays[r]? = some relay ∧ relay.signal.isClosed = false ∧
    ∀ c, relay.conn = some c → w.isOpen c = true

/-- When no task is ready, a relay that is looked after is live. -/
theorem Minds.live (h : w.Minds r) (hs : w.Sound) (hidle : w.ready = []) (hp : r ∈ w.pooled) :
    w.Live r := by
  have hr := List.getElem?_eq_getElem (hs.lt_of_pooled hp)
  have ha := h _ hr hp
  refine ⟨_, hr, by rw [ha.listens]; rfl, fun c hc => ?_⟩
  have htends := hs.tends r _ hr
  unfold Tends at htends
  split at htends
  · obtain ⟨-, b, -, -, hw, -⟩ := htends
    exact (ha.ready c b hc hw).resolve_right (by simp [hidle])
  · exact absurd (htends.1.symm.trans hc) (by simp)

/-- As long as the manager lives and nobody else listens to its relays: when no task is ready, each
relay in the pool is live, unless one of its holders has shut it down. If moreover no shutdown was
given up and none is yet to publish, the address shows the relays in the pool, and so no other. -/
theorem pooled_relays_live (config : RelayConfig) (mine : PeerAddress) (acts : List Act)
    (ha : (start config mine).Along Attentive acts) :
    let w := (start config mine).run acts
    w.ready = [] → (∀ r ∈ w.pooled, w.Live r ∨ w.ShutByHolder r) ∧
      ((start config mine).Along Undisturbed acts → w.everPooled = true → w.isDraining = false →
        w.node.address = mine.advertising w.manager.pool.addresses) := by
  intro w hidle
  have hs : w.Sound := sound_run (sound_start config mine) acts
  refine ⟨fun r hr => ?_, fun hu hever hd => ?_⟩
  · exact (keeping_run config mine ha r).symm.imp (fun hm => hm.live hs hidle hr) id
  · have hm : w.Mirrors mine := mirrors_run config mine hu
    exact (hm.pool (.inl hever)).resolve_right fun ⟨_, d, hdr⟩ => by simp [hdr.isDraining] at hd

/-- Of three relays one is lost, one is shut down by its holder, and one is live. -/
theorem pooled_relays_live_sample :
    let acts : List Act := [.setUp [.sample 2, .sample 3, .sample 4] 0, .poll 0, .poll 1, .poll 2,
      .poll 3, .poll 4, .poll 5, .poll 6, .poll 1, .poll 2, .poll 3, .poll 0, .poll 7, .poll 8,
      .poll 9, .dropConn 0, .poll 7, .closeRelay 1, .poll 10, .poll 8]
    let w := (start {} (.sample 1)).run acts
    w.ready = [] ∧ w.pooled = [1, 2] ∧ (w.Live 2 ∨ w.ShutByHolder 2) ∧
      w.node.address = (PeerAddress.sample 1).advertising [.sample 3, .sample 4] := by
  intro acts
  dsimp only
  have hstate : ((start {} (.sample 1)).run acts).ready = [] ∧
      ((start {} (.sample 1)).run acts).pooled = [1, 2] ∧
      ((start {} (.sample 1)).run acts).manager.pool.addresses = [.sample 3, .sample 4] := by
    decide +kernel
  obtain ⟨hidle, hp, haddresses⟩ := hstate
  have hr : 2 ∈ ((start {} (.sample 1)).run acts).pooled := by
    rw [hp]
    decide
  have h := pooled_relays_live {} (.sample 1) acts (by decide +kernel) hidle
  refine ⟨hidle, hp, h.1 2 hr, ?_⟩
  rw [← haddresses]
  exact h.2 (by decide +kernel) (by decide +kernel) (by decide +kernel)

/-- A relay that its holder shuts down stays in the pool and is advertised, though it is closed and
nothing is left to be done. -/
theorem shut_relay_stays_pooled :
    let w := (start {} (.sample 1)).run [.setUp [.sample 2] 0, .poll 0, .poll 1, .poll 2, .poll 1,
      .poll 0, .poll 3, .closeRelay 0, .poll 4, .poll 3]
    w.ready = [] ∧ w.managerLives = true ∧ w.pooled = [0] ∧
      w.view? 0 = some ⟨.sample 2, .openTcp, true⟩ ∧
      w.node.address = (PeerAddress.sample 1).advertising [.sample 2] := by
  decide +kernel

end RelayUpkeep.Overlay

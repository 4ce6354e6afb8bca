import RelayUpkeep.Proofs.Watching

/-! # Every lost relay is healed once

When the link of a pooled relay drops, its watcher notices, and the loss is healed at that moment.
No relay comes back into the pool, so this happens once for each relay that was ever pooled. Links
that drop otherwise change nothing. -/

namespace RelayUpkeep.Overlay

variable {t a : TaskId} {r : RelayId} {c : ConnId} {u v w : Overlay} {relay : Relay}

/-! ## Who is told, and who leaves the pool -/

theorem Made.losses {p : PeerAddress} (h : Made u v r p) : v.losses = u.losses := by
  cases h <;> rfl

theorem losses_publish (w : Overlay) : w.publish.losses = w.losses :=
  losses_append rfl (by simp [Event.isLoss])

theorem losses_log_offer (w : Overlay) (s : RelayId) (answer : Option Admission) :
    (w.log (.offer s answer)).losses = w.losses :=
  losses_append rfl (by simp [Event.isLoss])

theorem losses_admitted (w : Overlay) (s : RelayId) (p : PeerAddress) :
    (w.admitted s p).losses = w.losses :=
  (losses_publish _).trans (w.losses_log_offer s (some .added))

/-- Only watchers have observers told. -/
theorem Move.losses (h : Move t u v) (hw : ∀ s, u.role? t ≠ some (.watch s)) :
    v.losses = u.losses := by
  cases h with
  | stir h => exact (Calm.stir h).losses
  | publish => exact losses_publish u
  | accept hr hm ha => exact (losses_admitted _ _ _).trans hm.losses
  | @refuse x s p q hr hm ha =>
    exact (Calm.shutRelay _ s).losses.trans ((x.losses_log_offer s _).trans hm.losses)
  | shut s => exact (Calm.shutRelay u s).losses
  | lose s hr => exact absurd hr (hw s)
  | drain => rfl

theorem Turns.losses (h : Turns t u v) (hlt : t < u.tasks.length)
    (hw : ∀ s, u.role? t ≠ some (.watch s)) : v.losses = u.losses := by
  refine h.keep (P := fun x => x.losses = u.losses) hlt rfl (fun x y hx hrole hm => ?_) ?_
  · exact (hm.losses (hrole ▸ hw)).trans hx
  · exact fun x e hx => (Calm.finish x t e).losses.trans hx

/-- No relay comes back into the pool. -/
theorem Sound.pooled_of_act (h : w.Sound) {x : Act} (hlt : r < w.relays.length)
    (hp : r ∈ (w.act x).pooled) : r ∈ w.pooled := by
  have hm : ∀ {t v}, Moves t w v → r ∈ v.pooled → r ∈ w.pooled := by
    intro t v hv
    induction hv with
    | refl => exact id
    | @tail y z hy hz ih =>
      intro hp
      refine ih ((hz.pooled_or hp).resolve_right ?_)
      rintro ⟨rfl, -⟩
      exact absurd hlt (Nat.not_lt.mpr (Grows.moves hy).relays.length_le)
  rcases w.poll_cases x with ⟨t, -, rfl, hv⟩ | ⟨t, -, rfl, hv⟩ | hpoll
  · rw [hv] at hp
    obtain ⟨y, hy, he | ⟨e, he⟩⟩ := h.poll_turns t <;> rw [he] at hp
    · exact hm hy hp
    · rw [Overlay.pooled, manager_finish] at hp
      exact hm hy hp
  · rwa [hv] at hp
  · rwa [Overlay.pooled, (quiet_act hpoll).1] at hp

/-- As long as the link is up, the watcher of a pooled relay waits on. -/
theorem Attended.waits (h : w.Attended relay) (hr : w.relays[r]? = some relay) (hs : w.Sound)
    (hp : r ∈ w.pooled) (hm : w.managerLives = true) (hw : relay.watcher = some a)
    (ha : a ∈ w.ready) (hn : w.notices r (.poll a) = false) :
    w.poll a = { w with ready := w.ready.erase a } := by
  have hv := hs.poll_watcher hr hw (h.unfinished a hw)
  generalize w.poll a = v at hv
  cases hv with
  | waits => rfl
  | notices hc ho => simp [notices, ha, hr, hw, hc, ho] at hn
  | leaves hl =>
    rcases hl with ⟨task, htask, hcan⟩ | hheld
    · exact absurd ((h.steady a hw task htask).symm.trans hcan) (by simp)
    · exact absurd ((isHeld_of_pooled hm hp).symm.trans hheld) (by simp)

/-- A pooled relay whose watcher notices that the link is down is healed. -/
theorem Minds.healed (h : w.Minds r) (hs : w.Sound) {x : Act} (hx : w.Heedful x)
    (hr : w.relays[r]? = some relay) (hp : r ∈ w.pooled) (hn : w.notices r x = true) :
    Healed r relay.address w (w.act x) := by
  cases x with
  | poll a =>
    simp only [notices, hr, Option.any_some, Bool.and_eq_true, decide_eq_true_eq,
      List.contains_iff_mem, Option.any_eq_true, Bool.not_eq_true'] at hn
    obtain ⟨ha, hw, c, hc, ho⟩ := hn
    simp only [Overlay.act, if_pos ha]
    exact (h relay hr hp).healed hr hs hp hx.1 hx.2.2.2 hw hc ho
  | _ => exact absurd hn (by simp [notices])

/-- A pooled relay whose watcher does not notice anything stays pooled. -/
theorem Minds.kept (h : w.Minds r) (hs : w.Sound) {x : Act} (hx : w.Heedful x)
    (hp : r ∈ w.pooled) (hn : w.notices r x = false) : r ∈ (w.act x).pooled := by
  rcases w.poll_cases x with ⟨t, ht, rfl, he⟩ | ⟨t, -, rfl, he⟩ | hpoll
  · have hup := hx.2.1
    rw [he] at hup ⊢
    cases hf : w.isFinished t with
    | true => rwa [poll_finished hf]
    | false =>
      by_cases hrole : w.role? t = some (.watch r)
      · obtain ⟨relay, hr, hw⟩ := hs.watches t r hrole
        rwa [(h relay hr hp).waits hr hs hp hx.1 hw ht hn]
      · exact Turns.pooled (hs.poll_turns t) (hs.ready t ht) hrole hup hp
  · rwa [he]
  · rwa [Overlay.pooled, (quiet_act hpoll).1]

/-- Observers are told when a watcher notices that a pooled relay is lost, and not otherwise. -/
theorem losses_act (h : ∀ r, w.Minds r) (hs : w.Sound) {x : Act} (hx : w.Heedful x)
    (hn : ∀ r ∈ w.pooled, w.notices r x = false) : (w.act x).losses = w.losses := by
  rcases w.poll_cases x with ⟨t, ht, rfl, he⟩ | ⟨t, -, rfl, he⟩ | hpoll
  · rw [he]
    cases hf : w.isFinished t with
    | true =>
      rw [poll_finished hf]
      rfl
    | false =>
      by_cases hrole : ∃ s, w.role? t = some (.watch s)
      · obtain ⟨s, hrole⟩ := hrole
        by_cases hp : s ∈ w.pooled
        · obtain ⟨relay, hr, hw⟩ := hs.watches t s hrole
          rw [(h s relay hr hp).waits hr hs hp hx.1 hw ht (hn s hp)]
          rfl
        · exact (hs.unmoved_poll hrole hp).losses
      · exact Turns.losses (hs.poll_turns t) (hs.ready t ht) fun s hr => hrole ⟨s, hr⟩
  · rw [he]
  · exact (quiet_act hpoll).2

/-! ## Whole runs -/

theorem pooled_of_run (h : w.Sound) {acts : List Act} (hlt : r < w.relays.length)
    (hp : r ∈ (w.run acts).pooled) : r ∈ w.pooled := by
  induction acts generalizing w with
  | nil => exact hp
  | cons x acts ih =>
    refine h.pooled_of_act hlt (ih (h.act x) ?_ hp)
    exact Nat.lt_of_lt_of_le hlt (h.grows_act x).relays.length_le

theorem minds_run (config : RelayConfig) (mine : PeerAddress) {acts : List Act}
    (h : (start config mine).Along Heedful acts) (r : RelayId) :
    ((start config mine).run acts).Minds r := by
  have hstart : (start config mine).Sound ∧ (start config mine).Minds r :=
    ⟨sound_start config mine, minds_of_not_mem (by simp [start, pooled, Manager.new, Pool.empty])⟩
  exact (run_induction (P := fun w => w.Sound ∧ w.Minds r) hstart
    (fun v x hv hx => ⟨hv.1.act x, hv.2.act hv.1 hx⟩) acts h).2

/-- The act at place `i` of a run is the moment at which a loss is noticed and healed. -/
def HealedAt (w : Overlay) (acts : List Act) (r : RelayId) (i : Nat) : Prop :=
  ∃ (relay : Relay) (x : Act), acts[i]? = some x ∧
    (w.run (acts.take i)).relays[r]? = some relay ∧ (w.run (acts.take i)).notices r x = true ∧
    Healed r relay.address (w.run (acts.take i)) ((w.run (acts.take i)).act x)

variable {acts more : List Act} {i j : Nat}

theorem HealedAt.append (h : w.HealedAt acts r i) (more : List Act) :
    w.HealedAt (acts ++ more) r i := by
  obtain ⟨relay, x, hx, hr, hn, hh⟩ := h
  have htake := take_append_of_eq_some hx more
  exact ⟨relay, x, getElem?_append_of_eq_some hx more, htake ▸ hr, htake ▸ hn, htake ▸ hh⟩

/-- A relay whose loss was healed is not pooled any more. -/
theorem HealedAt.not_pooled (h : w.HealedAt acts r i) (hs : w.Sound) (hij : i < j) :
    r ∉ (w.run (acts.take j)).pooled := by
  obtain ⟨relay, x, hx, -, -, hh⟩ := h
  have hsi := sound_run hs (acts.take i)
  have hlt := hsi.lt_of_pooled hh.was
  have hx' : (acts.take j)[i]? = some x := by rwa [List.getElem?_take_of_lt hij]
  rw [run_at hx', List.take_take, Nat.min_eq_left (Nat.le_of_lt hij)]
  intro hp
  refine hh.gone (pooled_of_run (hsi.act x) ?_ hp)
  exact Nat.lt_of_lt_of_le hlt (hsi.grows_act x).relays.length_le

theorem HealedAt.was (h : w.HealedAt acts r i) : r ∈ (w.run (acts.take i)).pooled := by
  obtain ⟨_, _, _, _, _, hh⟩ := h
  exact hh.was

theorem HealedAt.lt (h : w.HealedAt acts r i) : i < acts.length := by
  obtain ⟨_, _, hx, _⟩ := h
  exact (List.getElem?_eq_some_iff.mp hx).1

theorem HealedAt.unique (h : w.HealedAt acts r i) (h' : w.HealedAt acts r j) (hs : w.Sound) :
    i = j := by
  rcases Nat.lt_trichotomy i j with hij | hij | hij
  · exact absurd h'.was (h.not_pooled hs hij)
  · exact hij
  · exact absurd h.was (h'.not_pooled hs hij)

/-- Each relay that the pool ever took in is pooled, or its loss was healed. -/
theorem pooled_or_healed (config : RelayConfig) (mine : PeerAddress)
    (h : (start config mine).Along Heedful acts)
    (hr : (r, some .added) ∈ ((start config mine).run acts).offers) :
    r ∈ ((start config mine).run acts).pooled ∨ ∃ i, (start config mine).HealedAt acts r i := by
  induction acts using List.reverseRecOn with
  | nil => simp [start, offers] at hr
  | append_singleton acts x ih =>
    obtain ⟨hacts, hx⟩ := along_concat.mp h
    have hs := sound_run (sound_start config mine) acts
    have hminds := minds_run config mine hacts r
    rw [run_concat] at hr ⊢
    generalize hw : (start config mine).run acts = w at *
    have hold : (r, some .added) ∈ w.offers → r ∈ (w.act x).pooled ∨
        ∃ i, (start config mine).HealedAt (acts ++ [x]) r i := by
      intro hmem
      rcases ih hacts hmem with hp | ⟨i, hi⟩
      · cases hn : w.notices r x with
        | false => exact .inl (hminds.kept hs hx hp hn)
        | true =>
          obtain ⟨relay, hrel⟩ : ∃ relay, w.relays[r]? = some relay :=
            ⟨_, List.getElem?_eq_getElem (hs.lt_of_pooled hp)⟩
          refine .inr ⟨acts.length, relay, x, by simp, ?_⟩
          rw [List.take_left, hw]
          exact ⟨hrel, hn, hminds.healed hs hx hrel hp hn⟩
      · exact .inr ⟨i, hi.append [x]⟩
    cases hs.answers_act x with
    | none he => exact hold (he ▸ hr)
    | one p answer ha he hrel hp =>
      rw [he] at hr
      rcases List.mem_append.mp hr with hr | hr
      · exact hold hr
      · obtain ⟨rfl, rfl⟩ := Prod.mk.inj (List.mem_singleton.mp hr)
        exact .inl (by simp [pooled, hp])

/-- What becomes of the pool from one state on: a pooled relay whose link is down is about to be
noticed, it is healed at that moment and stays pooled until then, and nothing else has observers
told of a loss. -/
structure Heals (w : Overlay) : Prop where
  due : ∀ (r : RelayId) (relay : Relay) (c : ConnId), w.relays[r]? = some relay → r ∈ w.pooled →
    relay.conn = some c → w.isOpen c = false →
    ∃ a, relay.watcher = some a ∧ w.notices r (.poll a) = true
  healed : ∀ (x : Act) (r : RelayId) (relay : Relay), w.Heedful x → w.relays[r]? = some relay →
    r ∈ w.pooled → w.notices r x = true → Healed r relay.address w (w.act x)
  kept : ∀ (x : Act) (r : RelayId), w.Heedful x → r ∈ w.pooled → w.notices r x = false →
    r ∈ (w.act x).pooled
  silent : ∀ x : Act, w.Heedful x → (∀ r ∈ w.pooled, w.notices r x = false) →
    (w.act x).losses = w.losses
  gone : ∀ (a : TaskId) (r : RelayId), w.role? a = some (.watch r) → r ∉ w.pooled →
    w.Unmoved (w.act (.poll a))
  drops : ∀ c : ConnId, w.Unmoved (w.act (.dropConn c))

theorem heals_of_minds (h : ∀ r, w.Minds r) (hs : w.Sound) : w.Heals where
  due r relay c hr hp hc ho := by
    have htends := hs.tends r relay hr
    unfold Tends at htends
    split at htends
    · obtain ⟨c', a, -, -, hw, -⟩ := htends
      have ha := ((h r relay hr hp).ready c a hc hw).resolve_left (by simp [ho])
      exact ⟨a, hw, by simp [notices, ha, hr, hw, hc, ho]⟩
    · exact absurd (htends.1.symm.trans hc) (by simp)
  healed x r relay hx hr hp hn := (h r).healed hs hx hr hp hn
  kept x r hx hp hn := (h r).kept hs hx hp hn
  silent x hx hn := losses_act h hs hx hn
  gone a r hrole hp := by
    simp only [act]
    split
    · exact hs.unmoved_poll hrole hp
    · exact ⟨rfl, rfl, rfl⟩
  drops c := by
    rcases w.dropConn_eq c with ⟨-, he⟩ | ⟨-, rs, he, -⟩ <;> simp only [act, he] <;>
      exact ⟨rfl, rfl, rfl⟩

/-- As long as the manager lives and nobody meddles with its relays, each relay that the pool ever
took in is pooled or was healed once, losses are healed when they are noticed, and all else is
silent. A link that was lost before the manager listened is healed when it does. -/
theorem lost_relays_healed_once (config : RelayConfig) (mine : PeerAddress) {acts : List Act}
    (h : (start config mine).Along Heedful acts) :
    let w := (start config mine).run acts
    w.Heals ∧
    (∀ r, (r, some .added) ∈ w.offers →
      (r ∈ w.pooled ∧ ∀ i, ¬ (start config mine).HealedAt acts r i) ∨
      (r ∉ w.pooled ∧ ∃! i, (start config mine).HealedAt acts r i)) ∧
    ∀ (v : Overlay) (r : RelayId) (relay : Relay), v.Linked → v.InTime → v.managerLives = true →
      r ∈ v.pooled → v.relays[r]? = some relay → relay.signal = .lost false →
      Healed r relay.address v (v.listen r .manager).1 := by
  intro w
  have hstart := sound_start config mine
  have hs : w.Sound := sound_run hstart acts
  refine ⟨heals_of_minds (minds_run config mine h) hs, fun r hr => ?_, ?_⟩
  · have hgone : ∀ i, (start config mine).HealedAt acts r i → r ∉ w.pooled := by
      intro i hi
      have hn := hi.not_pooled hstart hi.lt
      rwa [List.take_length] at hn
    rcases pooled_or_healed config mine h hr with hp | ⟨i, hi⟩
    · exact .inl ⟨hp, fun i hi => hgone i hi hp⟩
    · exact .inr ⟨hgone i hi, i, hi, fun j hj => hj.unique hi hstart⟩
  · exact fun v r relay hl ht hm hp hr hsig => healed_listen hr hsig hm hp hl ht

/-- Two relays are pooled, and the first is lost again; its link drops a second time for nothing. -/
theorem lost_relays_healed_once_sample :
    let acts : List Act := [.observe ⟨"observer", true, false⟩, .setUp [.sample 2, .sample 3] 0,
      .poll 0, .poll 1, .poll 2, .poll 3, .poll 4, .dropConn 0, .poll 5, .dropConn 0, .poll 5]
    let w := (start {} (.sample 1)).run acts
    w.pooled = [1] ∧ w.losses.length = 1 ∧ (∃! i, (start {} (.sample 1)).HealedAt acts 0 i) ∧
      ∀ i, ¬ (start {} (.sample 1)).HealedAt acts 1 i := by
  intro acts w
  have hp : w.pooled = [1] := by decide +kernel
  have h := @lost_relays_healed_once {} (.sample 1) acts (by decide +kernel)
  refine ⟨hp, by decide +kernel, ?_, ?_⟩
  · rcases h.2.1 0 (by decide +kernel) with ⟨hin, -⟩ | ⟨-, honce⟩
    · exact absurd (hp ▸ hin : 0 ∈ [1]) (by decide)
    · exact honce
  · rcases h.2.1 1 (by decide +kernel) with ⟨-, hnot⟩ | ⟨hout, -⟩
    · exact hnot
    · exact absurd (hp ▸ List.mem_singleton.mpr rfl : 1 ∈ w.pooled) hout

end RelayUpkeep.Overlay

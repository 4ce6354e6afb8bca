import RelayUpkeep.Proofs.OutsideActs

/-! # Offers to the pool

An attempt offers its relay once, and the pool answers by what it holds at that moment. As long
as no relay is lost and the manager is not shut down, what was offered is pooled or the pool is
full. -/

namespace RelayUpkeep

/-- The relay that is offered, and the answer. -/
def Event.offered? : Event → Option (RelayId × Option Admission)
  | .offer r answer => some (r, answer)
  | _ => none

theorem Event.offered?_of_isPlain {e : Event} (h : e.isPlain = true) : e.offered? = none := by
  cases e <;> first | rfl | exact absurd h (by simp [Event.isPlain])

namespace Overlay

variable {t : TaskId} {u v w : Overlay} {p q : PeerAddress} {r : RelayId}

/-- All offers so far, with their answers. -/
def offers (w : Overlay) : List (RelayId × Option Admission) :=
  w.journal.filterMap fun e => e.event.offered?

/-- An answer to the offer of a relay of peer `p` that the state of the pool calls for. -/
inductive Justified (w : Overlay) (p : PeerAddress) : Option Admission → Prop
  | added (hs : w.manager.isShutDown = false)
      (hroom : w.manager.pool.len < w.manager.pool.capacity)
      (htwin : w.manager.pool.containsPeer p = false) : Justified w p (some .added)
  | full (h : w.manager.pool.capacity ≤ w.manager.pool.len) : Justified w p (some .full)
  | duplicate (h : w.manager.pool.containsPeer p = true) : Justified w p (some .duplicate)
  | shutDown (h : w.manager.isShutDown = true) : Justified w p none

theorem justified_verdict (w : Overlay) (p : PeerAddress) : w.Justified p (w.verdict p) := by
  unfold verdict
  split_ifs with hs hfull htwin
  · exact .shutDown hs
  · exact .full hfull
  · exact .duplicate htwin
  · exact .added (by simpa using hs) (Nat.lt_of_not_le hfull) (by simpa using htwin)

/-- What a step answers: nothing, or one offer of a relay that was just made. The pool takes the
relay in or stays as it is. -/
inductive Answers (u v : Overlay) : Prop
  | none (h : v.offers = u.offers)
  | one (p : PeerAddress) (answer : Option Admission) (ha : u.Justified p answer)
      (h : v.offers = u.offers ++ [(u.relays.length, answer)])
      (hr : ∃ relay, v.relays[u.relays.length]? = some relay ∧ relay.address = p)
      (hp : v.manager.pool.members = u.manager.pool.members ++
        if answer = some .added then [⟨u.relays.length, p⟩] else [])

theorem offers_append {l : List Entry} (h : v.journal = u.journal ++ l) :
    v.offers = u.offers ++ l.filterMap fun e => e.event.offered? := by
  simp [offers, h]

theorem Calm.offers (h : u.Calm v) : v.offers = u.offers := by
  obtain ⟨more, hj, hp⟩ := h.journal
  have hn : more.filterMap (fun e => e.event.offered?) = [] :=
    List.filterMap_eq_nil_iff.mpr fun e he => Event.offered?_of_isPlain (hp e he)
  rw [offers_append hj, hn, List.append_nil]

/-! ## Moves -/

theorem offers_log (w : Overlay) (e : Event) :
    (w.log e).offers = w.offers ++ e.offered?.toList := by
  rw [offers_append (u := w) rfl]
  cases h : e.offered? <;> simp [h]

@[simp] theorem offers_publish (w : Overlay) : w.publish.offers = w.offers := by
  rw [offers_append (u := w) rfl]
  simp [Event.offered?]

@[simp] theorem offers_tellAll (w : Overlay) (address : PeerAddress) (os : List Observer) :
    (w.tellAll address os).1.offers = w.offers := by
  rw [tellAll_eq, offers_append (u := w) rfl, List.filterMap_map]
  simp [Event.offered?]

theorem offers_relayLost (w : Overlay) (r : RelayId) (address : PeerAddress) :
    (w.relayLost r address).1.offers = w.offers := by
  rcases w.relayLost_cases r address with ⟨-, h⟩ | ⟨-, -, h⟩ | ⟨-, -, h⟩ <;> rw [h]
  · rfl
  · rw [offers_tellAll, offers_publish, offers_log]
    exact List.append_nil _

theorem offers_lose (w : Overlay) (r : RelayId) : (w.lose r).1.offers = w.offers := by
  rcases w.lose_cases r with h | ⟨relay, -, h⟩
  · rw [h]
  · generalize (w.lose r).1 = v at h
    cases h with
    | unheard | ownerless => rfl
    | noted => rw [offers_log]; exact List.append_nil _
    | told => exact offers_relayLost _ _ _

/-- Only attempts make offers. -/
theorem Move.offers (h : Move t u v) (hr : ∀ q, u.role? t ≠ some (.attempt q)) :
    v.offers = u.offers := by
  cases h with
  | stir h => exact (Calm.stir h).offers
  | publish => exact offers_publish u
  | accept hrole | refuse hrole => exact absurd hrole (hr _)
  | shut r => exact (Calm.shutRelay u r).offers
  | lose r => exact offers_lose u r
  | drain => rfl

theorem Turns.offers (h : Turns t u v) (hlt : t < u.tasks.length)
    (hr : ∀ q, u.role? t ≠ some (.attempt q)) : v.offers = u.offers := by
  refine h.keep (P := fun x => x.offers = u.offers) hlt rfl (fun x y hx hrole hm => ?_) ?_
  · exact (hm.offers (hrole ▸ hr)).trans hx
  · exact fun x e hx => (Calm.finish x t e).offers.trans hx

/-! ## Polls -/

theorem offers_admitted (w : Overlay) (r : RelayId) (p : PeerAddress) :
    (w.admitted r p).offers = w.offers ++ [(r, some .added)] := by
  simp only [admitted, offers_publish]
  rw [offers_append (u := w) (l := [⟨w.clock, .offer r (some .added)⟩]) rfl]
  rfl

theorem offers_refused (w : Overlay) (r : RelayId) (answer : Option Admission) :
    (w.refused r answer).offers = w.offers ++ [(r, answer)] := by
  rw [refused, (Calm.shutRelay _ r).offers, offers_log]
  rfl

theorem Stir.isShutDown (h : Stir t u v) : v.manager.isShutDown = u.manager.isShutDown := by
  cases h with
  | rest | spawn | setJob | sleep | log | openConn | manage | grant => rfl
  | wake a => rw [manager_wake]
  | cancel a => rw [manager_cancel]
  | dropConn c => rw [manager_dropConn]

theorem Stirs.isShutDown (h : Stirs t u v) : v.manager.isShutDown = u.manager.isShutDown := by
  induction h with
  | refl => rfl
  | tail _ h ih => exact h.isShutDown.trans ih

theorem Stirs.verdict (h : Stirs t u v) (p : PeerAddress) : v.verdict p = u.verdict p := by
  simp [Overlay.verdict, (Calm.stirs h).pool, Stirs.isShutDown h]

theorem Stirs.relays (h : Stirs t u v) : v.relays = u.relays := by
  induction h with
  | refl => rfl
  | tail _ h ih => exact h.relays.trans ih

theorem Attempts.answers {k : Course} (h : Attempts t q k u v) : u.Answers v := by
  cases h with
  | waits hs hj hk hd he => exact .none (he ▸ (Calm.stirs hs).offers)
  | ends hs hk he => exact .none (he ▸ ((Calm.stirs hs).trans (.finish _ _ _)).offers)
  | @accept x y _ r p hs hm hk ha he =>
    have hc := (Calm.stirs hs).trans (.made hm)
    have hr : r = u.relays.length := hm.id.trans (by rw [Stirs.relays hs])
    have hv : u.verdict p = some .added := (Stirs.verdict hs p).symm.trans ha
    obtain ⟨kind, conn, watcher, hrel⟩ := hm.relay
    subst he hr
    refine .one p _ (u.justified_verdict p) ?_
      ⟨⟨kind, p, conn, .live (some .manager), watcher⟩, ?_, rfl⟩ ?_
    · rw [(Calm.finish _ _ _).offers, offers_admitted, hc.offers, hv]
    · rw [relays_finish]
      simp [admitted_relays, hrel]
    · rw [manager_finish, admitted_pool, hc.pool, hv]
      rfl
  | @refuse x y _ r p hs hm hk ha hq =>
    have hc := (Calm.stirs hs).trans (.made hm)
    have hr : r = u.relays.length := hm.id.trans (by rw [Stirs.relays hs])
    have hv := Stirs.verdict hs p
    obtain ⟨kind, conn, watcher, hrel⟩ := hm.relay
    have hcq := Calm.quiet hq
    have hg := (Grows.log y (.offer r (x.verdict p))).trans
      ((Grows.shutRelay _ r).trans (.turns hq.turns))
    obtain ⟨relay, hrelay, hk⟩ := hg.relays r _ hrel
    subst hr
    refine .one p _ (u.justified_verdict p) ?_ ⟨relay, hrelay, hk.address⟩ ?_
    · rw [hcq.offers, offers_refused, hc.offers, hv]
    · rw [hv] at ha
      rw [hcq.pool, if_neg ha, List.append_nil, ← hc.pool]
      exact congrArg (·.pool.members) (manager_shutRelay _ _)

theorem Sound.answers_poll (h : w.Sound) (ht : t ∈ w.ready) : w.Answers (w.poll t) := by
  have hlt := h.ready t ht
  cases hf : w.isFinished t with
  | true => exact poll_finished hf ▸ .none rfl
  | false =>
    by_cases hq : ∃ q, w.role? t = some (.attempt q)
    · obtain ⟨q, hq⟩ := hq
      exact (h.attempts_poll (Course.any_sound t q) hq hf (fun _ _ _ => trivial)
        fun _ _ _ _ => trivial).answers
    · exact .none (Turns.offers (h.poll_turns t) hlt fun q hr => hq ⟨q, hr⟩)

/-- Every step answers as the state of the pool calls for. -/
theorem Sound.answers_act (h : w.Sound) (a : Act) : w.Answers (w.act a) := by
  rcases w.poll_cases a with ⟨t, ht, rfl, he⟩ | ⟨t, -, rfl, he⟩ | hp
  · rw [he]
    exact h.answers_poll ht
  · exact .none (by rw [he])
  · rcases outside_or_moves (w := w) hp with ⟨address, rfl⟩ | ho
    · exact .none rfl
    · exact .none ho.toCalm.offers

/-! ## Runs without losses -/

/-- The link of a relay was lost. -/
def isLost (w : Overlay) (r : RelayId) : Bool :=
  (w.relays[r]?).any fun relay => relay.signal matches .lost _

theorem isLost_iff :
    w.isLost r = true ↔ ∃ relay b, w.relays[r]? = some relay ∧ relay.signal = .lost b := by
  rw [isLost, Option.any_eq_true]
  constructor
  · rintro ⟨relay, hr, hl⟩
    split at hl
    · next b hs => exact ⟨relay, b, hr, hs⟩
    · exact absurd hl (by simp)
  · rintro ⟨relay, b, hr, hs⟩
    exact ⟨relay, hr, by rw [hs]⟩

theorem isLost_lt (h : w.isLost r = true) : r < w.relays.length := by
  obtain ⟨relay, -, hr, -⟩ := isLost_iff.mp h
  exact (List.getElem?_eq_some_iff.mp hr).1

theorem Grows.isLost (h : u.Grows v) (hu : u.isLost r = true) :
    v.isLost r = true := by
  obtain ⟨relay, b, hr, hs⟩ := isLost_iff.mp hu
  obtain ⟨relay', hr', hk⟩ := h.relays r relay hr
  have hl := hk.signal
  rw [hs] at hl
  refine isLost_iff.mpr ⟨relay', ?_⟩
  generalize relay'.signal = s at hl
  cases hl <;> exact ⟨_, hr', rfl⟩

/-- The link of some relay was lost. -/
def hasLoss (w : Overlay) : Bool := w.relays.any fun relay => relay.signal matches .lost _

theorem hasLoss_iff : w.hasLoss = true ↔ ∃ r, w.isLost r = true := by
  simp only [hasLoss, isLost, List.any_eq_true, List.mem_iff_getElem?, Option.any_eq_true]
  exact ⟨fun ⟨relay, ⟨r, hr⟩, hl⟩ => ⟨r, relay, hr, hl⟩,
    fun ⟨r, relay, hr, hl⟩ => ⟨relay, ⟨r, hr⟩, hl⟩⟩

theorem Grows.hasLoss (h : u.Grows v) (hu : u.hasLoss = true) : v.hasLoss = true := by
  obtain ⟨r, hr⟩ := hasLoss_iff.mp hu
  exact hasLoss_iff.mpr ⟨r, h.isLost hr⟩

/-- A relay that leaves the pool by itself was just lost. -/
theorem isLost_lose (hc : (w.lose r).1.manager.pool ≠ w.manager.pool) :
    w.isLost r = false ∧ (w.lose r).1.isLost r = true ∧
      (w.lose r).1.manager.pool = (w.manager.pool.remove r).1 := by
  rcases w.lose_cases r with h | ⟨relay, hr, h⟩
  · exact absurd (by rw [h]) hc
  · generalize (w.lose r).1 = v at h hc
    cases h with
    | unheard | noted | ownerless => exact absurd rfl hc
    | told hs =>
      refine ⟨by simp [isLost, hr, hs], ?_, pool_relayLost _ _ _⟩
      obtain ⟨mine, pool, failed, journal, h⟩ :=
        (w.setSignal r (.lost true)).relayLost_frame r relay.address
      rw [h]
      simp [isLost, setSignal, hr]

/-- The pool is full, or holds the peer of every relay that was ever offered. -/
def Absorbed (w : Overlay) : Prop :=
  w.manager.pool.len = w.manager.pool.capacity ∨ ∀ x ∈ w.offers,
    ∃ relay, w.relays[x.1]? = some relay ∧ w.manager.pool.containsPeer relay.address = true

theorem absorbed_of_mono (h : u.Absorbed) (hg : u.Grows v)
    (hp : v.manager.pool = u.manager.pool) (ho : v.offers = u.offers) : v.Absorbed := by
  rw [Absorbed, hp, ho]
  refine h.imp id fun h x hx => ?_
  obtain ⟨relay, hr, hc⟩ := h x hx
  obtain ⟨relay', hr', hk⟩ := hg.relays _ relay hr
  exact ⟨relay', hr', hk.address ▸ hc⟩

theorem containsPeer_of_members {pool pool' : Pool} {more : List Member}
    (h : pool'.members = pool.members ++ more) (a : PeerAddress) :
    pool'.containsPeer a = (pool.containsPeer a || more.any (·.address.same a)) := by
  simp [Pool.containsPeer, h]

/-- One more offer, answered as the state of the pool calls for. -/
theorem Absorbed.one (h : u.Absorbed) (hb : u.manager.pool.Sound) (hg : u.Grows v)
    (hd : u.manager.isShutDown = false) (ho : v.offers = u.offers ++ [(r, u.verdict p)])
    (hr : ∃ relay, v.relays[r]? = some relay ∧ relay.address = p)
    (hp : v.manager.pool.members = u.manager.pool.members ++
      if u.verdict p = some .added then [⟨r, p⟩] else []) : v.Absorbed := by
  have hold : ∀ x ∈ u.offers, (∃ relay, u.relays[x.1]? = some relay ∧
      u.manager.pool.containsPeer relay.address = true) →
      ∃ relay, v.relays[x.1]? = some relay ∧
        v.manager.pool.containsPeer relay.address = true := by
    rintro x - ⟨relay, hrel, hc⟩
    obtain ⟨relay', hrel', hk⟩ := hg.relays _ relay hrel
    exact ⟨relay', hrel', by rw [containsPeer_of_members hp, hk.address, hc, Bool.true_or]⟩
  have hnew : v.manager.pool.containsPeer p = true →
      (∀ x ∈ u.offers, ∃ relay, u.relays[x.1]? = some relay ∧
        u.manager.pool.containsPeer relay.address = true) → v.Absorbed := by
    intro hc hall
    refine .inr fun x hx => ?_
    rw [ho] at hx
    rcases List.mem_append.mp hx with hx | hx
    · exact hold x hx (hall x hx)
    · obtain ⟨relay, hrel, rfl⟩ := hr
      obtain rfl := List.mem_singleton.mp hx
      exact ⟨relay, hrel, hc⟩
  have hj := u.justified_verdict p
  generalize u.verdict p = answer at hj hp ho
  cases hj with
  | added _ hroom _ =>
    refine hnew ?_ (h.resolve_left (Nat.ne_of_lt hroom))
    rw [containsPeer_of_members hp]
    simp [PeerAddress.same]
  | full hfull =>
    left
    have hlen : v.manager.pool.len = u.manager.pool.len := by simp [Pool.len, hp]
    rw [hlen, hg.capacity]
    exact Nat.le_antisymm hb.bounded hfull
  | duplicate htwin =>
    rcases h with h | h
    · left
      simpa [Pool.len, hp, hg.capacity] using h
    · exact hnew (by rw [containsPeer_of_members hp, htwin, Bool.true_or]) h
  | shutDown hs => exact absurd hs (by simp [hd])

theorem Absorbed.move (h : u.Absorbed) (hs : u.Linked) (hm : Move t u v)
    (hl : v.hasLoss = false) (hd : v.manager.isShutDown = false) : v.Absorbed := by
  have hg := Grows.move hm
  have hu : u.manager.isShutDown = false := by
    cases hsd : u.manager.isShutDown with
    | false => rfl
    | true => exact absurd (hg.shutDown hsd) (by simp [hd])
  cases hm with
  | stir hst => exact absorbed_of_mono h hg hst.pool (Calm.stir hst).offers
  | publish => exact absorbed_of_mono h hg rfl (offers_publish u)
  | @accept x r p q hr hmade ha =>
    have hc := Calm.made hmade
    obtain ⟨kind, conn, watcher, hrel⟩ := hmade.relay
    refine h.one hs.pool hg hu (r := r) (p := p) ?_ ?_ ?_
    · rw [offers_admitted, hc.offers, ha]
    · exact ⟨⟨kind, p, conn, .live (some .manager), watcher⟩, by simp [admitted_relays, hrel], rfl⟩
    · rw [admitted_pool, hc.pool, ha]
      rfl
  | @refuse x r p q hr hmade ha =>
    have hc := Calm.made hmade
    obtain ⟨kind, conn, watcher, hrel⟩ := hmade.relay
    have hgr := (Grows.log x (.offer r (u.verdict p))).trans (.shutRelay _ r)
    obtain ⟨relay, hrelay, hk⟩ := hgr.relays r _ hrel
    refine h.one hs.pool hg hu (r := r) (p := p) ?_ ⟨relay, hrelay, hk.address⟩ ?_
    · rw [offers_refused, hc.offers]
    · rw [if_neg ha, List.append_nil, ← hc.pool]
      exact congrArg (·.pool.members) (manager_shutRelay _ _)
  | shut r => exact absorbed_of_mono h hg (by simp) (Calm.shutRelay u r).offers
  | lose r =>
    by_cases hp : (u.lose r).1.manager.pool = u.manager.pool
    · exact absorbed_of_mono h hg hp (offers_lose u r)
    · exact absurd (hasLoss_iff.mpr ⟨r, (isLost_lose hp).2.1⟩) (by simp [hl])
  | drain => exact absurd hd (by simp [drained, withManager])

theorem Absorbed.turns (h : u.Absorbed) (hs : u.Sound) (hm : Turns t u v)
    (hlt : t < u.tasks.length) (hf : u.isFinished t = false) (hl : v.hasLoss = false)
    (hd : v.manager.isShutDown = false) : v.Absorbed := by
  have hmoves : ∀ {x}, Moves t u x → x.hasLoss = false → x.manager.isShutDown = false →
      x.Absorbed := by
    intro x hx
    induction hx with
    | refl => exact fun _ _ => h
    | @tail y z hy hmove ih =>
      intro hl hd
      have hg := Grows.move hmove
      refine (ih ?_ ?_).move (hs.moves hy hlt hf).toLinked hmove hl hd
      · by_contra hly
        exact absurd (hg.hasLoss (by simpa using hly)) (by simp [hl])
      · by_contra hdy
        exact absurd (hg.shutDown (by simpa using hdy)) (by simp [hd])
  obtain ⟨x, hx, rfl | ⟨e, rfl⟩⟩ := hm
  · exact hmoves hx hl hd
  · rw [manager_finish] at hd
    have hrel : (x.finish t e).hasLoss = x.hasLoss := by simp [Overlay.hasLoss]
    refine absorbed_of_mono (hmoves hx (hrel ▸ hl) hd) (.finish x t e) ?_ ?_
    · rw [manager_finish]
    · exact (Calm.finish x t e).offers

theorem Absorbed.act (h : w.Absorbed) (hs : w.Sound) (a : Act)
    (hl : (w.act a).hasLoss = false) (hd : (w.act a).manager.isShutDown = false) :
    (w.act a).Absorbed := by
  have hg := hs.grows_act a
  rcases w.poll_cases a with ⟨t, ht, rfl, he⟩ | ⟨t, -, rfl, he⟩ | hp
  · rw [he] at hl hd ⊢
    cases hf : w.isFinished t with
    | true => exact poll_finished hf ▸ h
    | false => exact h.turns hs (hs.poll_turns t) (hs.ready t ht) hf hl hd
  · rwa [he]
  · rcases outside_or_moves (w := w) hp with ⟨address, rfl⟩ | ho
    · exact absorbed_of_mono h hg rfl rfl
    · exact absorbed_of_mono h hg ho.toCalm.pool ho.toCalm.offers

theorem absorbed_run (config : RelayConfig) (mine : PeerAddress) (acts : List Act)
    (hl : ((start config mine).run acts).hasLoss = false)
    (hd : ((start config mine).run acts).manager.isShutDown = false) :
    ((start config mine).run acts).Absorbed := by
  induction acts using List.reverseRecOn with
  | nil => exact .inr (by simp [start, offers])
  | append_singleton acts a ih =>
    have hs : ((start config mine).run acts).Sound := sound_run (sound_start config mine) acts
    have hg := hs.grows_act a
    rw [run_concat] at hl hd ⊢
    refine (ih ?_ ?_).act hs a hl hd
    · by_contra h
      exact absurd (hg.hasLoss (by simpa using h)) (by simp [hl])
    · by_contra h
      exact absurd (hg.shutDown (by simpa using h)) (by simp [hd])

end Overlay

end RelayUpkeep

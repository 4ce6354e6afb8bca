import RelayUpkeep.Proofs.Admissions

/-! # Lost relays

A pooled relay whose link drops is healed when its watcher notices: it leaves the pool, its peer is
remembered as failed, the address is published anew, and the observers are told, all in one piece.
Once it is out of the pool nothing more comes of it. -/

namespace RelayUpkeep

/-- The event tells an observer of a lost relay. -/
def Event.isLoss : Event → Bool
  | .lost .. => true
  | _ => false

theorem FailedCache.add_eq {c : FailedCache} {p : PeerAddress} {now e : Instant}
    (h : Instant.add? now c.ttl = some e) : (c.add p now).1 = (c.prune now).put p.id e := by
  simp only [add, h]

theorem FailedCache.contains_put (c : FailedCache) (p : PeerAddress) {now e : Instant}
    (h : now ≤ e) : (c.put p.id e).contains p now = true := by
  simp [put, contains, isLive, h]

theorem FailedCache.lookup_put (c : FailedCache) (p : PeerAddress) (e : Instant) :
    (c.put p.id e).entries.lookup p.id = some e := by
  simp [put]

theorem Instant.le_add {t e : Instant} {d : Span} (h : add? t d = some e) : t ≤ e := by
  unfold add? at h
  split at h
  · exact Option.some.inj h ▸ Nat.le_add_right _ _
  · exact absurd h (by simp)

namespace Overlay

variable {r : RelayId} {u v w : Overlay} {p : PeerAddress}

/-! ## Healing -/

/-- What the observers are told of lost relays. -/
def losses (w : Overlay) : List Entry := w.journal.filter fun e => e.event.isLoss

/-- A pooled relay was lost and is healed. Whoever is told sees what the pool, the failed peers and
the address have become. -/
structure Healed (r : RelayId) (lost : PeerAddress) (u v : Overlay) : Prop where
  was : r ∈ u.pooled
  pool : v.manager.pool = (u.manager.pool.remove r).1
  gone : r ∉ v.pooled
  expiry : ∃ e, Instant.add? u.now u.manager.config.failedWait = some e ∧
    v.manager.failed.entries.lookup lost.id = some e
  address : v.node.address = u.node.address.advertising v.manager.pool.addresses
  told : v.journal = u.journal ++ ⟨u.clock, .markFailed lost⟩ ::
    ⟨u.clock, .publish v.node.address⟩ :: (heard u.manager.observers).map fun o =>
      ⟨u.clock, .lost o lost ⟨v.manager.pool.addresses, true, v.node.address⟩⟩
  observers : v.manager.observers = u.manager.observers

theorem contains_iff : w.manager.pool.contains r = true ↔ r ∈ w.pooled := by
  simp [Pool.contains, pooled]

theorem remove_relays (p : Pool) (r : RelayId) :
    (p.remove r).1.members.map Member.relay = (p.members.map Member.relay).erase r := by
  simp only [Pool.remove]
  induction p.members with
  | nil => rfl
  | cons m ms ih =>
    by_cases h : m.relay = r
    · simp [h]
    · have hb : (m.relay == r) = false := by simpa using h
      simp [hb, ih]

theorem not_mem_remove {p : Pool} (h : p.Sound) :
    r ∉ (p.remove r).1.members.map Member.relay := by
  rw [remove_relays]
  exact h.relays.not_mem_erase

/-- The manager heals its pool. -/
theorem healed_relayLost (h : r ∈ w.pooled) (hl : w.Linked) (ht : w.InTime) :
    Healed r p w (w.relayLost r p).1 := by
  have hc := contains_iff.mpr h
  rcases w.relayLost_cases r p with ⟨hn, -⟩ | ⟨-, hn, -⟩ | ⟨-, ⟨e, he⟩, hv⟩
  · exact absurd (hn.symm.trans hc) (by simp)
  · rw [hl.ttl] at hn
    exact absurd ht (by simp [InTime, hn])
  · have hcache : (w.bereft r p).manager.failed = (w.manager.failed.prune w.now).put p.id e :=
      FailedCache.add_eq he
    have hfailed : (w.bereft r p).manager.failed.contains p w.now = true := by
      rw [hcache]
      exact FailedCache.contains_put _ p (Instant.le_add he)
    rw [hv, tellAll_eq]
    refine ⟨h, rfl, not_mem_remove hl.pool, ⟨e, hl.ttl ▸ he, ?_⟩, rfl, ?_, rfl⟩
    · exact (congrArg (·.entries.lookup p.id) hcache).trans (FailedCache.lookup_put _ _ _)
    · simp only [publish, log, sight, List.append_assoc, List.cons_append, List.nil_append]
      simp only [bereft, withManager, now] at hfailed ⊢
      rw [hfailed]

/-- A manager that lives is told of the loss of a relay that it listens to. -/
theorem lose_told {relay : Relay} (hr : w.relays[r]? = some relay)
    (hs : relay.signal = .live (some .manager)) (hm : w.managerLives = true) :
    (w.lose r).1 = ((w.setSignal r (.lost true)).relayLost r relay.address).1 := by
  have hlives : (w.setSignal r (.lost true)).managerLives = true := hm
  rw [lose_eq hr, hs]
  simp only [CloseSignal.lose, Option.isSome_some, signalled, callListener, hlives, if_true]

/-- A relay that the manager is told of leaves the pool, also if the clock overflows. -/
theorem not_pooled_lose {relay : Relay} (hr : w.relays[r]? = some relay)
    (hs : relay.signal = .live (some .manager)) (hm : w.managerLives = true) (hl : w.Linked) :
    r ∉ (w.lose r).1.pooled := by
  rw [pooled, lose_told hr hs hm, pool_relayLost]
  exact not_mem_remove hl.pool

/-- A pooled relay is healed when the manager is told that its link is down. -/
theorem healed_signalled {relay : Relay} (hr : w.relays[r]? = some relay)
    (hs : relay.signal.Leads (.lost true)) (h : r ∈ w.pooled) (hl : w.Linked) (ht : w.InTime) :
    Healed r relay.address w ((w.setSignal r (.lost true)).relayLost r relay.address).1 := by
  have hlinked : (w.setSignal r (.lost true)).Linked := by
    refine hl.of_keeps ?_ (.of_eq rfl) (List.length_modify _ _ _) rfl rfl
    refine .setSignal fun relay' hr' => ?_
    obtain rfl := Option.some.inj (hr.symm.trans hr')
    exact hs
  have hh := healed_relayLost (w := w.setSignal r (.lost true)) (p := relay.address) h hlinked ht
  exact ⟨h, hh.pool, hh.gone, hh.expiry, hh.address, hh.told, hh.observers⟩

/-- A pooled relay whose watcher notices that its link is down is healed. -/
theorem healed_lose {relay : Relay} (hr : w.relays[r]? = some relay)
    (hs : relay.signal = .live (some .manager)) (hm : w.managerLives = true) (h : r ∈ w.pooled)
    (hl : w.Linked) (ht : w.InTime) : Healed r relay.address w (w.lose r).1 := by
  rw [lose_told hr hs hm]
  exact healed_signalled hr (hs ▸ .live _ _) h hl ht

/-- A link that was lost before the manager listens is healed when it does. -/
theorem healed_listen {relay : Relay} (hr : w.relays[r]? = some relay)
    (hs : relay.signal = .lost false) (hm : w.managerLives = true) (h : r ∈ w.pooled)
    (hl : w.Linked) (ht : w.InTime) : Healed r relay.address w (w.listen r .manager).1 := by
  have hv : (w.listen r .manager).1 =
      ((w.setSignal r (.lost true)).relayLost r relay.address).1 := by
    have hlives : (w.setSignal r (.lost true)).managerLives = true := hm
    simp only [listen, hr, hs, CloseSignal.listen, signalled, callListener, hlives, if_true]
  rw [hv]
  exact healed_signalled hr (hs ▸ .unheard _) h hl ht

end Overlay

end RelayUpkeep

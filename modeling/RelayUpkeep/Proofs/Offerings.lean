import RelayUpkeep.Proofs.Gathering
import RelayUpkeep.Proofs.Trail

/-! # What becomes of the relays that are offered for a setup

The attempts for a setup offer their relays to the pool one after another. A relay that is taken in
is kept unless its link is lost. One that is refused has its twin in the pool, or the pool is full.
Hence the relays that the pool holds are those that the attempts brought, less the refused ones, and
those that it has from others. -/

namespace RelayUpkeep

/-- What an attempt offers, and how the pool answers. -/
structure Offer where
  attempt : TaskId
  relay : RelayId
  answer : Option Admission
  deriving DecidableEq, Repr

/-- The offers that were refused since the pool had a relay of the same peer. -/
def twins (xs : List Offer) : List Offer := xs.filter fun x => x.answer = some .duplicate

namespace Overlay

variable {t a : TaskId} {u v w : Overlay} {x : Offer} {xs : List Offer} {y : Act} {acts : List Act}
  {gone : RelayId → Bool} {n : Nat} {r : RelayId} {p : PeerId}

/-! ## The offers of a run -/

/-- What an attempt for setup `t` offers in a step. -/
def offersIn (w : Overlay) (t : TaskId) : Act → List Offer
  | .poll a =>
    if a ∈ w.attemptsOf t then
      ((w.act (.poll a)).offers.drop w.offers.length).map fun offer => ⟨a, offer.1, offer.2⟩
    else []
  | _ => []

/-- What the attempts for setup `t` offer in a run, in this order. -/
def offersFor (w : Overlay) (t : TaskId) : List Act → List Offer
  | [] => []
  | y :: acts => w.offersIn t y ++ (w.act y).offersFor t acts

theorem offersFor_append (w : Overlay) (t : TaskId) (acts more : List Act) :
    w.offersFor t (acts ++ more) = w.offersFor t acts ++ (w.run acts).offersFor t more := by
  induction acts generalizing w with
  | nil => rfl
  | cons y acts ih => simp only [List.cons_append, offersFor, ih, run_cons, List.append_assoc]

theorem offersFor_concat (w : Overlay) (t : TaskId) (acts : List Act) (y : Act) :
    w.offersFor t (acts ++ [y]) = w.offersFor t acts ++ (w.run acts).offersIn t y := by
  simp [offersFor_append, offersFor]

/-- An offer that is made in a step of a run is one of the run. -/
theorem mem_offersFor {i : Nat} (hy : acts[i]? = some y)
    (hx : x ∈ (w.run (acts.take i)).offersIn t y) : x ∈ w.offersFor t acts := by
  rw [← List.take_append_drop (i + 1) acts, offersFor_append, List.take_add_one, hy,
    Option.toList_some, offersFor_concat]
  exact List.mem_append_left _ (List.mem_append_right _ hx)

/-- The peer of a relay. -/
def peer? (w : Overlay) (r : RelayId) : Option PeerId :=
  (w.relays[r]?).map fun relay => relay.address.id

theorem Grows.peer? (h : u.Grows v) (hp : u.peer? r = some p) : v.peer? r = some p := by
  obtain ⟨relay, hr, rfl⟩ := Option.map_eq_some_iff.mp hp
  obtain ⟨relay', hr', hk⟩ := h.relays r relay hr
  exact Option.map_eq_some_iff.mpr ⟨relay', hr', by rw [hk.address]⟩

theorem Linked.peer?_of_pooled (h : w.Linked) {m : Member} (hm : m ∈ w.manager.pool.members) :
    w.peer? m.relay = some m.address.id := by
  obtain ⟨relay, hr, ha⟩ := h.pooled m hm
  simp [Overlay.peer?, hr, ha]

/-- A step offers nothing for a setup, or one relay, and the pool answers by what it holds. -/
theorem Sound.offersIn_cases (h : w.Sound) (t : TaskId) (y : Act) : w.offersIn t y = [] ∨
    ∃ a p answer, w.offersIn t y = [⟨a, w.relays.length, answer⟩] ∧ w.Justified p answer ∧
      (w.act y).peer? w.relays.length = some p.id ∧
      (w.act y).manager.pool.members = w.manager.pool.members ++
        if answer = some .added then [⟨w.relays.length, p⟩] else [] := by
  unfold offersIn
  split
  · next a =>
    split_ifs
    · cases h.answers_act (.poll a) with
      | none ho => exact .inl (by simp [ho])
      | one p answer hj ho hr hp =>
        obtain ⟨relay, hrelay, rfl⟩ := hr
        refine .inr ⟨a, relay.address, answer, by simp [ho], hj, ?_, hp⟩
        simp [peer?, hrelay]
    · exact .inl rfl
  · exact .inl rfl

/-- Each offer is of a relay that is new. -/
theorem Sound.relays_offersFor (h : w.Sound) (t : TaskId) (acts : List Act) :
    ((w.offersFor t acts).map Offer.relay).Nodup ∧
      ∀ x ∈ w.offersFor t acts, x.relay < (w.run acts).relays.length := by
  induction acts using List.reverseRecOn with
  | nil => simp [offersFor]
  | append_singleton acts y ih =>
    obtain ⟨hnodup, hlt⟩ := ih
    have hs := sound_run h acts
    have hle := (hs.grows_act y).relays.length_le
    rw [offersFor_concat, run_concat]
    rcases hs.offersIn_cases t y with hnone | ⟨a, p, answer, hone, -, hpeer, -⟩
    · rw [hnone, List.append_nil]
      exact ⟨hnodup, fun x hx => Nat.lt_of_lt_of_le (hlt x hx) hle⟩
    · have hnew : (w.run acts).relays.length < ((w.run acts).act y).relays.length := by
        obtain ⟨relay, hr, -⟩ := Option.map_eq_some_iff.mp hpeer
        exact (List.getElem?_eq_some_iff.mp hr).1
      rw [hone, List.map_append, List.map_singleton]
      constructor
      · refine List.nodup_append.mpr ⟨hnodup, List.nodup_singleton _, ?_⟩
        rintro r hr s hs rfl
        obtain ⟨x, hx, rfl⟩ := List.mem_map.mp hr
        exact absurd (hlt x hx) (by simp [List.mem_singleton.mp hs])
      · intro x hx
        rcases List.mem_append.mp hx with hx | hx
        · exact Nat.lt_of_lt_of_le (hlt x hx) hle
        · obtain rfl := List.mem_singleton.mp hx
          exact hnew

/-! ## What becomes of an offer -/

/-- What has become of an offer, if no relays are lost but those in `gone` and there was room for
`n` relays beside them. -/
inductive Placed (gone : RelayId → Bool) (n : Nat) (w : Overlay) (x : Offer) : Prop
  | kept (ha : x.answer = some .added) {m : Member} (hm : m ∈ w.staying gone)
      (hr : m.relay = x.relay)
  | twin (ha : x.answer = some .duplicate) {m : Member} (hm : m ∈ w.staying gone)
      (hp : w.peer? x.relay = some m.address.id)
  | bereft (ha : x.answer = some .duplicate) {r : RelayId} (hr : gone r = true) {p : PeerId}
      (hp : w.peer? x.relay = some p) (ht : w.peer? r = some p)
  | crowded (ha : x.answer = some .full) (hn : n ≤ (w.staying gone).length)

theorem Placed.mono (h : u.Placed gone n x) (hr : u.Retains gone v) (hg : u.Grows v) :
    v.Placed gone n x := by
  cases h with
  | kept ha hm hm' => exact .kept ha (hr.staying.subset hm) hm'
  | twin ha hm hp => exact .twin ha (hr.staying.subset hm) (hg.peer? hp)
  | bereft ha hgone hp ht => exact .bereft ha hgone (hg.peer? hp) (hg.peer? ht)
  | crowded ha hn => exact .crowded ha (Nat.le_trans hn hr.staying.length_le)

theorem Sound.placed_act (h : w.Sound) (hu : w.Untroubled gone (w.act y)) (hn : w.Fits gone n)
    (hx : x ∈ w.offersIn t y) : (w.act y).Placed gone n x := by
  have hg := h.grows_act y
  have hstays := (h.retains_act hu).staying
  rcases h.offersIn_cases t y with hnone | ⟨a, p, answer, hone, hj, hpeer, hmembers⟩
  · exact absurd (hnone ▸ hx) List.not_mem_nil
  rw [hone] at hx
  obtain rfl := List.mem_singleton.mp hx
  cases hj with
  | added =>
    have hnew : gone w.relays.length = false := by
      by_contra hgone
      exact absurd (hu.old _ (by simpa using hgone)) (Nat.lt_irrefl _)
    refine .kept rfl (m := ⟨w.relays.length, p⟩) ?_ rfl
    simp [staying, hmembers, hnew]
  | full hfull => exact .crowded rfl (Nat.le_trans (hn.le_staying hfull) hstays.length_le)
  | duplicate htwin =>
    obtain ⟨m, hm, hsame⟩ := List.any_eq_true.mp htwin
    have hid : m.address.id = p.id := by simpa [PeerAddress.same] using hsame
    rw [← hid] at hpeer
    cases hgone : gone m.relay with
    | true => exact .bereft rfl hgone hpeer (hg.peer? (h.toLinked.peer?_of_pooled hm))
    | false =>
      refine .twin rfl (hstays.subset ?_) hpeer
      exact List.mem_filter.mpr ⟨hm, by simp [hgone]⟩
  | shutDown hdown => exact absurd (hg.shutDown hdown) (by simp [hu.up])

theorem Sound.placed_run (h : w.Sound) (hn : w.Fits gone n) (acts : List Act)
    (hu : w.Untroubled gone (w.run acts)) :
    ∀ x ∈ w.offersFor t acts, (w.run acts).Placed gone n x := by
  induction acts using List.reverseRecOn with
  | nil => simp [offersFor]
  | append_singleton acts y ih =>
    rw [run_concat] at hu ⊢
    rw [offersFor_concat]
    have hs := sound_run h acts
    have hg := hs.grows_act y
    obtain ⟨hbefore, hlast⟩ := hu.split (grows_run h acts) hg
    intro x hx
    rcases List.mem_append.mp hx with hx | hx
    · exact (ih hbefore x hx).mono (hs.retains_act hlast) hg
    · exact hs.placed_act hlast (hn.mono (h.retains_run acts hbefore) (grows_run h acts)) hx

/-! ## Counting the relays held -/

/-- The peers of the relays that were offered and taken in. -/
def ownPeers (w : Overlay) (xs : List Offer) : List (Option PeerId) :=
  (xs.filter fun x => x.answer = some .added).map fun x => w.peer? x.relay

/-- Those of some peers of whom no relay was offered and taken in. -/
def others (w : Overlay) (xs : List Offer) (held : List PeerId) : List PeerId :=
  held.filter fun p => some p ∉ w.ownPeers xs

theorem Placed.isMember (h : w.Placed gone n x) (ha : x.answer = some .added) :
    ∃ m ∈ w.manager.pool.members, m.relay = x.relay := by
  cases h with
  | kept _ hm hr => exact ⟨_, List.mem_of_mem_filter hm, hr⟩
  | twin hd | bereft hd | crowded hd => exact absurd (ha.symm.trans hd) (by simp)

/-- If the pool had room for a relay that was offered, one of its peer is held or was lost. -/
theorem Placed.held (h : w.Placed gone n x) (hl : w.Linked) (ha : x.answer ≠ some .full) :
    ∃ p, w.peer? x.relay = some p ∧
      (p ∈ w.pooledPeers ∨ ∃ r, gone r = true ∧ w.peer? r = some p) := by
  cases h with
  | kept _ hm hr =>
    have hmem := List.mem_of_mem_filter hm
    exact ⟨_, hr ▸ hl.peer?_of_pooled hmem, .inl (List.mem_map_of_mem hmem)⟩
  | twin _ hm hp => exact ⟨_, hp, .inl (List.mem_map_of_mem (List.mem_of_mem_filter hm))⟩
  | bereft _ hr hp ht => exact ⟨_, hp, .inr ⟨_, hr, ht⟩⟩
  | crowded hf => exact absurd hf ha

theorem Placed.enough (h : w.Placed gone n x) (ha : x.answer = some .full) :
    n ≤ w.pooledPeers.length := by
  cases h with
  | crowded _ hn =>
    rw [pooledPeers, List.length_map]
    exact Nat.le_trans hn (List.length_filter_le _ _)
  | kept hd | twin hd | bereft hd => exact absurd (ha.symm.trans hd) (by simp)

/-- No two relays that were taken in are of one peer. -/
theorem Sound.nodup_ownPeers (h : w.Sound) (hn : (xs.map Offer.relay).Nodup)
    (hp : ∀ x ∈ xs, w.Placed gone n x) : (w.ownPeers xs).Nodup := by
  refine List.Nodup.map_on ?_ (hn.of_map.filter _)
  intro x hx x' hx' hsame
  obtain ⟨hx, ha⟩ := List.mem_filter.mp hx
  obtain ⟨hx', ha'⟩ := List.mem_filter.mp hx'
  obtain ⟨m, hm, hr⟩ := (hp x hx).isMember (by simpa using ha)
  obtain ⟨m', hm', hr'⟩ := (hp x' hx').isMember (by simpa using ha')
  rw [← hr, ← hr', h.toLinked.peer?_of_pooled hm, h.toLinked.peer?_of_pooled hm'] at hsame
  obtain rfl : m = m' :=
    List.inj_on_of_nodup_map h.nodup_pooledPeers hm hm' (Option.some.inj hsame)
  exact List.inj_on_of_nodup_map hn hx hx' (hr.symm.trans hr')

theorem Sound.ownPeers_subset (h : w.Sound) (hp : ∀ x ∈ xs, w.Placed gone n x) :
    ∀ p ∈ w.ownPeers xs, ∃ q ∈ w.pooledPeers, p = some q := by
  intro p hmem
  obtain ⟨x, hx, rfl⟩ := List.mem_map.mp hmem
  obtain ⟨hx, ha⟩ := List.mem_filter.mp hx
  obtain ⟨m, hm, hr⟩ := (hp x hx).isMember (by simpa using ha)
  exact ⟨_, List.mem_map_of_mem hm, hr ▸ h.toLinked.peer?_of_pooled hm⟩

/-- If none was refused for want of room, an offer was taken in or is a twin. -/
theorem length_eq_own_add_twins (hp : ∀ x ∈ xs, w.Placed gone n x)
    (hroom : ∀ x ∈ xs, x.answer ≠ some .full) :
    xs.length = (w.ownPeers xs).length + (twins xs).length := by
  have hrest : (xs.filter fun x => !decide (x.answer = some .added)) = twins xs := by
    refine List.filter_congr fun x hx => ?_
    have hplaced := hp x hx
    cases hplaced with
    | kept ha | twin ha | bereft ha => simp [ha]
    | crowded ha => exact absurd ha (hroom x hx)
  rw [ownPeers, List.length_map, ← hrest]
  exact List.length_eq_length_filter_add _

/-- The relays that were taken in are held beside those of others. -/
theorem Sound.own_add_others_le (h : w.Sound) (hn : (xs.map Offer.relay).Nodup)
    (hp : ∀ x ∈ xs, w.Placed gone n x) :
    (w.ownPeers xs).length + (w.others xs w.pooledPeers).length ≤ w.pooledPeers.length := by
  have hown : w.ownPeers xs ⊆
      (w.pooledPeers.filter fun p => some p ∈ w.ownPeers xs).map some := by
    intro p hmem
    obtain ⟨q, hq, rfl⟩ := h.ownPeers_subset hp p hmem
    exact List.mem_map_of_mem (List.mem_filter.mpr ⟨hq, by simpa using hmem⟩)
  have hle := (List.subperm_of_subset (h.nodup_ownPeers hn hp) hown).length_le
  have hsplit := w.pooledPeers.length_eq_length_filter_add fun p => decide (some p ∈ w.ownPeers xs)
  simp only [List.length_map, others, decide_not] at hle hsplit ⊢
  omega

theorem Grows.others (h : u.Grows v) (hu : u.Linked) (hp : ∀ x ∈ xs, u.Placed gone n x)
    (held : List PeerId) : v.others xs held = u.others xs held := by
  have hsame : v.ownPeers xs = u.ownPeers xs := by
    refine List.map_congr_left fun x hx => ?_
    obtain ⟨hx, ha⟩ := List.mem_filter.mp hx
    obtain ⟨m, hm, hr⟩ := (hp x hx).isMember (by simpa using ha)
    have hpeer := hu.peer?_of_pooled hm
    rw [← hr, hpeer, h.peer? hpeer]
  rw [Overlay.others, hsame, Overlay.others]

/-- The relays held are as many as are wanted if there was no room for some relay. Otherwise twins
are missing among them, as far as others do not make up for them. -/
theorem Sound.le_length_held (h : w.Sound) (hn : (xs.map Offer.relay).Nodup)
    (hp : ∀ x ∈ xs, w.Placed gone n x) {m : Nat} (hm : m ≤ n)
    (hmade : (∃ x ∈ xs, x.answer = some .full) ∨
      m + (twins xs).length ≤ xs.length + (w.others xs w.pooledPeers).length) :
    m ≤ w.pooledPeers.length := by
  by_cases hroom : ∃ x ∈ xs, x.answer = some .full
  · obtain ⟨x, hx, ha⟩ := hroom
    exact Nat.le_trans hm ((hp x hx).enough ha)
  · have hsplit := length_eq_own_add_twins hp fun x hx ha => hroom ⟨x, hx, ha⟩
    have hle := h.own_add_others_le hn hp
    have hbalance := hmade.resolve_left hroom
    omega

end Overlay

end RelayUpkeep

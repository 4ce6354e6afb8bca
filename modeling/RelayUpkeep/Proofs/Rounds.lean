import RelayUpkeep.Round
import Mathlib.Data.List.Induction
import Mathlib.Data.List.Nodup

/-! # Slots of a round

The empty slots draw candidates, each its own, and a slot whose attempt joined is filled. -/

namespace RelayUpkeep

/-- The slot that the end of an attempt fills. -/
def AttemptEnd.slot? : AttemptEnd → Option Nat
  | joined slot _ => some slot
  | _ => none

namespace Round

variable {r : Round}

theorem mem_emptySlots {i : Nat} : i ∈ r.emptySlots ↔ r.slots[i]? = some none := by
  simp only [emptySlots, wanted, List.mem_filter, List.mem_range, beq_iff_eq]
  refine ⟨And.right, fun h => ⟨(List.getElem?_eq_some_iff.mp h).1, h⟩⟩

theorem nodup_emptySlots (r : Round) : r.emptySlots.Nodup :=
  List.nodup_range.filter _

private theorem countP_range_getElem? (slots : List (Option PeerAddress)) :
    (List.range slots.length).countP (fun i => slots[i]? == some none) +
      slots.countP Option.isSome = slots.length := by
  induction slots using List.reverseRecOn with
  | nil => rfl
  | append_singleton slots s ih =>
    have hinit : (List.range slots.length).countP (fun i => (slots ++ [s])[i]? == some none) =
        (List.range slots.length).countP (fun i => slots[i]? == some none) := by
      refine List.countP_congr fun i hi => ?_
      rw [List.getElem?_append_left (List.mem_range.mp hi)]
    rw [List.length_append, List.length_singleton, List.range_succ, List.countP_append,
      List.countP_append, hinit]
    cases s <;> simp <;> omega

theorem length_emptySlots (r : Round) : r.emptySlots.length + r.filled = r.wanted := by
  rw [emptySlots, ← List.countP_eq_length_filter]
  exact countP_range_getElem? r.slots

theorem wanted_start (room : Nat) (candidates : List PeerAddress) (maxFail : Nat) :
    (Round.start room candidates maxFail).wanted = min room candidates.length := by
  simp [start, wanted]

theorem filled_start (room : Nat) (candidates : List PeerAddress) (maxFail : Nat) :
    (Round.start room candidates maxFail).filled = 0 := by
  simp [start, filled, List.countP_replicate]

/-! ## Peers in slots -/

/-- The peers that fill slots. -/
def peers (r : Round) : List PeerAddress := r.slots.filterMap id

theorem mem_peers {p : PeerAddress} :
    p ∈ r.peers ↔ ∃ i : Nat, r.slots[i]? = some (some p) := by
  rw [← List.mem_iff_getElem?]
  simp [peers]

@[simp] theorem length_peers (r : Round) : r.peers.length = r.filled := by
  rw [peers, List.length_filterMap_eq_countP]
  rfl

theorem peers_start (room : Nat) (candidates : List PeerAddress) (maxFail : Nat) :
    (Round.start room candidates maxFail).peers = [] := by
  simp [start, peers]

/-- No two slots hold one peer. -/
theorem nodup_peers_iff : (r.peers.map PeerAddress.id).Nodup ↔
    ∀ (i j : Nat) p q, i < j → r.slots[i]? = some (some p) → r.slots[j]? = some (some q) →
      p.id ≠ q.id := by
  rw [peers, List.Nodup, List.pairwise_map, List.pairwise_filterMap, List.pairwise_iff_getElem]
  constructor
  · intro h i j p q hij hi hj
    obtain ⟨hli, hi⟩ := List.getElem?_eq_some_iff.mp hi
    obtain ⟨hlj, hj⟩ := List.getElem?_eq_some_iff.mp hj
    exact h i j hli hlj hij p hi q hj
  · intro h i j hli hlj hij p hi q hj
    exact h i j p q hij (List.getElem?_eq_some_iff.mpr ⟨hli, hi⟩)
      (List.getElem?_eq_some_iff.mpr ⟨hlj, hj⟩)

/-! ## Draws -/

theorem length_draws (r : Round) :
    r.draws.length = min (r.wanted - r.filled) r.candidates.length := by
  have h := r.length_emptySlots
  rw [draws, List.length_zip]
  omega

/-- The candidates are drawn in their order, as many as there are empty slots. -/
theorem map_snd_draws (r : Round) :
    r.draws.map Prod.snd = r.candidates.take (r.wanted - r.filled) := by
  have h : r.emptySlots.length = r.wanted - r.filled := Nat.eq_sub_of_add_eq r.length_emptySlots
  rw [draws, List.zip_eq_zip_take_min, List.map_snd_zip (by simp), h]
  exact (List.take_eq_take_iff).mpr (by omega)

theorem slots_draws_nodup (r : Round) : (r.draws.map Prod.fst).Nodup := by
  rw [draws, List.zip_eq_zip_take_min, List.map_fst_zip (by simp)]
  exact r.nodup_emptySlots.sublist (List.take_sublist _ _)

theorem slots_draws_empty {d : Nat × PeerAddress} (h : d ∈ r.draws) :
    r.slots[d.1]? = some none :=
  mem_emptySlots.mp (List.of_mem_zip h).1

theorem drop_draws (r : Round) :
    r.candidates.drop r.draws.length = r.candidates.drop (r.wanted - r.filled) := by
  rw [length_draws, ← List.drop_eq_drop_min]

/-- What is drawn is taken off the front of the candidates. -/
theorem draws_append (r : Round) :
    r.draws.map Prod.snd ++ r.candidates.drop r.draws.length = r.candidates := by
  rw [map_snd_draws, drop_draws, List.take_append_drop]

/-- Who is drawn is not left. -/
theorem length_drop_draws_lt (h : r.draws ≠ []) :
    (r.candidates.drop r.draws.length).length < r.candidates.length := by
  have hdrawn := congrArg List.length r.draws_append
  rw [List.length_append, List.length_map] at hdrawn
  exact hdrawn ▸ Nat.lt_add_of_pos_left (List.length_pos_iff.mpr h)

theorem turn_eq (r : Round) : r.turn =
    if r.maxFail < r.failures then .stop (.maxFailuresExceeded (Text.trimEnd r.trail))
    else if r.draws = [] then .stop (.noCandidates (Text.trimEnd r.trail))
    else .attempt r.draws { r with candidates := r.candidates.drop r.draws.length } := by
  unfold turn
  split_ifs with h hd
  · rfl
  · simp [hd]
  · split
    · next he => exact absurd he hd
    · rfl

/-! ## Settling -/

@[simp] theorem settle_cons (r : Round) (e : AttemptEnd) (ends : List AttemptEnd) :
    r.settle (e :: ends) = (r.fill e).settle ends := rfl

/-- Settling fills slots and leaves all else as it was. -/
theorem settle_eq (r : Round) (ends : List AttemptEnd) :
    ∃ slots, r.settle ends = { r with slots } ∧ slots.length = r.slots.length := by
  induction ends generalizing r with
  | nil => exact ⟨r.slots, rfl, rfl⟩
  | cons e ends ih =>
    obtain ⟨slots, h, hl⟩ := ih (r.fill e)
    cases e with
    | joined slot p => exact ⟨slots, h, hl.trans (List.length_set)⟩
    | failed | aborted => exact ⟨slots, h, hl⟩

theorem wanted_settle (r : Round) (ends : List AttemptEnd) :
    (r.settle ends).wanted = r.wanted := by
  obtain ⟨slots, h, hl⟩ := r.settle_eq ends
  rw [h]
  exact hl

@[simp] theorem candidates_settle (r : Round) (ends : List AttemptEnd) :
    (r.settle ends).candidates = r.candidates := by
  obtain ⟨slots, h, -⟩ := r.settle_eq ends
  rw [h]

@[simp] theorem maxFail_settle (r : Round) (ends : List AttemptEnd) :
    (r.settle ends).maxFail = r.maxFail := by
  obtain ⟨slots, h, -⟩ := r.settle_eq ends
  rw [h]

@[simp] theorem failures_settle (r : Round) (ends : List AttemptEnd) :
    (r.settle ends).failures = r.failures := by
  obtain ⟨slots, h, -⟩ := r.settle_eq ends
  rw [h]

@[simp] theorem trail_settle (r : Round) (ends : List AttemptEnd) :
    (r.settle ends).trail = r.trail := by
  obtain ⟨slots, h, -⟩ := r.settle_eq ends
  rw [h]

theorem filled_fill {slot : Nat} {p : PeerAddress} (h : r.slots[slot]? = some none) :
    (r.fill (.joined slot p)).filled = r.filled + 1 := by
  obtain ⟨hlt, hs⟩ := List.getElem?_eq_some_iff.mp h
  simp [filled, fill, List.countP_set hlt, hs]

/-- Each attempt that joined fills one more slot. -/
theorem filled_settle {ends : List AttemptEnd} (hn : (ends.filterMap AttemptEnd.slot?).Nodup)
    (he : ∀ s ∈ ends.filterMap AttemptEnd.slot?, r.slots[s]? = some none) :
    (r.settle ends).filled = r.filled + (ends.filterMap AttemptEnd.slot?).length := by
  induction ends generalizing r with
  | nil => rfl
  | cons e ends ih =>
    cases e with
    | joined slot p =>
      simp only [List.filterMap_cons, AttemptEnd.slot?, List.nodup_cons] at hn
      have hslot : r.slots[slot]? = some none := he slot (by simp [AttemptEnd.slot?])
      have hrest : ∀ s ∈ ends.filterMap AttemptEnd.slot?,
          (r.fill (.joined slot p)).slots[s]? = some none := by
        intro s hs
        have hne : slot ≠ s := by
          rintro rfl
          exact hn.1 hs
        have hempty := he s (by rw [List.filterMap_cons]; exact List.mem_cons_of_mem _ hs)
        simpa [fill, List.getElem?_set_ne hne] using hempty
      rw [settle_cons, ih hn.2 hrest, filled_fill hslot]
      simp [AttemptEnd.slot?]
      omega
    | failed | aborted => exact ih hn he

/-- A slot that no attempt joined for stays as it is. -/
theorem getElem?_settle {ends : List AttemptEnd} {i : Nat}
    (h : i ∉ ends.filterMap AttemptEnd.slot?) : (r.settle ends).slots[i]? = r.slots[i]? := by
  induction ends generalizing r with
  | nil => rfl
  | cons e ends ih =>
    cases e with
    | joined slot p =>
      obtain ⟨hne, hrest⟩ : i ≠ slot ∧ i ∉ ends.filterMap AttemptEnd.slot? := by
        simpa [AttemptEnd.slot?] using h
      rw [settle_cons, ih hrest, fill, List.getElem?_set_ne hne.symm]
    | failed | aborted => exact ih h

/-- What is in a slot was there before, or is the candidate of an attempt that joined. -/
theorem slot_settle {ends : List AttemptEnd} {i : Nat} {p : PeerAddress}
    (h : (r.settle ends).slots[i]? = some (some p)) :
    r.slots[i]? = some (some p) ∨ .joined i p ∈ ends := by
  induction ends generalizing r with
  | nil => exact .inl h
  | cons e ends ih =>
    rcases ih h with h | h
    · cases e with
      | joined slot q =>
        simp only [fill, List.getElem?_set] at h
        split at h
        · next heq =>
          obtain ⟨-, rfl⟩ : slot < r.slots.length ∧ q = p := by simpa using h
          exact .inr (heq ▸ List.mem_cons_self)
        · exact .inl h
      | failed | aborted => exact .inl h
    · exact .inr (List.mem_cons_of_mem _ h)

/-- Attempts that joined with the candidates that they drew fill no two slots with one peer. -/
theorem nodup_settle {ends : List AttemptEnd} {draws : List (Nat × PeerAddress)}
    (h : ((r.peers ++ draws.map Prod.snd).map PeerAddress.id).Nodup)
    (he : ∀ i p, AttemptEnd.joined i p ∈ ends → (i, p) ∈ draws) :
    ((r.settle ends).peers.map PeerAddress.id).Nodup := by
  rw [List.map_append, List.map_map] at h
  obtain ⟨hold, hnew, hapart⟩ := List.nodup_append.mp h
  have hmeet : ∀ {i j : Nat} {p q : PeerAddress}, r.slots[i]? = some (some p) →
      AttemptEnd.joined j q ∈ ends → p.id ≠ q.id := fun hp hq =>
    hapart _ (List.mem_map_of_mem (mem_peers.mpr ⟨_, hp⟩)) _
      (List.mem_map.mpr ⟨_, he _ _ hq, rfl⟩)
  refine nodup_peers_iff.mpr fun i j p q hij hi hj => ?_
  rcases slot_settle hi with hi | hi <;> rcases slot_settle hj with hj | hj
  · exact nodup_peers_iff.mp hold i j p q hij hi hj
  · exact hmeet hi hj
  · exact (hmeet hj hi).symm
  · intro hid
    have heq := List.inj_on_of_nodup_map hnew (he i p hi) (he j q hj) hid
    exact absurd (congrArg Prod.fst heq) (Nat.ne_of_lt hij)

theorem mem_peers_settle {ends : List AttemptEnd} {p : PeerAddress}
    (h : p ∈ (r.settle ends).peers) : p ∈ r.peers ∨ ∃ i, AttemptEnd.joined i p ∈ ends := by
  obtain ⟨i, hi⟩ := mem_peers.mp h
  exact (slot_settle hi).imp (fun h => mem_peers.mpr ⟨i, h⟩) fun h => ⟨i, h⟩

/-- None of those who are left to be drawn fills a slot either. -/
theorem nodup_settle_append {ends : List AttemptEnd} {draws : List (Nat × PeerAddress)}
    {rest : List PeerAddress}
    (h : ((r.peers ++ draws.map Prod.snd ++ rest).map PeerAddress.id).Nodup)
    (he : ∀ i p, AttemptEnd.joined i p ∈ ends → (i, p) ∈ draws) :
    (((r.settle ends).peers ++ rest).map PeerAddress.id).Nodup := by
  rw [List.map_append] at h ⊢
  obtain ⟨hfill, hrest, hapart⟩ := List.nodup_append.mp h
  refine List.nodup_append.mpr ⟨nodup_settle hfill he, hrest, fun x hx => ?_⟩
  obtain ⟨p, hp, rfl⟩ := List.mem_map.mp hx
  refine hapart p.id (List.mem_map_of_mem (List.mem_append.mpr ?_))
  refine (mem_peers_settle hp).imp id ?_
  rintro ⟨i, hj⟩
  exact List.mem_map_of_mem (he i p hj)

end Round

end RelayUpkeep

import RelayUpkeep.Proofs.Bystanders

/-! # Which candidates are eligible

The tests that a candidate has to pass and the removal of further copies can be told apart: the
candidates that a setup finds are those that pass every test, the first copy of each. Only the flag
of a relayed peer belongs to a copy; all other tests see the identifier, which copies share. -/

namespace RelayUpkeep

namespace PeerAddress

theorem same_iff {a b : PeerAddress} : a.same b = true ↔ a.id = b.id := by simp [same]

end PeerAddress

namespace FailedCache

/-- What is dropped while the cache is read makes no difference to what is read later on. -/
theorem removeFailed_eq (c : FailedCache) (now : Instant) (ps : List PeerAddress) :
    (c.removeFailed now ps).1 = ps.filter fun p => !c.contains p now := by
  induction ps generalizing c with
  | nil => rfl
  | cons p ps ih =>
    have hsame : ∀ q, (c.afterLookup p now).contains q now = c.contains q now := fun q =>
      (c.forgets_afterLookup p now).contains q (Nat.le_refl now)
    simp only [removeFailed, ih, hsame, List.filter_cons]
    cases c.contains p now <;> rfl

end FailedCache

namespace Manager

/-- The peer can be reached directly, is not the node itself, and is not in the pool. -/
def admits (m : Manager) (me p : PeerAddress) : Bool :=
  !p.relayed && !p.same me && !m.pool.containsPeer p

/-- Those that are kept already count as seen. -/
private theorem foldl_eligible (m : Manager) (me : PeerAddress) (seen : List PeerId)
    (kept ps : List PeerAddress) (h : ∀ p, p.id ∈ seen ↔ kept.any (·.same p) = true) :
    (ps.filter (m.admits me)).foldl
      (fun kept p => if kept.any (·.same p) then kept else kept ++ [p]) kept =
      kept ++ m.eligible me seen ps := by
  induction ps generalizing seen kept with
  | nil => simp [eligible]
  | cons p ps ih =>
    have hadmits : m.admits me p = true ↔
        ¬(p.relayed = true ∨ p.same me = true ∨ m.pool.containsPeer p = true) := by
      simp [admits, and_assoc]
    unfold eligible
    by_cases hp : m.admits me p = true
    · have hp' := hadmits.mp hp
      rw [List.filter_cons_of_pos hp, List.foldl_cons]
      by_cases hs : p.id ∈ seen
      · rw [if_pos ((h p).mp hs), if_pos (.inr (.inr (.inr hs)))]
        exact ih seen kept h
      · rw [if_neg (fun hk => hs ((h p).mpr hk)), if_neg (by tauto), ih (p.id :: seen) _ ?_,
          List.append_assoc, List.singleton_append]
        intro q
        simp only [List.mem_cons, h, List.any_append, List.any_cons, List.any_nil, Bool.or_false,
          Bool.or_eq_true, PeerAddress.same_iff]
        exact ⟨fun hq => hq.symm.imp id Eq.symm, fun hq => hq.symm.imp Eq.symm id⟩
    · rw [List.filter_cons_of_neg hp, if_pos (by have := not_not.mp (mt hadmits.mpr hp); tauto)]
      exact ih seen kept h

theorem eligible_eq (m : Manager) (me : PeerAddress) (ps : List PeerAddress) :
    m.eligible me [] ps = PeerAddress.distinct (ps.filter (m.admits me)) := by
  rw [PeerAddress.distinct, m.foldl_eligible me [] [] ps (by simp), List.nil_append]

end Manager

namespace Overlay

/-- Whom a setup may try: of the peers that its caller names, or else of those that are known, the
first copy of each that is not relayed, not the node itself, not in the pool, and did not fail
lately. Named peers may have failed unless the settings say otherwise. -/
def eligible (w : Overlay) (manual : List PeerAddress) : List PeerAddress :=
  PeerAddress.distinct <| (if manual = [] then w.routing else manual).filter fun p =>
    !p.relayed && !p.same w.node.address && !w.manager.pool.containsPeer p &&
      !((manual = [] || w.manager.config.filterFailedManual) && w.manager.failed.contains p w.now)

/-- A setup finds who is eligible. -/
theorem found_eq (w : Overlay) (manual : List PeerAddress) :
    w.found manual = w.eligible manual := by
  have hempty : manual.isEmpty = decide (manual = []) := by cases manual <;> rfl
  have hkept : ∀ ps : List PeerAddress, w.manager.eligible w.node.address []
      (w.manager.failed.removeFailed w.now ps).1 = PeerAddress.distinct (ps.filter fun p =>
        w.manager.admits w.node.address p && !w.manager.failed.contains p w.now) := fun ps => by
    rw [Manager.eligible_eq, FailedCache.removeFailed_eq, List.filter_filter]
  simp only [found, Manager.candidates, hempty, decide_eq_true_eq, eligible]
  by_cases hm : manual = []
  · simpa [hm, Manager.admits] using hkept w.routing
  · cases hflag : w.manager.config.filterFailedManual
    · have hall : w.manager.eligible w.node.address [] manual =
          PeerAddress.distinct (manual.filter fun p => !p.relayed && !p.same w.node.address &&
            !w.manager.pool.containsPeer p) := w.manager.eligible_eq w.node.address manual
      simpa [hm] using hall
    · simpa [hm, Manager.admits] using hkept manual

end Overlay

end RelayUpkeep

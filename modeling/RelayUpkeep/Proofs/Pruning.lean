import RelayUpkeep.Proofs.Failures
import RelayUpkeep.Proofs.Selection
import RelayUpkeep.Scenario.Cache
import Mathlib.Data.List.Dedup

/-! # Pruning is invisible

A cache of failed peers drops what has run out when something is added to it or looked up in it.
Whoever asks cannot tell: each answer is that of a plain log, in which every failure stays. -/

namespace RelayUpkeep

/-! ## The plain log -/

/-- The failures so far with their moments, the latest first. -/
structure FailureLog where
  ttl : Span
  entries : List (PeerAddress × Instant)

namespace FailureLog

def empty (ttl : Span) : FailureLog := ⟨ttl, []⟩

def add (l : FailureLog) (peer : PeerAddress) (now : Instant) : FailureLog :=
  { l with entries := (peer, now) :: l.entries }

/-- The moment at which a peer failed last. -/
def latest? (l : FailureLog) (id : PeerId) : Option Instant :=
  (l.entries.find? fun e => e.1.id == id).map Prod.snd

/-- Whether the wait time of a peer is not over. -/
def waits (l : FailureLog) (now : Instant) (id : PeerId) : Bool :=
  (l.latest? id).any fun s => now ≤ s + l.ttl.nanos

/-- The peers whose wait time is not over, each of them once. -/
def waiting (l : FailureLog) (now : Instant) : List PeerId :=
  (l.entries.map fun e => e.1.id).dedup.filter (l.waits now)

variable {l : FailureLog} {now s : Instant} {id : PeerId} {p : PeerAddress}

theorem waits_iff :
    l.waits now id = true ↔ ∃ s, l.latest? id = some s ∧ now ≤ s + l.ttl.nanos := by
  simp only [waits, Option.any_eq_true, decide_eq_true_eq]

theorem latest?_add : (l.add p now).latest? id = if p.id = id then some now else l.latest? id := by
  by_cases h : p.id = id <;> simp [latest?, add, h]

theorem mem_ids_of_latest? (h : l.latest? id = some s) : id ∈ l.entries.map fun e => e.1.id := by
  obtain ⟨e, he, -⟩ := Option.map_eq_some_iff.mp h
  exact List.mem_map.mpr ⟨e, List.mem_of_find?_eq_some he, by simpa using List.find?_some he⟩

theorem nodup_waiting (l : FailureLog) (now : Instant) : (l.waiting now).Nodup :=
  (List.nodup_dedup _).filter _

theorem mem_waiting : id ∈ l.waiting now ↔ l.waits now id = true := by
  rw [waiting, List.mem_filter, List.mem_dedup]
  refine ⟨And.right, fun h => ⟨?_, h⟩⟩
  obtain ⟨s, hs, -⟩ := waits_iff.mp h
  exact mem_ids_of_latest? hs

end FailureLog

/-! ## What a cache holds of the log -/

namespace FailedCache

variable {c c' : FailedCache} {l : FailureLog} {now later e : Instant} {p : PeerAddress}

theorem removeFailed_sublist (c : FailedCache) (now : Instant) (ps : List PeerAddress) :
    (c.removeFailed now ps).2.entries.Sublist c.entries := by
  induction ps generalizing c with
  | nil => exact .refl _
  | cons p ps ih => exact (ih (c.afterLookup p now)).trans List.filter_sublist

/-- The cache holds one entry for each peer at most, namely the end of the wait time that began
last, and whatever is still to run out is there. -/
structure Tracks (c : FailedCache) (l : FailureLog) (now : Instant) : Prop where
  ttl : c.ttl = l.ttl
  once : (c.entries.map Prod.fst).Nodup
  ends : ∀ x ∈ c.entries, ∃ s, l.latest? x.1 = some s ∧ x.2 = s + l.ttl.nanos
  kept : ∀ id s, l.latest? id = some s → now ≤ s + l.ttl.nanos → (id, s + l.ttl.nanos) ∈ c.entries

theorem tracks_empty (ttl : Span) (now : Instant) : (empty ttl).Tracks (.empty ttl) now where
  ttl := rfl
  once := List.nodup_nil
  ends := by simp [empty]
  kept := by simp [FailureLog.empty, FailureLog.latest?]

namespace Tracks

theorem elapse (h : c.Tracks l now) (hl : now ≤ later) : c.Tracks l later where
  ttl := h.ttl
  once := h.once
  ends := h.ends
  kept id s hs hlive := h.kept id s hs (Nat.le_trans hl hlive)

/-- What has run out may be dropped. -/
theorem forgets (h : c.Tracks l now) (hf : c.Forgets now c')
    (hs : c'.entries.Sublist c.entries) (ht : c'.ttl = c.ttl) : c'.Tracks l now where
  ttl := ht.trans h.ttl
  once := h.once.sublist (hs.map _)
  ends x hx := h.ends x (hf.old x hx)
  kept id s hlatest hlive := hf.keeps _ (h.kept id s hlatest hlive) hlive

theorem prune (h : c.Tracks l now) : (c.prune now).Tracks l now :=
  h.forgets ⟨fun _ hx => (mem_prune.mp hx).1, fun _ hx hlive => mem_prune.mpr ⟨hx, hlive⟩⟩
    List.filter_sublist rfl

theorem afterLookup (h : c.Tracks l now) (p : PeerAddress) : (c.afterLookup p now).Tracks l now :=
  h.forgets (c.forgets_afterLookup p now) List.filter_sublist rfl

theorem removeFailed (h : c.Tracks l now) (ps : List PeerAddress) :
    (c.removeFailed now ps).2.Tracks l now :=
  h.forgets (c.forgets_removeFailed now ps) (c.removeFailed_sublist now ps)
    (Overlay.FailedCache.ttl_removeFailed c now ps)

/-- The new entry takes the place of the one that the peer had. -/
theorem put (h : c.Tracks l now) (p : PeerAddress) :
    (c.put p.id (now + c.ttl.nanos)).Tracks (l.add p now) now where
  ttl := h.ttl
  once := by
    have hrest : ((c.entries.filter (·.1 ≠ p.id)).map Prod.fst).Nodup :=
      h.once.sublist (List.filter_sublist.map _)
    exact List.nodup_cons.mpr ⟨by simp, hrest⟩
  ends x hx := by
    rw [FailureLog.latest?_add]
    rcases mem_put.mp hx with rfl | ⟨hx, hne⟩
    · exact ⟨now, if_pos rfl, congrArg (now + ·.nanos) h.ttl⟩
    · rw [if_neg (Ne.symm hne)]
      exact h.ends x hx
  kept id s hlatest hlive := by
    rw [FailureLog.latest?_add] at hlatest
    refine mem_put.mpr ?_
    by_cases hid : p.id = id
    · rw [if_pos hid] at hlatest
      obtain rfl := Option.some.inj hlatest
      exact .inl (by rw [hid, h.ttl]; rfl)
    · rw [if_neg hid] at hlatest
      exact .inr ⟨h.kept id s hlatest hlive, Ne.symm hid⟩

/-- Looking a peer up in the cache tells what the log tells. -/
theorem contains (h : c.Tracks l now) (p : PeerAddress) :
    c.contains p now = l.waits now p.id := by
  rw [Bool.eq_iff_iff, contains_iff, FailureLog.waits_iff]
  constructor
  · rintro ⟨x, hx, hid, hlive⟩
    obtain ⟨s, hs, he⟩ := h.ends x hx
    exact ⟨s, hid ▸ hs, he ▸ hlive⟩
  · rintro ⟨s, hs, hlive⟩
    exact ⟨_, h.kept p.id s hs hlive, rfl, hlive⟩

theorem mem_live (h : c.Tracks l now) (id : PeerId) :
    id ∈ (c.entries.filter (isLive now)).map Prod.fst ↔ l.waits now id = true := by
  rw [FailureLog.waits_iff, List.mem_map]
  constructor
  · rintro ⟨x, hx, rfl⟩
    obtain ⟨hx, hlive⟩ := List.mem_filter.mp hx
    obtain ⟨s, hs, he⟩ := h.ends x hx
    exact ⟨s, hs, he ▸ of_decide_eq_true hlive⟩
  · rintro ⟨s, hs, hlive⟩
    exact ⟨_, List.mem_filter.mpr ⟨h.kept id s hs hlive, decide_eq_true hlive⟩, rfl⟩

/-- The live entries are those of the waiting peers, so there are as many. -/
theorem len (h : c.Tracks l now) : c.len now = (l.waiting now).length := by
  have hnodup : ((c.entries.filter (isLive now)).map Prod.fst).Nodup :=
    h.once.sublist (List.filter_sublist.map _)
  have hperm : ((c.entries.filter (isLive now)).map Prod.fst).Perm (l.waiting now) :=
    (List.perm_ext_iff_of_nodup hnodup (l.nodup_waiting now)).mpr fun id =>
      (h.mem_live id).trans FailureLog.mem_waiting.symm
  rw [FailedCache.len, List.countP_eq_length_filter, ← hperm.length_eq, List.length_map]

end Tracks

theorem filter_put (c : FailedCache) (id : PeerId) (e : Instant) :
    (c.put id e).entries.filter (·.1 = id) = [(id, e)] := by
  simp [FailedCache.put]

end FailedCache

/-! ## Runs -/

namespace Scenario

/-- A plain log, and the instant that the clock shows. -/
structure LogRun where
  log : FailureLog
  now : Instant

/-- The answers of a plain log. A failure whose wait time would end beyond the range of the clock is
not written down. -/
def LogRun.step (r : LogRun) : CacheStep → LogRun × CacheAnswer
  | .add peer =>
    if (Instant.add? r.now r.log.ttl).isSome then ({ r with log := r.log.add peer r.now }, .nothing)
    else (r, .crash .clockOverflow)
  | .contains peer => (r, .flag (r.log.waits r.now peer.id))
  | .removeFailed peers => (r, .peers (peers.filter fun p => !r.log.waits r.now p.id))
  | .advance nanos => ({ r with now := r.now + nanos }, .nothing)
  | .ttl => (r, .span r.log.ttl)

def LogRun.play (r : LogRun) : List CacheStep → List CacheReport
  | [] => []
  | s :: rest =>
    let (r, answer) := r.step s
    let n := (r.log.waiting r.now).length
    ⟨answer, n, n == 0⟩ :: r.play rest

/-- The run after some steps. -/
def CacheRun.after (r : CacheRun) (steps : List CacheStep) : CacheRun :=
  steps.foldl (fun r s => (r.step s).1) r

/-- Both show the same time, and the cache holds what matters of the log. -/
structure CacheRun.Tracks (r : CacheRun) (k : LogRun) : Prop where
  now : r.now = k.now
  cache : r.cache.Tracks k.log k.now

variable {r : CacheRun} {k : LogRun}

theorem CacheRun.Tracks.step (h : r.Tracks k) (s : CacheStep) :
    (r.step s).1.Tracks (k.step s).1 ∧ (r.step s).2 = (k.step s).2 := by
  obtain ⟨c, now⟩ := r
  obtain ⟨l, now⟩ := k
  obtain ⟨rfl, hc⟩ := h
  replace hc : c.Tracks l now := hc
  cases s with
  | add p =>
    have httl := hc.ttl
    simp only [CacheRun.step, LogRun.step, FailedCache.add, ← httl]
    cases ha : Instant.add? now c.ttl with
    | none => exact ⟨⟨rfl, hc.prune⟩, rfl⟩
    | some e =>
      have he := ha.symm.trans (FailedCache.add?_eq (by simp [ha]))
      rw [Option.some.inj he]
      exact ⟨⟨rfl, hc.prune.put p⟩, rfl⟩
  | contains p => exact ⟨⟨rfl, hc.afterLookup p⟩, congrArg CacheAnswer.flag (hc.contains p)⟩
  | removeFailed ps =>
    refine ⟨⟨rfl, hc.removeFailed ps⟩, congrArg CacheAnswer.peers ?_⟩
    rw [FailedCache.removeFailed_eq]
    exact List.filter_congr fun p _ => congrArg (!·) (hc.contains p)
  | advance nanos => exact ⟨⟨rfl, hc.elapse (Nat.le_add_right _ _)⟩, rfl⟩
  | ttl => exact ⟨⟨rfl, hc⟩, congrArg CacheAnswer.span hc.ttl⟩

theorem CacheRun.Tracks.play (h : r.Tracks k) (steps : List CacheStep) :
    r.play steps = k.play steps := by
  induction steps generalizing r k with
  | nil => rfl
  | cons s rest ih =>
    obtain ⟨hstep, hanswer⟩ := h.step s
    simp only [CacheRun.play, LogRun.play, hanswer, ih hstep, FailedCache.isEmpty, hstep.now,
      hstep.cache.len]

theorem CacheRun.ttl_step (r : CacheRun) (s : CacheStep) :
    (r.step s).1.cache.ttl = r.cache.ttl := by
  cases s with
  | add p =>
    simp only [CacheRun.step, FailedCache.add]
    cases Instant.add? r.now r.cache.ttl <;> rfl
  | removeFailed ps => exact Overlay.FailedCache.ttl_removeFailed r.cache r.now ps
  | contains | advance | ttl => rfl

theorem CacheRun.ttl_after (r : CacheRun) (steps : List CacheStep) :
    (r.after steps).cache.ttl = r.cache.ttl := by
  induction steps generalizing r with
  | nil => rfl
  | cons s rest ih => exact (ih (r.step s).1).trans (r.ttl_step s)

/-- A failure that is remembered has one entry, the end of its wait time. -/
theorem CacheRun.entry_step (r : CacheRun) (p : PeerAddress)
    (h : (r.step (.add p)).2 = .nothing) :
    (r.step (.add p)).1.cache.entries.filter (·.1 = p.id) =
      [(p.id, r.now + r.cache.ttl.nanos)] := by
  simp only [CacheRun.step, FailedCache.add] at h ⊢
  cases ha : Instant.add? r.now r.cache.ttl with
  | none => simp [ha] at h
  | some e =>
    have he := ha.symm.trans (FailedCache.add?_eq (by simp [ha]))
    rw [Option.some.inj he]
    exact FailedCache.filter_put _ _ _

/-- Each history of a cache is one of the log. -/
theorem CacheRun.Tracks.after (h : r.Tracks k) (steps : List CacheStep) :
    ∃ k, (r.after steps).Tracks k := by
  induction steps generalizing r k with
  | nil => exact ⟨k, h⟩
  | cons s rest ih => exact ih (h.step s).1

theorem tracks_start (ttl : Span) (now : Instant) :
    (CacheRun.mk (.empty ttl) now).Tracks ⟨.empty ttl, now⟩ :=
  ⟨rfl, FailedCache.tracks_empty ttl now⟩

/-- Whatever was done to a cache before, its answers are those of the plain log: a peer counts as
failed as long as the wait time that began last is not over, and the length counts such peers. A
failure that the clock has no room for is not noticed later, and one that is remembered leaves one
entry for its peer, whatever else is known of it. -/
theorem pruning_is_invisible (ttl : Span) (now : Instant) (steps : List CacheStep) :
    let r := (CacheRun.mk (.empty ttl) now).after steps
    (CacheRun.mk (.empty ttl) now).play steps = (LogRun.mk (.empty ttl) now).play steps ∧
    (∀ (p : PeerAddress) (crash : Crash) (later : List CacheStep),
      (r.step (.add p)).2 = .crash crash → (r.step (.add p)).1.play later = r.play later) ∧
    ∀ p q : PeerAddress, q.id = p.id → r.step (.add q) = r.step (.add p) ∧
      ((r.step (.add p)).2 = .nothing →
        (r.step (.add p)).1.cache.entries.filter (·.1 = p.id) = [(p.id, r.now + ttl.nanos)]) := by
  intro r
  have hstart := tracks_start ttl now
  obtain ⟨k, hk⟩ := hstart.after steps
  refine ⟨hstart.play steps, ?_, ?_⟩
  · intro p crash later hcrash
    obtain ⟨hstep, hanswer⟩ := hk.step (.add p)
    -- the log is left as it was, and both runs are told by it
    have hsame : (k.step (.add p)).1 = k := by
      rw [hcrash] at hanswer
      simp only [LogRun.step] at hanswer ⊢
      split at hanswer
      · exact absurd hanswer (by simp)
      · next hn => rw [if_neg hn]
    rw [hstep.play later, hsame, hk.play later]
  · intro p q hid
    refine ⟨by simp only [CacheRun.step, FailedCache.add, hid], fun hp => ?_⟩
    rw [r.entry_step p hp, (CacheRun.mk (.empty ttl) now).ttl_after steps]
    rfl

/-- Peer 2 still counts as failed when peer 3 fails, for whose wait time the clock has no room. -/
theorem pruning_is_invisible_sample :
    let r := (CacheRun.mk (.empty (.ofSecs 1)) (Instant.limit - 2000000000)).after
      [.add (.sample 2), .advance 1000000000]
    (r.step (.add (.sample 3))).2 = .crash .clockOverflow ∧
      (r.step (.add (.sample 3))).1.play [.contains (.sample 2), .contains (.sample 3)] =
        r.play [.contains (.sample 2), .contains (.sample 3)] ∧
      r.play [.contains (.sample 2), .contains (.sample 3)] =
        [⟨.flag true, 1, false⟩, ⟨.flag false, 1, false⟩] := by
  intro r
  have hcrash : (r.step (.add (.sample 3))).2 = .crash .clockOverflow := by decide +kernel
  exact ⟨hcrash, (pruning_is_invisible _ _ _).2.1 _ _ _ hcrash, by decide +kernel⟩

end Scenario

end RelayUpkeep

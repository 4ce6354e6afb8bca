import RelayUpkeep.Proofs.Healing
import Mathlib.Algebra.GroupWithZero.Nat

/-! # The pool is a bounded list

Whatever is done to a pool, it answers as a list of relays does that is only ever added to at its
end. What was let in leaves once, when it is removed or with all the others, or is still there. -/

namespace RelayUpkeep

/-- What is asked of a pool. A relay is known by its own identity. -/
inductive PoolAct
  | add (r : RelayId)
  | remove (r : RelayId)
  | containsPeer (peer : PeerAddress)
  | snapshot
  | drain
  deriving DecidableEq

inductive PoolReply
  | admission (a : Admission)
  | flag (b : Bool)
  | relays (rs : List RelayId)
  deriving DecidableEq

section

variable (address : RelayId → PeerAddress)

/-! ## The pool -/

def member (r : RelayId) : Member := ⟨r, address r⟩

namespace Pool

def act (p : Pool) : PoolAct → Pool × PoolReply
  | .add r => ((p.add (member address r)).1, .admission (p.add (member address r)).2)
  | .remove r => ((p.remove r).1, .flag (p.remove r).2)
  | .containsPeer peer => (p, .flag (p.containsPeer peer))
  | .snapshot => (p, .relays (p.members.map Member.relay))
  | .drain => (p.drain.2, .relays (p.drain.1.map Member.relay))

/-- The pool after some acts. -/
def after (p : Pool) (acts : List PoolAct) : Pool :=
  acts.foldl (fun p a => (p.act address a).1) p

def replies (p : Pool) : List PoolAct → List PoolReply
  | [] => []
  | a :: rest => (p.act address a).2 :: (p.act address a).1.replies rest

end Pool

/-! ## The list -/

/-- Whether one of the relays connects to a peer. -/
def reaches (rs : List RelayId) (id : PeerId) : Bool := rs.any fun s => (address s).id == id

namespace Roster

/-- What becomes of a list with room for so many relays, and its answer. -/
def act (capacity : Nat) (rs : List RelayId) : PoolAct → List RelayId × PoolReply
  | .add r =>
    if rs.length = capacity then (rs, .admission .full)
    else if reaches address rs (address r).id then (rs, .admission .duplicate)
    else (rs ++ [r], .admission .added)
  | .remove r => (rs.filter (· ≠ r), .flag (r ∈ rs))
  | .containsPeer peer => (rs, .flag (reaches address rs peer.id))
  | .snapshot => (rs, .relays rs)
  | .drain => ([], .relays rs)

def after (capacity : Nat) (rs : List RelayId) (acts : List PoolAct) : List RelayId :=
  acts.foldl (fun rs a => (act address capacity rs a).1) rs

def replies (capacity : Nat) (rs : List RelayId) : List PoolAct → List PoolReply
  | [] => []
  | a :: rest =>
    (act address capacity rs a).2 :: replies capacity (act address capacity rs a).1 rest

end Roster

/-! ## One holds the other -/

/-- The pool holds the relays of the list in their order, each with its address. -/
structure Pool.Lists (p : Pool) (capacity : Nat) (rs : List RelayId) : Prop where
  capacity : p.capacity = capacity
  members : p.members = rs.map (member address)
  sound : p.Sound

end

variable {address : RelayId → PeerAddress} {capacity : Nat} {p : Pool} {rs : List RelayId}

theorem reaches_of_mem {r : RelayId} (h : r ∈ rs) :
    reaches address rs (address r).id = true :=
  List.any_eq_true.mpr ⟨r, h, beq_self_eq_true _⟩

theorem lists_empty (address : RelayId → PeerAddress) (capacity : Nat) :
    (Pool.empty capacity).Lists address capacity [] :=
  ⟨rfl, rfl, .empty capacity⟩

namespace Pool.Lists

theorem relays (h : p.Lists address capacity rs) : p.members.map Member.relay = rs := by
  rw [h.members, List.map_map]
  exact List.map_id rs

theorem nodup (h : p.Lists address capacity rs) : rs.Nodup := h.relays ▸ h.sound.relays

theorem len (h : p.Lists address capacity rs) : p.len = rs.length := by
  rw [Pool.len, h.members, List.length_map]

theorem bounded (h : p.Lists address capacity rs) : rs.length ≤ capacity :=
  h.len ▸ h.capacity ▸ h.sound.bounded

theorem containsPeer (h : p.Lists address capacity rs) (peer : PeerAddress) :
    p.containsPeer peer = reaches address rs peer.id := by
  rw [Pool.containsPeer, h.members, List.any_map]
  rfl

theorem contains (h : p.Lists address capacity rs) (r : RelayId) :
    p.contains r = decide (r ∈ rs) := by
  rw [Bool.eq_iff_iff, decide_eq_true_iff, ← h.relays]
  simp [Pool.contains]

theorem remove (h : p.Lists address capacity rs) (r : RelayId) :
    (p.remove r).1.Lists address capacity (rs.filter (· ≠ r)) where
  capacity := h.capacity
  members := by
    have herase : rs.eraseP (· == r) = rs.filter (· ≠ r) := by
      rw [← List.erase_eq_eraseP', h.nodup.erase_eq_filter]
      exact List.filter_congr fun s _ => by by_cases hs : s = r <;> simp [hs]
    rw [Pool.remove, h.members, List.eraseP_map, ← herase]
    rfl
  sound := h.sound.remove r

theorem add (h : p.Lists address capacity rs) (r : RelayId) :
    (p.act address (.add r)).1.Lists address capacity (Roster.act address capacity rs (.add r)).1 ∧
      (p.act address (.add r)).2 = (Roster.act address capacity rs (.add r)).2 := by
  have hfull : p.capacity ≤ p.len ↔ rs.length = capacity := by
    rw [h.capacity, h.len]
    exact ⟨fun hle => Nat.le_antisymm h.bounded hle, fun he => Nat.le_of_eq he.symm⟩
  have htwin : p.containsPeer (member address r).address = reaches address rs (address r).id :=
    h.containsPeer (address r)
  simp only [Pool.act, Pool.add, Roster.act, hfull, htwin]
  split
  · exact ⟨h, rfl⟩
  · next hroom =>
    split
    · exact ⟨h, rfl⟩
    · next hfree =>
      have hnew : r ∉ p.members.map Member.relay := by
        rw [h.relays]
        exact fun hmem => hfree (reaches_of_mem hmem)
      have hlt : p.len < p.capacity := Nat.lt_of_not_le (mt hfull.mp hroom)
      have halone : p.containsPeer (address r) = false := htwin.trans (by simpa using hfree)
      refine ⟨⟨h.capacity, ?_, h.sound.concat hnew hlt halone⟩, rfl⟩
      rw [h.members, List.map_append]
      rfl

/-- Each act of the pool is one of the list, with the same answer. -/
theorem act (h : p.Lists address capacity rs) (a : PoolAct) :
    (p.act address a).1.Lists address capacity (Roster.act address capacity rs a).1 ∧
      (p.act address a).2 = (Roster.act address capacity rs a).2 := by
  cases a with
  | add r => exact h.add r
  | remove r => exact ⟨h.remove r, congrArg PoolReply.flag (h.contains r)⟩
  | containsPeer peer => exact ⟨h, congrArg PoolReply.flag (h.containsPeer peer)⟩
  | snapshot => exact ⟨h, congrArg PoolReply.relays h.relays⟩
  | drain => exact ⟨⟨h.capacity, rfl, .clear p⟩, congrArg PoolReply.relays h.relays⟩

theorem after (h : p.Lists address capacity rs) (acts : List PoolAct) :
    (p.after address acts).Lists address capacity (Roster.after address capacity rs acts) := by
  induction acts generalizing p rs with
  | nil => exact h
  | cons a rest ih => exact ih (h.act a).1

theorem replies (h : p.Lists address capacity rs) (acts : List PoolAct) :
    p.replies address acts = Roster.replies address capacity rs acts := by
  induction acts generalizing p rs with
  | nil => rfl
  | cons a rest ih =>
    obtain ⟨hnext, hreply⟩ := h.act a
    simp only [Pool.replies, Roster.replies, hreply, ih hnext]

end Pool.Lists

/-! ## What comes in goes out once -/

namespace Roster

variable (r : RelayId)

/-- How often a relay was let in. -/
def admissions (history : List (PoolAct × PoolReply)) : Nat :=
  history.count (.add r, .admission .added)

/-- How often a relay was removed. -/
def removals (history : List (PoolAct × PoolReply)) : Nat :=
  history.count (.remove r, .flag true)

/-- How often a relay went out with all the others. -/
def evictions (history : List (PoolAct × PoolReply)) : Nat :=
  (history.map fun
    | (.drain, .relays rs) => rs.count r
    | _ => 0).sum

end Roster

/-- One act lets a relay in, lets it out, or leaves it where it is. -/
theorem Roster.act_balance (hn : rs.Nodup) (a : PoolAct) (r : RelayId) :
    let step := act address capacity rs a
    rs.count r + admissions r [(a, step.2)] =
      step.1.count r + removals r [(a, step.2)] + evictions r [(a, step.2)] := by
  cases a with
  | add s =>
    simp only [act, admissions, removals, evictions]
    split
    · simp
    · split
      · simp
      · by_cases hs : s = r <;> simp [hs, List.count_append]
  | remove s =>
    simp only [act, admissions, removals, evictions]
    by_cases hs : s = r
    · subst hs
      have hgone : (rs.filter (· ≠ s)).count s = 0 := List.count_eq_zero.mpr (by simp)
      rw [hgone, hn.count]
      by_cases hmem : s ∈ rs <;> simp [hmem]
    · simp [hs, List.count_filter, Ne.symm hs]
  | containsPeer | snapshot => simp [act, admissions, removals, evictions]
  | drain => simp [act, admissions, removals, evictions]

theorem Pool.Lists.balance (h : p.Lists address capacity rs) (acts : List PoolAct) (r : RelayId) :
    let history := acts.zip (p.replies address acts)
    rs.count r + Roster.admissions r history =
      (Roster.after address capacity rs acts).count r + Roster.removals r history +
        Roster.evictions r history := by
  induction acts generalizing p rs with
  | nil => rfl
  | cons a rest ih =>
    obtain ⟨hnext, hreply⟩ := h.act a
    have hrest := ih hnext
    have hstep := @Roster.act_balance address capacity rs h.nodup a r
    simp only [Roster.admissions, Roster.removals, Roster.evictions, List.count_cons,
      List.count_nil, List.map_cons, List.map_nil, List.sum_cons, List.sum_nil, Pool.replies,
      List.zip_cons_cons, hreply, Roster.after, List.foldl_cons] at hrest hstep ⊢
    omega

/-- Replies that were given do not depend on what is asked later. -/
theorem Pool.replies_append (p : Pool) (acts more : List PoolAct) :
    p.replies address (acts ++ more) =
      p.replies address acts ++ (p.after address acts).replies address more := by
  induction acts generalizing p with
  | nil => rfl
  | cons a rest ih => exact congrArg ((p.act address a).2 :: ·) (ih _)

/-- Whatever is done to a pool, and whichever relays connect to the same peer, it answers as the
list does and holds what the list holds. It keeps within its capacity and to one relay for each
peer, what it told before stays as it was told, and a relay is there if it came in once more than
it went out. -/
theorem pool_refines_roster (address : RelayId → PeerAddress) (capacity : Nat)
    (acts : List PoolAct) :
    let p := (Pool.empty capacity).after address acts
    let rs := Roster.after address capacity [] acts
    let history := acts.zip ((Pool.empty capacity).replies address acts)
    (Pool.empty capacity).replies address acts = Roster.replies address capacity [] acts ∧
    p.members = rs.map (member address) ∧
    p.len ≤ capacity ∧ p.len + p.remaining = capacity ∧
    (p.members.map fun m => m.address.id).Nodup ∧
    (∀ more, (Pool.empty capacity).replies address acts <+:
      (Pool.empty capacity).replies address (acts ++ more)) ∧
    ∀ r, Roster.admissions r history = Roster.removals r history + Roster.evictions r history +
      if r ∈ p.members.map Member.relay then 1 else 0 := by
  intro p rs history
  have hstart := lists_empty address capacity
  have h : p.Lists address capacity rs := hstart.after acts
  have hlen : p.len ≤ capacity := h.len ▸ h.bounded
  refine ⟨hstart.replies acts, h.members, hlen, ?_, h.sound.peers, fun more => ?_, fun r => ?_⟩
  · rw [Pool.remaining, h.capacity]
    omega
  · exact ⟨_, ((Pool.empty capacity).replies_append acts more).symm⟩
  · have hbalance : [].count r + Roster.admissions r history =
        rs.count r + Roster.removals r history + Roster.evictions r history :=
      hstart.balance acts r
    rw [h.relays, ← h.nodup.count]
    rw [List.count_nil] at hbalance
    omega

/-- Two relays connect to one peer: the second comes in after the first was removed, and removing
the first again leaves it there. -/
example :
    (Pool.empty 2).replies (fun _ => .sample 2)
        [.add 0, .add 1, .remove 0, .add 1, .remove 0, .drain] =
      [.admission .added, .admission .duplicate, .flag true, .admission .added, .flag false,
        .relays [1]] := by
  decide

end RelayUpkeep

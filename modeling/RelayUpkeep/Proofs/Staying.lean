import RelayUpkeep.Proofs.Admissions
import RelayUpkeep.Proofs.Rounds
import RelayUpkeep.Proofs.Watching

/-! # What the pool keeps

As long as only relays that were there before are lost and the manager is not shut down, the pooled
relays that are not about to be lost stay where they are. Others may join them, and the room that is
left for others is taken by nobody but those who stay. -/

namespace RelayUpkeep.Overlay

variable {t : TaskId} {u v w : Overlay} {p : PeerAddress} {gone : RelayId → Bool} {n : Nat}

/-- No relay was lost in between, other than some that were there already, and the manager is not
shut down. -/
structure Untroubled (gone : RelayId → Bool) (u v : Overlay) : Prop where
  up : v.manager.isShutDown = false
  lost : ∀ r, v.isLost r = true → u.isLost r = true ∨ gone r = true
  old : ∀ r, gone r = true → r < u.relays.length

theorem Untroubled.split (h : u.Untroubled gone w) (hg : u.Grows v) (hg' : v.Grows w) :
    u.Untroubled gone v ∧ v.Untroubled gone w := by
  have hup : v.manager.isShutDown = false := by
    by_contra hd
    exact absurd (hg'.shutDown (by simpa using hd)) (by simp [h.up])
  exact ⟨⟨hup, fun r hr => h.lost r (hg'.isLost hr), h.old⟩,
    ⟨h.up, fun r hr => (h.lost r hr).imp hg.isLost id,
      fun r hr => Nat.lt_of_lt_of_le (h.old r hr) hg.relays.length_le⟩⟩

/-- Relay `r` was lost in between. -/
def lostSince (u v : Overlay) (r : RelayId) : Bool := v.isLost r && !u.isLost r

theorem untroubled_lostSince (hup : v.manager.isShutDown = false)
    (hlost : ∀ r, v.isLost r = true → r < u.relays.length) : u.Untroubled (u.lostSince v) v where
  up := hup
  lost r hr := by
    cases hold : u.isLost r with
    | true => exact .inl rfl
    | false => exact .inr (by simp [lostSince, hr, hold])
  old r hr := hlost r (Bool.and_eq_true_iff.mp hr).1

/-- The pooled relays that are not about to be lost. -/
def staying (gone : RelayId → Bool) (w : Overlay) : List Member :=
  w.manager.pool.members.filter fun m => !gone m.relay

/-- How many pooled relays are about to be lost. -/
def leaving (gone : RelayId → Bool) (w : Overlay) : Nat :=
  w.manager.pool.members.countP fun m => gone m.relay

theorem len_eq (gone : RelayId → Bool) (w : Overlay) :
    w.manager.pool.len = (w.staying gone).length + w.leaving gone := by
  rw [Pool.len, staying, leaving, ← List.countP_eq_length_filter, Nat.add_comm,
    List.length_eq_countP_add_countP fun m : Member => gone m.relay]
  simp

/-- What stays is only added to, and nothing joins it that is about to be lost. -/
structure Retains (gone : RelayId → Bool) (u v : Overlay) : Prop where
  staying : u.staying gone <+: v.staying gone
  leaving : v.leaving gone ≤ u.leaving gone

theorem Retains.of_pool (h : v.manager.pool = u.manager.pool) : u.Retains gone v where
  staying := by
    have hsame : v.staying gone = u.staying gone := by
      rw [Overlay.staying, h, Overlay.staying]
    exact hsame ▸ List.prefix_rfl
  leaving := by
    have hsame : v.leaving gone = u.leaving gone := by
      rw [Overlay.leaving, h, Overlay.leaving]
    exact Nat.le_of_eq hsame

theorem Retains.trans (h : u.Retains gone v) (h' : v.Retains gone w) : u.Retains gone w :=
  ⟨h.staying.trans h'.staying, Nat.le_trans h'.leaving h.leaving⟩

/-- A relay is let in that stays. -/
theorem Retains.concat {m : Member}
    (h : v.manager.pool.members = u.manager.pool.members ++ [m]) (hm : gone m.relay = false) :
    u.Retains gone v where
  staying := by
    rw [Overlay.staying, Overlay.staying, h, List.filter_append]
    exact List.prefix_append _ _
  leaving := by
    rw [Overlay.leaving, Overlay.leaving, h, List.countP_append]
    simp [hm]

/-- A relay is taken out that does not stay. -/
theorem Retains.remove {r : RelayId} (h : v.manager.pool = (u.manager.pool.remove r).1)
    (hr : gone r = true) : u.Retains gone v where
  staying := by
    have hsame : v.staying gone = u.staying gone := by
      rw [Overlay.staying, Overlay.staying, h, Pool.remove]
      rcases List.exists_or_eq_self_of_eraseP (fun m : Member => m.relay == r)
        u.manager.pool.members with he | ⟨m, l₁, l₂, -, hm, hl, he⟩
      · rw [he]
      · have hleaves : gone m.relay = true := by
          rw [beq_iff_eq.mp hm]
          exact hr
        rw [he, hl]
        simp [hleaves]
    exact hsame ▸ List.prefix_rfl
  leaving := by
    rw [Overlay.leaving, Overlay.leaving, h]
    exact List.eraseP_sublist.countP_le

/-- A relay that was just made is not about to be lost. -/
theorem Untroubled.fresh (h : u.Untroubled gone w) {r : RelayId} (hm : Made u v r p) :
    gone r = false := by
  by_contra hgone
  have hlt := h.old r (by simpa using hgone)
  cases hm <;> exact absurd hlt (Nat.lt_irrefl _)

theorem Move.retains (h : Move t u v) (hu : u.Untroubled gone v) :
    u.Retains gone v := by
  cases h with
  | stir h => exact .of_pool h.pool
  | publish => exact .of_pool rfl
  | accept hr hm ha =>
    exact .concat (by rw [admitted_pool, hm.manager]) (hu.fresh hm)
  | refuse hr hm ha => exact .of_pool (by simp [refused, log, hm.manager])
  | shut r => exact .of_pool (manager_shutRelay u r ▸ rfl)
  | lose r =>
    by_cases hp : (u.lose r).1.manager.pool = u.manager.pool
    · exact .of_pool hp
    · obtain ⟨hno, hyes, hpool⟩ := isLost_lose hp
      exact .remove hpool ((hu.lost r hyes).resolve_left (by simp [hno]))
  | drain => exact absurd hu.up (by simp [drained, withManager])

theorem Turns.retains (h : Turns t u v) (hu : u.Untroubled gone v) :
    u.Retains gone v := by
  have hmoves : ∀ {x}, Moves t u x → u.Untroubled gone x → u.Retains gone x := by
    intro x hx
    induction hx with
    | refl => exact fun _ => .of_pool rfl
    | @tail y z hy hz ih =>
      intro hu
      obtain ⟨huy, hyz⟩ := hu.split (.moves hy) (.move hz)
      exact (ih huy).trans (hz.retains hyz)
  obtain ⟨x, hx, rfl | ⟨e, rfl⟩⟩ := h
  · exact hmoves hx hu
  · have hx' := hmoves hx (hu.split (.moves hx) (.finish x t e)).1
    exact hx'.trans (.of_pool (by rw [manager_finish]))

/-- The pool keeps what stays as long as there is no trouble. -/
theorem Sound.retains_act (h : w.Sound) {y : Act} (hu : w.Untroubled gone (w.act y)) :
    w.Retains gone (w.act y) := by
  rcases w.poll_cases y with ⟨t, ht, rfl, he⟩ | ⟨t, -, rfl, he⟩ | hp
  · rw [he] at hu ⊢
    exact (h.poll_turns t).retains hu
  · exact .of_pool (by rw [he])
  · exact .of_pool (quiet_act hp).1

theorem Sound.retains_run (h : w.Sound) (acts : List Act) (hu : w.Untroubled gone (w.run acts)) :
    w.Retains gone (w.run acts) := by
  induction acts using List.reverseRecOn with
  | nil => exact .of_pool rfl
  | append_singleton acts y ih =>
    rw [run_concat] at hu ⊢
    have hs := sound_run h acts
    obtain ⟨hbefore, hlast⟩ := hu.split (grows_run h acts) (hs.grows_act y)
    exact (ih hbefore).trans (hs.retains_act hlast)

/-- There is room for `n` relays beside those that are about to be lost. -/
def Fits (gone : RelayId → Bool) (n : Nat) (w : Overlay) : Prop :=
  n + w.leaving gone ≤ w.manager.pool.capacity

theorem Fits.mono (h : u.Fits gone n) (hr : u.Retains gone v) (hg : u.Grows v) :
    v.Fits gone n := by
  rw [Fits, hg.capacity]
  exact Nat.le_trans (Nat.add_le_add_left hr.leaving n) h

/-- A round does not want more relays than there is room for when it starts. -/
theorem fits_start (hb : w.manager.pool.len ≤ w.manager.pool.capacity)
    (candidates : List PeerAddress) (maxFail : Nat) :
    w.Fits gone (Round.start w.manager.pool.remaining candidates maxFail).wanted := by
  rw [Fits, Round.wanted_start]
  calc min w.manager.pool.remaining candidates.length + w.leaving gone
    _ ≤ w.manager.pool.remaining + w.manager.pool.len :=
      Nat.add_le_add (Nat.min_le_left _ _) List.countP_le_length
    _ = w.manager.pool.capacity := Nat.sub_add_cancel hb

/-- When the pool is full as many relays as there was room for stay. -/
theorem Fits.le_staying (h : w.Fits gone n)
    (hfull : w.manager.pool.capacity ≤ w.manager.pool.len) : n ≤ (w.staying gone).length := by
  refine Nat.le_of_add_le_add_right (Nat.le_trans h ?_)
  rw [← len_eq]
  exact hfull

end RelayUpkeep.Overlay

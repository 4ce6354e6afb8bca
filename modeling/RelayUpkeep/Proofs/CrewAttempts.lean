import Mathlib.Data.List.Perm.Subperm
import RelayUpkeep.Proofs.Crew

/-! # Attempts of the crew

An attempt that brings its relay leaves one relay less to come, and there is room for it. So an
attempt on a candidate that answers for itself is never refused, and the crew stays in place. -/

namespace RelayUpkeep.Overlay

variable {t t₀ : TaskId} {u v w : Overlay} {r : Round} {as : List TaskId}
  {draws : List (Nat × PeerAddress)}

/-! ## The relay of an attempt -/

theorem countP_succ {α : Type} {P Q : α → Bool} {l : List α} {g : α} (hn : l.Nodup) (hg : g ∈ l)
    (hP : P g = false) (hQ : Q g = true) (he : ∀ x ∈ l, x ≠ g → Q x = P x) :
    l.countP Q = l.countP P + 1 := by
  obtain ⟨l₁, l₂, rfl⟩ := List.append_of_mem hg
  have hsame : ∀ l', l' ⊆ l₁ ++ g :: l₂ → g ∉ l' → l'.countP Q = l'.countP P := by
    intro l' hsub hgl
    refine List.countP_congr fun x hx => ?_
    rw [he x (hsub hx) (by rintro rfl; exact hgl hx)]
  obtain ⟨hg₁, hg₂⟩ : g ∉ l₁ ∧ g ∉ l₂ := by
    have hno := (List.nodup_middle.mp hn)
    simpa using (List.nodup_cons.mp hno).1
  rw [List.countP_append, List.countP_append, List.countP_cons_of_pos hQ,
    List.countP_cons_of_neg (by simp [hP]), hsame l₁ (by simp) hg₁, hsame l₂ (by simp) hg₂]
  omega

theorem zip_snd_inj {α β γ : Type} {f : β → γ} {l : List α} {l' : List β}
    (h : (l'.map f).Nodup) {a a' : α} {b b' : β} (hab : (a, b) ∈ l.zip l')
    (hab' : (a', b') ∈ l.zip l') (hf : f b = f b') : a = a' := by
  obtain ⟨i, hi⟩ := List.mem_iff_getElem?.mp hab
  obtain ⟨j, hj⟩ := List.mem_iff_getElem?.mp hab'
  rw [List.getElem?_zip_eq_some] at hi hj
  have hij : i = j := by
    have hlt : i < (l'.map f).length := by
      simpa using (List.getElem?_eq_some_iff.mp hi.2).1
    refine (List.getElem?_inj hlt h).mp ?_
    rw [List.getElem?_map, List.getElem?_map, hi.2, hj.2, Option.map_some, Option.map_some, hf]
  subst hij
  exact Option.some.inj (hi.1.symm.trans hj.1)

/-- Each of the draws is for a slot of its own that is empty. -/
theorem Crewed.few (h : w.Crewed t₀ r as draws) : as.length ≤ r.wanted - r.filled := by
  have hlen : as.length = (draws.map Prod.fst).length := by
    rw [List.length_map, h.crew.length_eq]
  have hsub : draws.map Prod.fst ⊆ r.emptySlots := by
    intro i hi
    obtain ⟨d, hd, rfl⟩ := List.mem_map.mp hi
    exact Round.mem_emptySlots.mpr (h.empty d hd)
  have hle := (List.subperm_of_subset h.slots hsub).length_le
  have hcount := r.length_emptySlots
  omega

theorem Crewed.drawn (h : w.Crewed t₀ r as draws) {g a : TaskId} {q : PeerAddress} (hg : g ∈ as)
    (hgu : w.Guards g a q) : ∃ d, (g, d) ∈ as.zip draws ∧ d.2 = q := by
  obtain ⟨d, hd, hplays⟩ := h.draw hg
  obtain ⟨slot, hrole⟩ := hgu.role?
  have he := hplays.role?.symm.trans hrole
  injection he with he
  injection he with hslot hq
  exact ⟨d, hd, hq⟩

theorem Guards.not_joined {g a : TaskId} {q : PeerAddress} (h : w.Guards g a q)
    (hf : w.isFinished a = false) : w.hasJoined g = false := by
  by_contra hj
  obtain ⟨a', q', h', hd⟩ := hasJoined_iff.mp (by simpa using hj)
  obtain ⟨rfl, -⟩ := h.unique h'
  exact absurd (isFinished_of_succeeded hd) (by simp [hf])

/-- There is room for what an attempt brings, and its peer is not pooled. -/
theorem Crewed.verdict (h : w.Crewed t₀ r as draws) {q p : PeerAddress}
    (hr : w.role? t = some (.attempt q)) (hf : w.isFinished t = false) (hp : p.id = q.id) :
    w.verdict p = some .added := by
  obtain ⟨g, hg, hgu⟩ := h.attempts t q hr hf
  obtain ⟨d, hd, hq⟩ := h.drawn hg hgu
  have hnot := hgu.not_joined hf
  have hlt : as.countP w.hasJoined < as.length :=
    List.countP_lt_length_iff.mpr ⟨g, hg, by simpa using hnot⟩
  have hfree : w.manager.pool.containsPeer p = false := by
    have hfree := h.free _ hd hnot
    simpa [Pool.containsPeer, PeerAddress.same, hp, hq] using hfree
  have hroom := h.room
  have hfew := h.few
  simp only [Overlay.verdict, h.up, hfree, Bool.false_eq_true, if_false]
  rw [if_neg (by omega)]

/-- When an attempt ends, only its guard can learn that a relay was brought. -/
theorem Spares.hasJoined_of_ne (hs : Spares t₀ as u v) (hl : v.Linked) {g x : TaskId}
    {q : PeerAddress} (hg : v.Guards g t q) (hothers : ∀ a ≠ t, v.exit? a = u.exit? a)
    (hx : x ≠ g) : v.hasJoined x = u.hasJoined x := by
  refine Bool.eq_iff_iff.mpr ?_
  rw [hasJoined_iff, hasJoined_iff]
  constructor
  · rintro ⟨a, p, hxa, hd⟩
    have hat : a ≠ t := by
      rintro rfl
      exact hx (hl.guard_unique hxa hg)
    rw [succeeded, hothers a hat] at hd
    exact ⟨a, p, (hs.guarded x a p hxa).resolve_right (ne_of_eq_of_ne hd (by simp)), hd⟩
  · rintro ⟨a, p, hxa, hd⟩
    exact ⟨a, p, hs.kept x a p hxa, hs.grows.succeeded hd⟩

/-- An attempt brings its relay: there is one less to come. -/
theorem Crewed.join (h : u.Crewed t₀ r as draws) (hl : v.Linked) (hs : Spares t₀ as u v)
    {q p : PeerAddress} {s : RelayId} (hr : u.role? t = some (.attempt q))
    (hf : u.isFinished t = false) (hd : v.succeeded t = true)
    (hothers : ∀ a ≠ t, v.exit? a = u.exit? a)
    (hp : v.manager.pool.members = u.manager.pool.members ++ [⟨s, p⟩]) (hid : p.id = q.id) :
    v.Crewed t₀ r as draws := by
  obtain ⟨g, hg, hgu⟩ := h.attempts t q hr hf
  obtain ⟨d, hdraw, hq⟩ := h.drawn hg hgu
  have hgv := hs.kept g t q hgu
  have hjoined : v.hasJoined g = true := hasJoined_iff.mpr ⟨t, q, hgv, hd⟩
  have hsame : ∀ x, x ≠ g → v.hasJoined x = u.hasJoined x :=
    fun _ => hs.hasJoined_of_ne hl hgv hothers
  have hcontains : ∀ a : PeerAddress, a.id ≠ q.id → u.manager.pool.containsPeer a = false →
      v.manager.pool.containsPeer a = false := by
    intro a ha hfree
    rw [containsPeer_of_members hp, hfree]
    simpa [PeerAddress.same, hid] using ha.symm
  have hids := h.peers
  rw [List.map_append, List.map_map] at hids
  obtain ⟨hdraws, -, hdisj⟩ := List.nodup_append.mp hids
  refine h.step hs ?_ ?_ ?_ ?_
  · rw [countP_succ h.once hg (hgu.not_joined hf) hjoined fun x _ hx => hsame x hx,
      hs.grows.capacity]
    have hroom := h.room
    simp only [Pool.len, hp, List.length_append, List.length_singleton] at hroom ⊢
    omega
  · rintro ⟨x, b⟩ hx hnot
    have hxg : x ≠ g := by
      rintro rfl
      exact absurd hjoined (by simp [hnot])
    refine hcontains b.2 ?_ (h.free _ hx (hsame x hxg ▸ hnot))
    intro hb
    exact hxg (zip_snd_inj hdraws hx hdraw (hb.trans (by rw [← hq]; rfl)))
  · intro a ha
    refine hcontains a ?_ (h.left a ha)
    intro hb
    refine hdisj q.id ?_ a.id (List.mem_map_of_mem ha) hb.symm
    exact List.mem_map.mpr ⟨d, (List.of_mem_zip hdraw).2, by rw [← hq]; rfl⟩
  · intro _ x hx hfu hfv
    have hxt : x ≠ t := by
      rintro rfl
      obtain ⟨slot, p', hrole⟩ := h.staff hx
      rw [hr] at hrole
      exact absurd hrole (by simp)
    rw [Overlay.isFinished, hothers x hxt, ← Overlay.isFinished, hfu] at hfv
    exact absurd hfv (by simp)

/-- A chain of stirs of an attempt leaves the crew in place. -/
theorem Crewed.stirs (h : u.Crewed t₀ r as draws) (hs : u.Sound) {q : PeerAddress}
    (hr : u.role? t = some (.attempt q)) (hf : u.isFinished t = false) (hst : Stirs t u v) :
    v.Crewed t₀ r as draws := by
  have hlt := lt_of_role? hr
  induction hst with
  | refl => exact h
  | @tail x y hx hy ih =>
    have hl := (hs.moves (Stirs.moves hx) hlt hf).toLinked
    have hl' := (hs.moves ((Stirs.moves hx).tail (.stir hy)) hlt hf).toLinked
    exact ih.move hl hl' (.stir hy) (Stirs.role? hx hr) rfl (by rw [hy.pool])

/-- Every offer that is made between two states is accepted. -/
def Welcomes (u v : Overlay) : Prop :=
  ∃ more, v.offers = u.offers ++ more ∧ ∀ x ∈ more, x.2 = some .added

theorem Welcomes.of_eq (h : v.offers = u.offers) : u.Welcomes v := ⟨[], by simp [h], by simp⟩

theorem Welcomes.trans (h : u.Welcomes v) (h' : v.Welcomes w) : u.Welcomes w := by
  obtain ⟨more, hm, ha⟩ := h
  obtain ⟨rest, hr, ha'⟩ := h'
  refine ⟨more ++ rest, by rw [hr, hm, List.append_assoc], fun x hx => ?_⟩
  exact (List.mem_append.mp hx).elim (ha x) (ha' x)

/-! ## An attempt of the crew goes on -/

section Attempt

variable {q : PeerAddress} {k : Course} (h : u.Crewed t₀ r as draws) (hs : u.Sound)
  (hr : u.role? t = some (.attempt q)) (hf : u.isFinished t = false)

include h hs hr hf

/-- The relay of a candidate that answers for itself is never refused. -/
theorem Crewed.accepted {x : Overlay} {p : PeerAddress} (hst : Stirs t u x) (hp : p.id = q.id) :
    x.verdict p = some .added :=
  (h.stirs hs hr hf hst).verdict (hst.role? hr) ((hst.isFinished t).trans hf) hp

variable (hoffer : ∀ p, k.offers p → p.id = q.id) (ha : Attempts t q k u v)

include hoffer ha

/-- An attempt on a candidate that answers for itself brings its relay if it brings any. -/
theorem Crewed.attempt (hend : ∀ e, k.ends e → e.isFailure = true) : v.Crewed t₀ r as draws := by
  have hlt := lt_of_role? hr
  cases ha with
  | @waits x _ s delay hst hj hkx hd he =>
    subst he
    exact h.stirs hs hr hf (hst.tail (.sleep x _ delay (hst.role? hr) hj hd))
  | @ends x _ e hst hkx he =>
    have hx := h.stirs hs hr hf hst
    subst he
    refine hx.finish (hs.moves hst.moves hlt hf).toLinked ((hst.isFinished t).trans hf)
      (fun hd => absurd (hend e hkx) (by simp [hd])) fun hmem => ?_
    obtain ⟨slot, p, hrole⟩ := hx.staff hmem
    exact absurd ((hst.role? hr).symm.trans hrole) (by simp)
  | @accept x y _ new p hst hm hkx hv he =>
    have hx := h.stirs hs hr hf hst
    have hrx := hst.role? hr
    have hsx := hs.moves hst.moves hlt hf
    have hfx := (hst.isFinished t).trans hf
    have hmove : Move t x (y.admitted new p) := .accept hrx hm hv
    have hsz := hsx.move hmove (lt_of_role? hrx) hfx
    have hfz := (hmove.isFinished t).trans hfx
    have hsp : Spares t₀ as x (y.admitted new p) :=
      .move hsx.toLinked hsz.toLinked hmove hrx rfl fun g hg => hx.staff hg
    subst he
    refine hx.join ?_ (hsp.trans (.finish _ t .done)) hrx hfx ?_ ?_ (s := new) ?_ (hoffer p hkx)
    · exact (hsz.finish (lt_of_role? ((Grows.move hmove).role? hrx)) hfz .done).toLinked
    · rw [succeeded, exit?_finish_self hfz]
      rfl
    · intro a hat
      rw [(Frame.finish _ _).exits a hat, Overlay.exit?, hmove.exits]
      rfl
    · rw [manager_finish, admitted_pool, hm.manager]
  | refuse hst hm hkx hv _ => exact absurd (h.accepted hs hr hf hst (hoffer _ hkx)) hv

theorem Crewed.welcomes : u.Welcomes v := by
  cases ha with
  | @waits x _ s delay hst hj hkx hd he =>
    have hsleep : Stir t x (x.sleep t (.attempt q s) delay) := .sleep x _ delay (hst.role? hr) hj hd
    subst he
    exact .of_eq (Calm.stirs (hst.tail hsleep)).offers
  | ends hst hkx he =>
    subst he
    exact .of_eq ((Calm.stirs hst).trans (.finish _ _ _)).offers
  | @accept x y _ new p hst hm hkx hv he =>
    subst he
    refine ⟨[(new, some .added)], ?_, by simp⟩
    rw [(Calm.finish _ _ _).offers, offers_admitted, ((Calm.stirs hst).trans (.made hm)).offers]
  | refuse hst hm hkx hv _ => exact absurd (h.accepted hs hr hf hst (hoffer _ hkx)) hv

/-- An attempt that goes on has come to a stage of its course. -/
theorem Crewed.stage (hk : k.Sound t q) {task : Task} {s : AttemptStage}
    (ht : v.tasks[t]? = some task) (hj : task.job = .attempt q s)
    (hfv : v.isFinished t = false) : k.stage v s := by
  cases ha with
  | @waits x _ s' delay hst hj' hkx hd he =>
    have hsleep : Stir t x (x.sleep t (.attempt q s') delay) :=
      .sleep x _ delay (hst.role? hr) hj' hd
    subst he
    obtain rfl : s' = s := by simpa using (job_of_setJob ht).symm.trans hj
    exact hk.stirs hsleep.one hkx
  | ends hst hkx he =>
    subst he
    exact absurd (hfv.symm.trans (isFinished_finish _ _ _)) (by simp)
  | accept hst hm hkx hv he =>
    subst he
    exact absurd (hfv.symm.trans (isFinished_finish _ _ _)) (by simp)
  | refuse hst hm hkx hv _ => exact absurd (h.accepted hs hr hf hst (hoffer _ hkx)) hv

/-- An attempt that has ended has failed in a way of its course, or has brought its relay. -/
theorem Crewed.fate (hfv : v.isFinished t = true) : (∃ e, v.exit? t = some e ∧ k.ends e) ∨
    v.succeeded t = true ∧ ∃ p, k.offers p := by
  cases ha with
  | @waits x _ s delay hst hj hkx hd he =>
    have hsleep : Stir t x (x.sleep t (.attempt q s) delay) := .sleep x _ delay (hst.role? hr) hj hd
    subst he
    have hsame := Stirs.isFinished (hst.tail hsleep) t
    exact absurd (hfv.symm.trans (hsame.trans hf)) (by simp)
  | ends hst hkx he =>
    subst he
    exact .inl ⟨_, exit?_finish_self ((hst.isFinished t).trans hf) _, hkx⟩
  | @accept x y _ new p hst hm hkx hv he =>
    have hmove : Move t x (y.admitted new p) := .accept (hst.role? hr) hm hv
    have hfz := (hmove.isFinished t).trans ((hst.isFinished t).trans hf)
    subst he
    refine .inr ⟨?_, _, hkx⟩
    rw [succeeded, exit?_finish_self hfz]
    rfl
  | refuse hst hm hkx hv _ => exact absurd (h.accepted hs hr hf hst (hoffer _ hkx)) hv

end Attempt

end RelayUpkeep.Overlay

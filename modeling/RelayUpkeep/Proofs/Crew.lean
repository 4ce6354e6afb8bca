import Mathlib.Data.List.Count
import Mathlib.Data.List.Forall2
import Mathlib.Data.List.Nodup
import RelayUpkeep.Proofs.Admissions
import RelayUpkeep.Proofs.Rounds

/-! # The crew of a round

A round that is under way has one guard for each slot that drew a candidate. When it has the manager
for itself, there is room in the pool for all that its attempts may still bring. Whoever else works
leaves the crew in place. -/

namespace RelayUpkeep.Overlay

variable {t t₀ : TaskId} {u v w : Overlay} {r : Round} {as : List TaskId}
  {draws : List (Nat × PeerAddress)}

/-- A task has ended, and did not fail. -/
def succeeded (w : Overlay) (a : TaskId) : Bool := (w.exit? a).any fun e => !e.isFailure

/-- The attempt that a task guards brought a relay. -/
def hasJoined (w : Overlay) (g : TaskId) : Bool :=
  match (w.tasks[g]?).map Task.job with
  | some (.guardAttempt _ _ (some a)) => w.succeeded a
  | _ => false

/-- Task `g` guards attempt `a` for `q`. -/
def Guards (w : Overlay) (g a : TaskId) (q : PeerAddress) : Prop :=
  ∃ (task : Task) (slot : Nat), w.tasks[g]? = some task ∧ task.job = .guardAttempt slot q (some a)

/-- Task `g` ended as the attempt that it guards did. -/
def Told (w : Overlay) (g : TaskId) : Prop :=
  ∃ a q, w.Guards g a q ∧ w.isFinished a = true ∧ w.succeeded g = w.succeeded a

/-- A round of setup `t₀` is under way: each task of `as` guards the attempt that one of the draws
calls for, and nobody else works for the manager. -/
structure Crewed (t₀ : TaskId) (r : Round) (as : List TaskId) (draws : List (Nat × PeerAddress))
    (w : Overlay) : Prop where
  crew : List.Forall₂ (fun g d => w.Plays g (.guard d.1 d.2) (some t₀)) as draws
  once : as.Nodup
  slots : (draws.map Prod.fst).Nodup
  empty : ∀ d ∈ draws, r.slots[d.1]? = some none
  guards : ∀ g slot p, w.role? g = some (.guard slot p) → w.isFinished g = false → g ∈ as
  attempts : ∀ a q, w.role? a = some (.attempt q) → w.isFinished a = false →
    ∃ g ∈ as, w.Guards g a q
  up : w.manager.isShutDown = false
  room : w.manager.pool.len + (r.wanted - r.filled) ≤
    w.manager.pool.capacity + as.countP w.hasJoined
  peers : ((draws.map Prod.snd ++ r.candidates).map PeerAddress.id).Nodup
  free : ∀ x ∈ as.zip draws, w.hasJoined x.1 = false →
    w.manager.pool.containsPeer x.2.2 = false
  left : ∀ p ∈ r.candidates, w.manager.pool.containsPeer p = false
  told : w.isFinished t₀ = false → ∀ g ∈ as, w.isFinished g = true → w.Told g
  steady : w.isFinished t₀ = false → ∀ g ∈ as, ∀ task : Task, w.tasks[g]? = some task →
    task.isCancelled = false

/-! ## Guards and their attempts -/

theorem Grows.exit? (h : u.Grows v) {a : TaskId} {e : Exit} (ha : u.exit? a = some e) :
    v.exit? a = some e := by
  obtain ⟨l, hl⟩ := h.exits
  rw [exit?_append hl.symm, ha, Option.some_or]

theorem Grows.isFinished (h : u.Grows v) {a : TaskId} (ha : u.isFinished a = true) :
    v.isFinished a = true := by
  obtain ⟨e, he⟩ := Option.isSome_iff_exists.mp ha
  exact Option.isSome_iff_exists.mpr ⟨e, h.exit? he⟩

theorem Grows.unfinished (h : u.Grows v) {a : TaskId} (ha : v.isFinished a = false) :
    u.isFinished a = false := by
  by_contra hu
  exact absurd (h.isFinished (by simpa using hu)) (by simp [ha])

theorem Grows.succeeded_eq (h : u.Grows v) {a : TaskId} (ha : u.isFinished a = true) :
    v.succeeded a = u.succeeded a := by
  obtain ⟨e, he⟩ := Option.isSome_iff_exists.mp ha
  rw [succeeded, succeeded, he, h.exit? he]

theorem isFinished_of_succeeded {a : TaskId} (h : w.succeeded a = true) :
    w.isFinished a = true := by
  obtain ⟨e, he, -⟩ := (Option.any_eq_true _ _).mp h
  simp [isFinished, he]

theorem Grows.succeeded (h : u.Grows v) {a : TaskId} (ha : u.succeeded a = true) :
    v.succeeded a = true :=
  (h.succeeded_eq (isFinished_of_succeeded ha)).trans ha

theorem isFinished_of_exit? {a : TaskId} {e : Exit} (h : w.exit? a = some e) :
    w.isFinished a = true := by
  simp [isFinished, h]

theorem Guards.role? {g a : TaskId} {q : PeerAddress} (h : w.Guards g a q) :
    ∃ slot, w.role? g = some (.guard slot q) := by
  obtain ⟨task, slot, ht, hj⟩ := h
  exact ⟨slot, role?_eq_some.mpr ⟨task, ht, by rw [hj]; rfl⟩⟩

theorem Guards.unique {g a a' : TaskId} {q q' : PeerAddress} (h : w.Guards g a q)
    (h' : w.Guards g a' q') : a = a' ∧ q = q' := by
  obtain ⟨task, slot, ht, hj⟩ := h
  obtain ⟨task', slot', ht', hj'⟩ := h'
  obtain rfl := Option.some.inj (ht.symm.trans ht')
  have he := hj.symm.trans hj'
  injection he with _ hq ha
  exact ⟨Option.some.inj ha, hq⟩

theorem Linked.attempt_of_guards (hl : w.Linked) {g a : TaskId} {q : PeerAddress}
    (h : w.Guards g a q) : w.Plays a (.attempt q) (some g) := by
  obtain ⟨task, slot, ht, hj⟩ := h
  have hr := hl.refers g task ht
  rw [hj] at hr
  exact hr

/-- An attempt has one guard. -/
theorem Linked.guard_unique (hl : w.Linked) {g g' a : TaskId} {q q' : PeerAddress}
    (h : w.Guards g a q) (h' : w.Guards g' a q') : g = g' := by
  obtain ⟨task, ht, -, hpar⟩ := hl.attempt_of_guards h
  obtain ⟨task', ht', -, hpar'⟩ := hl.attempt_of_guards h'
  obtain rfl := Option.some.inj (ht.symm.trans ht')
  exact Option.some.inj (hpar.symm.trans hpar')

theorem hasJoined_iff {g : TaskId} :
    w.hasJoined g = true ↔ ∃ a q, w.Guards g a q ∧ w.succeeded a = true := by
  constructor
  · intro h
    unfold hasJoined at h
    split at h
    · next a heq =>
      obtain ⟨task, ht, hj⟩ := Option.map_eq_some_iff.mp heq
      exact ⟨a, _, ⟨task, _, ht, hj⟩, h⟩
    · exact absurd h (by simp)
  · rintro ⟨a, q, ⟨task, slot, ht, hj⟩, he⟩
    simp [hasJoined, ht, hj, he]

theorem exists_zip_of_mem {α β : Type} {R : α → β → Prop} {l : List α} {l' : List β}
    (h : List.Forall₂ R l l') {a : α} (ha : a ∈ l) : ∃ b, (a, b) ∈ l.zip l' ∧ R a b := by
  induction h with
  | nil => exact absurd ha (by simp)
  | @cons x y l l' hr _ ih =>
    rcases List.mem_cons.mp ha with rfl | ha
    · exact ⟨y, by simp, hr⟩
    · obtain ⟨b, hb, hab⟩ := ih ha
      exact ⟨b, by simp [hb], hab⟩

theorem Crewed.draw (h : w.Crewed t₀ r as draws) {g : TaskId} (hg : g ∈ as) :
    ∃ d, (g, d) ∈ as.zip draws ∧ w.Plays g (.guard d.1 d.2) (some t₀) :=
  exists_zip_of_mem h.crew hg

/-! ## Steps that leave the crew in place -/

theorem containsPeer_sublist {pool pool' : Pool} (h : pool'.members.Sublist pool.members)
    {p : PeerAddress} (hp : pool.containsPeer p = false) : pool'.containsPeer p = false := by
  refine List.any_eq_false.mpr fun m hm => ?_
  exact List.any_eq_false.mp hp m (h.subset hm)

/-- The crew is in place, and whoever is new to it serves one of its guards. -/
structure Spares (t₀ : TaskId) (as : List TaskId) (u v : Overlay) : Prop where
  grows : u.Grows v
  kept : ∀ g a q, u.Guards g a q → v.Guards g a q
  guarded : ∀ g a q, v.Guards g a q → u.Guards g a q ∨ u.succeeded a = false
  guards : ∀ g slot p, v.role? g = some (.guard slot p) → g < u.tasks.length
  attempts : ∀ a q, v.role? a = some (.attempt q) →
    a < u.tasks.length ∨ ∃ g ∈ as, v.Guards g a q
  up : v.manager.isShutDown = u.manager.isShutDown
  steady : v.isFinished t₀ = false → ∀ g ∈ as, ∀ task : Task, v.tasks[g]? = some task →
    task.isCancelled = true →
    ∃ before : Task, u.tasks[g]? = some before ∧ before.isCancelled = true

namespace Spares

theorem trans (h : Spares t₀ as u v) (h' : Spares t₀ as v w) : Spares t₀ as u w where
  grows := h.grows.trans h'.grows
  kept g a q hg := h'.kept g a q (h.kept g a q hg)
  guarded g a q hg := by
    rcases h'.guarded g a q hg with hg | hn
    · exact h.guarded g a q hg
    · refine .inr (Bool.not_eq_true _ ▸ fun hd => ?_)
      exact absurd (h.grows.succeeded hd) (by simp [hn])
  guards g slot p hr := by
    rw [h'.grows.role?_eq (h'.guards g slot p hr)] at hr
    exact h.guards g slot p hr
  attempts a q hr := by
    rcases h'.attempts a q hr with hlt | hg
    · rw [h'.grows.role?_eq hlt] at hr
      refine (h.attempts a q hr).imp id ?_
      rintro ⟨g, hg, hgu⟩
      exact ⟨g, hg, h'.kept g a q hgu⟩
    · exact .inr hg
  up := h'.up.trans h.up
  steady hf g hg task ht hc := by
    obtain ⟨x, hx, hcx⟩ := h'.steady hf g hg task ht hc
    exact h.steady (h'.grows.unfinished hf) g hg x hx hcx

/-- Who brought a relay is the same as long as no attempt ends well. -/
theorem hasJoined (h : Spares t₀ as u v) (he : ∀ g a q, v.Guards g a q →
    v.succeeded a = true → u.succeeded a = true) : v.hasJoined = u.hasJoined := by
  funext g
  refine Bool.eq_iff_iff.mpr ?_
  rw [hasJoined_iff, hasJoined_iff]
  constructor
  · rintro ⟨a, q, hg, hd⟩
    have hu := he g a q hg hd
    exact ⟨a, q, (h.guarded g a q hg).resolve_right (by simp [hu]), hu⟩
  · rintro ⟨a, q, hg, hd⟩
    exact ⟨a, q, h.kept g a q hg, h.grows.succeeded hd⟩

theorem told (h : Spares t₀ as u v) {g : TaskId} (hf : u.isFinished g = true) (ht : u.Told g) :
    v.Told g := by
  obtain ⟨a, q, hg, hfa, he⟩ := ht
  refine ⟨a, q, h.kept g a q hg, h.grows.isFinished hfa, ?_⟩
  rw [h.grows.succeeded_eq hf, h.grows.succeeded_eq hfa, he]

end Spares

/-- What has to be looked at anew when the crew is in place: the pool, and who ended. -/
theorem Crewed.step (h : u.Crewed t₀ r as draws) (hs : Spares t₀ as u v)
    (hroom : v.manager.pool.len + (r.wanted - r.filled) ≤
      v.manager.pool.capacity + as.countP v.hasJoined)
    (hfree : ∀ x ∈ as.zip draws, v.hasJoined x.1 = false →
      v.manager.pool.containsPeer x.2.2 = false)
    (hleft : ∀ p ∈ r.candidates, v.manager.pool.containsPeer p = false)
    (hends : v.isFinished t₀ = false → ∀ g ∈ as, u.isFinished g = false →
      v.isFinished g = true → v.Told g) : v.Crewed t₀ r as draws where
  crew := h.crew.imp fun g d hp => hp.mono hs.grows
  once := h.once
  slots := h.slots
  empty := h.empty
  guards g slot p hr hf := by
    rw [hs.grows.role?_eq (hs.guards g slot p hr)] at hr
    exact h.guards g slot p hr (hs.grows.unfinished hf)
  attempts a q hr hf := by
    rcases hs.attempts a q hr with hlt | hg
    · rw [hs.grows.role?_eq hlt] at hr
      obtain ⟨g, hg, hgu⟩ := h.attempts a q hr (hs.grows.unfinished hf)
      exact ⟨g, hg, hs.kept g a q hgu⟩
    · exact hg
  up := hs.up.trans h.up
  room := hroom
  peers := h.peers
  free := hfree
  left := hleft
  told hf g hg hfg := by
    cases hfu : u.isFinished g with
    | true => exact hs.told hfu (h.told (hs.grows.unfinished hf) g hg hfu)
    | false => exact hends hf g hg hfu hfg
  steady hf g hg task ht := by
    by_contra hc
    obtain ⟨before, hb, hbc⟩ := hs.steady hf g hg task ht (by simpa using hc)
    rw [h.steady (hs.grows.unfinished hf) g hg before hb] at hbc
    exact absurd hbc (by simp)

/-- Relays may leave the pool, and attempts may fail. -/
theorem Crewed.keep (h : u.Crewed t₀ r as draws) (hs : Spares t₀ as u v)
    (hp : v.manager.pool.members.Sublist u.manager.pool.members)
    (he : ∀ g a q, v.Guards g a q → v.succeeded a = true → u.succeeded a = true)
    (hends : v.isFinished t₀ = false → ∀ g ∈ as, u.isFinished g = false →
      v.isFinished g = true → v.Told g) : v.Crewed t₀ r as draws := by
  have hj := hs.hasJoined he
  refine h.step hs ?_ ?_ ?_ hends
  · rw [hj, hs.grows.capacity]
    exact Nat.le_trans (Nat.add_le_add_right hp.length_le _) h.room
  · intro x hx hf
    exact containsPeer_sublist hp (h.free x hx (hj ▸ hf))
  · exact fun p hm => containsPeer_sublist hp (h.left p hm)

/-! ## Who leaves the crew in place -/

theorem Move.isShutDown (h : Move t u v) (hr : u.role? t ≠ some .shutdown) :
    v.manager.isShutDown = u.manager.isShutDown := by
  cases h with
  | stir h => exact h.isShutDown
  | publish => rfl
  | @accept v r p q hrole hm ha =>
    have hmg : (v.admitted r p).manager.isShutDown = v.manager.isShutDown := rfl
    rw [hmg, hm.manager]
  | refuse hrole hm ha => simp [refused, log, hm.manager]
  | shut r => rw [manager_shutRelay]
  | lose r =>
    obtain ⟨s, mine, pool, failed, journal, h, -⟩ := u.lose_frame r
    rw [h]
  | drain hrole => exact absurd hrole hr

theorem Turns.isShutDown (h : Turns t u v) (hlt : t < u.tasks.length)
    (hr : u.role? t ≠ some .shutdown) : v.manager.isShutDown = u.manager.isShutDown := by
  refine h.keep (P := fun x => x.manager.isShutDown = u.manager.isShutDown) hlt rfl
    (fun x y hx hrole hm => ?_) fun x e hx => ?_
  · exact (hm.isShutDown (hrole ▸ hr)).trans hx
  · rwa [manager_finish]

theorem Crewed.staff (h : w.Crewed t₀ r as draws) {g : TaskId} (hg : g ∈ as) :
    ∃ slot p, w.role? g = some (.guard slot p) := by
  obtain ⟨d, -, hp⟩ := h.draw hg
  exact ⟨d.1, d.2, hp.role?⟩

/-- A step spares the crew if no guard has another job, nobody new guards or attempts anything, and
none of the crew is asked to end. -/
theorem Spares.of_jobs (hg : u.Grows v)
    (hjobs : ∀ (g : TaskId) (task : Task) slot p, u.tasks[g]? = some task →
      task.job.role = .guard slot p →
      ∃ task' : Task, v.tasks[g]? = some task' ∧ task'.job = task.job)
    (hnew : ∀ (a : TaskId) (task : Task), v.tasks[a]? = some task → task.job.role.works = true →
      a < u.tasks.length)
    (hup : v.manager.isShutDown = u.manager.isShutDown)
    (hsteady : v.isFinished t₀ = false → ∀ g ∈ as, ∀ task : Task, v.tasks[g]? = some task →
      task.isCancelled = true →
      ∃ before : Task, u.tasks[g]? = some before ∧ before.isCancelled = true) :
    Spares t₀ as u v where
  grows := hg
  kept := by
    rintro g a q ⟨task, slot, ht, hj⟩
    obtain ⟨task', ht', hj'⟩ := hjobs g task slot q ht (by rw [hj]; rfl)
    exact ⟨task', slot, ht', hj'.trans hj⟩
  guarded := by
    rintro g a q ⟨task, slot, ht, hj⟩
    have hlt := hnew g task ht (by rw [hj]; rfl)
    have hb := List.getElem?_eq_getElem hlt
    obtain ⟨task', ht', hk⟩ := hg.tasks g _ hb
    obtain rfl := Option.some.inj (ht.symm.trans ht')
    obtain ⟨task'', ht'', hj'⟩ := hjobs g _ slot q hb (by rw [← hk.role, hj]; rfl)
    obtain rfl := Option.some.inj (ht.symm.trans ht'')
    exact .inl ⟨_, slot, hb, hj'.symm.trans hj⟩
  guards g slot p hr := by
    obtain ⟨task, ht, hrole⟩ := role?_eq_some.mp hr
    exact hnew g task ht (by rw [hrole]; rfl)
  attempts a q hr := by
    obtain ⟨task, ht, hrole⟩ := role?_eq_some.mp hr
    exact .inl (hnew a task ht (by rw [hrole]; rfl))
  up := hup
  steady := hsteady

theorem Role.starts_of_isSolitary {role : Role} (h : role.isSolitary = true) (job : Job) :
    role.starts job = false := by
  cases role <;> first | rfl | exact absurd h (by simp [Role.isSolitary])

theorem Role.leads_of_isSolitary {role : Role} (h : role.isSolitary = true) (other : Role) :
    role.leads other = false := by
  cases role <;> first | rfl | exact absurd h (by simp [Role.isSolitary])

theorem not_serves_of_isSolitary (hl : w.Linked) {role : Role} (hr : w.role? t = some role)
    (hs : role.isSolitary = true) (a : TaskId) : ¬w.Serves t a := by
  have hno : ∀ other, ¬w.Plays a other (some t) := by
    rintro other ⟨task, ht, -, hp⟩
    obtain ⟨-, role', hr', hlead⟩ := hl.parents a task t ht hp
    obtain rfl := Option.some.inj (hr.symm.trans hr')
    exact absurd hlead (by simp [Role.leads_of_isSolitary hs])
  rintro (⟨_, _, h⟩ | ⟨_, h⟩ | ⟨_, h⟩) <;> exact hno _ h

theorem Spares.move (hl : u.Linked) (hv : v.Linked) (hm : Move t u v) {role : Role}
    (hr : u.role? t = some role) (hs : role.isSolitary = true)
    (has : ∀ g ∈ as, ∃ slot p, u.role? g = some (.guard slot p)) : Spares t₀ as u v := by
  have hg := Grows.move hm
  refine .of_jobs hg ?_ ?_ (hm.isShutDown ?_) ?_
  · intro g task slot p ht hrole
    obtain ⟨task', ht', rfl | hj⟩ := (Frame.move hm).jobs g task ht
    · obtain rfl := Option.some.inj (hr.symm.trans (role?_eq_some.mpr ⟨task, ht, hrole⟩))
      exact absurd hs (by simp [Role.isSolitary])
    · exact ⟨task', ht', hj⟩
  · intro a task ht hw
    cases hm.origin ht with
    | kept hb | turned _ hb => exact (List.getElem?_eq_some_iff.mp hb).1
    | part _ hj =>
      obtain ⟨role', hr', hst⟩ := hj
      obtain rfl := Option.some.inj (hr.symm.trans hr')
      exact absurd hst (by simp [Role.starts_of_isSolitary hs])
    | watcher _ hj => exact absurd hw (by simp [hj, Job.role, Role.works])
  · rintro hsd
    obtain rfl := Option.some.inj (hr.symm.trans hsd)
    exact absurd hs (by simp [Role.isSolitary])
  · intro _ g hgas task ht hc
    obtain ⟨slot, p, hrole⟩ := has g hgas
    rcases hm.cancels g task ht hc with (hserves | ⟨x, relay, hx, hw, -⟩) | hb
    · exact absurd hserves (not_serves_of_isSolitary hl hr hs g)
    · have hwatch := hv.role?_watcher hx hw
      rw [hg.role? hrole] at hwatch
      exact absurd hwatch (by simp)
    · exact hb

/-- Whoever works alone leaves the crew in place as long as it adds nothing to the pool. -/
theorem Crewed.move (h : u.Crewed t₀ r as draws) (hl : u.Linked) (hv : v.Linked)
    (hm : Move t u v) {role : Role} (hr : u.role? t = some role) (hs : role.isSolitary = true)
    (hp : v.manager.pool.members.Sublist u.manager.pool.members) : v.Crewed t₀ r as draws := by
  refine h.keep (.move hl hv hm hr hs fun g hg => h.staff hg) hp ?_ ?_
  · intro g a q _ he
    rwa [succeeded, Overlay.exit?, hm.exits] at he
  · intro _ g _ hf hf'
    rw [hm.isFinished, hf] at hf'
    exact absurd hf' (by simp)

theorem Spares.finish (w : Overlay) (t : TaskId) (e : Exit) :
    Spares t₀ as w (w.finish t e) := by
  refine .of_jobs (.finish w t e) ?_ ?_ ?_ ?_
  · intro g task slot p hb _
    exact ⟨task, by rwa [tasks_finish], rfl⟩
  · intro a task hb _
    rw [tasks_finish] at hb
    exact (List.getElem?_eq_some_iff.mp hb).1
  · rw [manager_finish]
  · intro _ g _ task hb hc
    rw [tasks_finish] at hb
    exact ⟨task, hb, hc⟩

theorem isFinished_finish (w : Overlay) (t : TaskId) (e : Exit) :
    (w.finish t e).isFinished t = true := by
  obtain ⟨rs, he, -⟩ := w.finish_eq t e
  rw [he]
  exact isFinished_iff.mpr ⟨e, List.mem_append_right _ (List.mem_singleton_self _)⟩

theorem exit?_finish_self (hf : w.isFinished t = false) (e : Exit) :
    (w.finish t e).exit? t = some e := by
  obtain ⟨rs, heq, -⟩ := w.finish_eq t e
  have hn : w.exit? t = none := by simpa [isFinished] using hf
  rw [exit?_append (w := w) (l := [(t, e)]) (by rw [heq]), hn]
  simp

/-- The end of a task is no matter for the crew, unless an attempt ended well or a guard ended. -/
theorem Crewed.finish (h : w.Crewed t₀ r as draws) (hl : w.Linked) (hf : w.isFinished t = false)
    {e : Exit} (he : e.isFailure = false → ∀ q, w.role? t ≠ some (.attempt q))
    (ht : t ∈ as → (w.finish t e).isFinished t₀ = false → (w.finish t e).Told t) :
    (w.finish t e).Crewed t₀ r as draws := by
  have hs : Spares t₀ as w (w.finish t e) := .finish w t e
  have hexit : ∀ a ≠ t, (w.finish t e).exit? a = w.exit? a := (Frame.finish w e).exits
  refine h.keep hs (by rw [manager_finish]) ?_ ?_
  · intro g a q hg hd
    by_cases hat : a = t
    · subst hat
      rw [succeeded, exit?_finish_self hf] at hd
      obtain ⟨task, slot, htask, hj⟩ := hg
      rw [tasks_finish] at htask
      have hr := (hl.attempt_of_guards ⟨task, slot, htask, hj⟩).role?
      exact absurd hr (he (by simpa using hd) q)
    · rwa [succeeded, hexit a hat] at hd
  · intro hft g hgas hgu hgv
    by_cases hgt : g = t
    · exact hgt ▸ ht (hgt ▸ hgas) hft
    · rw [Overlay.isFinished, hexit g hgt, ← Overlay.isFinished, hgu] at hgv
      exact absurd hgv (by simp)

/-- Watchers and parts of a shutdown are no matter for the crew. -/
theorem Crewed.turns (h : u.Crewed t₀ r as draws) (hs : u.Sound) (hm : Turns t u v)
    (hf : u.isFinished t = false) {role : Role} (hr : u.role? t = some role)
    (hsol : role.isSolitary = true) (hw : role.works = false) : v.Crewed t₀ r as draws := by
  have hlt := lt_of_role? hr
  have hmoves : ∀ {x}, Moves t u x → x.Crewed t₀ r as draws := by
    intro x hx
    induction hx with
    | refl => exact h
    | @tail y z hy hz ih =>
      have hry := (Grows.moves hy).role? hr
      refine ih.move (hs.moves hy hlt hf).toLinked (hs.moves (hy.tail hz) hlt hf).toLinked hz hry
        hsol ?_
      cases hz.pool with
      | same hp => rw [hp]
      | joined hq =>
        obtain rfl := Option.some.inj (hry.symm.trans hq)
        exact absurd hw (by simp [Role.works])
      | lost _ hp => exact hp ▸ List.eraseP_sublist
      | cleared hq =>
        obtain rfl := Option.some.inj (hry.symm.trans hq)
        exact absurd hsol (by simp [Role.isSolitary])
  obtain ⟨x, hx, rfl | ⟨e, rfl⟩⟩ := hm
  · exact hmoves hx
  · have hrx := (Grows.moves hx).role? hr
    refine (hmoves hx).finish (hs.moves hx hlt hf).toLinked
      ((Moves.isFinished hx t).trans hf) ?_ ?_
    · intro _ q hq
      obtain rfl := Option.some.inj (hrx.symm.trans hq)
      exact absurd hw (by simp [Role.works])
    · intro hmem
      obtain ⟨slot, p, hq⟩ := (hmoves hx).staff hmem
      obtain rfl := Option.some.inj (hrx.symm.trans hq)
      exact absurd hw (by simp [Role.works])

end RelayUpkeep.Overlay

import RelayUpkeep.Proofs.CrewGuards

/-! # From one iteration to the next

A round that is not satisfied by the attempts that have ended starts those that come next. When all
of a crew has ended the slots filled are those that were filled before, and one more for each
attempt that brought a relay. -/

namespace RelayUpkeep.Overlay

variable {t t₀ : TaskId} {u v w : Overlay} {r : Round} {as : List TaskId}
  {draws : List (Nat × PeerAddress)} {manual : List PeerAddress} {maxFail : Nat}

/-- Nobody guards an attempt or makes one. -/
def Unstaffed (w : Overlay) : Prop :=
  ∀ a role, w.role? a = some role → role.works = true → w.isFinished a = true

/-- When each task of the crew has ended, nobody is left. -/
theorem Crewed.unstaffed (h : w.Crewed t₀ r as draws) (hf : w.isFinished t₀ = false)
    (hall : ∀ g ∈ as, w.isFinished g = true) : w.Unstaffed := by
  intro a role hr hw
  by_contra hfa
  have hfa : w.isFinished a = false := by simpa using hfa
  cases role with
  | guard slot p => exact absurd (hall a (h.guards a slot p hr hfa)) (by simp [hfa])
  | attempt q =>
    obtain ⟨g, hg, hgu⟩ := h.attempts a q hr hfa
    obtain ⟨a', q', hgu', hfa', -⟩ := h.told hf g hg (hall g hg)
    obtain ⟨rfl, -⟩ := hgu.unique hgu'
    exact absurd hfa' (by simp [hfa])
  | setup | shutdown | watch | close | release => exact absurd hw (by simp [Role.works])

/-! ## Starting the attempts -/

/-- The guards of the next attempts are started. -/
def staffed (w : Overlay) (t : TaskId) (manual : List PeerAddress) (maxFail : Nat) (r : Round) :
    Overlay :=
  (w.spawnAll (r.draws.map fun d => .guardAttempt d.1 d.2 none) (some t)).1.setJob t
    (.setup manual maxFail (.settling
      { r with candidates := r.candidates.drop r.draws.length }
      (List.range' w.tasks.length r.draws.length)))

theorem takeTurn_eq (w : Overlay) (t : TaskId) (manual : List PeerAddress) (maxFail : Nat)
    (r : Round) : w.takeTurn t manual maxFail r =
      if r.maxFail < r.failures then
        w.publish.finish t (.failed (.maxFailuresExceeded (Text.trimEnd r.trail)))
      else if r.draws = [] then
        w.publish.finish t (.failed (.noCandidates (Text.trimEnd r.trail)))
      else w.staffed t manual maxFail r := by
  unfold takeTurn
  rw [r.turn_eq]
  split_ifs
  · rfl
  · rfl
  · simp only [staffed, spawnAll_eq, List.length_map]

theorem staffed_tasks (w : Overlay) (t : TaskId) (manual : List PeerAddress) (maxFail : Nat)
    (r : Round) (a : TaskId) (hat : a ≠ t) : (w.staffed t manual maxFail r).tasks[a]? =
      (w.tasks ++ r.draws.map fun d => ⟨.guardAttempt d.1 d.2 none, some t, false⟩)[a]? := by
  simp only [staffed, spawnAll_eq, setJob, List.getElem?_modify_ne _ _ hat.symm, List.map_map]
  rfl

/-- Each draw gets its guard. -/
theorem plays_staffed (manual : List PeerAddress) (maxFail : Nat) (ht : t < w.tasks.length)
    {i : Nat} {d : Nat × PeerAddress} (hd : r.draws[i]? = some d) :
    (w.staffed t manual maxFail r).Plays (w.tasks.length + i) (.guard d.1 d.2) (some t) := by
  have hne : w.tasks.length + i ≠ t := Nat.ne_of_gt (Nat.lt_of_lt_of_le ht (Nat.le_add_right _ _))
  refine ⟨⟨.guardAttempt d.1 d.2 none, some t, false⟩, ?_, rfl, rfl⟩
  rw [staffed_tasks _ _ _ _ _ _ hne, List.getElem?_append_right (Nat.le_add_right _ _),
    Nat.add_sub_cancel_left, List.getElem?_map, hd]
  rfl

/-- A new task is the guard of one of the draws. -/
theorem staffed_new {a : TaskId} {task : Task} (ht : t < w.tasks.length)
    (h : (w.staffed t manual maxFail r).tasks[a]? = some task) (hnew : w.tasks.length ≤ a) :
    ∃ d, r.draws[a - w.tasks.length]? = some d ∧
      task = ⟨.guardAttempt d.1 d.2 none, some t, false⟩ := by
  rw [staffed_tasks _ _ _ _ _ _ (Nat.ne_of_gt (Nat.lt_of_lt_of_le ht hnew)),
    List.getElem?_append_right hnew, List.getElem?_map, Option.map_eq_some_iff] at h
  obtain ⟨d, hd, rfl⟩ := h
  exact ⟨d, hd, rfl⟩

theorem grows_staffed (hr : w.role? t = some (.setup manual maxFail)) :
    w.Grows (w.staffed t manual maxFail r) := by
  have hs := stirs_spawnAll hr
    (r.draws.map fun d => .guardAttempt d.1 d.2 none)
    (by rintro _ hj; obtain ⟨_, -, rfl⟩ := List.mem_map.mp hj; rfl)
  exact (Grows.stirs hs).trans (.setJob _ (Stirs.role? hs hr))

@[simp] theorem exits_staffed (w : Overlay) (t : TaskId) (manual : List PeerAddress) (maxFail : Nat)
    (r : Round) : (w.staffed t manual maxFail r).exits = w.exits := by
  simp only [staffed, spawnAll_eq, setJob]

@[simp] theorem isFinished_staffed (w : Overlay) (t : TaskId) (manual : List PeerAddress)
    (maxFail : Nat) (r : Round) (a : TaskId) :
    (w.staffed t manual maxFail r).isFinished a = w.isFinished a :=
  isFinished_of_exits (w.exits_staffed t manual maxFail r) a

@[simp] theorem manager_staffed (w : Overlay) (t : TaskId) (manual : List PeerAddress)
    (maxFail : Nat) (r : Round) : (w.staffed t manual maxFail r).manager = w.manager := by
  simp only [staffed, spawnAll_eq, setJob]

/-- Each task of `as` guards the attempt that one of the draws calls for, for an empty slot of its
own. -/
structure Assigned (t : TaskId) (r : Round) (as : List TaskId) (draws : List (Nat × PeerAddress))
    (w : Overlay) : Prop where
  crew : List.Forall₂ (fun g d => w.Plays g (.guard d.1 d.2) (some t)) as draws
  once : as.Nodup
  slots : (draws.map Prod.fst).Nodup
  empty : ∀ d ∈ draws, r.slots[d.1]? = some none

theorem Assigned.mono (h : u.Assigned t r as draws) (hg : u.Grows v) : v.Assigned t r as draws :=
  { h with crew := h.crew.imp fun _ _ hp => hp.mono hg }

theorem Crewed.assigned (h : w.Crewed t₀ r as draws) : w.Assigned t₀ r as draws := { h with }

/-- The draws of a turn are assigned to the tasks that it starts. -/
theorem assigned_staffed (manual : List PeerAddress) (maxFail : Nat) (ht : t < w.tasks.length) :
    (w.staffed t manual maxFail r).Assigned t
      { r with candidates := r.candidates.drop r.draws.length }
      (List.range' w.tasks.length r.draws.length) r.draws := by
  refine ⟨List.forall₂_iff_get.mpr ⟨by simp, fun i h₁ h₂ => ?_⟩, List.nodup_range',
    r.slots_draws_nodup, fun d hd => Round.slots_draws_empty (r := r) hd⟩
  rw [List.get_eq_getElem, List.get_eq_getElem, List.getElem_range', Nat.one_mul]
  exact plays_staffed manual maxFail ht (List.getElem?_eq_getElem h₂)

/-- Whoever works after a turn that found nobody at work is one of the guards that it started. -/
theorem Unstaffed.works_staffed (hu : w.Unstaffed) (hr : w.role? t = some (.setup manual maxFail))
    {a : TaskId} {role : Role} (hrole : (w.staffed t manual maxFail r).role? a = some role)
    (hw : role.works = true) (hf : (w.staffed t manual maxFail r).isFinished a = false) :
    w.tasks.length ≤ a ∧ ∃ d, r.draws[a - w.tasks.length]? = some d ∧ role = .guard d.1 d.2 := by
  by_cases hlt : a < w.tasks.length
  · rw [(grows_staffed hr).role?_eq hlt] at hrole
    rw [isFinished_staffed, hu a role hrole hw] at hf
    exact absurd hf (by simp)
  · have hle := Nat.le_of_not_lt hlt
    obtain ⟨task, htask, rfl⟩ := role?_eq_some.mp hrole
    obtain ⟨d, hd, rfl⟩ := staffed_new (lt_of_role? hr) htask hle
    exact ⟨hle, d, hd, rfl⟩

/-- The pool has room for the relays that a round still wants, and does not have the candidates,
each of which is a peer of its own. -/
structure Poised (w : Overlay) (r : Round) : Prop where
  room : w.manager.pool.len + (r.wanted - r.filled) ≤ w.manager.pool.capacity
  peers : (r.candidates.map PeerAddress.id).Nodup
  left : ∀ p ∈ r.candidates, w.manager.pool.containsPeer p = false

theorem poised_start (hpool : w.manager.pool.Sound) {candidates : List PeerAddress}
    (hn : (candidates.map PeerAddress.id).Nodup)
    (hfree : ∀ p ∈ candidates, w.manager.pool.containsPeer p = false) (maxFail : Nat) :
    w.Poised (Round.start w.manager.pool.remaining candidates maxFail) where
  room := by
    have hbound := hpool.bounded
    rw [Round.wanted_start, Round.filled_start, Pool.remaining]
    omega
  peers := hn
  left := hfree

/-- A crew is complete when it starts. -/
theorem crewed_staffed (hu : w.Unstaffed) (hends : ∀ x ∈ w.exits, x.1 < w.tasks.length)
    (hr : w.role? t = some (.setup manual maxFail)) (hup : w.manager.isShutDown = false)
    (hp : w.Poised r) : (w.staffed t manual maxFail r).Crewed t
      { r with candidates := r.candidates.drop r.draws.length }
      (List.range' w.tasks.length r.draws.length) r.draws := by
  have ht := lt_of_role? hr
  have hexits := w.exits_staffed t manual maxFail r
  have hmanager := w.manager_staffed t manual maxFail r
  have hfree : ∀ p ∈ r.candidates,
      (w.staffed t manual maxFail r).manager.pool.containsPeer p = false := by
    rw [hmanager]
    exact hp.left
  refine { assigned_staffed manual maxFail ht with
    guards := ?_, attempts := ?_, up := ?_, room := ?_, peers := ?_, free := ?_, left := ?_,
    told := ?_, steady := ?_ }
  · intro g slot p hrole hf
    obtain ⟨hle, d, hd, -⟩ := hu.works_staffed hr hrole rfl hf
    refine List.mem_range'_1.mpr ⟨hle, ?_⟩
    exact (Nat.sub_lt_iff_lt_add' hle).mp (List.getElem?_eq_some_iff.mp hd).1
  · intro a q hrole hf
    obtain ⟨-, d, -, he⟩ := hu.works_staffed hr hrole rfl hf
    exact absurd he (by simp)
  · rw [hmanager]
    exact hup
  · rw [hmanager]
    exact Nat.le_trans hp.room (Nat.le_add_right _ _)
  · rw [r.draws_append]
    exact hp.peers
  · intro x hx _
    refine hfree x.2.2 ?_
    rw [← r.draws_append]
    exact List.mem_append_left _ (List.mem_map_of_mem (List.of_mem_zip hx).2)
  · exact fun p hp => hfree p (List.mem_of_mem_drop hp)
  · intro _ g hmem hf
    obtain ⟨e, he⟩ := isFinished_iff.mp hf
    rw [hexits] at he
    exact absurd (hends _ he) (Nat.not_lt.mpr (List.mem_range'_1.mp hmem).1)
  · intro _ g hmem task htask
    obtain ⟨d, -, rfl⟩ := staffed_new ht htask (List.mem_range'_1.mp hmem).1
    rfl

/-! ## Judging the attempts -/

theorem exit?_of_mem (h : (w.exits.map Prod.fst).Nodup) {a : TaskId} {e : Exit}
    (hm : (a, e) ∈ w.exits) : w.exit? a = some e := by
  obtain ⟨l₁, l₂, hl⟩ := List.append_of_mem hm
  refine List.lookup_eq_some_iff.mpr ⟨l₁, l₂, hl, fun x hx => ?_⟩
  rw [hl, List.map_append, List.map_cons] at h
  have hne := (List.nodup_append.mp h).2.2 x.1 (List.mem_map_of_mem hx) a (by simp)
  simpa using hne.symm

/-- How the attempts of a crew ended, in the order in which their guards told. -/
def endings (w : Overlay) (as : List TaskId) : List AttemptEnd :=
  (w.exitsOf as).filterMap fun x => w.attemptEnd? x.1 x.2

/-- Why the attempts of a crew were not enough. -/
def grievance (w : Overlay) (r : Round) (as : List TaskId) : String :=
  (r.settle (w.endings as)).reason w.manager.config.joinPolicy (w.endings as)

theorem judge_eq (w : Overlay) (t : TaskId) (manual : List PeerAddress) (maxFail : Nat) (r : Round)
    (as : List TaskId) : w.judge t manual maxFail r as =
      if (r.settle (w.endings as)).isSatisfied w.manager.config.joinPolicy then
        w.publish.finish t (.relays (w.publish.views w.publish.pooled))
      else if w.isTornDown then w.finish t (.failed (.shutDownRace (w.grievance r as)))
      else w.takeTurn t manual maxFail ((r.settle (w.endings as)).retry (w.grievance r as)) :=
  rfl

theorem mem_exitsOf {x : TaskId × Exit} : x ∈ w.exitsOf as ↔ x ∈ w.exits ∧ x.1 ∈ as := by
  simp [exitsOf]

theorem attemptEnd?_joined {a : TaskId} {e : Exit} {i : Nat} {p : PeerAddress}
    (h : w.attemptEnd? a e = some (.joined i p)) :
    w.role? a = some (.guard i p) ∧ e.isFailure = false := by
  unfold attemptEnd? at h
  split at h
  · next slot candidate attempt parent cancelled ht =>
    cases e with
    | done | relays =>
      obtain ⟨rfl, rfl⟩ : slot = i ∧ candidate = p := by simpa using h
      exact ⟨role?_eq_some.mpr ⟨_, ht, rfl⟩, rfl⟩
    | failed | crashed | cancelled => exact absurd h (by simp)
  · exact absurd h (by simp)

/-- An attempt that did not fail fills the slot that it was made for. -/
theorem Assigned.slot (h : w.Assigned t r as draws) {x : TaskId × Exit} (hx : x.1 ∈ as) :
    ∃ d, (x.1, d) ∈ as.zip draws ∧ (w.attemptEnd? x.1 x.2).bind AttemptEnd.slot? =
      if x.2.isFailure then none else some d.1 := by
  obtain ⟨d, hd, task, ht, hr, -⟩ := exists_zip_of_mem h.crew hx
  refine ⟨d, hd, ?_⟩
  obtain ⟨job, parent, cancelled⟩ := task
  cases job with
  | guardAttempt slot q a =>
    obtain ⟨rfl, rfl⟩ : slot = d.1 ∧ q = d.2 := by simpa [Job.role] using hr
    unfold attemptEnd?
    rw [ht]
    cases x.2 <;> rfl
  | setup | shutdown | attempt | watch | closeRelay | releaseCreator => simp [Job.role] at hr

/-- Each of the crew has ended once. -/
theorem exitsOf_perm (hs : w.Sound) (ho : as.Nodup)
    (hall : ∀ g ∈ as, w.isFinished g = true) : ((w.exitsOf as).map Prod.fst).Perm as := by
  refine (List.perm_ext_iff_of_nodup ?_ ho).mpr fun a => ?_
  · exact hs.ends.sublist (List.filter_sublist.map _)
  · constructor
    · intro ha
      obtain ⟨x, hx, rfl⟩ := List.mem_map.mp ha
      exact (mem_exitsOf.mp hx).2
    · intro ha
      obtain ⟨e, he⟩ := isFinished_iff.mp (hall a ha)
      exact List.mem_map.mpr ⟨(a, e), mem_exitsOf.mpr ⟨he, ha⟩, rfl⟩

/-- What a guard tells is whether its attempt brought a relay. -/
theorem Told.hasJoined {g : TaskId} (h : w.Told g) : w.hasJoined g = w.succeeded g := by
  obtain ⟨a, q, hgu, -, he⟩ := h
  rw [he]
  refine Bool.eq_iff_iff.mpr (hasJoined_iff.trans ⟨?_, fun hd => ⟨a, q, hgu, hd⟩⟩)
  rintro ⟨a', q', hgu', hd⟩
  exact (hgu.unique hgu').1 ▸ hd

/-! ## The slots that a crew fills -/

/-- Two tasks of a crew fill different slots. -/
theorem Assigned.fills_apart (h : w.Assigned t r as draws) (hs : w.Sound) :
    ((w.endings as).filterMap AttemptEnd.slot?).Nodup := by
  have hends : (w.exitsOf as).Pairwise fun x y => x.1 ≠ y.1 :=
    List.pairwise_map.mp (hs.ends.sublist (List.filter_sublist.map _))
  rw [endings, List.filterMap_filterMap]
  refine List.pairwise_filterMap.mpr (hends.imp_of_mem fun {x y} hx hy hne i hi j hj hij => ?_)
  obtain ⟨d, hd, hslot⟩ := h.slot (mem_exitsOf.mp hx).2
  obtain ⟨d', hd', hslot'⟩ := h.slot (mem_exitsOf.mp hy).2
  rw [hslot, Option.ite_none_left_eq_some] at hi
  rw [hslot', Option.ite_none_left_eq_some] at hj
  refine hne (zip_snd_inj h.slots hd hd' ?_)
  exact (Option.some.inj hi.2).trans (hij.trans (Option.some.inj hj.2).symm)

/-- What a crew fills was empty. -/
theorem Assigned.fills_empty (h : w.Assigned t r as draws) {i : Nat}
    (hi : i ∈ (w.endings as).filterMap AttemptEnd.slot?) : r.slots[i]? = some none := by
  rw [endings, List.filterMap_filterMap] at hi
  obtain ⟨x, hx, hxi⟩ := List.mem_filterMap.mp hi
  obtain ⟨d, hd, hslot⟩ := h.slot (mem_exitsOf.mp hx).2
  rw [hslot, Option.ite_none_left_eq_some] at hxi
  exact Option.some.inj hxi.2 ▸ h.empty d (List.of_mem_zip hd).2

/-- Each task of a crew that has ended well fills a slot, and no other does. -/
theorem Assigned.length_fills (h : w.Assigned t r as draws) (hs : w.Sound) :
    ((w.endings as).filterMap AttemptEnd.slot?).length = as.countP w.succeeded := by
  have hends : ((w.exitsOf as).map Prod.fst).Nodup := hs.ends.sublist (List.filter_sublist.map _)
  have hwell : ∀ x ∈ w.exitsOf as,
      ((w.attemptEnd? x.1 x.2).bind AttemptEnd.slot?).isSome = w.succeeded x.1 := by
    intro x hx
    obtain ⟨hmem, hxas⟩ := mem_exitsOf.mp hx
    obtain ⟨d, -, hslot⟩ := h.slot hxas
    rw [hslot, succeeded, exit?_of_mem hs.ends hmem, Option.any_some]
    cases x.2.isFailure <;> rfl
  -- who has ended well is among those who have ended
  have hsame : (((w.exitsOf as).map Prod.fst).filter w.succeeded).Perm (as.filter w.succeeded) := by
    refine (List.perm_ext_iff_of_nodup (hends.filter _) (h.once.filter _)).mpr fun g => ?_
    simp only [List.mem_filter, List.mem_map]
    constructor
    · rintro ⟨⟨x, hx, rfl⟩, hsucc⟩
      exact ⟨(mem_exitsOf.mp hx).2, hsucc⟩
    · rintro ⟨hg, hsucc⟩
      obtain ⟨e, he⟩ := isFinished_iff.mp (isFinished_of_succeeded hsucc)
      exact ⟨⟨(g, e), mem_exitsOf.mpr ⟨he, hg⟩, rfl⟩, hsucc⟩
  calc ((w.endings as).filterMap AttemptEnd.slot?).length
      = (w.exitsOf as).countP fun x =>
          ((w.attemptEnd? x.1 x.2).bind AttemptEnd.slot?).isSome := by
        rw [endings, List.filterMap_filterMap, List.length_filterMap_eq_countP]
    _ = (w.exitsOf as).countP fun x => w.succeeded x.1 :=
        List.countP_congr fun x hx => by rw [hwell x hx]
    _ = ((w.exitsOf as).map Prod.fst).countP w.succeeded := by rw [List.countP_map]; rfl
    _ = as.countP w.succeeded := by
        rw [List.countP_eq_length_filter, List.countP_eq_length_filter, hsame.length_eq]

/-- One more slot is filled for each task of a crew that has ended well. -/
theorem Assigned.filled_settle_succeeded (h : w.Assigned t r as draws) (hs : w.Sound) :
    (r.settle (w.endings as)).filled = r.filled + as.countP w.succeeded := by
  rw [Round.filled_settle (h.fills_apart hs) fun _ => h.fills_empty, h.length_fills hs]

/-- One more slot is filled for each attempt that brought a relay, if each guard told how its
attempt ended. -/
theorem Assigned.filled_settle (h : w.Assigned t r as draws) (hs : w.Sound)
    (htold : ∀ g ∈ as, w.Told g) :
    (r.settle (w.endings as)).filled = r.filled + as.countP w.hasJoined := by
  rw [h.filled_settle_succeeded hs]
  exact congrArg _ (List.countP_congr fun g hg => by rw [(htold g hg).hasJoined])

/-- When a crew has ended, its round can go on with the candidates that are left. -/
theorem Crewed.poised (h : w.Crewed t₀ r as draws) (hs : w.Sound)
    (hf : w.isFinished t₀ = false) (hall : ∀ g ∈ as, w.isFinished g = true) (reason : String) :
    w.Poised ((r.settle (w.endings as)).retry reason) where
  room := by
    have hfilled := h.assigned.filled_settle hs fun g hg => h.told hf g hg (hall g hg)
    have hwanted := r.wanted_settle (w.endings as)
    have hroom := h.room
    have hjoined := Nat.le_trans (List.countP_le_length (p := w.hasJoined)) h.few
    change w.manager.pool.len + ((r.settle (w.endings as)).wanted -
      (r.settle (w.endings as)).filled) ≤ _
    omega
  peers := by
    have hpeers := h.peers
    rw [List.map_append] at hpeers
    change ((r.settle (w.endings as)).candidates.map PeerAddress.id).Nodup
    rw [Round.candidates_settle]
    exact (List.nodup_append.mp hpeers).2.1
  left := by
    change ∀ p ∈ (r.settle (w.endings as)).candidates, _
    rw [Round.candidates_settle]
    exact h.left

/-- An attempt that joined is one of the draws, and its guard has ended well. -/
theorem Assigned.joined (h : w.Assigned t r as draws) (hs : w.Sound) {i : Nat} {p : PeerAddress}
    (hj : .joined i p ∈ w.endings as) :
    (i, p) ∈ draws ∧ ∃ g ∈ as, w.Plays g (.guard i p) (some t) ∧ w.succeeded g = true := by
  obtain ⟨⟨g, e⟩, hx, he⟩ := List.mem_filterMap.mp hj
  obtain ⟨hmem, hg⟩ := mem_exitsOf.mp hx
  obtain ⟨hrole, hok⟩ := attemptEnd?_joined he
  obtain ⟨⟨i', p'⟩, hd, hplays⟩ := exists_zip_of_mem h.crew hg
  obtain ⟨rfl, rfl⟩ : i' = i ∧ p' = p := by simpa [hplays.role?] using hrole
  exact ⟨(List.of_mem_zip hd).2, g, hg, hplays, by simp [succeeded, exit?_of_mem hs.ends hmem, hok]⟩

/-- The attempts of a crew that brought a relay are as many as the candidates that succeed. -/
theorem Assigned.countP_hasJoined (h : w.Assigned t r as draws) (htold : ∀ g ∈ as, w.Told g)
    {succeeds : PeerAddress → Bool} (hfate : ∀ g ∈ as, ∀ a q, w.Guards g a q →
      w.isFinished a = true → w.succeeded a = succeeds q) :
    as.countP w.hasJoined = (draws.map Prod.snd).countP succeeds := by
  have hlen := h.crew.length_eq
  have heach : ∀ x ∈ as.zip draws, w.hasJoined x.1 = succeeds x.2.2 := by
    rintro ⟨g, d⟩ hx
    have hg := (List.of_mem_zip hx).1
    have hplays := (List.forall₂_iff_zip.mp h.crew).2 hx
    obtain ⟨a, q, hgu, hfa, hsucc⟩ := htold g hg
    obtain ⟨slot, hrole⟩ := hgu.role?
    obtain ⟨-, rfl⟩ : d.1 = slot ∧ d.2 = q := by simpa [hplays.role?] using hrole
    rw [Told.hasJoined ⟨a, d.2, hgu, hfa, hsucc⟩, hsucc]
    exact hfate g hg a d.2 hgu hfa
  calc as.countP w.hasJoined
      = ((as.zip draws).map Prod.fst).countP w.hasJoined := by
        rw [List.map_fst_zip (Nat.le_of_eq hlen)]
    _ = (as.zip draws).countP fun x => w.hasJoined x.1 := by rw [List.countP_map]; rfl
    _ = (as.zip draws).countP fun x => succeeds x.2.2 :=
        List.countP_congr fun x hx => by rw [heach x hx]
    _ = (((as.zip draws).map Prod.snd).map Prod.snd).countP succeeds := by
        rw [List.countP_map, List.countP_map]; rfl
    _ = (draws.map Prod.snd).countP succeeds := by
        rw [List.map_snd_zip (Nat.le_of_eq hlen.symm)]

end RelayUpkeep.Overlay

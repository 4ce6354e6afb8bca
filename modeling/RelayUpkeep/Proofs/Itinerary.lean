import RelayUpkeep.Proofs.Stations

/-! # On the way to a candidate

In each step at most one candidate of a setup gets further, or more are drawn. When the setup is
given up, those whose attempts have not been started are passed over. -/

namespace RelayUpkeep.Overlay

variable {t g a x : TaskId} {w : Overlay} {p q : PeerAddress} {slot : Nat} {y : Act}
  {manual : List PeerAddress} {maxFail : Nat} {stage : SetupStage} {r : Round}

/-! ## Steps -/

def itinerary (w : Overlay) (t : TaskId) : Itinerary :=
  ⟨w.drawn t, w.awaited t, w.entered t, w.dialled t⟩

/-- A task that works on a round, and has not gone on yet. -/
def Newcomer (w : Overlay) (a : TaskId) : Prop :=
  w.Doing (fun job => job.isFresh && job.role.works) a

instance (w : Overlay) (a : TaskId) : Decidable (w.Newcomer a) :=
  decidable_of_iff (w.isFinished a = false ∧
    (w.tasks[a]?).any (fun task => task.job.isFresh && task.job.role.works) = true) <|
    and_congr_right fun _ => Option.any_eq_true ..

/-- Those who work on rounds go on for the first time in the order in which they were started. -/
def InTurn (w : Overlay) : Act → Prop
  | .poll b => w.Newcomer b → ∀ a < b, ¬w.Newcomer a
  | _ => True

instance (w : Overlay) : (y : Act) → Decidable (w.InTurn y)
  | .poll b => inferInstanceAs (Decidable (w.Newcomer b → ∀ a < b, ¬w.Newcomer a))
  | .elapse _ | .setUp .. | .shutDown | .closeRelay _ | .cancel _ | .observe _ | .listen ..
  | .dropConn _ | .behave .. | .learn _ | .nodeDown _ | .reservation .. | .hold | .dropManager
  | .moveTo _ => .isTrue trivial

theorem newcomer_of_await? (h : w.await? t g = some p) : w.Newcomer g := by
  obtain ⟨hf, task, slot, ht, hj, -, -⟩ := await?_eq_some.mp h
  exact ⟨hf, task, ht, by rw [hj]; rfl⟩

theorem newcomer_of_enter? (h : w.enter? t a = some p) : w.Newcomer a := by
  obtain ⟨hf, -, task, ht, hj⟩ := enter?_eq_some.mp h
  exact ⟨hf, task, ht, by rw [hj]; rfl⟩

theorem Sound.drawn_act (h : w.Sound) (hd : ¬Draws t w (w.act y)) :
    (w.act y).drawn t = w.drawn t := by
  refine filterMap_range_same (h.grows_act y).tasks.length_le (fun g hg => h.draw?_act hg)
    fun g hnew => Option.eq_none_iff_forall_ne_some.mpr fun p hp => hd (draw?_new hnew hp)

theorem Sound.awaited_act (h : w.Sound) (hd : ¬Draws t w (w.act y))
    (hst : ∀ g slot p, w.Plays g (.guard slot p) (some t) → w.Steady g → (w.act y).Steady g)
    (hno : ∀ g p, y = .poll g → g ∈ w.ready → w.await? t g ≠ some p) :
    (w.act y).awaited t = w.awaited t := by
  refine filterMap_range_same (h.grows_act y).tasks.length_le (fun g hg => ?_) fun g hnew =>
    Option.eq_none_iff_forall_ne_some.mpr fun p hp => hd (draw?_new hnew (draw?_of_await? hp))
  by_cases hgo : y = .poll g ∧ g ∈ w.ready ∧ w.isFinished g = false
  · obtain ⟨rfl, hready, hf⟩ := hgo
    rw [h.await?_self hready hf,
      Option.eq_none_iff_forall_ne_some.mpr fun p => hno g p rfl hready]
  · exact h.await?_act hg hgo (hst g)

theorem Sound.entered_act (h : w.Sound)
    (hno : ∀ x p, y = .poll x → x ∈ w.ready → w.await? t x ≠ some p ∧ w.enter? t x ≠ some p) :
    (w.act y).entered t = w.entered t := by
  refine filterMap_range_same (h.grows_act y).tasks.length_le (fun a ha => ?_) fun a hnew =>
    Option.eq_none_iff_forall_ne_some.mpr fun p hp => ?_
  · by_cases hgo : y = .poll a ∧ a ∈ w.ready ∧ w.isFinished a = false
    · obtain ⟨rfl, hready, hf⟩ := hgo
      rw [h.enter?_self hready hf,
        Option.eq_none_iff_forall_ne_some.mpr fun p => (hno a p rfl hready).2]
    · exact h.enter?_act ha hgo
  · obtain ⟨g, hy, -, hready, hg⟩ := h.enter?_new hnew hp
    exact (hno g p hy hready).1 hg

theorem Sound.dialled_same (h : w.Sound) (hk : w.Known)
    (hno : ∀ a p, y = .poll a → a ∈ w.ready → w.enter? t a ≠ some p) :
    (w.act y).dialled t = w.dialled t := by
  rw [h.dialled_act hk y, List.filterMap_eq_nil_iff.mpr, List.append_nil]
  intro e he
  cases e with
  | connect a p =>
    obtain ⟨b, job, hy, hgo, hmem⟩ := mem_requested.mp he
    obtain ⟨rfl, rfl⟩ := connect_mem_jobRequests.mp hmem
    obtain ⟨hready, hf, task, ht, -, hj⟩ := going?_eq_some.mp hgo
    refine if_neg fun hc => hno _ p hy hready ?_
    exact enter?_eq_some.mpr ⟨hf, hc, task, ht, hj⟩
  | _ => rfl

/-- A setup neither waits for an attempt of its own nor makes one. -/
theorem role?_ne_setup (hr : w.role? t = some (.setup manual maxFail)) (s : TaskId)
    (p : PeerAddress) : w.await? s t ≠ some p ∧ w.enter? s t ≠ some p := by
  constructor
  · intro h
    obtain ⟨-, task, slot, ht, hj, -⟩ := await?_eq_some.mp h
    have hr' : w.role? t = some (.guard slot p) := role?_eq_some.mpr ⟨task, ht, by rw [hj]; rfl⟩
    exact absurd (hr.symm.trans hr') (by simp)
  · intro h
    obtain ⟨-, -, task, ht, hj⟩ := enter?_eq_some.mp h
    have hr' : w.role? t = some (.attempt p) := role?_eq_some.mpr ⟨task, ht, by rw [hj]; rfl⟩
    exact absurd (hr.symm.trans hr') (by simp)

/-- A setup that goes on starts no attempt, and makes none. -/
theorem serves_nobody (hr : w.role? t = some (.setup manual maxFail)) :
    ∀ x p, Act.poll t = .poll x → x ∈ w.ready → w.await? t x ≠ some p ∧ w.enter? t x ≠ some p := by
  rintro x p htx -
  obtain rfl := Act.poll.inj htx
  exact role?_ne_setup hr t p

theorem InTurn.first (h : w.InTurn (.poll x)) (hx : w.Newcomer x) {f : TaskId → Option PeerAddress}
    (hf : ∀ a p, f a = some p → w.Newcomer a) : ∀ a < x, f a = none := fun a ha =>
  Option.eq_none_iff_forall_ne_some.mpr fun p hp => h hx a ha (hf a p hp)

/-- Nobody who is to start an attempt is to ask for a connection. -/
theorem enter?_of_await? (h : w.await? t x = some p) (q : PeerAddress) :
    w.enter? t x ≠ some q := by
  intro hq
  obtain ⟨-, task, slot, ht, hj, -⟩ := await?_eq_some.mp h
  obtain ⟨-, -, task', ht', hj'⟩ := enter?_eq_some.mp hq
  obtain rfl := Option.some.inj (ht.symm.trans ht')
  exact absurd (hj.symm.trans hj') (by simp)

/-- The attempt that a guard starts is the only task that is new, and is to ask for a connection. -/
theorem Sound.entered_starts (h : w.Sound) (hready : x ∈ w.ready) (hx : w.await? t x = some p) :
    (w.act (.poll x)).entered t = w.entered t ++ [p] := by
  obtain ⟨hf, task, slot, ht, hj, hp, hc⟩ := await?_eq_some.mp hx
  have hact : w.act (.poll x) = _ :=
    act_of_going (going?_eq_some.mpr ⟨hready, hf, task, ht, hc, hj⟩)
  have hlen : (w.act (.poll x)).tasks.length = w.tasks.length + 1 := by
    rw [hact]
    simp [resume, pollGuard, setJob, spawn_tasks]
  have hnew : (w.act (.poll x)).tasks[w.tasks.length]? =
      some ⟨.attempt p .entering, some x, false⟩ := by
    rw [hact]
    exact engaged_new (w := { w with ready := w.ready.erase x }) (h.ready x hready)
  have hclient : (w.act (.poll x)).client? w.tasks.length = some t := by
    obtain ⟨task', ht', -, hpar, -⟩ := (h.grows_act (.poll x)).tasks x task ht
    simp [client?, parent?, hnew, ht', hpar, hp]
  have henter : (w.act (.poll x)).enter? t w.tasks.length = some p :=
    enter?_eq_some.mpr ⟨h.new_act _ (Nat.le_refl _), hclient, _, hnew, rfl⟩
  have hsame : ∀ a < w.tasks.length, (w.act (.poll x)).enter? t a = w.enter? t a := fun a ha => by
    by_cases hax : a = x
    · subst hax
      rw [h.enter?_self hready hf, Option.eq_none_iff_forall_ne_some.mpr (enter?_of_await? hx)]
    · exact h.enter?_act ha fun hy => hax (Act.poll.inj hy.1).symm
  rw [entered, hlen, filterMap_range_add hsame]
  simp [entered, henter]

/-- A guard starts its attempt. -/
theorem Sound.itinerary_starts (h : w.Sound) (hk : w.Known) {up : Prop} (hready : x ∈ w.ready)
    (hx : w.await? t x = some p) (hd : ¬Draws t w (w.act (.poll x)))
    (hst : ∀ g slot p, w.Plays g (.guard slot p) (some t) → w.Steady g →
      (w.act (.poll x)).Steady g) :
    Itinerary.Step (w.InTurn (.poll x)) up (w.itinerary t) ((w.act (.poll x)).itinerary t) := by
  obtain ⟨hf, -⟩ := await?_eq_some.mp hx
  have hother : ∀ a q, Act.poll x = .poll a → a ∈ w.ready → w.enter? t a ≠ some q := by
    rintro a q hxa -
    obtain rfl := Act.poll.inj hxa
    exact enter?_of_await? hx q
  obtain ⟨l₁, l₂, hold, hleft, hfirst⟩ := filterMap_range_drop (w.await? t)
    ((w.act (.poll x)).await? t) (h.ready x hready) hx (h.await?_self hready hf) fun g hg hgx =>
      h.await?_act hg (fun hy => hgx (Act.poll.inj hy.1).symm) (hst g)
  have hawaited : (w.act (.poll x)).awaited t = l₁ ++ l₂ := by
    rw [← hleft]
    refine filterMap_range_same (h.grows_act _).tasks.length_le (fun _ _ => rfl) fun g hnew =>
      Option.eq_none_iff_forall_ne_some.mpr fun q hq => hd (draw?_new hnew (draw?_of_await? hq))
  rw [itinerary, itinerary, h.drawn_act hd, hawaited, h.entered_starts hready hx,
    h.dialled_same hk hother, awaited, hold]
  exact .starts _ _ _ _ _ p fun hturn =>
    hfirst (hturn.first (newcomer_of_await? hx) fun _ _ => newcomer_of_await?)

/-- An attempt asks for a connection. -/
theorem Sound.itinerary_dials (h : w.Sound) (hk : w.Known) (hu : w.Uncancelled attempts)
    {up : Prop} (hready : x ∈ w.ready) (hx : w.enter? t x = some p)
    (hd : ¬Draws t w (w.act (.poll x)))
    (hst : ∀ g slot p, w.Plays g (.guard slot p) (some t) → w.Steady g →
      (w.act (.poll x)).Steady g) :
    Itinerary.Step (w.InTurn (.poll x)) up (w.itinerary t) ((w.act (.poll x)).itinerary t) := by
  have hlt := h.ready x hready
  obtain ⟨hf, hclient, task, ht, hj⟩ := enter?_eq_some.mp hx
  have hgo : w.going? x = some (.attempt p .entering) :=
    going?_eq_some.mpr ⟨hready, hf, task, ht, hu x task ht ⟨p, by rw [hj]; rfl⟩, hj⟩
  have hnone : ∀ g q, Act.poll x = .poll g → g ∈ w.ready → w.await? t g ≠ some q := by
    rintro g q hxg - hq
    obtain rfl := Act.poll.inj hxg
    exact enter?_of_await? hq p hx
  have hdialled : (w.act (.poll x)).dialled t = w.dialled t ++ [p] := by
    rw [h.dialled_act hk]
    simp [requested, hgo, jobRequests, connect?, hclient]
  obtain ⟨l₁, l₂, hold, hleft, hfirst⟩ := filterMap_range_drop (w.enter? t)
    ((w.act (.poll x)).enter? t) hlt hx (h.enter?_self hready hf) fun a ha hax =>
      h.enter?_act ha fun hy => hax (Act.poll.inj hy.1).symm
  have hentered : (w.act (.poll x)).entered t = l₁ ++ l₂ := by
    rw [← hleft]
    refine filterMap_range_same (h.grows_act _).tasks.length_le (fun _ _ => rfl) fun a hnew =>
      Option.eq_none_iff_forall_ne_some.mpr fun q hq => ?_
    obtain ⟨g, hy, -, hg, hq⟩ := h.enter?_new hnew hq
    exact hnone g q hy hg hq
  rw [itinerary, itinerary, h.drawn_act hd, h.awaited_act hd hst hnone, hentered, hdialled, entered,
    hold]
  exact .dials _ _ _ _ _ p fun hturn =>
    hfirst (hturn.first (newcomer_of_enter? hx) fun _ _ => newcomer_of_enter?)

theorem length_staffed (w : Overlay) (t : TaskId) (manual : List PeerAddress) (maxFail : Nat)
    (r : Round) :
    (w.staffed t manual maxFail r).tasks.length = w.tasks.length + r.draws.length := by
  simp [staffed, spawnAll_eq, setJob]

/-- What a setup draws in a step is drawn in addition. -/
theorem Sound.drawn_staffed (h : w.Sound) {x : Overlay} (hk : w.Kept x)
    (hr : w.role? t = some (.setup manual maxFail)) (hv : w.act y = x.staffed t manual maxFail r) :
    (w.act y).drawn t = w.drawn t ++ r.draws.map Prod.snd := by
  have hlt := lt_of_role? hr
  rw [drawn, hv, length_staffed, hk.tasks, ← hv, filterMap_range_add fun g hg => h.draw?_act hg]
  refine congrArg _ (filterMap_range_eq_map fun i d hi => draw?_eq_some.mpr ⟨d.1, ?_⟩)
  rw [hv, ← hk.tasks]
  exact plays_staffed manual maxFail (hk.tasks ▸ hlt) hi

/-- Those who guard the attempts on the candidates that a setup draws are to start them. -/
theorem Sound.awaited_staffed (h : w.Sound) {x : Overlay} (hk : w.Kept x)
    (hr : w.role? t = some (.setup manual maxFail))
    (hv : w.act (.poll t) = x.staffed t manual maxFail r)
    (hst : ∀ g slot p, w.Plays g (.guard slot p) (some t) → w.Steady g →
      (w.act (.poll t)).Steady g) :
    (w.act (.poll t)).awaited t = w.awaited t ++ r.draws.map Prod.snd := by
  have hlt := lt_of_role? hr
  have hold : ∀ g < w.tasks.length, (w.act (.poll t)).await? t g = w.await? t g := fun g hg => by
    by_cases hgt : g = t
    · subst hgt
      rw [Option.eq_none_iff_forall_ne_some.mpr fun p => (role?_ne_setup hr _ p).1,
        Option.eq_none_iff_forall_ne_some.mpr fun p =>
          (role?_ne_setup ((h.grows_act _).role? hr) _ p).1]
    · exact h.await?_act hg (fun hy => hgt (Act.poll.inj hy.1).symm) (hst g)
  have hlen : (w.act (.poll t)).tasks.length = w.tasks.length + r.draws.length := by
    rw [hv, length_staffed, hk.tasks]
  rw [awaited, hlen, filterMap_range_add hold]
  refine congrArg _ (filterMap_range_eq_map fun i d hi => ?_)
  obtain ⟨task, ht, -⟩ := plays_staffed manual maxFail (hk.tasks ▸ hlt) hi
  obtain ⟨d', hd', rfl⟩ := staffed_new (hk.tasks ▸ hlt) ht (Nat.le_add_right _ _)
  rw [Nat.add_sub_cancel_left] at hd'
  obtain rfl := Option.some.inj (hi.symm.trans hd')
  rw [hk.tasks, ← hv] at ht
  exact await?_eq_some.mpr ⟨h.new_act _ (Nat.le_add_right _ _), _, d.1, ht, rfl, rfl, rfl⟩

/-- A setup that goes on draws candidates, or leaves them where they are. -/
theorem Sound.itinerary_advances (h : w.Sound) (hk : w.Known)
    (hgo : w.going? t = some (.setup manual maxFail stage)) {inTurn : Prop} :
    Itinerary.Step inTurn ((w.act (.poll t)).exit? t ≠ some .cancelled) (w.itinerary t)
      ((w.act (.poll t)).itinerary t) := by
  have hr := role?_of_going hgo
  have hlt := lt_of_role? hr
  have hg := h.grows_act (.poll t)
  have hadv := advances_act hgo
  obtain ⟨-, hf, -⟩ := going?_eq_some.mp hgo
  have hno := serves_nobody hr
  have hst : ∀ g slot p, w.Plays g (.guard slot p) (some t) → w.Steady g →
      (w.act (.poll t)).Steady g := fun g slot p hp hst => by
    refine hadv.steady ?_ hst (lt_of_role? hp.role?)
    rintro rfl
    exact absurd (hr.symm.trans hp.role?) (by simp [Job.role])
  have hentered := h.entered_act hno
  have hdialled := h.dialled_same hk fun a p hy ha => (hno a p hy ha).2
  by_cases hd : Draws t w (w.act (.poll t))
  swap
  · rw [itinerary, itinerary, h.drawn_act hd,
      h.awaited_act hd hst fun g p hy hready => (hno g p hy hready).1, hentered, hdialled]
    exact .stays _
  obtain ⟨g, slot, p, hnew, hp⟩ := hd
  obtain ⟨x, r, hv, hkept, -⟩ :=
    (hadv.guards hr hg hp).resolve_left fun hold =>
      absurd (lt_of_role? hold.role?) (Nat.not_lt.mpr hnew)
  rw [itinerary, itinerary, h.drawn_staffed hkept hr hv, h.awaited_staffed hkept hr hv hst, hentered,
    hdialled]
  refine .draws (w.itinerary t) _ ?_
  have hnone : w.exit? t = none := by simpa [isFinished] using hf
  rw [hv, exit?, exits_staffed, hkept.exits, ← exit?, hnone]
  simp

theorem grows_cancelAll (w : Overlay) (ts : List TaskId) : w.Grows (ts.foldl cancel w) := by
  induction ts generalizing w with
  | nil => exact .refl w
  | cons s ts ih => exact (Grows.cancel w s).trans (ih _)

/-- Those who are asked to end are to end, unless they have. -/
theorem cancelAll_cancels {ts : List TaskId} {task : Task} (hg : g ∈ ts)
    (hf : w.isFinished g = false) (ht : (ts.foldl cancel w).tasks[g]? = some task) :
    task.isCancelled = true := by
  induction ts generalizing w with
  | nil => exact absurd hg (by simp)
  | cons s ts ih =>
    rcases w.cancel_eq s with ⟨hs, h⟩ | ⟨-, rs, h, -⟩
    · refine ih ((List.mem_cons.mp hg).resolve_left ?_) hf (by rwa [List.foldl_cons, h] at ht)
      rintro rfl
      exact absurd (hf.symm.trans hs) (by simp)
    · rw [List.foldl_cons] at ht
      rcases List.mem_cons.mp hg with rfl | hmem
      · obtain ⟨before, hb, -⟩ := keeps_cancelAll (w.cancel g) ts g task ht
        obtain ⟨task', ht', -, -, hc⟩ := (grows_cancelAll (w.cancel g) ts).tasks g before hb
        obtain rfl := Option.some.inj (ht.symm.trans ht')
        refine hc ?_
        rw [h, List.getElem?_modify_eq, Option.map_eq_map, Option.map_eq_some_iff] at hb
        obtain ⟨_, -, rfl⟩ := hb
        rfl
      · refine ih hmem ?_ ht
        rw [h]
        exact hf

/-- A setup that is given up asks those to end who guard its attempts. -/
theorem Mustered.dismisses (hm : w.Mustered) (hr : w.role? t = some (.setup manual maxFail))
    (hready : t ∈ w.ready) (hf : w.isFinished t = false) {task task' : Task}
    (ht : w.tasks[t]? = some task) (hc : task.isCancelled = true)
    (hp : w.Plays g (.guard slot p) (some t)) (hfg : w.isFinished g = false)
    (hg : (w.act (.poll t)).tasks[g]? = some task') : task'.isCancelled = true := by
  obtain ⟨stage, hj⟩ : ∃ stage, task.job = .setup manual maxFail stage := by
    obtain ⟨_, ht', hrole⟩ := role?_eq_some.mp hr
    obtain rfl := Option.some.inj (ht.symm.trans ht')
    exact Job.eq_setup hrole
  have hjob : w.job? t = some (.setup manual maxFail stage) := job?_eq_some.mpr ⟨task, ht, hj⟩
  cases stage with
  | entering | queued | reserving => exact absurd hp (hm.early t _ _ _ hjob rfl g slot p)
  | settling r as =>
    have hmem := (hm.crew t _ _ r as hjob hf g slot p hp).resolve_right (by simp [hfg])
    rw [Overlay.act, if_pos hready, poll_abandon ht hf hc, hj, abandon, tasks_finish] at hg
    exact cancelAll_cancels (w := { w with ready := w.ready.erase t }) hmem hfg hg

/-- A setup that is given up passes over those whose attempts have not been started. -/
theorem Sound.itinerary_drops (h : w.Sound) (hk : w.Known) (hm : w.Mustered)
    (hr : w.role? t = some (.setup manual maxFail)) (hready : t ∈ w.ready)
    (hf : w.isFinished t = false) {task : Task} (ht : w.tasks[t]? = some task)
    (hc : task.isCancelled = true) {inTurn up : Prop} (hup : ¬up) :
    Itinerary.Step inTurn up (w.itinerary t) ((w.act (.poll t)).itinerary t) := by
  have hg := h.grows_act (.poll t)
  have hkeeps : w.Keeps (w.act (.poll t)) := by
    rw [Overlay.act, if_pos hready, poll_abandon ht hf hc]
    exact keeps_abandon { w with ready := w.ready.erase t } t _
  have hno := serves_nobody hr
  have hawaited : (w.act (.poll t)).awaited t = [] := by
    refine List.filterMap_eq_nil_iff.mpr fun g _ =>
      Option.eq_none_iff_forall_ne_some.mpr fun p hp => ?_
    obtain ⟨hfg, task', slot, htask', hj', hpar', hc'⟩ := await?_eq_some.mp hp
    have hplays : w.Plays g (.guard slot p) (some t) :=
      hkeeps.back hg ⟨task', htask', by rw [hj']; rfl, hpar'⟩
    have hcancels := hm.dismisses hr hready hf ht hc hplays (hg.unfinished hfg) htask'
    exact absurd (hc'.symm.trans hcancels) (by simp)
  rw [itinerary, itinerary, h.drawn_act hkeeps.not_draws, hawaited, h.entered_act hno,
    h.dialled_same hk fun a p hy ha => (hno a p hy ha).2]
  exact .drops _ _ _ _ hup

/-- In each step at most one of the candidates of a setup gets further, or more are drawn. -/
theorem Sound.itinerary_act (h : w.Sound) (hk : w.Known) (hm : w.Mustered)
    (hu : w.Uncancelled attempts) (hr : w.role? t = some (.setup manual maxFail)) (y : Act) :
    Itinerary.Step (w.InTurn y) ((w.act y).exit? t ≠ some .cancelled) (w.itinerary t)
      ((w.act y).itinerary t) := by
  have hlt := lt_of_role? hr
  rcases goes_act hlt y with hy | ⟨rfl, job, hgo⟩ | ⟨rfl, ⟨hready, hf⟩, hk', he, task, ht, hc⟩
  · have hd := (h.aside hlt hy).idle
    have hst : ∀ g slot p, w.Plays g (.guard slot p) (some t) → w.Steady g →
        (w.act y).Steady g := fun g slot p hp hst => hst.aside h hp hy
    by_cases hx : ∃ x p, y = .poll x ∧ x ∈ w.ready ∧ w.await? t x = some p
    · obtain ⟨x, p, rfl, hready, hx⟩ := hx
      exact h.itinerary_starts hk hready hx hd hst
    by_cases hx' : ∃ x p, y = .poll x ∧ x ∈ w.ready ∧ w.enter? t x = some p
    · obtain ⟨x, p, rfl, hready, hx'⟩ := hx'
      exact h.itinerary_dials hk hu hready hx' hd hst
    have hno : ∀ x p, y = .poll x → x ∈ w.ready →
        w.await? t x ≠ some p ∧ w.enter? t x ≠ some p := fun x p hyx hready =>
      ⟨fun hp => hx ⟨x, p, hyx, hready, hp⟩, fun hp => hx' ⟨x, p, hyx, hready, hp⟩⟩
    rw [itinerary, itinerary, h.drawn_act hd,
      h.awaited_act hd hst fun g p hyg hready => (hno g p hyg hready).1, h.entered_act hno,
      h.dialled_same hk fun a p hya ha => (hno a p hya ha).2]
    exact .stays _
  · obtain ⟨stage, rfl⟩ := Job.eq_setup (Option.some.inj ((role?_of_going hgo).symm.trans hr))
    exact h.itinerary_advances hk hgo
  · exact h.itinerary_drops hk hm hr hready hf ht hc (by simp [he])

end RelayUpkeep.Overlay

import RelayUpkeep.Proofs.Failures
import RelayUpkeep.Proofs.Muster
import RelayUpkeep.Proofs.Requests

/-! # Stations on the way to a candidate

A candidate that a setup draws is waited for by a guard, then by an attempt, and is then connected
to. Who waits for a candidate, or was asked for one, is told by the tasks and the journal, and a step
leaves those where they are that do not go on. -/

namespace RelayUpkeep

/-! ## What members of a list are listed for -/

section Lists

variable {α : Type} {f f' : Nat → Option α} {n x : Nat} {a : α}

theorem filterMap_range_congr (h : ∀ i < n, f' i = f i) :
    (List.range n).filterMap f' = (List.range n).filterMap f :=
  List.filterMap_congr fun i hi => h i (List.mem_range.mp hi)

theorem filterMap_range_add (h : ∀ i < n, f' i = f i) (k : Nat) :
    (List.range (n + k)).filterMap f' =
      (List.range n).filterMap f ++ (List.range k).filterMap fun i => f' (n + i) := by
  rw [List.range_add, List.filterMap_append, filterMap_range_congr h, List.filterMap_map]
  rfl

theorem filterMap_range_same {m : Nat} (hle : n ≤ m) (h : ∀ i < n, f' i = f i)
    (hnew : ∀ i, n ≤ i → f' i = none) :
    (List.range m).filterMap f' = (List.range n).filterMap f := by
  obtain ⟨k, rfl⟩ := Nat.exists_eq_add_of_le hle
  rw [filterMap_range_add h, List.filterMap_eq_nil_iff.mpr fun i _ => hnew _ (Nat.le_add_right n i),
    List.append_nil]

theorem filterMap_range_eq_map {β : Type} {l : List β} {g : β → α}
    (h : ∀ i b, l[i]? = some b → f i = some (g b)) :
    (List.range l.length).filterMap f = l.map g := by
  induction l using List.reverseRecOn with
  | nil => rfl
  | append_singleton l b ih =>
    rw [List.length_append, List.length_singleton, List.range_succ, List.filterMap_append, ih ?_,
      List.map_append]
    · simp [h l.length b (by simp)]
    · intro i b' hi
      refine h i b' ?_
      rw [List.getElem?_append_left (List.getElem?_eq_some_iff.mp hi).1, hi]

/-- One member is not listed any more. -/
theorem filterMap_range_drop (f f' : Nat → Option α) (hx : x < n) (ha : f x = some a) (ha' : f' x = none)
    (h : ∀ i < n, i ≠ x → f' i = f i) : ∃ l₁ l₂, (List.range n).filterMap f = l₁ ++ a :: l₂ ∧
      (List.range n).filterMap f' = l₁ ++ l₂ ∧ ((∀ i < x, f i = none) → l₁ = []) := by
  obtain ⟨k, rfl⟩ := Nat.exists_eq_add_of_lt hx
  have hold : ∀ i < x, f' i = f i := fun i hi =>
    h i (Nat.lt_trans hi hx) (Nat.ne_of_lt hi)
  have hsplit : (List.range (x + (k + 1))).filterMap f = _ :=
    filterMap_range_add (fun _ _ => rfl) (k + 1)
  have hsplit' := filterMap_range_add hold (k + 1)
  simp only [List.range_succ_eq_map, List.filterMap_cons, Nat.add_zero, ha] at hsplit
  simp only [List.range_succ_eq_map, List.filterMap_cons, Nat.add_zero, ha'] at hsplit'
  refine ⟨_, _, hsplit, ?_, fun hnone => ?_⟩
  · rw [Nat.add_assoc, hsplit']
    refine congrArg _ (List.filterMap_congr fun i hi => ?_)
    obtain ⟨j, hj, rfl⟩ := List.mem_map.mp hi
    have := List.mem_range.mp hj
    exact h _ (by omega) (by omega)
  · exact List.filterMap_eq_nil_iff.mpr fun i hi => hnone i (List.mem_range.mp hi)

end Lists

/-! ## Stations -/

/-- Whom a setup has drawn, and who of them waits for an attempt, has an attempt that has not gone
on, or is dialled. -/
structure Itinerary where
  drawn : List PeerAddress
  awaited : List PeerAddress
  entered : List PeerAddress
  dialled : List PeerAddress

namespace Itinerary

variable {inTurn up : Prop} {i j : Itinerary}

/-- What a step does to the candidates of a setup. In turn, the first one gets further. Only a setup
that is given up passes candidates over, and it draws nobody. -/
inductive Step (inTurn up : Prop) : Itinerary → Itinerary → Prop
  | stays (i : Itinerary) : Step inTurn up i i
  | draws (i : Itinerary) (ps : List PeerAddress) (h : up) :
      Step inTurn up i { i with drawn := i.drawn ++ ps, awaited := i.awaited ++ ps }
  | starts (d l₁ l₂ e c : List PeerAddress) (p : PeerAddress) (h : inTurn → l₁ = []) :
      Step inTurn up ⟨d, l₁ ++ p :: l₂, e, c⟩ ⟨d, l₁ ++ l₂, e ++ [p], c⟩
  | dials (d a l₁ l₂ c : List PeerAddress) (p : PeerAddress) (h : inTurn → l₁ = []) :
      Step inTurn up ⟨d, a, l₁ ++ p :: l₂, c⟩ ⟨d, a, l₁ ++ l₂, c ++ [p]⟩
  | drops (d a e c : List PeerAddress) (h : ¬up) : Step inTurn up ⟨d, a, e, c⟩ ⟨d, [], e, c⟩

/-- Everyone who is drawn is on the way or dialled, but for those who were passed over. -/
def Balanced (up : Prop) (i : Itinerary) : Prop :=
  ∃ passed, (i.dialled ++ i.entered ++ i.awaited ++ passed).Perm i.drawn ∧
    (passed = [] ∨ ¬up ∧ i.awaited = [])

/-- The same, in the order of the draws. -/
def InOrder (up : Prop) (i : Itinerary) : Prop :=
  ∃ passed, i.dialled ++ i.entered ++ i.awaited ++ passed = i.drawn ∧
    (passed = [] ∨ ¬up ∧ i.awaited = [])

theorem Step.balanced {up' : Prop} (h : Step inTurn up' i j) (hi : i.Balanced up)
    (hup : up' → up) : j.Balanced up' := by
  obtain ⟨passed, hp, hl⟩ := hi
  have hl : passed = [] ∨ ¬up' ∧ i.awaited = [] := hl.imp id fun h => ⟨mt hup h.1, h.2⟩
  cases h with
  | stays => exact ⟨passed, hp, hl⟩
  | draws _ ps hu =>
    obtain rfl := hl.resolve_right fun h => h.1 hu
    refine ⟨[], ?_, .inl rfl⟩
    simpa using hp.append_right ps
  | starts d l₁ l₂ e c p =>
    obtain rfl := hl.resolve_right fun h => absurd h.2 (by simp)
    refine ⟨[], List.Perm.trans ?_ hp, .inl rfl⟩
    have hmiddle : (p :: (l₁ ++ l₂)).Perm (l₁ ++ p :: l₂) := List.perm_middle.symm
    simpa using hmiddle.append_left (c ++ e)
  | dials d a l₁ l₂ c p =>
    refine ⟨passed, List.Perm.trans ?_ hp, hl⟩
    have hmiddle : (p :: (l₁ ++ (l₂ ++ (a ++ passed)))).Perm (l₁ ++ p :: (l₂ ++ (a ++ passed))) :=
      List.perm_middle.symm
    simpa using hmiddle.append_left c
  | drops d a e c hu =>
    refine ⟨a ++ passed, by simpa using hp, .inr ⟨hu, rfl⟩⟩

theorem Step.inOrder {up' : Prop} (h : Step inTurn up' i j) (hi : i.InOrder up) (hup : up' → up)
    (ht : inTurn) : j.InOrder up' := by
  obtain ⟨passed, hp, hl⟩ := hi
  have hl : passed = [] ∨ ¬up' ∧ i.awaited = [] := hl.imp id fun h => ⟨mt hup h.1, h.2⟩
  cases h with
  | stays => exact ⟨passed, hp, hl⟩
  | draws _ ps hu =>
    obtain rfl := hl.resolve_right fun h => h.1 hu
    exact ⟨[], by simpa using congrArg (· ++ ps) hp, .inl rfl⟩
  | starts d l₁ l₂ e c p h =>
    obtain rfl := h ht
    obtain rfl := hl.resolve_right fun h => absurd h.2 (by simp)
    exact ⟨[], by simpa using hp, .inl rfl⟩
  | dials d a l₁ l₂ c p h =>
    obtain rfl := h ht
    exact ⟨passed, by simpa using hp, hl⟩
  | drops d a e c hu => exact ⟨a ++ passed, by simpa using hp, .inr ⟨hu, rfl⟩⟩

end Itinerary

namespace Overlay

variable {t g a : TaskId} {w : Overlay} {p q : PeerAddress} {slot : Nat} {y : Act}

/-! ## Whose candidates are where -/

/-- The setup that an attempt is made for. -/
def client? (w : Overlay) (a : TaskId) : Option TaskId := (w.parent? a).bind w.parent?

/-- The candidate that a task guards an attempt on for setup `t`. -/
def draw? (w : Overlay) (t g : TaskId) : Option PeerAddress :=
  match w.tasks[g]? with
  | some ⟨.guardAttempt _ p _, some s, _⟩ => if s = t then some p else none
  | _ => none

/-- The same, if the attempt has not been started and the task is not going to end before it is. -/
def await? (w : Overlay) (t g : TaskId) : Option PeerAddress :=
  match w.tasks[g]? with
  | some ⟨.guardAttempt _ p none, some s, false⟩ =>
    if s = t ∧ w.isFinished g = false then some p else none
  | _ => none

/-- The candidate of an attempt for setup `t` that has been started and has not gone on. -/
def enter? (w : Overlay) (t a : TaskId) : Option PeerAddress :=
  match w.tasks[a]? with
  | some ⟨.attempt p .entering, _, _⟩ =>
    if w.client? a = some t ∧ w.isFinished a = false then some p else none
  | _ => none

/-- The peer that an attempt for setup `t` asks for a connection. -/
def connect? (w : Overlay) (t : TaskId) : Event → Option PeerAddress
  | .connect a p => if w.client? a = some t then some p else none
  | _ => none

/-- Whom setup `t` has drawn, in this order. -/
def drawn (w : Overlay) (t : TaskId) : List PeerAddress :=
  (List.range w.tasks.length).filterMap (w.draw? t)

/-- Who is drawn and has no attempt yet. -/
def awaited (w : Overlay) (t : TaskId) : List PeerAddress :=
  (List.range w.tasks.length).filterMap (w.await? t)

/-- Who has an attempt that has not gone on. -/
def entered (w : Overlay) (t : TaskId) : List PeerAddress :=
  (List.range w.tasks.length).filterMap (w.enter? t)

/-- Whom setup `t` has asked for a connection, in this order. -/
def dialled (w : Overlay) (t : TaskId) : List PeerAddress :=
  w.journal.filterMap fun e => w.connect? t e.event

theorem draw?_eq_some : w.draw? t g = some p ↔ ∃ slot, w.Plays g (.guard slot p) (some t) := by
  constructor
  · intro h
    unfold draw? at h
    split at h
    · next slot q attempt s c ht =>
      split_ifs at h with hs
      obtain rfl := Option.some.inj h
      exact ⟨slot, _, ht, rfl, congrArg some hs⟩
    · exact absurd h (by simp)
  · rintro ⟨slot, task, ht, hr, hp⟩
    obtain ⟨attempt, hj⟩ := Job.eq_guardAttempt hr
    obtain ⟨job, parent, c⟩ := task
    obtain rfl : job = _ := hj
    obtain rfl : parent = _ := hp
    simp [draw?, ht]

theorem await?_eq_some : w.await? t g = some p ↔ w.isFinished g = false ∧
    ∃ (task : Task) (slot : Nat), w.tasks[g]? = some task ∧ task.job = .guardAttempt slot p none ∧
      task.parent = some t ∧ task.isCancelled = false := by
  constructor
  · intro h
    unfold await? at h
    split at h
    · next slot q s ht =>
      split_ifs at h with hs
      obtain rfl := Option.some.inj h
      exact ⟨hs.2, _, slot, ht, rfl, congrArg some hs.1, rfl⟩
    · exact absurd h (by simp)
  · rintro ⟨hf, ⟨job, parent, c⟩, slot, ht, hj, hp, hc⟩
    obtain rfl : job = _ := hj
    obtain rfl : parent = _ := hp
    obtain rfl : c = _ := hc
    simp [await?, ht, hf]

theorem enter?_eq_some : w.enter? t a = some p ↔ w.isFinished a = false ∧ w.client? a = some t ∧
    ∃ task : Task, w.tasks[a]? = some task ∧ task.job = .attempt p .entering := by
  constructor
  · intro h
    unfold enter? at h
    split at h
    · next q parent c ht =>
      split_ifs at h with hs
      obtain rfl := Option.some.inj h
      exact ⟨hs.2, hs.1, _, ht, rfl⟩
    · exact absurd h (by simp)
  · rintro ⟨hf, hc, ⟨job, parent, c⟩, ht, hj⟩
    obtain rfl : job = _ := hj
    simp [enter?, ht, hf, hc]

/-! ## Whom a step leaves where they are -/

theorem Sound.client?_act (h : w.Sound) (hlt : a < w.tasks.length) :
    (w.act y).client? a = w.client? a := by
  have hparent : ∀ b, b < w.tasks.length → (w.act y).parent? b = w.parent? b := fun b hb => by
    obtain ⟨task, ht, -, hp, -⟩ := (h.grows_act y).tasks b _ (List.getElem?_eq_getElem hb)
    simp [parent?, ht, hb, hp]
  rw [client?, hparent a hlt, client?]
  cases hp : w.parent? a with
  | none => rfl
  | some b =>
    obtain ⟨task, ht, hpar⟩ := Option.bind_eq_some_iff.mp hp
    exact hparent b (Nat.lt_trans (h.parents a task b ht hpar).1 hlt)

theorem Sound.draw?_act (h : w.Sound) (hlt : g < w.tasks.length) :
    (w.act y).draw? t g = w.draw? t g := by
  refine Option.ext fun p => ?_
  rw [draw?_eq_some, draw?_eq_some]
  exact exists_congr fun slot => ⟨fun hp => hp.back (h.grows_act y) hlt, .mono (h.grows_act y)⟩

/-- Who guards an attempt stays where it is unless it goes on or is asked to end. -/
theorem Sound.await?_act (h : w.Sound) (hlt : g < w.tasks.length)
    (hg : ¬(y = .poll g ∧ g ∈ w.ready ∧ w.isFinished g = false))
    (hst : ∀ slot p, w.Plays g (.guard slot p) (some t) → w.Steady g → (w.act y).Steady g) :
    (w.act y).await? t g = w.await? t g := by
  obtain ⟨hjob, hexit⟩ := h.idle_act hlt hg
  have hfin : (w.act y).isFinished g = w.isFinished g := by rw [isFinished, hexit, isFinished]
  obtain ⟨task', ht', -, hpar, hc⟩ := (h.grows_act y).tasks g _ (List.getElem?_eq_getElem hlt)
  obtain ⟨task, ht, hsame⟩ := hjob task' ht'
  obtain rfl := Option.some.inj ((List.getElem?_eq_getElem hlt).symm.trans ht)
  refine Option.ext fun p => ?_
  rw [await?_eq_some, await?_eq_some, hfin]
  refine and_congr_right fun hf => ⟨?_, ?_⟩
  · rintro ⟨task, slot, htask, hj, hp, hcancel⟩
    obtain rfl := Option.some.inj (ht'.symm.trans htask)
    refine ⟨_, slot, ht, hsame ▸ hj, hpar ▸ hp, ?_⟩
    by_contra hflag
    exact absurd (hc (by simpa using hflag)) (by simp [hcancel])
  · rintro ⟨task, slot, htask, hj, hp, hcancel⟩
    obtain rfl := Option.some.inj (ht.symm.trans htask)
    refine ⟨task', slot, ht', hsame.trans hj, hpar.trans hp, ?_⟩
    refine (hst slot p ⟨_, ht, by rw [hj]; rfl, hp⟩ ?_).task ht'
    rintro b task hb rfl
    obtain rfl := Option.some.inj (ht.symm.trans hb)
    exact hcancel

theorem Sound.enter?_act (h : w.Sound) (hlt : a < w.tasks.length)
    (ha : ¬(y = .poll a ∧ a ∈ w.ready ∧ w.isFinished a = false)) :
    (w.act y).enter? t a = w.enter? t a := by
  obtain ⟨hjob, hexit⟩ := h.idle_act hlt ha
  have hfin : (w.act y).isFinished a = w.isFinished a := by rw [isFinished, hexit, isFinished]
  obtain ⟨task', ht', -⟩ := (h.grows_act y).tasks a _ (List.getElem?_eq_getElem hlt)
  obtain ⟨task, ht, hsame⟩ := hjob task' ht'
  refine Option.ext fun p => ?_
  rw [enter?_eq_some, enter?_eq_some, hfin, h.client?_act hlt]
  simp only [ht, ht', Option.some.injEq, exists_eq_left', hsame]

/-! ## Who is new -/

/-- A candidate that is new with its guard is drawn by the setup. -/
theorem draw?_new (hnew : w.tasks.length ≤ g)
    (hd : (w.act y).draw? t g = some p) : Draws t w (w.act y) := by
  obtain ⟨slot, hp⟩ := draw?_eq_some.mp hd
  exact ⟨g, slot, p, hnew, hp⟩

theorem draw?_of_await? (h : w.await? t g = some p) : w.draw? t g = some p := by
  obtain ⟨-, task, slot, ht, hj, hp, -⟩ := await?_eq_some.mp h
  exact draw?_eq_some.mpr ⟨slot, task, ht, by rw [hj]; rfl, hp⟩

/-- A candidate whose attempt is new was waited for by its guard. -/
theorem Sound.enter?_new (h : w.Sound) (hnew : w.tasks.length ≤ a)
    (he : (w.act y).enter? t a = some p) : ∃ g, y = .poll g ∧ a = w.tasks.length ∧
      g ∈ w.ready ∧ w.await? t g = some p := by
  obtain ⟨-, hc, task, ht, hj⟩ := enter?_eq_some.mp he
  obtain ⟨g, hpar, hcl⟩ := Option.bind_eq_some_iff.mp hc
  have hp : task.parent = some g := by simpa [parent?, ht] using hpar
  obtain ⟨rfl, ha, slot, hgo, -⟩ := h.engages ⟨task, ht, by rw [hj]; rfl, hp⟩ hnew
  obtain ⟨hready, hf, before, hb, hcancel, hjob⟩ := going?_eq_some.mp hgo
  refine ⟨g, rfl, ha, hready, await?_eq_some.mpr ⟨hf, before, slot, hb, hjob, ?_, hcancel⟩⟩
  obtain ⟨task', ht', -, hsame, -⟩ := (h.grows_act (.poll g)).tasks g before hb
  rw [← hsame]
  simpa [parent?, ht'] using hcl

/-! ## Who goes on -/

/-- A guard that goes on does not wait to start its attempt any more. -/
theorem Sound.await?_self (h : w.Sound) (hready : g ∈ w.ready) (hf : w.isFinished g = false) :
    (w.act (.poll g)).await? t g = none := by
  refine Option.eq_none_iff_forall_ne_some.mpr fun p hsome => ?_
  obtain ⟨hf', task', slot, ht', hj', hp', -⟩ := await?_eq_some.mp hsome
  have hr : w.role? g = some (.guard slot p) := by
    rw [← (h.grows_act (.poll g)).role?_eq (h.ready g hready)]
    exact role?_eq_some.mpr ⟨task', ht', by rw [hj']; rfl⟩
  rcases goes_act (h.ready g hready) (.poll g) with hy | ⟨-, job, hgo⟩ | ⟨-, -, -, he, -⟩
  · exact hy ⟨rfl, hready, hf⟩
  · obtain ⟨attempt, rfl⟩ :=
      Job.eq_guardAttempt (Option.some.inj ((role?_of_going hgo).symm.trans hr))
    obtain ⟨-, -, task, ht, -, hj⟩ := going?_eq_some.mp hgo
    rw [act_of_going hgo, resume] at ht'
    cases attempt with
    | none =>
      have hself := engaged_self (w := { w with ready := w.ready.erase g }) (i := slot) (p := p) ht
      obtain rfl := Option.some.inj (hself.symm.trans ht')
      exact absurd hj' (by simp)
    | some a =>
      rw [tasks_pollGuard_some] at ht'
      obtain rfl := Option.some.inj (ht.symm.trans ht')
      exact absurd (hj.symm.trans hj') (by simp)
  · exact absurd (isFinished_of_exit? he) (by simp [hf'])

/-- An attempt that goes on is not at its beginning any more. -/
theorem Sound.enter?_self (h : w.Sound) (hready : a ∈ w.ready) (hf : w.isFinished a = false) :
    (w.act (.poll a)).enter? t a = none := by
  refine Option.eq_none_iff_forall_ne_some.mpr fun p hsome => ?_
  obtain ⟨hf', -, task', ht', hj'⟩ := enter?_eq_some.mp hsome
  have hr : w.role? a = some (.attempt p) := by
    rw [← (h.grows_act (.poll a)).role?_eq (h.ready a hready)]
    exact role?_eq_some.mpr ⟨task', ht', by rw [hj']; rfl⟩
  rcases goes_act (h.ready a hready) (.poll a) with hy | ⟨-, job, hgo⟩ | ⟨-, -, -, he, -⟩
  · exact hy ⟨rfl, hready, hf⟩
  · obtain ⟨s, rfl⟩ := Job.eq_attempt (Option.some.inj ((role?_of_going hgo).symm.trans hr))
    rw [act_of_going hgo, resume] at hf' ht'
    have hnears := nears_pollAttempt (w := { w with ready := w.ready.erase a }) (q := p)
      (h.ready a hready) s
    rcases hnears with hend | ⟨s', -, hs', ⟨task, ht, hj⟩, -⟩
    · exact absurd (hf'.symm.trans hend) (by simp)
    · obtain rfl := Option.some.inj (ht'.symm.trans ht)
      obtain ⟨-, rfl⟩ := Job.attempt.inj (hj'.symm.trans hj)
      cases s <;> simp [AttemptStage.rank] at hs'
  · exact absurd (isFinished_of_exit? he) (by simp [hf'])

/-! ## Who is dialled -/

theorem dialled_eq (w : Overlay) (t : TaskId) :
    w.dialled t = w.requests.filterMap (w.connect? t) := by
  have hrequest : ∀ e : Event,
      w.connect? t e = if e.isRequest then w.connect? t e else none := fun e => by cases e <;> rfl
  rw [dialled, requests, List.filterMap_filter, List.filterMap_map]
  exact List.filterMap_congr fun e _ => hrequest e.event

theorem Sound.dialled_act (h : w.Sound) (hk : w.Known) (y : Act) :
    (w.act y).dialled t = w.dialled t ++ (w.requested y).filterMap (w.connect? t) := by
  have hsame : ∀ e, (∀ a p, e = .connect a p → a < w.tasks.length) →
      (w.act y).connect? t e = w.connect? t e := by
    intro e he
    cases e with
    | connect a p => simp only [connect?, h.client?_act (he a p rfl)]
    | _ => rfl
  rw [dialled_eq, dialled_eq, h.requests_act y, List.filterMap_append]
  refine congrArg₂ _ (List.filterMap_congr fun e he => hsame e ?_)
    (List.filterMap_congr fun e he => hsame e ?_)
  · rintro a p rfl
    exact hk _ he a rfl
  · rintro a p rfl
    obtain ⟨b, job, -, hgo, hmem⟩ := mem_requested.mp he
    obtain rfl := asker_of_mem_jobRequests hmem rfl
    exact lt_of_role? (role?_of_going hgo)

end Overlay

end RelayUpkeep

import RelayUpkeep.Proofs.Moves

/-! # What only grows

Tasks, connections and relays are never forgotten, ends and the journal are only added to, and what
is closed stays closed. -/

namespace RelayUpkeep

/-- Every member of a list is still in its place, in a later form. -/
def Evolves {α : Type} (R : Nat → α → α → Prop) (l l' : List α) : Prop :=
  ∀ i x, l[i]? = some x → ∃ y, l'[i]? = some y ∧ R i x y

namespace Evolves

variable {α : Type} {R : Nat → α → α → Prop} {l l' l'' : List α}

theorem refl (hr : ∀ i x, R i x x) (l : List α) : Evolves R l l := fun i x h => ⟨x, h, hr i x⟩

theorem trans (ht : ∀ i x y z, R i x y → R i y z → R i x z) (h : Evolves R l l')
    (h' : Evolves R l' l'') : Evolves R l l'' := by
  intro i x hx
  obtain ⟨y, hy, hxy⟩ := h i x hx
  obtain ⟨z, hz, hyz⟩ := h' i y hy
  exact ⟨z, hz, ht i x y z hxy hyz⟩

theorem append (hr : ∀ i x, R i x x) (l more : List α) : Evolves R l (l ++ more) := by
  intro i x hx
  refine ⟨x, ?_, hr i x⟩
  rw [List.getElem?_append_left (List.getElem?_eq_some_iff.mp hx).1, hx]

theorem modify (hr : ∀ i x, R i x x) {i : Nat} {f : α → α}
    (hf : ∀ x, l[i]? = some x → R i x (f x)) : Evolves R l (l.modify i f) := by
  intro j x hx
  rw [List.getElem?_modify]
  by_cases hij : i = j
  · subst hij
    exact ⟨f x, by simp [hx], hf x hx⟩
  · exact ⟨x, by simp [hij, hx], hr j x⟩

theorem length_le (h : Evolves R l l') : l.length ≤ l'.length := by
  by_contra hlt
  obtain ⟨y, hy, -⟩ := h l'.length _ (List.getElem?_eq_getElem (Nat.lt_of_not_le hlt))
  exact absurd hy (by simp)

end Evolves

/-- The later states of a close signal. -/
inductive CloseSignal.Leads {α : Type} : CloseSignal α → CloseSignal α → Prop
  | live (l : Option α) (s : CloseSignal α) : Leads (live l) s
  | unheard (b : Bool) : Leads (lost false) (lost b)
  | heard : Leads (lost true) (lost true)
  | shutDown : Leads shutDown shutDown

namespace CloseSignal.Leads

variable {α : Type} {s s' s'' : CloseSignal α}

theorem refl : (s : CloseSignal α) → s.Leads s
  | .live l => .live l _
  | .lost false => .unheard _
  | .lost true => .heard
  | .shutDown => .shutDown

theorem trans (h : s.Leads s') (h' : s'.Leads s'') : s.Leads s'' := by
  cases h with
  | live l => exact .live l _
  | unheard b =>
    cases h' with
    | unheard b => exact .unheard b
    | heard => exact .unheard true
  | heard => exact h'
  | shutDown => exact h'

end CloseSignal.Leads

/-- A task keeps its role and whoever started it, and stays asked to end. -/
structure Task.Grows (a b : Task) : Prop where
  role : b.job.role = a.job.role
  parent : b.parent = a.parent
  cancelled : a.isCancelled = true → b.isCancelled = true

/-- A connection that is closed stays closed. -/
structure Conn.Grows (a b : Conn) : Prop where
  remote : b.remote = a.remote
  isOpen : b.isOpen = true → a.isOpen = true

structure Relay.Grows (a b : Relay) : Prop where
  kind : b.kind = a.kind
  address : b.address = a.address
  conn : b.conn = a.conn
  watcher : b.watcher = a.watcher
  signal : a.signal.Leads b.signal

theorem Task.Grows.refl (a : Task) : a.Grows a := ⟨rfl, rfl, id⟩

theorem Task.Grows.trans {a b c : Task} (h : a.Grows b) (h' : b.Grows c) : a.Grows c :=
  ⟨h'.role.trans h.role, h'.parent.trans h.parent, h'.cancelled ∘ h.cancelled⟩

theorem Conn.Grows.refl (a : Conn) : a.Grows a := ⟨rfl, id⟩

theorem Conn.Grows.trans {a b c : Conn} (h : a.Grows b) (h' : b.Grows c) : a.Grows c :=
  ⟨h'.remote.trans h.remote, h.isOpen ∘ h'.isOpen⟩

theorem Relay.Grows.refl (a : Relay) : a.Grows a := ⟨rfl, rfl, rfl, rfl, .refl _⟩

theorem Relay.Grows.trans {a b c : Relay} (h : a.Grows b) (h' : b.Grows c) : a.Grows c :=
  ⟨h'.kind.trans h.kind, h'.address.trans h.address, h'.conn.trans h.conn,
    h'.watcher.trans h.watcher, h.signal.trans h'.signal⟩

namespace Overlay

structure Grows (u v : Overlay) : Prop where
  clock : u.clock ≤ v.clock
  tasks : Evolves (fun _ => Task.Grows) u.tasks v.tasks
  conns : Evolves (fun _ => Conn.Grows) u.conns v.conns
  relays : Evolves (fun _ => Relay.Grows) u.relays v.relays
  exits : u.exits <+: v.exits
  journal : u.journal <+: v.journal
  config : v.manager.config = u.manager.config
  capacity : v.manager.pool.capacity = u.manager.pool.capacity
  ttl : v.manager.failed.ttl = u.manager.failed.ttl
  shutDown : u.manager.isShutDown = true → v.manager.isShutDown = true

namespace Grows

variable {t : TaskId} {u v w : Overlay}

theorem refl (w : Overlay) : w.Grows w where
  clock := Nat.le_refl _
  tasks := .refl (fun _ => .refl) _
  conns := .refl (fun _ => .refl) _
  relays := .refl (fun _ => .refl) _
  exits := List.prefix_rfl
  journal := List.prefix_rfl
  config := rfl
  capacity := rfl
  ttl := rfl
  shutDown := id

theorem trans (h : u.Grows v) (h' : v.Grows w) : u.Grows w where
  clock := Nat.le_trans h.clock h'.clock
  tasks := h.tasks.trans (fun _ _ _ _ => .trans) h'.tasks
  conns := h.conns.trans (fun _ _ _ _ => .trans) h'.conns
  relays := h.relays.trans (fun _ _ _ _ => .trans) h'.relays
  exits := h.exits.trans h'.exits
  journal := h.journal.trans h'.journal
  config := h'.config.trans h.config
  capacity := h'.capacity.trans h.capacity
  ttl := h'.ttl.trans h.ttl
  shutDown := h'.shutDown ∘ h.shutDown

theorem role? (h : u.Grows v) {a : TaskId} {role : Role} (hr : u.role? a = some role) :
    v.role? a = some role := by
  obtain ⟨task, ht, hrole⟩ := role?_eq_some.mp hr
  obtain ⟨task', ht', hk⟩ := h.tasks a task ht
  exact role?_eq_some.mpr ⟨task', ht', hk.role.trans hrole⟩

/-- Whatever a task has come to belongs to its role. -/
theorem role_of_job (h : u.Grows v) {a : TaskId} {role : Role} (hr : u.role? a = some role)
    {task : Task} (ht : v.tasks[a]? = some task) {job : Job} (hj : task.job = job) :
    job.role = role :=
  Option.some.inj ((role?_eq_some.mpr ⟨task, ht, congrArg Job.role hj⟩).symm.trans (h.role? hr))

/-- A task has the role that it was started with. -/
theorem role?_eq (h : u.Grows v) {a : TaskId} (ha : a < u.tasks.length) :
    v.role? a = u.role? a := by
  have hu : u.role? a = some u.tasks[a].job.role :=
    role?_eq_some.mpr ⟨_, List.getElem?_eq_getElem ha, rfl⟩
  rw [hu, h.role? hu]

/-! ## Every step -/

theorem wake (w : Overlay) (a : TaskId) : w.Grows (w.wake a) := by
  obtain ⟨rs, h, -⟩ := w.wake_eq a
  rw [h]
  exact { refl w with }

theorem log (w : Overlay) (e : Event) : w.Grows (w.log e) :=
  { refl w with journal := List.prefix_append _ _ }

theorem spawn (w : Overlay) (job : Job) (parent : Option TaskId) :
    w.Grows (w.spawn job parent).1 :=
  { refl w with tasks := .append (fun _ => .refl) _ _ }

theorem setJob (w : Overlay) {job : Job} (h : w.role? t = some job.role) :
    w.Grows (w.setJob t job) := by
  refine { refl w with tasks := .modify (fun _ => .refl) fun x hx => ⟨?_, rfl, id⟩ }
  obtain ⟨task, ht, hr⟩ := role?_eq_some.mp h
  rw [hx] at ht
  exact Option.some.inj ht ▸ hr.symm

theorem cancel (w : Overlay) (a : TaskId) : w.Grows (w.cancel a) := by
  rcases w.cancel_eq a with ⟨-, h⟩ | ⟨-, rs, h, -⟩ <;> rw [h]
  · exact refl w
  · exact { refl w with
      tasks := .modify (fun _ => .refl) fun x _ => ⟨rfl, rfl, fun _ => rfl⟩ }

theorem dropConn (w : Overlay) (c : ConnId) : w.Grows (w.dropConn c) := by
  rcases w.dropConn_eq c with ⟨-, h⟩ | ⟨-, rs, h, -⟩ <;> rw [h]
  · exact refl w
  · exact { refl w with conns := .modify (fun _ => .refl) fun x _ => ⟨rfl, by simp⟩ }

theorem setSignal {r : RelayId} {s : CloseSignal CloseListener}
    (h : ∀ relay, w.relays[r]? = some relay → relay.signal.Leads s) :
    w.Grows (w.setSignal r s) :=
  { refl w with
    relays := .modify (fun _ => .refl) fun x hx => ⟨rfl, rfl, rfl, rfl, h x hx⟩ }

theorem finish (w : Overlay) (a : TaskId) (e : Exit) : w.Grows (w.finish a e) := by
  obtain ⟨rs, h, -⟩ := w.finish_eq a e
  rw [h]
  exact { refl w with exits := List.prefix_append _ _ }

theorem stir (h : Stir t u v) : u.Grows v := by
  cases h with
  | rest => exact { refl u with }
  | wake a => exact wake u a
  | spawn job => exact spawn u job _
  | setJob job h => exact setJob u h
  | sleep job delay h => exact (setJob u h).trans { refl _ with }
  | cancel a => exact cancel u a
  | log e => exact log u e
  | openConn remote => exact { refl u with conns := .append (fun _ => .refl) _ _ }
  | dropConn c => exact dropConn u c
  | manage gate creator failed _ hf _ => exact { refl u with ttl := hf }
  | grant n => exact { refl u with }

theorem stirs (h : Stirs t u v) : u.Grows v := by
  induction h with
  | refl => exact refl u
  | tail _ h ih => exact ih.trans (stir h)

theorem made {r : RelayId} {p : PeerAddress} (h : Made u v r p) : u.Grows v := by
  cases h with
  | openTcp c conn =>
    exact { refl u with
      tasks := .append (fun _ => .refl) _ _, relays := .append (fun _ => .refl) _ _ }
  | push => exact { refl u with relays := .append (fun _ => .refl) _ _ }

theorem publish (w : Overlay) : w.Grows w.publish :=
  { refl w with journal := List.prefix_append _ _ }

theorem admitted {r : RelayId} {p : PeerAddress} (h : Made u v r p) :
    v.Grows (v.admitted r p) := by
  obtain ⟨kind, conn, watcher, hr⟩ := h.relay
  unfold Overlay.admitted
  refine trans ?_ (publish _)
  have hl : v.Grows ((v.withManager fun m => { m with
      pool := { m.pool with members := m.pool.members ++ [⟨r, p⟩] } }).log
        (.offer r (some .added))) :=
    { refl v with journal := List.prefix_append _ _ }
  refine hl.trans (setSignal fun relay hrelay => ?_)
  obtain rfl := Option.some.inj (hr.symm.trans hrelay)
  exact .live _ _

theorem shutRelay (w : Overlay) (r : RelayId) : w.Grows (w.shutRelay r).1 := by
  rcases w.shutRelay_cases r with h | ⟨relay, l, hr, hs, h⟩ <;> rw [h]
  · exact refl w
  · have hg : w.Grows (w.setSignal r .shutDown) := by
      refine setSignal fun relay' hr' => ?_
      obtain rfl := Option.some.inj (hr.symm.trans hr')
      exact hs ▸ .live _ _
    cases relay.watcher with
    | none => exact hg
    | some u => exact hg.trans (cancel _ _)

theorem tellAll (w : Overlay) (address : PeerAddress) (os : List Observer) :
    w.Grows (w.tellAll address os).1 := by
  rw [tellAll_eq]
  exact { refl w with journal := List.prefix_append _ _ }

theorem relayLost (w : Overlay) (r : RelayId) (address : PeerAddress) :
    w.Grows (w.relayLost r address).1 := by
  have hb : w.Grows (w.bereft r address) :=
    { refl w with ttl := FailedCache.ttl_add _ _ _ }
  rcases w.relayLost_cases r address with ⟨-, h⟩ | ⟨-, -, h⟩ | ⟨-, -, h⟩ <;> rw [h]
  · exact refl w
  · exact hb
  · exact hb.trans ((log _ _).trans ((publish _).trans (tellAll _ _ _)))

theorem lose (w : Overlay) (r : RelayId) : w.Grows (w.lose r).1 := by
  rcases w.lose_cases r with h | ⟨relay, hr, h⟩
  · rw [h]
    exact refl w
  · have hg : ∀ l n, relay.signal = .live l → w.Grows (w.setSignal r (.lost n)) := by
      intro l n hs
      refine setSignal fun relay' hr' => ?_
      obtain rfl := Option.some.inj (hr.symm.trans hr')
      exact hs ▸ .live _ _
    generalize (w.lose r).1 = v at h
    cases h with
    | unheard hs => exact hg _ _ hs
    | noted label nested crashes hs => exact (hg _ _ hs).trans (log _ _)
    | ownerless hs => exact hg _ _ hs
    | told hs => exact (hg _ _ hs).trans (relayLost _ _ _)

theorem move (h : Move t u v) : u.Grows v := by
  cases h with
  | stir h => exact stir h
  | publish => exact publish u
  | accept hr hm ha => exact (made hm).trans (admitted hm)
  | refuse hr hm ha => exact (made hm).trans ((log _ _).trans (shutRelay _ _))
  | shut r => exact shutRelay u r
  | lose r => exact lose u r
  | drain => exact { refl u with shutDown := fun _ => rfl }

theorem moves (h : Moves t u v) : u.Grows v := by
  induction h with
  | refl => exact refl u
  | tail _ h ih => exact ih.trans (move h)

theorem turns (h : Turns t u v) : u.Grows v := by
  obtain ⟨x, hx, rfl | ⟨e, rfl⟩⟩ := h
  · exact moves hx
  · exact (moves hx).trans (finish _ _ _)

end Grows

variable {t : TaskId} {u v : Overlay}

/-- What every move of a task keeps, and its end, a whole step keeps. -/
theorem Turns.keep {P : Overlay → Prop} (h : Turns t u v) (hlt : t < u.tasks.length) (hu : P u)
    (move : ∀ x y, P x → x.role? t = u.role? t → Move t x y → P y)
    (finish : ∀ x e, P x → P (x.finish t e)) : P v := by
  have hm : ∀ {x}, Moves t u x → P x := by
    intro x hx
    induction hx with
    | refl => exact hu
    | tail hx hy ih => exact move _ _ ih ((Grows.moves hx).role?_eq hlt) hy
  obtain ⟨x, hx, rfl | ⟨e, rfl⟩⟩ := h
  · exact hm hx
  · exact finish x e (hm hx)

/-! ## What tasks refer to is still there -/

theorem Plays.mono (hg : u.Grows v) {a : TaskId} {role : Role} {parent : Option TaskId}
    (h : u.Plays a role parent) : v.Plays a role parent := by
  obtain ⟨task, ht, hr, hp⟩ := h
  obtain ⟨task', ht', hk⟩ := hg.tasks a task ht
  exact ⟨task', ht', hk.role.trans hr, hk.parent.trans hp⟩

theorem Plays.back {a : TaskId} {role : Role} {parent : Option TaskId}
    (h : v.Plays a role parent) (hg : u.Grows v) (hlt : a < u.tasks.length) : u.Plays a role parent := by
  obtain ⟨task, ht, hr, hp⟩ := h
  have hb := List.getElem?_eq_getElem hlt
  obtain ⟨task', ht', hk⟩ := hg.tasks a _ hb
  obtain rfl := Option.some.inj (ht.symm.trans ht')
  exact ⟨_, hb, hk.role.symm.trans hr, hk.parent.symm.trans hp⟩

theorem Refers.mono (hg : u.Grows v) {a : TaskId} {job : Job} (h : u.Refers a job) :
    v.Refers a job := by
  match job, h with
  | .setup _ _ (.settling _ attempts), h =>
    intro b hb
    obtain ⟨slot, p, hp⟩ := h b hb
    exact ⟨slot, p, hp.mono hg⟩
  | .shutdown (.closing _ parts), h =>
    intro b hb
    rcases h b hb with ⟨r, hp⟩ | ⟨k, hp⟩
    · exact .inl ⟨r, hp.mono hg⟩
    · exact .inr ⟨k, hp.mono hg⟩
  | .guardAttempt _ p (some b), h => exact Plays.mono hg h
  | .attempt q (.shaking c _), ⟨conn, hc, hr⟩ =>
    obtain ⟨conn', hc', hk⟩ := hg.conns c conn hc
    exact ⟨conn', hc', hk.remote.trans hr⟩
  | .attempt _ (.partingFrom c _), ⟨conn, hc⟩ =>
    obtain ⟨conn', hc', -⟩ := hg.conns c conn hc
    exact ⟨conn', hc'⟩
  | .setup _ _ .entering, _ | .setup _ _ .queued, _ | .setup _ _ (.reserving _), _
  | .shutdown .entering, _ | .shutdown (.queued _), _ | .guardAttempt _ _ none, _
  | .attempt _ .entering, _ | .attempt _ (.connecting _), _ | .attempt _ (.discarding ..), _
  | .watch _, _ | .closeRelay .., _ | .releaseCreator .., _ => trivial

/-- A task that was just started does not refer to any other. -/
theorem Starts.refers {w : Overlay} {t : TaskId} {job : Job} (h : w.Starts t job) (v : Overlay)
    (a : TaskId) : v.Refers a job := by
  obtain ⟨role, -, hs⟩ := h
  unfold Role.starts at hs
  split at hs <;> trivial

/-! ## What a task leaves alone -/

/-- What stays as it was while a task other than `t` would look: the world outside, the jobs of the
other tasks, and whether they have ended. -/
structure Frame (t : TaskId) (u v : Overlay) : Prop where
  clock : v.clock = u.clock
  isDown : v.node.isDown = u.node.isDown
  routing : v.routing = u.routing
  behaviours : v.behaviours = u.behaviours
  reserveScript : v.reserveScript = u.reserveScript
  releaseScript : v.releaseScript = u.releaseScript
  managerHeld : v.managerHeld = u.managerHeld
  held : v.held = u.held
  jobs : Evolves (fun a x y => a = t ∨ y.job = x.job) u.tasks v.tasks
  exits : ∀ a ≠ t, v.exit? a = u.exit? a

namespace Frame

variable {t : TaskId} {u v w : Overlay}

theorem refl (t : TaskId) (w : Overlay) : Frame t w w where
  clock := rfl
  isDown := rfl
  routing := rfl
  behaviours := rfl
  reserveScript := rfl
  releaseScript := rfl
  managerHeld := rfl
  held := rfl
  jobs := .refl (fun _ _ => .inr rfl) _
  exits _ _ := rfl

theorem trans (h : Frame t u v) (h' : Frame t v w) : Frame t u w where
  clock := h'.clock.trans h.clock
  isDown := h'.isDown.trans h.isDown
  routing := h'.routing.trans h.routing
  behaviours := h'.behaviours.trans h.behaviours
  reserveScript := h'.reserveScript.trans h.reserveScript
  releaseScript := h'.releaseScript.trans h.releaseScript
  managerHeld := h'.managerHeld.trans h.managerHeld
  held := h'.held.trans h.held
  jobs := h.jobs.trans (fun _ _ _ _ hx hy => hx.elim .inl fun hx => hy.imp id (·.trans hx)) h'.jobs
  exits a ha := (h'.exits a ha).trans (h.exits a ha)

theorem wake (w : Overlay) (a : TaskId) : Frame t w (w.wake a) := by
  obtain ⟨rs, h, -⟩ := w.wake_eq a
  rw [h]
  exact { refl t w with }

theorem cancel (w : Overlay) (a : TaskId) : Frame t w (w.cancel a) := by
  rcases w.cancel_eq a with ⟨-, h⟩ | ⟨-, rs, h, -⟩ <;> rw [h]
  · exact refl t w
  · exact { refl t w with jobs := .modify (fun _ _ => .inr rfl) fun _ _ => .inr rfl }

theorem dropConn (w : Overlay) (c : ConnId) : Frame t w (w.dropConn c) := by
  rcases w.dropConn_eq c with ⟨-, h⟩ | ⟨-, rs, h, -⟩ <;> rw [h]
  · exact refl t w
  · exact { refl t w with }

theorem setJob (w : Overlay) (job : Job) : Frame t w (w.setJob t job) :=
  { refl t w with jobs := .modify (fun _ _ => .inr rfl) fun _ _ => .inl rfl }

theorem finish (w : Overlay) (e : Exit) : Frame t w (w.finish t e) := by
  obtain ⟨rs, h, -⟩ := w.finish_eq t e
  rw [h]
  refine { refl t w with exits := fun a ha => ?_ }
  have hb : (a == t) = false := by simp [ha]
  rw [exit?_append (w := w) (l := [(t, e)]) rfl, List.lookup_cons, hb]
  simp

theorem stir (h : Stir t u v) : Frame t u v := by
  cases h with
  | rest | log | openConn | manage | grant => exact { refl t u with }
  | wake a => exact wake u a
  | spawn job => exact { refl t u with jobs := .append (fun _ _ => .inr rfl) _ _ }
  | setJob job => exact setJob u job
  | sleep job delay => exact (setJob u job).trans { refl t _ with }
  | cancel a => exact cancel u a
  | dropConn c => exact dropConn u c

theorem stirs (h : Stirs t u v) : Frame t u v := by
  induction h with
  | refl => exact refl t u
  | tail _ h ih => exact ih.trans (stir h)

theorem made {r : RelayId} {p : PeerAddress} (h : Made u v r p) : Frame t u v := by
  cases h with
  | openTcp => exact { refl t u with jobs := .append (fun _ _ => .inr rfl) _ _ }
  | push => exact { refl t u with }

theorem shutRelay (w : Overlay) (r : RelayId) : Frame t w (w.shutRelay r).1 := by
  rcases w.shutRelay_cases r with h | ⟨relay, l, hr, hs, h⟩ <;> rw [h]
  · exact refl t w
  · have hs : Frame t w (w.setSignal r .shutDown) := { refl t w with }
    cases relay.watcher with
    | none => exact hs
    | some u => exact hs.trans (cancel _ _)

/-- The admitting of a relay ends in publishing, so that nothing is left to say of the node but
whether it is down. -/
theorem admitted (w : Overlay) (r : RelayId) (p : PeerAddress) : Frame t w (w.admitted r p) :=
  { refl t w with }

theorem refused (w : Overlay) (r : RelayId) (answer : Option Admission) :
    Frame t w (w.refused r answer) := by
  have hl : Frame t w (w.log (.offer r answer)) := { refl t w with }
  exact hl.trans (shutRelay _ _)

theorem lose (w : Overlay) (r : RelayId) : Frame t w (w.lose r).1 := by
  obtain ⟨s, mine, pool, failed, journal, h, -⟩ := w.lose_frame r
  rw [h]
  exact { refl t w with }

theorem move (h : Move t u v) : Frame t u v := by
  cases h with
  | stir h => exact stir h
  | publish => exact { refl t u with }
  | accept hr hm ha => exact (made hm).trans (admitted _ _ _)
  | refuse hr hm ha => exact (made hm).trans (refused _ _ _)
  | shut r => exact shutRelay u r
  | lose r => exact lose u r
  | drain => exact { refl t u with }

theorem moves (h : Moves t u v) : Frame t u v := by
  induction h with
  | refl => exact refl t u
  | tail _ h ih => exact ih.trans (move h)

theorem turns (h : Turns t u v) : Frame t u v := by
  obtain ⟨x, hx, rfl | ⟨e, rfl⟩⟩ := h
  · exact moves hx
  · exact (moves hx).trans (finish _ _)

end Frame

/-! ## What a stir leaves alone -/

/-- Nothing happened to the pool or to the advertised address, and nothing was told of either. -/
structure Calm (u v : Overlay) : Prop where
  address : v.node.address = u.node.address
  pool : v.manager.pool = u.manager.pool
  journal : ∃ more, v.journal = u.journal ++ more ∧ ∀ e ∈ more, e.event.isPlain

namespace Calm

variable {t : TaskId} {u v w : Overlay}

theorem of_eq (ha : v.node.address = u.node.address) (hp : v.manager.pool = u.manager.pool)
    (hj : v.journal = u.journal) : u.Calm v :=
  ⟨ha, hp, [], by simp [hj], by simp⟩

theorem refl (w : Overlay) : w.Calm w := .of_eq rfl rfl rfl

theorem trans (h : u.Calm v) (h' : v.Calm w) : u.Calm w := by
  obtain ⟨more, hm, hp⟩ := h.journal
  obtain ⟨rest, hr, hp'⟩ := h'.journal
  refine ⟨h'.address.trans h.address, h'.pool.trans h.pool, more ++ rest, ?_, ?_⟩
  · rw [hr, hm, List.append_assoc]
  · intro e he
    exact (List.mem_append.mp he).elim (hp e) (hp' e)

theorem log (w : Overlay) {e : Event} (h : e.isPlain) : w.Calm (w.log e) :=
  ⟨rfl, rfl, [⟨w.clock, e⟩], rfl, by simpa using h⟩

theorem wake (w : Overlay) (a : TaskId) : w.Calm (w.wake a) := by
  obtain ⟨rs, h, -⟩ := w.wake_eq a
  exact .of_eq (by rw [h]) (by rw [h]) (by rw [h])

theorem cancel (w : Overlay) (a : TaskId) : w.Calm (w.cancel a) := by
  rcases w.cancel_eq a with ⟨-, h⟩ | ⟨-, rs, h, -⟩ <;>
    exact .of_eq (by rw [h]) (by rw [h]) (by rw [h])

theorem dropConn (w : Overlay) (c : ConnId) : w.Calm (w.dropConn c) := by
  rcases w.dropConn_eq c with ⟨-, h⟩ | ⟨-, rs, h, -⟩ <;>
    exact .of_eq (by rw [h]) (by rw [h]) (by rw [h])

theorem finish (w : Overlay) (a : TaskId) (e : Exit) : w.Calm (w.finish a e) := by
  obtain ⟨rs, h, -⟩ := w.finish_eq a e
  exact .of_eq (by rw [h]) (by rw [h]) (by rw [h])

theorem shutRelay (w : Overlay) (r : RelayId) : w.Calm (w.shutRelay r).1 := by
  obtain ⟨relays, tasks, ready, h⟩ := w.shutRelay_frame r
  exact .of_eq (by rw [h]) (by rw [h]) (by rw [h])

theorem made {r : RelayId} {p : PeerAddress} (h : Made u v r p) : u.Calm v := by
  cases h <;> exact .of_eq rfl rfl rfl

theorem stir (h : Stir t u v) : u.Calm v := by
  cases h with
  | rest | spawn | setJob | sleep | openConn | manage | grant => exact .of_eq rfl rfl rfl
  | wake a => exact wake u a
  | cancel a => exact cancel u a
  | log e he _ => exact log u he
  | dropConn c => exact dropConn u c

theorem stirs (h : Stirs t u v) : u.Calm v := by
  induction h with
  | refl => exact refl u
  | tail _ h ih => exact ih.trans (stir h)

theorem quiet (h : Quiet t u v) : u.Calm v := by
  obtain ⟨x, hx, rfl | ⟨e, rfl⟩⟩ := h
  · exact stirs hx
  · exact (stirs hx).trans (finish _ _ _)

end Calm

end Overlay

end RelayUpkeep

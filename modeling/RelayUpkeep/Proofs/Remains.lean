import RelayUpkeep.Proofs.Completion

/-! # What shutdowns leave behind

As long as nobody gives a shutdown up, each relay that one has drained is shut down with its
connection, and the channels that were reserved are released, before the last one that is under way
returns. -/

namespace RelayUpkeep.Overlay

variable {t s x : TaskId} {u v w : Overlay} {role : Role} {r : RelayId} {c : ConnId}
  {drained : List RelayId}

/-! ## Relays that were shut down -/

/-- Someone has closed connection `c`. -/
def HasClosed (c : ConnId) (w : Overlay) : Prop :=
  ∃ e ∈ w.journal, ∃ p, e.event = .close c p

/-- If relay `r` was shut down, its connection was closed. -/
def Tidy (r : RelayId) (w : Overlay) : Prop :=
  ∀ relay, w.relays[r]? = some relay → relay.signal = .shutDown →
    ∀ c, relay.conn = some c → w.HasClosed c

/-- Relay `r` is lost, or it was shut down and its connection was closed. -/
def Closed (r : RelayId) (w : Overlay) : Prop :=
  ∃ relay, w.relays[r]? = some relay ∧ ((∃ notified, relay.signal = .lost notified) ∨
    relay.signal = .shutDown ∧ ∀ c, relay.conn = some c → w.HasClosed c)

theorem HasClosed.mono (h : u.HasClosed c) (hg : u.Grows v) : v.HasClosed c := by
  obtain ⟨e, he, hp⟩ := h
  obtain ⟨more, hj⟩ := hg.journal
  exact ⟨e, hj ▸ List.mem_append_left _ he, hp⟩

theorem Closed.tidy (h : w.Closed r) : w.Tidy r := by
  rintro relay hr hs
  obtain ⟨relay', hr', hclosed⟩ := h
  obtain rfl := Option.some.inj (hr.symm.trans hr')
  rcases hclosed with ⟨notified, hl⟩ | ⟨-, hc⟩
  · exact absurd (hs.symm.trans hl) (by simp)
  · exact hc

theorem Closed.mono (h : u.Closed r) (hg : u.Grows v) : v.Closed r := by
  obtain ⟨relay, hr, hclosed⟩ := h
  obtain ⟨relay', hr', hk⟩ := hg.relays r relay hr
  have hleads := hk.signal
  refine ⟨relay', hr', ?_⟩
  rcases hclosed with ⟨notified, hl⟩ | ⟨hs, hc⟩
  · rw [hl] at hleads
    generalize relay'.signal = s at hleads
    cases hleads with
    | unheard b => exact .inl ⟨b, rfl⟩
    | heard => exact .inl ⟨true, rfl⟩
  · rw [hs] at hleads
    refine .inr ⟨?_, fun c hconn => (hc c (hk.conn ▸ hconn)).mono hg⟩
    generalize relay'.signal = s at hleads
    cases hleads
    rfl

theorem Tidy.of_relays (h : u.Tidy r) (hg : u.Grows v) (hr : v.relays[r]? = u.relays[r]?) :
    v.Tidy r := fun relay hrel hs c hc => (h relay (hr ▸ hrel) hs c hc).mono hg

theorem tidy_of_setSignal {sig : CloseSignal CloseListener}
    (hv : v.relays = (w.setSignal r sig).relays) (hsig : sig ≠ .shutDown) : v.Tidy r := by
  intro relay hr hs
  rw [hv, setSignal, List.getElem?_modify_eq, Option.map_eq_map, Option.map_eq_some_iff] at hr
  obtain ⟨relay', -, rfl⟩ := hr
  exact absurd hs hsig

/-- A relay that loses its link was not shut down. -/
theorem Tidy.lose (h : w.Tidy r) (s : RelayId) : (w.lose s).1.Tidy r := by
  rcases w.lose_cases s with he | ⟨relay, -, hl⟩
  · rw [he]
    exact h
  obtain ⟨b, hb⟩ : ∃ b, (w.lose s).1.relays = (w.setSignal s (.lost b)).relays := by
    generalize (w.lose s).1 = v at hl
    cases hl with
    | unheard => exact ⟨false, rfl⟩
    | noted | ownerless => exact ⟨true, rfl⟩
    | told =>
      obtain ⟨mine, pool, failed, journal, he⟩ :=
        (w.setSignal s (.lost true)).relayLost_frame s relay.address
      exact ⟨true, by rw [he]⟩
  by_cases hsr : s = r
  · subst hsr
    exact tidy_of_setSignal hb (by simp)
  · exact h.of_relays (.lose w s) (by rw [hb]; exact List.getElem?_modify_ne _ _ hsr)

/-- Only a task that shuts a relay down can leave it with an open connection. -/
theorem Tidy.move (h : u.Tidy r) (hm : Move t u v) (hlt : r < u.relays.length)
    (hc : u.role? t ≠ some (.close r)) : v.Tidy r := by
  have hg := Grows.move hm
  by_cases hw : u.role? t = some (.watch r)
  swap
  · exact h.of_relays hg (hm.relays_eq hlt hw hc)
  cases hm with
  | stir hst => exact h.of_relays hg (by rw [hst.relays])
  | publish => exact h.of_relays hg rfl
  | accept hr | refuse hr | shut _ hr | drain hr => exact absurd (hr.symm.trans hw) (by simp)
  | lose s => exact h.lose s

theorem Tidy.moves (h : u.Tidy r) (hm : Moves t u v) (ht : t < u.tasks.length)
    (hlt : r < u.relays.length) (hc : u.role? t ≠ some (.close r)) : v.Tidy r := by
  induction hm with
  | refl => exact h
  | tail hx hm ih =>
    have hg := Grows.moves hx
    refine ih.move hm (Nat.lt_of_lt_of_le hlt hg.relays.length_le) ?_
    rwa [hg.role?_eq ht]

theorem Tidy.turns (h : u.Tidy r) (hm : Turns t u v) (ht : t < u.tasks.length)
    (hlt : r < u.relays.length) (hc : u.role? t ≠ some (.close r)) : v.Tidy r := by
  obtain ⟨x, hx, he | ⟨e, he⟩⟩ := hm <;> rw [he]
  · exact h.moves hx ht hlt hc
  · exact (h.moves hx ht hlt hc).of_relays (.finish x t e) (by rw [relays_finish])

/-! ## The task that shuts a relay down -/

@[simp] theorem relays_closeConn (w : Overlay) (c : ConnId) :
    (w.closeConn c).relays = w.relays := by
  unfold closeConn
  split
  · exact relays_dropConn _ _
  · rfl

theorem relays_pollCloseRelay (w : Overlay) (x : TaskId) (r : RelayId) :
    (w.pollCloseRelay x r none).relays = (w.shutRelay r).1.relays := by
  rw [pollCloseRelay_eq]
  split
  · exact relays_finish _ _ _
  · rw [play]
    split
    · rw [ended_eq, relays_finish, relays_closeConn]
    · exact relays_closeConn _ _

theorem relays_shutRelay_self {relay : Relay} {l : Option CloseListener}
    (hr : w.relays[r]? = some relay) (hl : relay.signal = .live l) :
    (w.shutRelay r).1.relays[r]? = some { relay with signal := .shutDown } := by
  unfold shutRelay
  simp only [hr, hl, CloseSignal.shut]
  split <;> simp [setSignal, hr]

/-- A part of a shutdown closes its relay in its first step. -/
theorem Sound.closed_poll (h : w.Sound) (hx : x ∈ w.ready) (hf : w.isFinished x = false)
    {task : Task} (ht : w.tasks[x]? = some task) (hc : task.isCancelled = false)
    (hj : task.job = .closeRelay r none) (htidy : w.Tidy r) (hlt : r < w.relays.length) :
    (w.poll x).Closed r := by
  have hg : w.Grows (w.poll x) := .turns (h.poll_turns x)
  have hr := List.getElem?_eq_getElem hlt
  cases hsig : w.relays[r].signal with
  | lost notified => exact Closed.mono ⟨_, hr, .inl ⟨notified, hsig⟩⟩ hg
  | shutDown => exact Closed.mono ⟨_, hr, .inr ⟨hsig, htidy _ hr hsig⟩⟩ hg
  | live l =>
    have hcalls := (h.answered_poll hx hf ht hc
      (show Role.part? (.close r) none = some task.job by rw [hj]; rfl)).1
    refine ⟨{ w.relays[r] with signal := .shutDown }, ?_, .inr ⟨rfl, fun c hconn => ?_⟩⟩
    · rw [poll_resume ht hf hc, hj]
      change (pollCloseRelay { w with ready := w.ready.erase x } x r none).relays[r]? = _
      rw [relays_pollCloseRelay]
      exact relays_shutRelay_self (w := { w with ready := w.ready.erase x }) hr hsig
    · have hsnd : (w.shutRelay r).2 = some c := by
        rw [snd_shutRelay hr, hsig]
        exact hconn
      rcases h.call?_close r with ⟨hnone, -⟩ | ⟨c', conn, hsome, -, hcall⟩
      · exact absurd (hnone.symm.trans hsnd) (by simp)
      · obtain rfl := Option.some.inj (hsome.symm.trans hsnd)
        refine ⟨⟨w.clock, .close c' conn.remote⟩, ?_, conn.remote, rfl⟩
        rw [hcalls, hcall]
        exact List.mem_append_right _ (List.mem_singleton_self _)

theorem Tidy.poll (h : w.Tidy r) (hs : w.Sound) (hready : t ∈ w.ready)
    (hlt : r < w.relays.length) : (w.poll t).Tidy r := by
  by_cases hrole : w.role? t = some (.close r)
  swap
  · exact h.turns (hs.poll_turns t) (hs.ready t hready) hlt hrole
  have hg : w.Grows (w.poll t) := .turns (hs.poll_turns t)
  obtain ⟨task, ht, hr⟩ := role?_eq_some.mp hrole
  obtain ⟨pending, hj⟩ : ∃ pending, task.job = .closeRelay r pending := by
    cases hj : task.job <;> simp [hj, Job.role] at hr ⊢
    exact hr
  cases hf : w.isFinished t with
  | true => exact h.of_relays hg (by rw [poll_finished hf])
  | false =>
    cases hc : task.isCancelled with
    | true =>
      refine h.of_relays hg ?_
      rw [poll_abandon ht hf hc, hj]
      exact congrArg (·[r]?) (relays_finish _ _ _)
    | false =>
      cases pending with
      | none => exact (hs.closed_poll hready hf ht hc hj h hlt).tidy
      | some o =>
        refine h.of_relays hg ?_
        rw [poll_resume ht hf hc, hj]
        exact congrArg (·[r]?) ((congrArg Overlay.relays (ended_eq _ _ _)).trans
          (relays_finish _ _ _))

/-- Whoever shuts a relay down closes its connection at once. -/
theorem Tidy.act (h : w.Tidy r) (hs : w.Sound) (hlt : r < w.relays.length) (y : Act) :
    (w.act y).Tidy r := by
  rcases w.poll_cases y with ⟨t, hready, rfl, he⟩ | ⟨t, -, rfl, he⟩ | hp
  · rw [he]
    exact h.poll hs hready hlt
  · rwa [he]
  · by_cases hl : ∃ label nested, y = .listen r label nested
    · obtain ⟨label, nested, rfl⟩ := hl
      simp only [Overlay.act]
      rcases w.listen_note_cases r label nested false with he | ⟨relay, -, ⟨-, he⟩ | ⟨-, he⟩⟩
      · rw [he]
        exact h
      · rw [he]
        exact tidy_of_setSignal rfl (by simp)
      · have hv : ((w.setSignal r (.lost true)).log
            (.notified label relay.address (some true))).Tidy r :=
          tidy_of_setSignal (w := w) rfl (by simp)
        rw [he]
        exact hv
    · exact h.of_relays (hs.grows_act y)
        (relays_act hp fun label nested he => hl ⟨label, nested, he⟩)

/-! ## Relays that are pooled -/

/-- If a relay in the pool was shut down, its connection was closed. -/
def Tidied (w : Overlay) : Prop := ∀ r ∈ w.pooled, w.Tidy r

theorem Tidied.moves (h : u.Tidied) (hs : u.Sound) (hm : Moves t u v) (ht : t < u.tasks.length)
    (hf : u.isFinished t = false) (hc : ∀ r, u.role? t ≠ some (.close r)) : v.Tidied := by
  induction hm with
  | refl => exact h
  | @tail y z hy hz ih =>
    intro r hr
    have hsy := hs.moves hy ht hf
    by_cases hold : r ∈ y.pooled
    · refine (ih r hold).move hz (hsy.lt_of_pooled hold) ?_
      rw [(Grows.moves hy).role?_eq ht]
      exact hc r
    · intro relay hrel hsig
      have hlive := (hz.attended_new hsy hold hr hrel).listens
      exact absurd (hsig.symm.trans hlive) (by simp)

/-- Only an attempt brings a relay into the pool. -/
theorem Moves.pooled_of (h : Moves t u v) (ht : t < u.tasks.length)
    (hr : ∀ q, u.role? t ≠ some (.attempt q)) (hp : r ∈ v.pooled) : r ∈ u.pooled := by
  induction h with
  | refl => exact hp
  | tail hy hz ih =>
    refine ih ((hz.pooled_or hp).resolve_right ?_)
    rintro ⟨-, q, hq⟩
    exact hr q ((Grows.moves hy).role?_eq ht ▸ hq)

theorem Tidied.act (h : w.Tidied) (hs : w.Sound) (y : Act) : (w.act y).Tidied := by
  intro r hr
  have hold : r ∈ w.pooled → (w.act y).Tidy r := fun hp =>
    (h r hp).act hs (hs.lt_of_pooled hp) y
  rcases w.poll_cases y with ⟨t, hready, rfl, hact⟩ | ⟨t, -, rfl, hact⟩ | hp
  · have hlt := hs.ready t hready
    cases hf : w.isFinished t with
    | true =>
      rw [hact, poll_finished hf] at hr
      exact hold hr
    | false =>
      obtain ⟨v, hv, he⟩ := hs.poll_turns t
      have hpool : (w.act (.poll t)).pooled = v.pooled := by
        rw [hact]
        rcases he with he | ⟨e, he⟩ <;> rw [he]
        exact congrArg (·.pool.members.map Member.relay) (manager_finish _ _ _)
      rw [hpool] at hr
      by_cases hc : ∃ r', w.role? t = some (.close r')
      · obtain ⟨r', hc⟩ := hc
        exact hold (Moves.pooled_of hv hlt (by simp [hc]) hr)
      · have htidy := h.moves hs hv hlt hf (fun r' hr' => hc ⟨r', hr'⟩) r hr
        rw [hact]
        rcases he with he | ⟨e, he⟩ <;> rw [he]
        · exact htidy
        · exact htidy.of_relays (.finish v t e) (by rw [relays_finish])
  · rw [hact] at hr
    exact hold hr
  · refine hold ?_
    rw [Overlay.pooled, (quiet_act hp).1] at hr
    exact hr

theorem tidied_start (config : RelayConfig) (address : PeerAddress) :
    (start config address).Tidied := fun r hr => by
  simp [start, pooled, Manager.new, Pool.empty] at hr

/-! ## What a shutdown owes -/

/-- What a part of a shutdown is for has been done. -/
def Carried (role : Role) (w : Overlay) : Prop :=
  match role with
  | .close r => w.Closed r
  | .release k => ∃ e ∈ w.journal, e.event = .release k
  | _ => True

theorem Carried.mono (h : u.Carried role) (hg : u.Grows v) : v.Carried role := by
  cases role with
  | close r => exact Closed.mono h hg
  | release k =>
    obtain ⟨e, he, hk⟩ := h
    obtain ⟨more, hj⟩ := hg.journal
    exact ⟨e, hj ▸ List.mem_append_left _ he, hk⟩
  | setup | shutdown | guard | attempt | watch => trivial

/-- The relay that a role is about is there, and if it was shut down its connection was closed. -/
def Tended (role : Role) (w : Overlay) : Prop :=
  ∀ r, role = .close r → r < w.relays.length ∧ w.Tidy r

theorem Tended.act (h : w.Tended role) (hs : w.Sound) (y : Act) : (w.act y).Tended role := by
  intro r hr
  obtain ⟨hlt, htidy⟩ := h r hr
  exact ⟨Nat.lt_of_lt_of_le hlt (hs.grows_act y).relays.length_le, htidy.act hs hlt y⟩

/-- A part of a shutdown does what it is for in its first step. -/
theorem Sound.carried_poll (h : w.Sound) (hx : x ∈ w.ready) (hf : w.isFinished x = false)
    {task : Task} (ht : w.tasks[x]? = some task) (hc : task.isCancelled = false)
    (hp : role.part? none = some task.job) (htend : w.Tended role) : (w.poll x).Carried role := by
  cases role with
  | close r =>
    obtain ⟨hlt, htidy⟩ := htend r rfl
    exact h.closed_poll hx hf ht hc (Option.some.inj hp).symm htidy hlt
  | release k =>
    refine ⟨⟨w.clock, .release k⟩, ?_, rfl⟩
    rw [(h.answered_poll hx hf ht hc hp).1]
    exact List.mem_append_right _ (List.mem_singleton_self _)
  | setup | shutdown | guard | attempt | watch => trivial

/-- Shutdown `s` is under way, and its part `x` will do what a role is for unless it has. -/
structure Handles (s x : TaskId) (role : Role) (w : Overlay) : Prop where
  tending : ∃ hadRelays parts, w.Tending s hadRelays parts ∧ x ∈ parts
  going : w.isFinished s = false
  plays : w.Plays x role (some s)
  past : w.Past x → w.Carried role

/-- A part of a shutdown that has not made its call is yet to take its first step. -/
theorem Handles.fresh (h : w.Handles s x role) (hs : w.Sound) (hn : ¬w.Past x) :
    w.isFinished x = false ∧ ∃ task : Task, w.tasks[x]? = some task ∧ task.isCancelled = false ∧
      role.part? none = some task.job := by
  obtain ⟨hadRelays, parts, htend, hx⟩ := h.tending
  obtain ⟨task, ht, hrole, -⟩ := h.plays
  have hf : w.isFinished x = false := Bool.eq_false_iff.mpr fun hf => hn (.inl hf)
  refine ⟨hf, task, ht, (htend.parts x hx).task ht, ?_⟩
  obtain ⟨shut, hshut, hj⟩ := htend.task
  have hrefers := hs.refers s shut hshut
  rw [hj] at hrefers
  have hcalled : task.job.hasCalled = false := Bool.eq_false_iff.mpr fun hp =>
    hn (.inr ⟨hf, task, ht, hp⟩)
  obtain ⟨r, hr⟩ | ⟨k, hk⟩ : (∃ r, task.job.role = .close r) ∨ ∃ k, task.job.role = .release k := by
    rcases hrefers x hx with ⟨r, task', ht', hr, -⟩ | ⟨k, task', ht', hk, -⟩ <;>
      obtain rfl := Option.some.inj (ht.symm.trans ht')
    · exact .inl ⟨r, hr⟩
    · exact .inr ⟨k, hk⟩
  · rw [← hrole, hr]
    cases hjob : task.job <;> simp [hjob, Job.role] at hr
    next r' pending =>
      cases pending with
      | none => rw [hr]; rfl
      | some o => exact absurd hcalled (by simp [hjob, Job.hasCalled])
  · rw [← hrole, hk]
    cases hjob : task.job <;> simp [hjob, Job.role] at hk
    next k' pending =>
      cases pending with
      | none => rw [hk]; rfl
      | some o => exact absurd hcalled (by simp [hjob, Job.hasCalled])

/-- A shutdown that nobody gives up does not end before its parts have done what they are for. -/
theorem Handles.act (h : w.Handles s x role) (hs : w.Sound) (htend : w.Tended role) {y : Act}
    (hy : y ≠ .cancel s) : (w.act y).Carried role ∨ (w.act y).Handles s x role := by
  have hg := hs.grows_act y
  obtain ⟨hadRelays, parts, ht, hx⟩ := h.tending
  by_cases hpast : w.Past x
  · exact .inl ((h.past hpast).mono hg)
  obtain ⟨hf, task, htask, hc, hpart⟩ := h.fresh hs hpast
  obtain ⟨ht', hgo⟩ := ht.act hs hy
  refine .inr ⟨⟨hadRelays, parts, ht', hx⟩, hgo h.going fun _ _ => ⟨x, hx, hf⟩,
    h.plays.mono hg, fun hpast' => ?_⟩
  by_cases hself : y = .poll x ∧ x ∈ w.ready
  · obtain ⟨rfl, hready⟩ := hself
    rw [Overlay.act, if_pos hready]
    exact hs.carried_poll hready hf htask hc hpart htend
  · obtain ⟨⟨task', htask', hj⟩, hf'⟩ := hs.job_act (fun he hr => hself ⟨he, hr⟩) htask
    refine absurd ?_ hpast
    rcases hpast' with hend | ⟨-, task'', htask'', hcalled⟩
    · exact .inl (hf'.symm.trans hend)
    · obtain rfl := Option.some.inj (htask'.symm.trans htask'')
      exact .inr ⟨hf, task, htask, hj ▸ hcalled⟩

/-- When a shutdown starts its parts, each of them is yet to do what it is for. -/
theorem Closes.handles (h : u.Closes s drained v) (hs : u.Sound) (hsteady : u.Steady s)
    (hlt : s < u.tasks.length) (hgo : u.isFinished s = false) {job : Job}
    (hj : job ∈ u.shutdownParts drained) : ∃ x, v.Handles s x job.role := by
  obtain ⟨i, hi, rfl⟩ := List.mem_iff_getElem.mp hj
  have hne : u.shutdownParts drained ≠ [] := List.ne_nil_of_mem hj
  have hexits : v.exits = u.exits := by
    obtain ⟨-, -, -, ⟨hnil, -⟩ | ⟨-, hexits, -⟩⟩ := h.effect
    · exact absurd hnil hne
    · exact hexits
  obtain ⟨-, htask⟩ := h.starts hlt hi
  refine ⟨u.tasks.length + i, ⟨_, _, h.tending hsteady hlt hne, ?_⟩, ?_, ⟨_, htask, rfl, rfl⟩, ?_⟩
  · exact List.mem_range'_1.mpr ⟨Nat.le_add_right _ _, Nat.add_lt_add_left hi _⟩
  · exact (isFinished_of_exits hexits s).trans hgo
  · rintro (hend | ⟨-, task, ht, hcalled⟩)
    · rw [isFinished_of_exits hexits,
        not_isFinished_of_le hs.exits (Nat.le_add_right _ _)] at hend
      exact absurd hend (by simp)
    · obtain rfl := Option.some.inj (htask.symm.trans ht)
      have hpart := part?_of_mem_shutdownParts hj
      generalize (u.shutdownParts drained)[i] = job at hpart hcalled
      cases job <;> simp [Job.role, Role.part?] at hpart
      all_goals
        subst hpart
        exact absurd hcalled (by simp [Job.hasCalled])

/-- What a role is for is yet to be done by a shutdown, or has been done. -/
inductive Owed (w : Overlay) : Role → Prop
  | queued {s : TaskId} {drained : List RelayId} {r : RelayId} (h : w.Queueing s drained)
      (hr : r ∈ drained) : Owed w (.close r)
  | reserved {k : CreatorId} (h : w.manager.creator = some k) : Owed w (.release k)
  | handled {s x : TaskId} {role : Role} (h : w.Handles s x role) : Owed w role
  | carried {role : Role} (h : w.Carried role) : Owed w role

/-- Nobody has given a shutdown up, and all is in order. -/
structure Orderly (w : Overlay) : Prop where
  sound : w.Sound
  gated : w.Gated
  thrifty : w.Thrifty
  steady : w.Uncancelled shutdowns
  tidied : w.Tidied

theorem orderly_start (config : RelayConfig) (address : PeerAddress) :
    (start config address).Orderly :=
  ⟨sound_start config address, gated_start config address, thrifty_start config address,
    fun a task ht => absurd ht (by simp [start]), tidied_start config address⟩

theorem Orderly.act (h : w.Orderly) {y : Act} (hy : w.givesUp y = false) : (w.act y).Orderly :=
  ⟨h.sound.act y, h.gated.act h.sound y, h.thrifty.act h.gated.toLined h.sound y,
    uncancelled_act h.steady h.sound hy, h.tidied.act h.sound y⟩

theorem ne_cancel_of_givesUp {y : Act} (hy : w.givesUp y = false)
    (hr : w.role? s = some .shutdown) : y ≠ .cancel s := by
  rintro rfl
  simp [givesUp, hr] at hy

theorem Queueing.role? (h : w.Queueing s drained) : w.role? s = some .shutdown := by
  obtain ⟨task, ht, hj⟩ := h.task
  exact role?_eq_some.mpr ⟨task, ht, by rw [hj]; rfl⟩

theorem Handles.role? (h : w.Handles s x role) : w.role? s = some .shutdown := by
  obtain ⟨hadRelays, parts, htend, -⟩ := h.tending
  obtain ⟨task, ht, hj⟩ := htend.task
  exact role?_eq_some.mpr ⟨task, ht, by rw [hj]; rfl⟩

theorem closeRelay_mem_shutdownParts (hr : r ∈ drained) :
    .closeRelay r none ∈ w.shutdownParts drained :=
  List.mem_append_left _ (List.mem_map_of_mem hr)

/-- Channels that are reserved stay so until a shutdown takes them to release them. -/
theorem Orderly.owed_reserved (h : w.Orderly) {k : CreatorId} (hk : w.manager.creator = some k)
    (y : Act) : (w.act y).Owed (.release k) := by
  rcases w.poll_cases y with ⟨s, hready, rfl, he⟩ | ⟨s, -, rfl, he⟩ | hp
  · rw [he]
    have hsame : (w.poll s).manager.creator = w.manager.creator → (w.poll s).Owed (.release k) :=
      fun he => .reserved (he.trans hk)
    by_cases hr : w.role? s = some .shutdown
    swap
    · have hidle : ¬w.Doing Job.isReserving s := fun hd =>
        absurd (hk.symm.trans (h.thrifty s hd)) (by simp)
      have hset := (h.sound.poll_settled hready (.inl (by simp [hk])) hidle).1
      exact hsame (hset.resolve_right fun hno => hr hno.1)
    obtain ⟨task, ht, hrole⟩ := role?_eq_some.mp hr
    obtain ⟨stage, hj⟩ : ∃ stage, task.job = .shutdown stage := by
      cases hj : task.job <;> simp [hj, Job.role] at hrole ⊢
    cases hf : w.isFinished s with
    | true => exact hsame (by rw [poll_finished hf])
    | false =>
      have hc := h.steady s task ht hrole
      have hp := proceeds_poll ht hf hc hj
      clear he
      generalize w.poll s = v at hp hsame
      cases hp with
      | queues manager ready hcreator => exact hsame hcreator
      | @closes _ drained _ hd hcl =>
        have hsteady : w.Steady s := by
          rintro b task' hb rfl
          obtain rfl := Option.some.inj (ht.symm.trans hb)
          exact hc
        have hjob : .releaseCreator k none ∈ w.shutdownParts drained :=
          List.mem_append_right _ (by simp [hk])
        obtain ⟨x, hx⟩ := hcl.handles h.sound hsteady (h.sound.ready s hready) hf hjob
        exact .handled hx
      | lines | waits => exact hsame rfl
      | ends => exact hsame (creator_concludeShutdown _ _ _ _)
  · rw [he]
    exact .reserved hk
  · exact .reserved (by rw [creator_act hp, hk])

/-- What shutdowns owe stays owed until it is done, if nobody gives a shutdown up. -/
theorem Owed.act (h : w.Owed role) (ho : w.Orderly) (htend : w.Tended role) {y : Act}
    (hy : w.givesUp y = false) : (w.act y).Owed role := by
  have hs := ho.sound
  cases h with
  | @queued s drained r h hr =>
    have hcan := ne_cancel_of_givesUp hy h.role?
    by_cases hgr : y = .poll s ∧ s ∈ w.ready ∧ w.manager.gate.holder = some s
    swap
    · exact .queued (h.act hs hcan hgr).1 hr
    obtain ⟨rfl, hready, hh⟩ := hgr
    rw [Overlay.act, if_pos hready]
    obtain ⟨x, hx⟩ := (h.closes_poll hh).handles hs h.steady (hs.ready s hready) h.going
      (closeRelay_mem_shutdownParts hr)
    exact .handled hx
  | reserved h => exact ho.owed_reserved h y
  | handled h =>
    rcases h.act hs htend (ne_cancel_of_givesUp hy h.role?) with hc | hh
    · exact .carried hc
    · exact .handled hh
  | carried h => exact .carried (h.mono (hs.grows_act y))

/-! ## Runs -/

/-- Shutdown `t` waits for the lock, or has taken the channels. -/
def Settling (t : TaskId) (w : Overlay) : Prop :=
  (∃ drained, w.Queueing t drained) ∨ w.Emptied

theorem Settling.act (h : w.Settling t) (ho : w.Orderly) (hstop : w.Stopped) {y : Act}
    (hy : w.givesUp y = false) : (w.act y).Settling t := by
  have hs := ho.sound
  rcases h with ⟨drained, hq⟩ | hemp
  · by_cases hgr : y = .poll t ∧ t ∈ w.ready ∧ w.manager.gate.holder = some t
    · obtain ⟨rfl, hready, hh⟩ := hgr
      have hstop' := (hs.act_stopped hstop (.poll t)).1
      rw [Overlay.act, if_pos hready] at hstop' ⊢
      refine .inr ((hq.closes_poll hh).emptied hs ho.gated.toLined hready hq.role? ?_ hstop')
      exact fun a ha => Option.some.inj (ha.symm.trans hh)
    · exact .inl ⟨drained, (hq.act hs (ne_cancel_of_givesUp hy hq.role?) hgr).1⟩
  · exact .inr (hemp.act hs y)

/-- In its first step a shutdown comes to owe the closing of all relays that were pooled. -/
theorem Orderly.begins (h : w.Orderly) (hb : w.begins t = true) :
    (w.act (.poll t)).Settling t ∧ ∀ r ∈ w.pooled, (w.act (.poll t)).Owed (.close r) := by
  obtain ⟨hready, hf, task, ht, hj, -⟩ := begins_iff.mp hb
  have hstop := (h.sound.stopped_of_begins hb).1
  obtain ⟨hsteady, hcases⟩ := h.sound.begins_cases hb
  rw [Overlay.act, if_pos hready] at hstop ⊢
  rcases hcases with ⟨hq, -⟩ | ⟨hfree, hcl⟩
  · exact ⟨.inl ⟨_, hq⟩, fun r hr => .queued hq hr⟩
  · refine ⟨.inr (hcl.emptied h.sound h.gated.toLined hready ?_ ?_ hstop), fun r hr => ?_⟩
    · exact role?_eq_some.mpr ⟨task, ht, by rw [hj]; rfl⟩
    · exact fun a ha => absurd (ha.symm.trans hfree) (by simp)
    · obtain ⟨x, hx⟩ := hcl.handles h.sound hsteady (h.sound.ready t hready) hf
        (closeRelay_mem_shutdownParts hr)
      exact .handled hx

/-- Some shutdown has taken its first step and has not ended. -/
def isClosing (w : Overlay) : Bool := w.running.any fun (_, task) => task.job.isClosing

theorem Doing.isClosing (h : w.Doing Job.isClosing s) : w.isClosing = true := by
  obtain ⟨hf, task, ht, hj⟩ := h
  exact List.any_eq_true.mpr ⟨(s, task), mem_running.mpr ⟨ht, hf⟩, hj⟩

theorem Queueing.isClosing (h : w.Queueing s drained) : w.isClosing = true := by
  obtain ⟨task, ht, hj⟩ := h.task
  exact Doing.isClosing ⟨h.going, task, ht, by rw [hj]; rfl⟩

theorem Handles.isClosing (h : w.Handles s x role) : w.isClosing = true := by
  obtain ⟨hadRelays, parts, htend, -⟩ := h.tending
  obtain ⟨task, ht, hj⟩ := htend.task
  exact Doing.isClosing ⟨h.going, task, ht, by rw [hj]; rfl⟩

/-- When no shutdown is under way any more, what they owed has been done. -/
theorem Owed.done (h : w.Owed role) (hidle : w.isClosing = false)
    (hcreator : w.manager.creator = none) : w.Carried role := by
  cases h with
  | queued h => exact absurd (h.isClosing.symm.trans hidle) (by simp)
  | reserved h => exact absurd (h.symm.trans hcreator) (by simp)
  | handled h => exact absurd (h.isClosing.symm.trans hidle) (by simp)
  | carried h => exact h

theorem Draining.closing {d : TaskId} (h : w.Draining d) : w.isClosing = true := by
  obtain ⟨hf, task, ht, hj⟩ := h
  refine Doing.isClosing ⟨hf, task, ht, ?_⟩
  unfold Job.isDraining at hj
  split at hj
  · next he =>
    rw [he]
    rfl
  · next he =>
    rw [he]
    rfl
  · exact absurd hj (by simp)

theorem orderly_run (config : RelayConfig) (mine : PeerAddress) {acts : List Act}
    (ha : (start config mine).Along (fun w y => w.givesUp y = false) acts) :
    ((start config mine).run acts).Orderly :=
  run_induction (orderly_start config mine) (fun _ _ h hy => h.act hy) acts ha

theorem Owed.run (h : w.Owed role) (ho : w.Orderly) (htend : w.Tended role) {acts : List Act}
    (ha : w.Along (fun w y => w.givesUp y = false) acts) : (w.run acts).Owed role := by
  refine (run_induction (P := fun v => v.Orderly ∧ v.Tended role ∧ v.Owed role) ⟨ho, htend, h⟩
    ?_ acts ha).2.2
  rintro v y ⟨hov, htv, hv⟩ hy
  exact ⟨hov.act hy, htv.act hov.sound y, hv.act hov htv hy⟩

theorem Settling.run (h : w.Settling t) (ho : w.Orderly) (hstop : w.Stopped) {acts : List Act}
    (ha : w.Along (fun w y => w.givesUp y = false) acts) : (w.run acts).Settling t := by
  refine (run_induction (P := fun v => v.Orderly ∧ v.Stopped ∧ v.Settling t) ⟨ho, hstop, h⟩
    ?_ acts ha).2.2
  rintro v y ⟨hov, hsv, hv⟩ hy
  exact ⟨hov.act hy, (hov.sound.act_stopped hsv y).1, hv.act hov hsv hy⟩

/-- If nobody gives a shutdown up, then whenever one has begun and none is under way any more the
pool is empty, each relay that was pooled when the shutdown began is lost or was closed, and all
channels that were ever reserved were released. The address shows no relay either, unless the node
has taken on another one or the clock has overflowed on the way. -/
theorem shutdowns_leave_nothing (config : RelayConfig) (mine : PeerAddress)
    (before more : List Act) (t : TaskId)
    (ha : (start config mine).Along (fun w y => w.givesUp y = false) (before ++ .poll t :: more))
    (hb : ((start config mine).run before).begins t = true)
    (hidle : ((((start config mine).run before).act (.poll t)).run more).isClosing = false) :
    let u := (start config mine).run before
    let w := (u.act (.poll t)).run more
    w.pooled = [] ∧
      (mine.Bare → (start config mine).Along Undisturbed (before ++ .poll t :: more) →
        w.node.address.Bare) ∧
      (∀ r ∈ u.pooled, w.Closed r) ∧
      ∀ acts rest k, acts ++ rest = before ++ .poll t :: more →
        ((start config mine).run acts).manager.creator = some k →
        ∃ e ∈ w.journal, e.event = .release k := by
  intro u w
  obtain ⟨hbefore, -, hmore⟩ := along_append.mp ha
  have hu : u.Orderly := orderly_run config mine hbefore
  have hv : (u.act (.poll t)).Orderly := hu.act rfl
  obtain ⟨hsettle, howed⟩ := hu.begins hb
  have hstop := (hu.sound.stopped_of_begins hb).1
  have hw : (start config mine).run (before ++ .poll t :: more) = w := by
    simp only [w, u, run_append, run_cons]
  have hstopw : w.Stopped := (hv.sound.run_stopped hstop more).1
  have hcreator : w.manager.creator = none := by
    rcases hsettle.run hv hstop hmore with ⟨drained, hq⟩ | hemp
    · exact absurd (hq.isClosing.symm.trans hidle) (by simp)
    · exact hemp.creator
  refine ⟨hstopw.pooled, fun hm hundisturbed => ?_, fun r hr => ?_, fun acts rest k he hk => ?_⟩
  · have hmirror : w.Mirrors mine := hw ▸ mirrors_run config mine hundisturbed
    rcases hmirror.pool (.inr hm) with haddress | ⟨-, d, hd⟩
    · rw [haddress, Pool.addresses, hstopw.pool]
      exact mine.bare_advertising
    · exact absurd (hd.closing.symm.trans hidle) (by simp)
  · have htend : u.Tended (.close r) := by
      rintro r' he
      obtain rfl := Role.close.inj he
      exact ⟨hu.sound.lt_of_pooled hr, hu.tidied r hr⟩
    exact ((howed r hr).run hv (htend.act hu.sound (.poll t)) hmore).done hidle hcreator
  · have hsplit : (start config mine).Along (fun w y => w.givesUp y = false) (acts ++ rest) :=
      he ▸ ha
    obtain ⟨hacts, hrest⟩ := along_append.mp hsplit
    have hdone := (Owed.reserved hk).run (orderly_run config mine hacts)
      (fun r hr => absurd hr (by simp)) hrest
    rw [← run_append, he, hw] at hdone
    exact hdone.done hidle hcreator

/-- A relay is pooled and channels are reserved when two shutdowns begin. The second has nothing to
do and returns first. -/
theorem shutdowns_leave_nothing_sample :
    let mine := (PeerAddress.sample 1).advertising []
    let before : List Act := [.behave [.sample 2] { close := ⟨5, .fail .shutDown⟩ },
      .setUp [.sample 2] 0, .poll 0, .poll 1, .poll 2, .poll 1, .poll 0, .shutDown, .shutDown]
    let more : List Act := [.poll 5, .poll 6, .poll 7, .elapse 5, .poll 6, .poll 4]
    let u := (start {} mine).run before
    let w := (u.act (.poll 4)).run more
    u.pooled = [0] ∧ u.manager.creator = some 0 ∧ w.pooled = [] ∧ w.node.address.Bare ∧
      w.Closed 0 ∧ ∃ e ∈ w.journal, e.event = .release 0 := by
  intro mine before more
  dsimp only
  have hu : ((start {} mine).run before).pooled = [0] ∧
      ((start {} mine).run before).manager.creator = some 0 := by decide +kernel
  have hr : 0 ∈ ((start {} mine).run before).pooled := by
    rw [hu.1]
    exact List.mem_singleton_self 0
  have h := shutdowns_leave_nothing {} mine before more 4 (by decide +kernel) (by decide +kernel)
    (by decide +kernel)
  exact ⟨hu.1, hu.2, h.1, h.2.1 (PeerAddress.bare_advertising _) (by decide +kernel),
    h.2.2.1 0 hr, h.2.2.2 before (.poll 4 :: more) 0 rfl hu.2⟩

/-- If the first of two shutdowns is given up, the second returns while the relay that the first has
drained is still advertised. -/
theorem given_up_shutdown_leaves_address :
    let mine := (PeerAddress.sample 1).advertising []
    let w := (start {} mine).run [.behave [.sample 2] { close := ⟨50, .succeed⟩ },
      .setUp [.sample 2] 0, .poll 0, .poll 1, .poll 2, .poll 1, .poll 0, .shutDown, .poll 4,
      .poll 5, .poll 6, .cancel 4, .poll 4, .poll 5, .shutDown, .poll 7]
    w.exit? 7 = some .done ∧ w.isClosing = false ∧ w.pooled = [] ∧
      w.node.address.relayed = true := by
  decide +kernel

end RelayUpkeep.Overlay

import RelayUpkeep.Proofs.Keeping
import RelayUpkeep.Proofs.Reserving

/-! # The course of a reservation

Channels are lacking until a setup gains some. Then they are stored, and every setup uses them,
until a shutdown takes them and starts the one part that releases them. -/

namespace RelayUpkeep

/-- What is asked for with channels at hand. -/
def Event.isUse : Event → Bool
  | .connect .. | .readRouting _ => true
  | _ => false

namespace Overlay

variable {t s a x : TaskId} {w : Overlay} {manual : List PeerAddress} {maxFail : Nat}
  {stage : SetupStage} {k : CreatorId} {drained : List RelayId} {y : Act} {o : Outcome}

/-! ## How far a reservation may have come -/

/-- What a request was made for. -/
theorem mem_requested_cases {e : Event} (he : e ∈ w.requested y) :
    (∃ t manual maxFail stage, y = .poll t ∧ w.going? t = some (.setup manual maxFail stage) ∧
      e ∈ w.inquiries t manual stage) ∨
    (∃ a q, y = .poll a ∧ w.going? a = some (.attempt q .entering) ∧ e = .connect a q) ∨
    ∃ x k, y = .poll x ∧ w.going? x = some (.releaseCreator k none) ∧ e = .release k := by
  obtain ⟨a, job, rfl, hg, he⟩ := mem_requested.mp he
  unfold jobRequests at he
  split at he
  · exact .inl ⟨a, _, _, _, rfl, hg, he⟩
  · exact .inr (.inl ⟨a, _, rfl, hg, List.mem_singleton.mp he⟩)
  · exact .inr (.inr ⟨a, _, rfl, hg, List.mem_singleton.mp he⟩)
  · exact absurd he List.not_mem_nil

/-- No channels have been granted, and nobody works on a round. -/
structure Lacking (w : Overlay) : Prop where
  creator : w.manager.creator = none
  asked : ∀ e ∈ w.requests, e.isReserve = true
  rounds : ∀ t manual maxFail r as, w.job? t ≠ some (.setup manual maxFail (.settling r as))
  crew : ∀ a role, w.role? a = some role → role.works = false
  unreleased : ∀ a k, w.role? a ≠ some (.release k)

/-- Channels `k` were granted after some had been asked for, and `used` is what was asked for
since. -/
def Granted (w : Overlay) (k : CreatorId) (used : List Event) : Prop :=
  ∃ asked, (∀ e ∈ asked, e.isReserve = true) ∧ w.requests = asked ++ .granted k :: used

/-- Channels `k` are stored, and nobody has asked for any since. -/
structure Holding (k : CreatorId) (w : Overlay) : Prop where
  creator : w.manager.creator = some k
  course : ∃ used, w.Granted k used ∧ ∀ e ∈ used, e.isUse = true
  unreleased : ∀ a k, w.role? a ≠ some (.release k)

/-- A shutdown has taken channels `k`, and one part of it releases them once. -/
structure Taken (k : CreatorId) (w : Overlay) : Prop where
  emptied : w.Emptied
  course : ∃ used, w.Granted k used ∧ ∀ e ∈ used, e.isUse = true ∨ e = .release k
  part : ∃ x s, w.Plays x (.release k) (some s) ∧
    (∀ a k', w.role? a = some (.release k') → a = x) ∧ w.requests.count (.release k) ≤ 1 ∧
    (¬w.Past x → .release k ∉ w.requests)

/-- All is in order, whether or not shutdowns are given up. -/
structure Regular (w : Overlay) : Prop where
  sound : w.Sound
  gated : w.Gated
  thrifty : w.Thrifty
  heralded : w.Heralded

theorem regular_start (config : RelayConfig) (address : PeerAddress) :
    (start config address).Regular :=
  ⟨sound_start config address, gated_start config address, thrifty_start config address,
    heralded_start config address⟩

theorem Regular.act (h : w.Regular) (y : Act) : (w.act y).Regular :=
  ⟨h.sound.act y, h.gated.act h.sound y, h.thrifty.act h.gated.toLined h.sound y,
    h.heralded.act h.sound y⟩

theorem Regular.run (h : w.Regular) (acts : List Act) : (w.run acts).Regular := by
  induction acts using List.reverseRecOn with
  | nil => exact h
  | append_singleton acts y ih => exact run_concat w acts y ▸ ih.act y

theorem lacking_start (config : RelayConfig) (address : PeerAddress) :
    (start config address).Lacking where
  creator := rfl
  asked := by simp [start, requests]
  rounds := by simp [start, job?]
  crew := by simp [start, role?]
  unreleased := by simp [start, role?]

/-! ## Channels that are lacking -/

theorem not_supplied (hg : w.going? t = some (.setup manual maxFail stage))
    (hno : w.collects t = false) : w.supplied t stage = false := by
  by_contra hn
  exact absurd (collects_eq_true.mpr ⟨_, _, _, hg, by simpa using hn⟩) (by simp [hno])

/-- As long as no channels are stored, a setup that collects its candidates has just gained some. -/
theorem Lacking.hears (h : w.Lacking) (hsup : w.supplied t stage = true) :
    w.hears? t stage = some .succeed := by
  simpa [supplied, h.creator] using hsup

/-- Nobody who releases channels is new unless some were stored. -/
theorem Sound.unreleased_act (h : w.Sound) (hu : ∀ a k, w.role? a ≠ some (.release k))
    (hc : w.manager.creator = none ∨ (w.act y).manager.creator ≠ none) (a : TaskId)
    (k : CreatorId) : (w.act y).role? a ≠ some (.release k) := by
  intro hr
  by_cases hlt : a < w.tasks.length
  · exact hu a k ((h.grows_act y).role?_eq hlt ▸ hr)
  · obtain ⟨s, drained, rfl, hob, hstored, -⟩ := h.release_new hr (Nat.not_lt.mp hlt)
    rcases hc with hc | hc
    · exact absurd (hstored.symm.trans hc) (by simp)
    · exact hc hob.closes.effect.2.2.1

/-- Nobody comes to work on a round before channels are gained. -/
theorem Lacking.crew_act (h : w.Lacking) (hs : w.Sound)
    (hno : ∀ t, y = .poll t → w.collects t = false) {role : Role}
    (hr : (w.act y).role? a = some role) : role.works = false := by
  by_cases hlt : a < w.tasks.length
  · exact h.crew a role ((hs.grows_act y).role?_eq hlt ▸ hr)
  obtain ⟨task, ht, rfl⟩ := role?_eq_some.mp hr
  have hnew := Nat.not_lt.mp hlt
  rcases hs.new_task ht hnew with ⟨hw, -⟩ | ⟨s, hready, rfl, role, hrs, hst⟩
  · exact hw
  obtain ⟨job, hg⟩ := hs.going_of_new hready ht hnew
  obtain rfl := Option.some.inj ((role?_of_going hg).symm.trans hrs)
  have hlead := Role.leads_of_starts hst
  cases job with
  | setup manual maxFail stage =>
    have hlen := Nat.lt_of_le_of_lt hnew (List.getElem?_eq_some_iff.mp ht).1
    rcases staffs_cases hg hlen with hc | ⟨r, as, rfl⟩
    · exact absurd ((hno s rfl).symm.trans hc) (by simp)
    · exact absurd (job?_of_going hg) (h.rounds s _ _ r as)
  | guardAttempt | attempt => exact absurd (h.crew s _ hrs) (by simp [Job.role, Role.works])
  | shutdown =>
    rw [Job.role] at hlead
    generalize task.job.role = role at hlead
    cases role <;> first | rfl | exact absurd hlead (by simp [Role.leads])
  | watch | closeRelay | releaseCreator =>
    exact absurd hlead (by simp [Job.role, Role.leads])

/-- A setup that collects its candidates has just gained channels. -/
theorem Lacking.gains (h : w.Lacking) (hs : w.Sound) (hc : w.collects t = true) :
    (w.act (.poll t)).Holding w.granted := by
  obtain ⟨manual, maxFail, stage, hg, hsup⟩ := collects_eq_true.mp hc
  have hhears := h.hears hsup
  have hcreator : (w.act (.poll t)).manager.creator = some w.granted := by
    rw [creator_setup hg, if_pos hhears]
  refine ⟨hcreator, ⟨if manual = [] then [.readRouting t] else [],
    ⟨w.requests ++ if w.asks t stage then [.reserve t 0 w.manager.config.maxRelays] else [],
      ?_, ?_⟩, ?_⟩, hs.unreleased_act h.unreleased (.inl h.creator)⟩
  · intro e he
    rcases List.mem_append.mp he with he | he
    · exact h.asked e he
    · split_ifs at he
      · rw [List.mem_singleton.mp he]
        rfl
      · exact absurd he List.not_mem_nil
  · rw [requests_going hg]
    simp [jobRequests, inquiries, hhears, hsup]
  · intro e he
    split_ifs at he
    · rw [List.mem_singleton.mp he]
      rfl
    · exact absurd he List.not_mem_nil

/-- Unless a setup collects its candidates, channels are only asked for. -/
theorem Lacking.requested (h : w.Lacking) (hno : ∀ t, y = .poll t → w.collects t = false)
    {e : Event} (he : e ∈ w.requested y) : e.isReserve = true := by
  rcases mem_requested_cases he with ⟨t, manual, maxFail, stage, hy, hg, he⟩ | ⟨a, q, -, hg, -⟩ |
    ⟨x, k, -, hg, -⟩
  · have hsup := not_supplied hg (hno t hy)
    rcases mem_inquiries.mp he with ⟨rfl, -⟩ | ⟨-, hh⟩ | ⟨-, hh, -⟩
    · rfl
    · exact absurd (supplied_of_hears hh) (by simp [hsup])
    · exact absurd hh (by simp [hsup])
  · exact absurd (h.crew a _ (role?_of_going hg)) (by simp [Job.role, Role.works])
  · exact absurd (role?_of_going hg) (h.unreleased x k)

/-- Unless a setup collects its candidates, channels are still lacking. -/
theorem Lacking.keep (h : w.Lacking) (hs : w.Sound)
    (hno : ∀ t, y = .poll t → w.collects t = false) : (w.act y).Lacking where
  creator := by
    rcases hs.creator_act_cases y with he | ⟨t, manual, maxFail, stage, hy, hg, hh, -⟩ |
      ⟨-, -, -, -, he⟩
    · rw [he, h.creator]
    · exact absurd (supplied_of_hears hh) (by simp [not_supplied hg (hno t hy)])
    · exact he
  asked e he := by
    rw [hs.requests_act y] at he
    rcases List.mem_append.mp he with he | he
    · exact h.asked e he
    · exact h.requested hno he
  rounds t manual maxFail r as hj := by
    rcases hs.settles_cases hj with ⟨hy, hcollects⟩ | ⟨r, as, hj⟩
    · exact absurd ((hno t hy).symm.trans hcollects) (by simp)
    · exact h.rounds t manual maxFail r as hj
  crew _ _ hr := h.crew_act hs hno hr
  unreleased := hs.unreleased_act h.unreleased (.inl h.creator)

/-- Channels are lacking until a setup gains some. -/
theorem Lacking.act (h : w.Lacking) (hs : w.Sound) (y : Act) :
    (w.act y).Lacking ∨ (w.act y).Holding w.granted := by
  by_cases hc : ∃ t, y = .poll t ∧ w.collects t = true
  · obtain ⟨t, rfl, hc⟩ := hc
    exact .inr (h.gains hs hc)
  · refine .inl (h.keep hs fun t ht => ?_)
    by_contra hn
    exact hc ⟨t, ht, by simpa using hn⟩

theorem Granted.act {used : List Event} (h : w.Granted k used) (hs : w.Sound) (y : Act) :
    (w.act y).Granted k (used ++ w.requested y) := by
  obtain ⟨asked, hasked, hq⟩ := h
  exact ⟨asked, hasked, by rw [hs.requests_act y, hq]; simp⟩

/-! ## Channels that are stored -/

/-- Whoever hears an answer finds no channels stored. -/
theorem Thrifty.creator_of_hears (h : w.Thrifty)
    (hg : w.going? t = some (.setup manual maxFail stage)) (hh : w.hears? t stage = some o) :
    w.manager.creator = none := by
  rcases reserving_or_asks hh with rfl | hasks
  · obtain ⟨-, hf, task, ht, -, hj⟩ := going?_eq_some.mp hg
    exact h t ⟨hf, task, ht, by rw [hj]; rfl⟩
  · simp only [asks, Bool.and_eq_true] at hasks
    simpa using hasks.1.2

theorem Obtains.emptied (h : w.Obtains s drained) (hr : w.Regular) :
    (w.act (.poll s)).Emptied := by
  have hs := hr.sound
  obtain ⟨stage, hg⟩ := h.going
  have hready := (going?_eq_some.mp hg).1
  have hcl := h.closes
  have hact : w.act (.poll s) = w.poll s := if_pos hready
  have hstop : (w.act (.poll s)).Stopped := by
    rcases h with ⟨hg, -⟩ | ⟨hg, -⟩
    · obtain ⟨hready, hf, task, ht, hc, hj⟩ := going?_eq_some.mp hg
      exact (hs.stopped_of_begins (begins_iff.mpr ⟨hready, hf, task, ht, hj, hc⟩)).1
    · obtain ⟨-, hf, task, ht, -, hj⟩ := going?_eq_some.mp hg
      exact (hs.act_stopped (hr.heralded s (.inl ⟨hf, task, ht, by rw [hj]; rfl⟩)) _).1
  have hlock : ∀ a, w.manager.gate.holder = some a → a = s := by
    rcases h with ⟨-, -, hfree⟩ | ⟨-, hh⟩ <;> intro a ha
    · exact absurd (ha.symm.trans hfree) (by simp)
    · exact Option.some.inj (ha.symm.trans hh)
  rw [hact] at hcl hstop ⊢
  exact hcl.emptied hs hr.gated.toLined hready (role?_of_going hg) hlock hstop

/-- The part that releases channels comes after those that close relays. -/
theorem Obtains.plays_release (h : w.Obtains s drained) (hs : w.Sound)
    (hc : w.manager.creator = some k) :
    (w.act (.poll s)).Plays (w.tasks.length + drained.length) (.release k) (some s) := by
  obtain ⟨stage, hg⟩ := h.going
  have hlast : (w.shutdownParts drained)[drained.length]? = some (.releaseCreator k none) := by
    simp [shutdownParts, hc]
  obtain ⟨hlt, hget⟩ := List.getElem?_eq_some_iff.mp hlast
  obtain ⟨-, hpart⟩ := h.closes.starts (hs.ready s (going?_eq_some.mp hg).1) hlt
  exact ⟨_, hpart, by rw [hget]; rfl, rfl⟩

/-- No channels are released before some are granted. -/
theorem Granted.release_mem {used : List Event} {k' : CreatorId} (h : w.Granted k used)
    (hm : .release k' ∈ w.requests) : .release k' ∈ used := by
  obtain ⟨asked, hasked, hq⟩ := h
  rw [hq] at hm
  rcases List.mem_append.mp hm with hm | hm
  · exact absurd (hasked _ hm) (by simp [Event.isReserve])
  · exact (List.mem_cons.mp hm).resolve_left (by simp)

theorem Holding.not_released (h : w.Holding k) : .release k ∉ w.requests := by
  obtain ⟨used, hgranted, hused⟩ := h.course
  exact fun hm => absurd (hused _ (hgranted.release_mem hm)) (by simp [Event.isUse])

/-- A shutdown that obtains the lock takes the channels, and starts a part that releases them. -/
theorem Holding.taken (h : w.Holding k) (hr : w.Regular) (hob : w.Obtains s drained) :
    (w.act (.poll s)).Taken k := by
  have hs := hr.sound
  obtain ⟨stage, hg⟩ := hob.going
  have hrequests : (w.act (.poll s)).requests = w.requests := by
    rw [requests_going hg]
    exact List.append_nil _
  obtain ⟨used, ⟨asked, hasked, hq⟩, hused⟩ := h.course
  refine ⟨hob.emptied hr, ⟨used, ⟨asked, hasked, hrequests ▸ hq⟩, fun e he => .inl (hused e he)⟩,
    _, s, hob.plays_release hs h.creator, fun a k' hrole => ?_, ?_,
    fun _ => hrequests ▸ h.not_released⟩
  · by_cases hlt : a < w.tasks.length
    · exact absurd ((hs.grows_act _).role?_eq hlt ▸ hrole) (h.unreleased a k')
    · obtain ⟨s', drained', hs', hob', -, ha⟩ := hs.release_new hrole (Nat.not_lt.mp hlt)
      obtain rfl := Act.poll.inj hs'
      rw [ha, hob.unique hob']
  · rw [hrequests, List.count_eq_zero_of_not_mem h.not_released]
    exact Nat.zero_le 1

/-- Stored channels are used, and nobody asks for others, until a shutdown takes them. -/
theorem Holding.act (h : w.Holding k) (hr : w.Regular) (y : Act) :
    (w.act y).Holding k ∨ (w.act y).Taken k := by
  have hs := hr.sound
  have hdeaf : ∀ {t manual maxFail stage o}, w.going? t = some (.setup manual maxFail stage) →
      w.hears? t stage ≠ some o := fun hg hh =>
    absurd (h.creator.symm.trans (hr.thrifty.creator_of_hears hg hh)) (by simp)
  rcases hs.creator_act_cases y with hc | ⟨t, manual, maxFail, stage, -, hg, hh, -⟩ |
    ⟨s, drained, rfl, hob, -⟩
  · rw [h.creator] at hc
    obtain ⟨used, hgranted, hused⟩ := h.course
    refine .inl ⟨hc, ⟨_, hgranted.act hs y, fun e he => ?_⟩,
      hs.unreleased_act h.unreleased (.inr (by simp [hc]))⟩
    rcases List.mem_append.mp he with he | he
    · exact hused e he
    rcases mem_requested_cases he with ⟨t, manual, maxFail, stage, -, hg, he⟩ | ⟨a, q, -, -, rfl⟩ |
      ⟨x, k', -, hg, -⟩
    · rcases mem_inquiries.mp he with ⟨-, ha⟩ | ⟨-, hh⟩ | ⟨rfl, -, -⟩
      · exact absurd ha (by simp [asks, h.creator])
      · exact absurd hh (hdeaf hg)
      · rfl
    · rfl
    · exact absurd (role?_of_going hg) (h.unreleased x k')
  · exact absurd hh (hdeaf hg)
  · exact .inr (h.taken hr hob)

/-! ## Channels that are taken -/

/-- Once channels are taken, a setup hears and asks nothing any more. -/
theorem Emptied.inquiries (h : w.Emptied) (hg : w.going? t = some (.setup manual maxFail stage)) :
    w.inquiries t manual stage = [] := by
  have hasks : w.asks t stage = false := by simp [asks, h.down]
  have hhears : w.hears? t stage = none := by
    refine hears?_of_not_asks hasks ?_
    rintro o rfl
    obtain ⟨-, hf, task, ht, -, hj⟩ := going?_eq_some.mp hg
    exact h.idle t ⟨hf, task, ht, by rw [hj]; rfl⟩
  simp [Overlay.inquiries, supplied, hasks, hhears, h.creator]

/-- Once channels are taken, they are only used, or released by the part `x` that is to. -/
theorem Emptied.requested (h : w.Emptied) (hx : w.Plays x (.release k) (some s))
    (honly : ∀ a k', w.role? a = some (.release k') → a = x) {e : Event}
    (he : e ∈ w.requested y) : e.isUse = true ∨
      (e = .release k ∧ y = .poll x ∧ w.going? x = some (.releaseCreator k none)) := by
  rcases mem_requested_cases he with ⟨t, manual, maxFail, stage, -, hg, he⟩ | ⟨a, q, -, -, rfl⟩ |
    ⟨x', k', hy, hg, rfl⟩
  · rw [h.inquiries hg] at he
    exact absurd he List.not_mem_nil
  · exact .inl rfl
  · obtain rfl := honly x' k' (role?_of_going hg)
    obtain rfl : k' = k := by simpa [Job.role] using (role?_of_going hg).symm.trans hx.role?
    exact .inr ⟨rfl, hy, hg⟩

/-- A part that releases channels has not gone on before, and is past that afterwards. -/
theorem Sound.past_release (h : w.Sound) (hg : w.going? x = some (.releaseCreator k none)) :
    ¬w.Past x ∧ (w.act (.poll x)).Past x ∧ w.requested (.poll x) = [.release k] := by
  obtain ⟨hready, hf, task, ht, hc, hj⟩ := going?_eq_some.mp hg
  refine ⟨?_, ?_, by simp [requested, hg, jobRequests]⟩
  · rintro (hend | ⟨-, task', ht', hcalled⟩)
    · exact absurd (hf.symm.trans hend) (by simp)
    · obtain rfl := Option.some.inj (ht.symm.trans ht')
      exact absurd hcalled (by simp [hj, Job.hasCalled])
  · rw [Overlay.act, if_pos hready]
    have hp : Role.part? (.release k) none = some task.job := by rw [hj]; rfl
    exact (h.answered_poll hready hf ht hc hp).2.past

theorem Taken.act (h : w.Taken k) (hs : w.Sound) (y : Act) : (w.act y).Taken k := by
  obtain ⟨x, s, hx, honly, hcount, hpast⟩ := h.part
  -- only the part that has not gone on yet makes the release
  have hfresh : .release k ∈ w.requested y → ¬w.Past x ∧ (w.act y).Past x ∧
      w.requested y = [.release k] := by
    intro hmem
    obtain ⟨-, rfl, hg⟩ := (h.emptied.requested hx honly hmem).resolve_left (by simp [Event.isUse])
    exact hs.past_release hg
  obtain ⟨used, hgranted, hused⟩ := h.course
  refine ⟨h.emptied.act hs y, ⟨_, hgranted.act hs y, fun e he => ?_⟩,
    x, s, hx.mono (hs.grows_act y), fun a k' hr => ?_, ?_, fun hn => ?_⟩
  · rcases List.mem_append.mp he with he | he
    · exact hused e he
    · exact (h.emptied.requested hx honly he).imp id And.left
  · by_cases hlt : a < w.tasks.length
    · exact honly a k' ((hs.grows_act y).role?_eq hlt ▸ hr)
    · obtain ⟨-, -, -, -, hstored, -⟩ := hs.release_new hr (Nat.not_lt.mp hlt)
      exact absurd (hstored.symm.trans h.emptied.creator) (by simp)
  · rw [hs.requests_act y, List.count_append]
    by_cases hmem : .release k ∈ w.requested y
    · obtain ⟨hbefore, -, hq⟩ := hfresh hmem
      rw [List.count_eq_zero_of_not_mem (hpast hbefore), hq]
      simp
    · rw [List.count_eq_zero_of_not_mem hmem]
      exact hcount
  · rw [hs.requests_act y, List.mem_append, not_or]
    have hbefore : ¬w.Past x := fun hp => hn (hp.act hs y)
    exact ⟨hpast hbefore, fun hmem => hn (hfresh hmem).2.1⟩

/-! ## Every state -/

/-- How far the reservation has come. -/
inductive Stands (w : Overlay) : Prop
  | lacking (h : w.Lacking)
  | holding (k : CreatorId) (h : w.Holding k)
  | taken (k : CreatorId) (h : w.Taken k)

theorem Stands.act (h : w.Stands) (hr : w.Regular) (y : Act) : (w.act y).Stands := by
  cases h with
  | lacking h => exact (h.act hr.sound y).elim .lacking (.holding _)
  | holding k h => exact (h.act hr y).elim (.holding k) (.taken k)
  | taken k h => exact .taken k (h.act hr.sound y)

theorem stands_run (config : RelayConfig) (mine : PeerAddress) (acts : List Act) :
    ((start config mine).run acts).Regular ∧ ((start config mine).run acts).Stands := by
  induction acts using List.reverseRecOn with
  | nil => exact ⟨regular_start config mine, .lacking (lacking_start config mine)⟩
  | append_singleton acts y ih => exact run_concat _ acts y ▸ ⟨ih.1.act y, ih.2.act ih.1 y⟩

/-- Requests for channels come first, and what is asked for with channels at hand comes after the
grant. -/
theorem Stands.course (h : w.Stands) : (∀ e ∈ w.requests, e.isReserve = true) ∨
    ∃ k asked used, w.requests = asked ++ .granted k :: used ∧ (∀ e ∈ asked, e.isReserve = true) ∧
      (∀ e ∈ used, e.isUse = true ∨ e = .release k) ∧ w.requests.count (.release k) ≤ 1 := by
  cases h with
  | lacking h => exact .inl h.asked
  | holding k h =>
    obtain ⟨used, ⟨asked, hasked, hq⟩, hused⟩ := h.course
    refine .inr ⟨k, asked, used, hq, hasked, fun e he => .inl (hused e he), ?_⟩
    rw [List.count_eq_zero_of_not_mem h.not_released]
    exact Nat.zero_le 1
  | taken k h =>
    obtain ⟨used, ⟨asked, hasked, hq⟩, hused⟩ := h.course
    obtain ⟨-, -, -, -, hcount, -⟩ := h.part
    exact .inr ⟨k, asked, used, hq, hasked, hused, hcount⟩

theorem Stands.count_release_le (h : w.Stands) (k : CreatorId) :
    w.requests.count (.release k) ≤ 1 := by
  by_cases hmem : .release k ∈ w.requests
  swap
  · rw [List.count_eq_zero_of_not_mem hmem]
    exact Nat.zero_le 1
  rcases h.course with hall | ⟨k', asked, used, hq, hasked, hused, hcount⟩
  · exact absurd (hall _ hmem) (by simp [Event.isReserve])
  · have hgranted : w.Granted k' used := ⟨asked, hasked, hq⟩
    suffices k = k' from this ▸ hcount
    simpa [Event.isUse] using hused _ (hgranted.release_mem hmem)

end Overlay

end RelayUpkeep

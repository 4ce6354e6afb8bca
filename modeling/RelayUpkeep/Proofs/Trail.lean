import RelayUpkeep.Proofs.Budget
import RelayUpkeep.Proofs.Causes
import RelayUpkeep.Proofs.ClockRange
import RelayUpkeep.Proofs.Fates

/-! # The trail of a round

Each iteration that fails leaves a reason, which tells how many slots are filled and what its failed
attempts failed with. A round that ends with an error tells the reasons of its iterations, one after
another, so that each failed attempt is accounted for once. -/

namespace RelayUpkeep

variable {slot : Nat} {p : PeerAddress}

/-! ## Texts -/

/-- A space after each of the texts before the last one is one between any two texts. -/
theorem join_spaced (l : List String) (s : String) :
    String.join (l.map (· ++ " ")) ++ s = " ".intercalate (l ++ [s]) := by
  induction l with
  | nil => simp
  | cons a l ih =>
    rw [List.cons_append, String.intercalate_cons_of_ne_nil (by simp), ← ih, List.map_cons,
      String.join_cons, String.append_assoc]

/-- Nothing is trimmed but the space after the last bracket. -/
theorem Text.trimEnd_closed (s : String) : trimEnd (s ++ "]" ++ " ") = s ++ "]" := by
  have hend : (s ++ "]" ++ " ").toList.reverse.dropWhile isBlank = (s ++ "]").toList.reverse := by
    have hspace : isBlank ' ' = true := isBlank_of_isWhitespace rfl
    have hbracket : isBlank ']' = false := by decide
    simp [String.toList_append, hspace, hbracket]
  rw [trimEnd, hend, List.reverse_reverse, String.ofList_toList]

/-- What a guard adds to the reason is what its attempt failed with. -/
theorem Exit.complaint?_told (e : Exit) : (e.retold.told slot p).complaint? =
    e.mishap?.map fun mishap => p.id.text ++ ": " ++ mishap.message := by
  cases e <;> rfl

namespace Overlay

variable {t g a : TaskId} {u v w : Overlay} {q : PeerAddress} {r : Round} {it : Iteration}
  {its : List Iteration} {draws : List (Nat × PeerAddress)} {stage : SetupStage}
  {manual candidates : List PeerAddress} {maxFail room i : Nat} {acts : List Act} {e : RelayError}

/-! ## Attempts and their failures -/

/-- The candidate of an attempt. -/
def tried? (w : Overlay) (a : TaskId) : Option PeerAddress :=
  match w.role? a with
  | some (.attempt p) => some p
  | _ => none

/-- What an attempt has failed with, and on whom. -/
def failureOf? (w : Overlay) (a : TaskId) : Option (PeerAddress × RelayError) :=
  (w.tried? a).bind fun p => ((w.exit? a).bind Exit.mishap?).map fun mishap => (p, mishap)

/-- The attempt that a guard has started. -/
def attemptOf? (w : Overlay) (g : TaskId) : Option TaskId :=
  match w.job? g with
  | some (.guardAttempt _ _ attempt) => attempt
  | _ => none

/-- The attempts that have been made for setup `t`, in the order in which they were started. -/
def attemptsOf (w : Overlay) (t : TaskId) : List TaskId :=
  (List.range w.tasks.length).filter fun a => (w.tried? a).isSome && w.client? a == some t

/-- The failures of an iteration, in the order in which their guards told. -/
def charges (w : Overlay) (it : Iteration) : List (PeerAddress × RelayError) :=
  (w.exitsOf it.crew).filterMap fun x => (w.attemptOf? x.1).bind w.failureOf?

/-- The reason of an iteration: how many slots are filled, how many were wanted and how many were
required, and each failure with its peer. -/
def account (w : Overlay) (it : Iteration) : String :=
  "[" ++ toString (w.settled it).filled ++ "/" ++ toString it.round.wanted ++ " succeeded, " ++
    toString (w.manager.config.joinPolicy.required it.round.wanted) ++ " required" ++
    String.join ((w.charges it).map fun c => "; " ++ c.1.id.text ++ ": " ++ c.2.message) ++ "]"

theorem tried?_eq_some : w.tried? a = some p ↔ w.role? a = some (.attempt p) := by
  unfold tried?
  split
  · next q h => simp [h]
  · next h => simpa using h p

theorem attemptOf?_eq_some : w.attemptOf? g = some a ↔ ∃ q, w.Guards g a q := by
  constructor
  · intro h
    unfold attemptOf? at h
    split at h
    · next slot q attempt hj =>
      obtain ⟨task, ht, hjob⟩ := job?_eq_some.mp hj
      exact ⟨q, task, slot, ht, h ▸ hjob⟩
    · exact absurd h (by simp)
  · rintro ⟨q, task, slot, ht, hj⟩
    rw [attemptOf?, job?_eq_some.mpr ⟨task, ht, hj⟩]

theorem failureOf?_eq (h : w.role? a = some (.attempt p)) :
    w.failureOf? a = ((w.exit? a).bind Exit.mishap?).map fun mishap => (p, mishap) := by
  rw [failureOf?, tried?_eq_some.mpr h, Option.bind_some]

/-- An attempt that has ended has failed with something unless it succeeded. -/
theorem isSome_failureOf? (h : w.role? a = some (.attempt p)) (hf : w.isFinished a = true) :
    (w.failureOf? a).isSome = !w.succeeded a := by
  obtain ⟨e, he⟩ := Option.isSome_iff_exists.mp hf
  rw [failureOf?_eq h, succeeded, he]
  simp [Exit.isSome_mishap?]

theorem Mustered.mem_attemptsOf (h : w.Mustered) (hs : w.Sound) : a ∈ w.attemptsOf t ↔
    ∃ g slot p, w.Plays g (.guard slot p) (some t) ∧ w.Guards g a p := by
  simp only [attemptsOf, List.mem_filter, List.mem_range, Bool.and_eq_true, beq_iff_eq]
  constructor
  · rintro ⟨-, htried, hclient⟩
    obtain ⟨p, hp⟩ := Option.isSome_iff_exists.mp htried
    obtain ⟨task, ht, hrole⟩ := role?_eq_some.mp (tried?_eq_some.mp hp)
    obtain ⟨g, hg, hpar⟩ := Option.bind_eq_some_iff.mp hclient
    obtain ⟨guard, slot, hguard, hj⟩ :=
      h.paired g a p ⟨task, ht, hrole, by simpa [parent?, ht] using hg⟩
    refine ⟨g, slot, p, ⟨guard, hguard, by rw [hj]; rfl, ?_⟩, guard, slot, hguard, hj⟩
    simpa [parent?, hguard] using hpar
  · rintro ⟨g, slot, p, ⟨guard, hguard, -, hpar⟩, hga⟩
    have hrole := (hs.toLinked.attempt_of_guards hga).role?
    obtain ⟨task, ht, -, hg⟩ := hs.toLinked.attempt_of_guards hga
    refine ⟨lt_of_role? hrole, ?_, ?_⟩
    · rw [tried?_eq_some.mpr hrole]
      rfl
    · simp [client?, parent?, ht, hg, hguard, hpar]

/-! ## The reason of an iteration -/

/-- A guard that retold how its attempt ended adds that to the reason. -/
theorem Retold.complaint? (h : w.Retold g) (hs : w.Sound)
    (hr : w.role? g = some (.guard slot p)) {x : Exit} (hx : w.exit? g = some x)
    (hover : x ≠ .crashed .clockOverflow) : (w.attemptEnd? g x).bind AttemptEnd.complaint? =
      ((w.attemptOf? g).bind w.failureOf?).map fun c => c.1.id.text ++ ": " ++ c.2.message := by
  obtain ⟨a, q, y, hga, hea, heg⟩ := h
  obtain ⟨slot', hr'⟩ := hga.role?
  obtain ⟨-, rfl⟩ : slot = slot' ∧ p = q := by simpa [hr] using hr'
  have htold : x = y.retold := by
    rcases heg with heg | ⟨-, heg⟩
    · exact Option.some.inj (hx.symm.trans heg)
    · exact absurd (Option.some.inj (hx.symm.trans heg)) hover
  have hfailure := failureOf?_eq (hs.toLinked.attempt_of_guards hga).role?
  rw [attemptEnd?_of_role hr, Option.bind_some, htold, Exit.complaint?_told,
    attemptOf?_eq_some.mpr ⟨p, hga⟩, Option.bind_some, hfailure, hea, Option.bind_some,
    Option.map_map]
  rfl

/-- The reason of an iteration accounts for its failures. -/
theorem Assigned.grievance_eq (h : w.Assigned t it.round it.crew draws) (hs : w.Sound)
    (htold : ∀ g ∈ it.crew, w.Retold g)
    (hover : ∀ g, w.exit? g ≠ some (.crashed .clockOverflow)) :
    w.grievance it.round it.crew = w.account it := by
  have hcomplaints : (w.endings it.crew).filterMap AttemptEnd.complaint? =
      (w.charges it).map fun c => c.1.id.text ++ ": " ++ c.2.message := by
    rw [endings, charges, List.filterMap_filterMap, List.map_filterMap]
    refine List.filterMap_congr fun x hx => ?_
    obtain ⟨hmem, hg⟩ := mem_exitsOf.mp hx
    obtain ⟨d, -, hplays⟩ := exists_zip_of_mem h.crew hg
    have hexit := exit?_of_mem hs.ends hmem
    refine (htold x.1 hg).complaint? hs hplays.role? hexit ?_
    rintro hcrash
    exact hover x.1 (hexit.trans (congrArg some hcrash))
  have htext : ∀ c : PeerAddress × RelayError,
      "; " ++ (c.1.id.text ++ ": " ++ c.2.message) = "; " ++ c.1.id.text ++ ": " ++ c.2.message :=
    fun c => by simp only [String.append_assoc]
  rw [grievance, Round.reason, Round.wanted_settle, hcomplaints, List.map_map]
  simp only [Function.comp_def, htext]
  rfl

/-! ## The trail of some iterations -/

/-- The trail of a round has the reasons of the iterations before the last one. -/
theorem Chronicle.trail (h : w.Chronicle t r its it) : it.round.trail =
    r.trail ++ String.join (its.map fun past => w.grievance past.round past.crew ++ " ") := by
  induction h with
  | first h =>
    rw [h.round, List.map_nil, String.join_nil, String.append_empty]
    rfl
  | @next its it next _ _ hn ih =>
    rw [hn.round, List.map_append, String.join_append, ← String.append_assoc, ← ih]
    simp only [Round.launched, trail_retried, List.map_cons, List.map_nil, String.join_cons,
      String.join_nil, String.append_empty, String.append_assoc]

theorem Chronicle.assigned_mem (h : w.Chronicle t r its it) {past : Iteration}
    (hp : past ∈ its ++ [it]) : ∃ draws, w.Assigned t past.round past.crew draws := by
  obtain ⟨k, hk⟩ := List.mem_iff_getElem?.mp hp
  exact (h.take hk).assigned

/-- When the last iteration has failed too, the trail has the reasons of all iterations. -/
theorem Chronicle.trimEnd_retried (h : w.Chronicle t r its it) (hr : r.trail = "") :
    Text.trimEnd (w.retried it.round it.crew).trail =
      " ".intercalate ((its ++ [it]).map fun past => w.grievance past.round past.crew) := by
  obtain ⟨body, hbody⟩ : ∃ body, w.grievance it.round it.crew = body ++ "]" := ⟨_, rfl⟩
  rw [trail_retried, h.trail, hr, String.empty_append, hbody, ← String.append_assoc, Text.trimEnd_closed,
    String.append_assoc, ← hbody, List.map_append, List.map_singleton, ← join_spaced, List.map_map]
  rfl

/-- One slot is filled for each guard of the iterations before that has ended well. -/
theorem Chronicle.filled (h : w.Chronicle t r its it) (hs : w.Sound) :
    it.round.filled = r.filled + (its.flatMap Iteration.crew).countP w.succeeded := by
  induction h with
  | first h =>
    rw [h.round]
    rfl
  | @next its it next hc _ hn ih =>
    obtain ⟨draws, ha⟩ := hc.assigned
    have hfilled : next.round.filled = (w.settled it).filled := by
      rw [hn.round]
      rfl
    rw [hfilled, settled, ha.filled_settle_succeeded hs, ih, List.flatMap_append,
      List.countP_append, List.flatMap_singleton, Nat.add_assoc]

/-- The slots that are filled after an iteration are those of the attempts up to then that brought a
relay. -/
theorem Chronicle.filled_settled (h : w.Chronicle t (Round.start room candidates maxFail) its it)
    (hs : w.Sound) {k : Nat} {next : Iteration} (hk : (its ++ [it])[k]? = some next)
    (htold : ∀ past ∈ its ++ [it], ∀ g ∈ past.crew, w.Retold g) :
    (w.settled next).filled =
      (((its ++ [it]).take (k + 1)).flatMap Iteration.crew).countP w.hasJoined := by
  have hc := h.take hk
  obtain ⟨draws, ha⟩ := hc.assigned
  have hcount : ((((its ++ [it]).take (k + 1)).flatMap Iteration.crew).countP w.hasJoined) =
      (((its ++ [it]).take (k + 1)).flatMap Iteration.crew).countP w.succeeded := by
    refine List.countP_congr fun g hg => ?_
    obtain ⟨past, hp, hg⟩ := List.mem_flatMap.mp hg
    rw [(htold past (List.mem_of_mem_take hp) g hg).told.hasJoined]
  rw [hcount, settled, ha.filled_settle_succeeded hs, hc.filled hs, Round.filled_start, Nat.zero_add,
    List.take_add_one, hk, Option.toList_some, List.flatMap_append, List.countP_append,
    List.flatMap_singleton]

/-- The round wants as many relays as it did in the beginning. -/
theorem Chronicle.wanted (h : w.Chronicle t r its it) : it.round.wanted = r.wanted := by
  induction h with
  | first h =>
    rw [h.round]
    rfl
  | @next its it next _ _ hn ih =>
    rw [hn.round, ← ih]
    exact it.round.wanted_settle _

/-! ## How a round is judged in the end -/

/-- The error with which a round ends after its last iteration. -/
inductive Verdict (it : Iteration) (w : Overlay) : RelayError → Prop
  | race : Verdict it w (.shutDownRace (w.grievance it.round it.crew))
  | spent (hm : (w.retried it.round it.crew).maxFail < (w.retried it.round it.crew).failures) :
      Verdict it w (.maxFailuresExceeded (Text.trimEnd (w.retried it.round it.crew).trail))
  | nobody (hm : (w.retried it.round it.crew).failures ≤ (w.retried it.round it.crew).maxFail) :
      Verdict it w (.noCandidates (Text.trimEnd (w.retried it.round it.crew).trail))

/-- The error with which a round ends has the reasons of its iterations. -/
theorem Verdict.accounts (h : w.Verdict it e) (hs : w.Sound)
    (hc : w.Chronicle t (Round.start room candidates maxFail) its it)
    (hn : (candidates.map PeerAddress.id).Nodup)
    (hreason : ∀ past ∈ its ++ [it], w.grievance past.round past.crew = w.account past) :
    (∀ text, e = .maxFailuresExceeded text → (its ++ [it]).length = maxFail + 1 ∧
      text = " ".intercalate ((its ++ [it]).map w.account)) ∧
    (∀ text, e = .noCandidates text → (its ++ [it]).length ≤ maxFail ∧
      text = " ".intercalate ((its ++ [it]).map w.account)) ∧
    ∀ text, e = .shutDownRace text → ((its ++ [it]).map w.account).getLast? = some text := by
  obtain ⟨r, hafter, hlaunch⟩ := hc.launched hs (Round.after_start hn)
  have hretried := hlaunch.after hs hafter
  have hfailures : (w.retried it.round it.crew).failures = its.length + 1 :=
    hretried.failures.trans (Nat.zero_add _)
  have hbudget : (w.retried it.round it.crew).maxFail = maxFail := hretried.budget
  have hwithin : its.length ≤ maxFail := by
    have hle := hlaunch.within
    rw [hafter.failures, hafter.budget] at hle
    exact Nat.le_trans (Nat.le_add_left _ _) hle
  have htrail : Text.trimEnd (w.retried it.round it.crew).trail =
      " ".intercalate ((its ++ [it]).map w.account) := by
    rw [hc.trimEnd_retried rfl]
    exact congrArg _ (List.map_congr_left hreason)
  rw [List.length_append, List.length_singleton]
  cases h with
  | race =>
    refine ⟨by simp, by simp, fun text heq => ?_⟩
    obtain rfl := RelayError.shutDownRace.inj heq
    rw [List.map_append, List.map_singleton, List.getLast?_concat, hreason it (by simp)]
  | spent hm =>
    rw [hfailures, hbudget] at hm
    refine ⟨fun text heq => ⟨by omega, ?_⟩, by simp, by simp⟩
    exact (RelayError.maxFailuresExceeded.inj heq).symm.trans htrail
  | nobody hm =>
    rw [hfailures, hbudget] at hm
    refine ⟨by simp, fun text heq => ⟨hm, ?_⟩, by simp⟩
    exact (RelayError.noCandidates.inj heq).symm.trans htrail

theorem Sound.job_ended (h : w.Sound) (hf : w.isFinished t = true) (acts : List Act) :
    (w.run acts).job? t = w.job? t := by
  have hlt : t < w.tasks.length := by
    obtain ⟨e, he⟩ := isFinished_iff.mp hf
    exact h.exits _ he
  induction acts using List.reverseRecOn with
  | nil => rfl
  | append_singleton acts y ih =>
    have hg := grows_run h acts
    rw [run_concat, ← ih]
    exact ((sound_run h acts).aside (Nat.lt_of_lt_of_le hlt hg.tasks.length_le)
      (by simp [hg.isFinished hf])).job

/-- A setup stays where it has ended. -/
theorem Called.stage_ended (h : w.Called t manual maxFail) {x : Exit} (he : w.EndsAt acts t x i) :
    (w.run acts).job? t = (w.run (acts.take i)).job? t := by
  obtain ⟨hact, ⟨job, hgo⟩, hend⟩ := he
  have hnext := h.run (acts.take (i + 1))
  rw [← w.run_take_drop acts (i + 1), hnext.sound.job_ended (isFinished_of_exit? hend)]
  rw [run_take_succ hact] at hend ⊢
  obtain ⟨stage, rfl⟩ :=
    Job.eq_setup (Option.some.inj ((role?_of_going hgo).symm.trans (h.run _).role))
  obtain ⟨-, htasks⟩ := (advances_act hgo).ended (going?_eq_some.mp hgo).2.1 hend
  rw [job?, htasks, job?]

/-- A setup that fails in a round fails with the verdict on its last iteration. -/
theorem Called.verdict (h : w.Called t manual maxFail) (h₀ : w.iteration? t = none)
    (hgo : w.isFinished t = false) (he : (w.run acts).exit? t = some (.failed e))
    (hi : (w.run acts).iteration? t = some it) : (w.run acts).Verdict it e := by
  obtain ⟨i, hends⟩ := h.ends hgo he (by simp)
  obtain ⟨-, stage, hg, hc⟩ := h.cause hends
  have hv := h.run acts
  have hjob := job?_of_iteration? hv.role hi
  rw [h.stage_ended hends, job?_of_going hg] at hjob
  obtain rfl : stage = .settling it.round it.crew := by simpa using hjob
  have hgrows := h.sound.grows_take acts i
  -- nothing of what the verdict tells changes after it
  have hsame : (∀ g ∈ it.crew, (w.run (acts.take i)).isFinished g = true) →
      (w.run acts).grievance it.round it.crew =
        (w.run (acts.take i)).grievance it.round it.crew ∧
      (w.run acts).retried it.round it.crew = (w.run (acts.take i)).retried it.round it.crew := by
    intro hall
    have hiter := iteration?_of_job? (job?_of_going hg)
    obtain ⟨_, _, -, hc, -⟩ := h.underway h₀ hiter
    obtain ⟨draws, ha⟩ := hc.assigned
    refine ⟨?_, ha.retried_eq hgrows hv.sound hall⟩
    simp only [grievance, ha.endings_eq hgrows hv.sound hall, hgrows.config]
  cases hc with
  | shutDown hs | unavailable _ hs | nobody hs =>
    exact absurd hs (by simp [SetupStage.isEarly])
  | race _ _ hf => exact (hsame hf.ended).1 ▸ .race
  | tooMany _ _ hf hm =>
    rw [← (hsame hf.ended).2] at hm ⊢
    exact .spent hm
  | exhausted _ _ hf hm =>
    rw [← (hsame hf.ended).2] at hm ⊢
    exact .nobody hm

/-- Before its round a setup neither exceeds its budget nor races with a shutdown. -/
theorem Called.fails_early (h : w.Called t manual maxFail) (hgo : w.isFinished t = false)
    (he : (w.run acts).exit? t = some (.failed e)) (hi : (w.run acts).iteration? t = none)
    (text : String) : e ≠ .maxFailuresExceeded text ∧ e ≠ .shutDownRace text := by
  obtain ⟨i, hends⟩ := h.ends hgo he (by simp)
  obtain ⟨-, stage, hg, hc⟩ := h.cause hends
  have hjob := (h.stage_ended hends).trans (job?_of_going hg)
  cases hc with
  | shutDown | nobody => simp
  | unavailable e =>
    obtain ⟨reason, hreason⟩ := e.asResourceUnavailable_eq
    simp [hreason]
  | race | tooMany | exhausted => exact absurd ((iteration?_of_job? hjob).symm.trans hi) (by simp)

/-! ## Each failure once -/

theorem nodup_guardsOf (w : Overlay) (t : TaskId) : (w.guardsOf t).Nodup := by
  refine List.Nodup.filterMap (fun g g' x hg hg' => ?_) List.nodup_range
  obtain ⟨_, -, rfl⟩ := Option.map_eq_some_iff.mp hg
  obtain ⟨_, -, rfl⟩ := Option.map_eq_some_iff.mp hg'
  rfl

theorem nodup_attemptsOf (w : Overlay) (t : TaskId) : (w.attemptsOf t).Nodup :=
  List.nodup_range.filter _

/-- The attempts of a setup are those that its guards have started. -/
theorem Mustered.attemptsOf_perm (h : w.Mustered) (hs : w.Sound) (t : TaskId) :
    ((w.guardsOf t).filterMap w.attemptOf?).Perm (w.attemptsOf t) := by
  refine (List.perm_ext_iff_of_nodup ?_ (w.nodup_attemptsOf t)).mpr fun a => ?_
  · refine (nodup_guardsOf w t).filterMap fun g g' a hg hg' => ?_
    obtain ⟨q, hga⟩ := attemptOf?_eq_some.mp hg
    obtain ⟨q', hga'⟩ := attemptOf?_eq_some.mp hg'
    exact hs.toLinked.guard_unique hga hga'
  · rw [h.mem_attemptsOf hs, List.mem_filterMap]
    constructor
    · rintro ⟨g, hg, hga⟩
      obtain ⟨slot, p, hplays⟩ := mem_guardsOf.mp hg
      obtain ⟨q, hga⟩ := attemptOf?_eq_some.mp hga
      obtain ⟨slot', hr⟩ := hga.role?
      obtain ⟨-, rfl⟩ : slot = slot' ∧ p = q := by simpa [hplays.role?] using hr
      exact ⟨g, slot, p, hplays, hga⟩
    · rintro ⟨g, slot, p, hplays, hga⟩
      exact ⟨g, mem_guardsOf.mpr ⟨slot, p, hplays⟩, attemptOf?_eq_some.mpr ⟨p, hga⟩⟩

/-- The failures of a crew that has ended are those of the attempts that it guards. -/
theorem Assigned.charges_perm (h : w.Assigned t it.round it.crew draws) (hs : w.Sound)
    (hall : ∀ g ∈ it.crew, w.isFinished g = true) : (w.charges it).Perm
      ((it.crew.filterMap w.attemptOf?).filterMap w.failureOf?) := by
  have hperm := (exitsOf_perm hs h.once hall).filterMap fun g => (w.attemptOf? g).bind w.failureOf?
  rw [List.filterMap_map] at hperm
  rw [List.filterMap_filterMap]
  exact hperm

/-- When all who guard attempts for a setup have ended, its iterations tell of each failure once. -/
theorem charges_perm_attemptsOf (hm : w.Mustered) (hs : w.Sound)
    (hassigned : ∀ it ∈ its, ∃ draws, w.Assigned t it.round it.crew draws)
    (hguards : its.flatMap Iteration.crew = w.guardsOf t)
    (hall : ∀ g ∈ w.guardsOf t, w.isFinished g = true) :
    (its.flatMap w.charges).Perm ((w.attemptsOf t).filterMap w.failureOf?) := by
  have hend : ∀ it ∈ its, ∀ g ∈ it.crew, w.isFinished g = true := fun it hit g hg =>
    hall g (hguards ▸ List.mem_flatMap.mpr ⟨it, hit, hg⟩)
  have heach : (its.flatMap w.charges).Perm
      (its.flatMap fun it => (it.crew.filterMap w.attemptOf?).filterMap w.failureOf?) :=
    List.Perm.flatMap_left its fun it hit => by
      obtain ⟨draws, ha⟩ := hassigned it hit
      exact ha.charges_perm hs (hend it hit)
  have hflat : (its.flatMap fun it => (it.crew.filterMap w.attemptOf?).filterMap w.failureOf?) =
      ((w.guardsOf t).filterMap w.attemptOf?).filterMap w.failureOf? := by
    rw [← hguards, List.filterMap_flatMap, List.filterMap_flatMap]
  exact (hflat ▸ heach).trans ((hm.attemptsOf_perm hs t).filterMap _)

/-! ## Calls -/

/-- When a setup has failed, all who guarded attempts for it have retold how these ended. -/
theorem Called.retold (h : w.Called t manual maxFail) (ht : w.Truthful)
    (he : w.exit? t = some (.failed e)) (hg : g ∈ w.guardsOf t) :
    w.isFinished g = true ∧ w.Retold g := by
  obtain ⟨slot, p, hp⟩ := mem_guardsOf.mp hg
  have hf := h.mustered.done t _ he (by simp) g slot p hp
  exact ⟨hf, (ht t g slot p hp hf).resolve_left (by simp [he])⟩

/-- The error of a setup that fails accounts for the failures of its attempts, whatever these failed
with, if the wait after a failure ends within the range of the clock. If the budget was exceeded or
nobody was left after an iteration, the text has the reason of each iteration in order, with a space
between any two of them: one more than the budget allows, or as many as it allows at most. If the
setup met with a shutdown, the text is the reason of the last iteration. A reason tells how many
slots have been filled since the call, how many the call wanted, and the failures of its iteration,
so that the reasons have each failed attempt of the call once, and no other. -/
theorem trail_accounts_for_failures (config : RelayConfig) (mine : PeerAddress)
    (before during : List Act) (manual : List PeerAddress) (maxFail : Nat) (e : RelayError) :
    let u := (start config mine).run before
    let t := u.tasks.length
    let called := u.act (.setUp manual maxFail)
    let v := called.run during
    let its := called.iterations t during
    v.now + config.failedWait.nanos < Instant.limit → v.exit? t = some (.failed e) →
    (∀ text, e = .maxFailuresExceeded text →
      its.length = maxFail + 1 ∧ text = " ".intercalate (its.map v.account)) ∧
    (∀ text, e = .noCandidates text → its ≠ [] →
      its.length ≤ maxFail ∧ text = " ".intercalate (its.map v.account)) ∧
    (∀ text, e = .shutDownRace text → (its.map v.account).getLast? = some text) ∧
    (∀ (k : Nat) it, its[k]? = some it →
      (v.settled it).filled = ((its.take (k + 1)).flatMap Iteration.crew).countP v.hasJoined ∧
      ∀ i, called.FindsAt during t i →
        it.round.wanted = min (called.run (during.take i)).manager.pool.remaining
          ((called.run (during.take i)).eligible manual).length) ∧
    (its.flatMap v.charges).Perm ((v.attemptsOf t).filterMap v.failureOf?) ∧
    ∀ a ∈ v.attemptsOf t, v.isFinished a = true ∧ (v.failureOf? a).isSome = !v.succeeded a := by
  intro u t called v its hclock he
  obtain ⟨hcalled, -, -⟩ := called_setUp config mine before manual maxFail
  have h₀ : called.iteration? t = none := iteration?_setUp u manual maxFail
  have hgo : called.isFinished t = false :=
    (sound_run (sound_start config mine) before).new_act _ (Nat.le_refl _)
  have hv : v.Called t manual maxFail := hcalled.run during
  have hrun : v = (start config mine).run (before ++ .setUp manual maxFail :: during) := by
    rw [run_append, run_cons]
  have hover : ∀ g, v.exit? g ≠ some (.crashed .clockOverflow) := by
    have hconfig : v.manager.config = config := by
      rw [hrun]
      exact (grows_run (sound_start config mine) _).config
    have htime : v.InTime := inTime_iff.mpr (hconfig ▸ hclock)
    rw [hrun] at htime ⊢
    exact no_overflow_run config mine htime
  have hretold : ∀ g ∈ v.guardsOf t, v.isFinished g = true ∧ v.Retold g := fun g hg =>
    hv.retold (hrun ▸ truthful_run config mine _) he hg
  have hrec : called.Recorded during t manual maxFail its := hcalled.recorded h₀ during
  clear_value its
  have hattempts : ∀ a ∈ v.attemptsOf t,
      v.isFinished a = true ∧ (v.failureOf? a).isSome = !v.succeeded a := by
    intro a ha
    obtain ⟨g, slot, p, hplays, hga⟩ := (hv.mustered.mem_attemptsOf hv.sound).mp ha
    obtain ⟨a', q, hga', hfa, -⟩ := (hretold g (mem_guardsOf.mpr ⟨slot, p, hplays⟩)).2.told
    obtain ⟨rfl, -⟩ := hga.unique hga'
    exact ⟨hfa, isSome_failureOf? (hv.sound.toLinked.attempt_of_guards hga).role? hfa⟩
  cases hrec with
  | early hnone =>
    have hfails := hcalled.fails_early hgo he hnone
    refine ⟨fun text h => absurd h (hfails text).1, by simp, fun text h => absurd h (hfails text).2,
      by simp, ?_, hattempts⟩
    exact charges_perm_attemptsOf hv.mustered hv.sound (by simp)
      (hv.guardsOf_early hnone).symm fun g hg => (hretold g hg).1
  | @underway i past last hi hc hj hg =>
    have hassigned : ∀ it ∈ past ++ [last], ∃ draws, v.Assigned t it.round it.crew draws :=
      fun it hit => hc.assigned_mem hit
    have htold : ∀ it ∈ past ++ [last], ∀ g ∈ it.crew, v.Retold g := fun it hit g hcrew =>
      (hretold g (hg ▸ List.mem_flatMap.mpr ⟨it, hit, hcrew⟩)).2
    have hreason : ∀ it ∈ past ++ [last], v.grievance it.round it.crew = v.account it := by
      intro it hit
      obtain ⟨draws, ha⟩ := hassigned it hit
      exact ha.grievance_eq hv.sound (htold it hit) hover
    obtain ⟨hspent, hnobody, hrace⟩ :=
      (hcalled.verdict h₀ hgo he hj).accounts hv.sound hc (nodup_eligible _ manual) hreason
    refine ⟨hspent, fun text h _ => hnobody text h, hrace, fun k it hk => ⟨?_, fun i' hi' => ?_⟩,
      charges_perm_attemptsOf hv.mustered hv.sound hassigned hg.symm
        fun g hg => (hretold g hg).1, hattempts⟩
    · exact hc.filled_settled hv.sound hk htold
    · obtain rfl := hcalled.findsAt_unique hi hi'
      exact (hc.take hk).wanted.trans (Round.wanted_start _ _ _)

/-- One candidate fails with a text that looks like the end of a reason, and the next one crashes. -/
theorem trail_accounts_for_failures_sample :
    let config : RelayConfig := { maxRelays := 1 }
    let before : List Act := [.behave [.sample 2] { connect := ⟨0, .fail (.transport " ; ] [ ")⟩ },
      .behave [.sample 3] { connect := ⟨0, .crash "] "⟩ }]
    let during : List Act :=
      [.poll 0, .poll 1, .poll 2, .poll 1, .poll 0, .poll 3, .poll 4, .poll 3, .poll 0]
    let called := ((start config (.sample 1)).run before).act
      (.setUp [.sample 2, .sample 3, .sample 4] 1)
    let v := called.run during
    let text := "[0/1 succeeded, 1 required; 0202020202020202: Transport error:  ; ] [ ] " ++
      "[0/1 succeeded, 1 required; 0303030303030303: Transport error: attempt aborted: " ++
      "task # panicked with message \"] \"]"
    v.now + config.failedWait.nanos < Instant.limit ∧
      v.exit? 0 = some (.failed (.maxFailuresExceeded text)) ∧ v.attemptsOf 0 = [2, 4] ∧
      (called.iterations 0 during).length = 1 + 1 ∧
      text = " ".intercalate ((called.iterations 0 during).map v.account) := by
  intro config before during called v text
  have hclock : v.now + config.failedWait.nanos < Instant.limit := by decide +kernel
  have he : v.exit? 0 = some (.failed (.maxFailuresExceeded text)) := by decide +kernel
  obtain ⟨hspent, -⟩ := trail_accounts_for_failures config (.sample 1) before during
    [.sample 2, .sample 3, .sample 4] 1 (.maxFailuresExceeded text) hclock he
  obtain ⟨hlen, htext⟩ := hspent text rfl
  exact ⟨hclock, he, by decide +kernel, hlen, htext⟩

end Overlay

end RelayUpkeep

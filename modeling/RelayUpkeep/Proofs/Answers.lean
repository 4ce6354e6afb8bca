import RelayUpkeep.Proofs.Candidates
import RelayUpkeep.Proofs.AttemptSteps

/-! # How attempts are answered

An attempt is answered once, with a connection or an error. With an error it ends; with a connection
it offers a relay, unless it crashes as it parts with the connection. -/

namespace RelayUpkeep.Overlay

variable {t g a : TaskId} {u v w : Overlay} {slot : Nat} {q : PeerAddress} {c : ConnId}
  {s : AttemptStage} {r : RelayId} {acts : List Act} {y : Act} {e : Exit} {i : Nat}

/-! ## What attempts come to in a run -/

/-- Attempt `a` on `q` is answered in step `i` of a run, with a connection or an error. -/
def AnsweredAt (w : Overlay) (acts : List Act) (a : TaskId) (q : PeerAddress)
    (answer : Except RelayError ConnId) (i : Nat) : Prop :=
  acts[i]? = some (.poll a) ∧ ∃ s, (w.run (acts.take i)).going? a = some (.attempt q s) ∧
    (w.run (acts.take i)).reply q s = some answer

/-- Attempt `a` offers a relay that it has made for connection `c` in step `j` of a run. -/
def OffersAt (w : Overlay) (acts : List Act) (a : TaskId) (c : ConnId) (j : Nat) : Prop :=
  acts[j]? = some (.poll a) ∧ Offers c (w.run (acts.take j)) (w.run (acts.take (j + 1)))

variable {answer : Except RelayError ConnId} {j : Nat}

theorem AnsweredAt.append (h : w.AnsweredAt acts a q answer i) (more : List Act) :
    w.AnsweredAt (acts ++ more) a q answer i :=
  ⟨getElem?_append_of_eq_some h.1 more, take_append_of_eq_some h.1 more ▸ h.2⟩

theorem OffersAt.append (h : w.OffersAt acts a c j) (more : List Act) :
    w.OffersAt (acts ++ more) a c j := by
  refine ⟨getElem?_append_of_eq_some h.1 more, ?_⟩
  rw [take_append_of_eq_some h.1, take_succ_append_of_eq_some h.1]
  exact h.2

theorem answeredAt_last (hg : (w.run acts).going? a = some (.attempt q s))
    (hr : (w.run acts).reply q s = some answer) :
    w.AnsweredAt (acts ++ [.poll a]) a q answer acts.length := by
  refine ⟨List.getElem?_concat_length, s, ?_⟩
  rw [List.take_left]
  exact ⟨hg, hr⟩

theorem offersAt_last (h : Offers c (w.run acts) ((w.run acts).act (.poll a))) :
    w.OffersAt (acts ++ [.poll a]) a c acts.length := by
  refine ⟨List.getElem?_concat_length, ?_⟩
  rw [List.take_left, List.take_of_length_le (by simp), run_concat]
  exact h

/-- An answer was there before the last step, or comes with it. -/
theorem AnsweredAt.cases_concat (h : w.AnsweredAt (acts ++ [y]) a q answer i) :
    w.AnsweredAt acts a q answer i ∨ y = .poll a ∧
      ∃ s, (w.run acts).going? a = some (.attempt q s) ∧ (w.run acts).reply q s = some answer := by
  obtain ⟨hact, hans⟩ := h
  rcases getElem?_concat_eq_some hact with hold | ⟨rfl, rfl⟩
  · exact .inl ⟨hold, take_append_of_eq_some hold [y] ▸ hans⟩
  · rw [List.take_left] at hans
    exact .inr ⟨rfl, hans⟩

/-- An attempt is left as it is or goes on. -/
theorem Recent.attempt_act (h : w.Recent) (hr : w.role? a = some (.attempt q)) (y : Act) :
    (w.act y).job? a = w.job? a ∧ (w.act y).exit? a = w.exit? a ∨
      y = .poll a ∧ ∃ s, w.going? a = some (.attempt q s) ∧ Comes a q w s (w.act y) := by
  rcases goes_act (lt_of_role? hr) y with hy | ⟨rfl, job, hg⟩ | ⟨-, -, -, he, -⟩
  · have ha := h.sound.aside (lt_of_role? hr) hy
    exact .inl ⟨ha.job, ha.exit⟩
  · obtain ⟨s, rfl⟩ := Job.eq_attempt (Option.some.inj ((role?_of_going hg).symm.trans hr))
    exact .inr ⟨rfl, s, hg, h.sound.comes hg⟩
  · have hrole := (h.sound.grows_act y).role? hr
    exact absurd he ((h.act y).unbroken a q hrole)

/-- How attempt `a` on `q` stands at the end of a run. -/
inductive Fares (w : Overlay) (acts : List Act) (a : TaskId) (q : PeerAddress) : Prop
  | asks {s : AttemptStage} (hs : isLate s = false) (hf : (w.run acts).isFinished a = false)
      (hj : (w.run acts).job? a = some (.attempt q s))
  | parts {c : ConnId} {o : Outcome} {i : Nat} (hf : (w.run acts).isFinished a = false)
      (hj : (w.run acts).job? a = some (.attempt q (.partingFrom c o)))
      (ha : w.AnsweredAt acts a q (.ok c) i)
  | fails {e : RelayError} {i : Nat} (he : (w.run acts).exit? a = some (.failed e))
      (ha : w.AnsweredAt acts a q (.error e) i)
  | crashes {crash : Crash} (he : (w.run acts).exit? a = some (.crashed crash))
  | offers {c : ConnId} {i j : Nat} (hc : (w.run acts).WindsUp a q)
      (ha : w.AnsweredAt acts a q (.ok c) i) (ho : w.OffersAt acts a c j)

theorem Fares.aside (h : w.Fares acts a q)
    (hj : ((w.run acts).act y).job? a = (w.run acts).job? a)
    (he : ((w.run acts).act y).exit? a = (w.run acts).exit? a) : w.Fares (acts ++ [y]) a q := by
  have hf : ((w.run acts).act y).isFinished a = (w.run acts).isFinished a := by
    rw [isFinished, he, isFinished]
  rw [← run_concat] at hj he hf
  cases h with
  | asks hs hf' hj' => exact .asks hs (hf.trans hf') (hj.trans hj')
  | parts hf' hj' ha => exact .parts (hf.trans hf') (hj.trans hj') (ha.append [y])
  | fails he' ha => exact .fails (he.trans he') (ha.append [y])
  | crashes he' => exact .crashes (he.trans he')
  | offers hc ha ho =>
    refine .offers ?_ (ha.append [y]) (ho.append [y])
    rwa [WindsUp, he, hf, hj]

/-- Where an attempt stands that closes its connection has been answered with it. -/
theorem Fares.parting {o : Outcome} (h : w.Fares acts a q)
    (hf : (w.run acts).isFinished a = false)
    (hj : (w.run acts).job? a = some (.attempt q (.partingFrom c o))) :
    ∃ i, w.AnsweredAt acts a q (.ok c) i := by
  cases h with
  | asks hs _ hj' =>
    obtain rfl : _ = AttemptStage.partingFrom c o := by simpa using hj'.symm.trans hj
    exact absurd hs (by simp [isLate])
  | parts _ hj' ha =>
    obtain ⟨rfl, -⟩ : _ = c ∧ _ = o := by simpa using hj'.symm.trans hj
    exact ⟨_, ha⟩
  | fails he | crashes he => exact absurd (isFinished_of_exit? he) (by simp [hf])
  | offers hc =>
    rcases hc with he | ⟨text, he⟩ | ⟨-, r, o', hj'⟩
    · exact absurd (isFinished_of_exit? he) (by simp [hf])
    · exact absurd (isFinished_of_exit? he) (by simp [hf])
    · exact absurd (hj'.symm.trans hj) (by simp)

/-- Where an attempt stands that closes a relay has been answered, and has offered it. -/
theorem Fares.closing {o : Outcome} (h : w.Fares acts a q)
    (hf : (w.run acts).isFinished a = false)
    (hj : (w.run acts).job? a = some (.attempt q (.discarding r o))) :
    ∃ c i j, w.AnsweredAt acts a q (.ok c) i ∧ w.OffersAt acts a c j := by
  cases h with
  | asks hs _ hj' =>
    obtain rfl : _ = AttemptStage.discarding r o := by simpa using hj'.symm.trans hj
    exact absurd hs (by simp [isLate])
  | parts _ hj' => exact absurd (hj'.symm.trans hj) (by simp)
  | fails he | crashes he => exact absurd (isFinished_of_exit? he) (by simp [hf])
  | offers _ ha ho => exact ⟨_, _, _, ha, ho⟩

theorem Fares.comes (h : w.Fares acts a q) (hg : (w.run acts).going? a = some (.attempt q s))
    (hc : Comes a q (w.run acts) s ((w.run acts).act (.poll a))) :
    w.Fares (acts ++ [.poll a]) a q := by
  obtain ⟨-, hf, -⟩ := going?_eq_some.mp hg
  have hcur := job?_of_going hg
  rw [← run_concat] at hc
  cases hc with
  | asks s' _ hs' hf' hj' => exact .asks hs' hf' hj'
  | fails e hr he =>
    rcases he with he | he
    · exact .fails he (answeredAt_last hg hr)
    · exact .crashes he
  | crashes text _ he => exact .crashes he
  | parts c o _ hr hf' hj' => exact .parts hf' hj' (answeredAt_last hg hr)
  | offers c hr ho hc =>
    rw [run_concat] at ho
    rcases hr with hr | ⟨o, rfl⟩
    · exact .offers hc (answeredAt_last hg hr) (offersAt_last ho)
    · obtain ⟨i, ha⟩ := h.parting hf hcur
      exact .offers hc (ha.append _) (offersAt_last ho)
  | closes r o hs hc =>
    obtain rfl := hs
    obtain ⟨c, i, j, ha, ho⟩ := h.closing hf hcur
    exact .offers hc (ha.append _) (ho.append _)

/-- An attempt that is new is ready, and has not gone on. -/
theorem Sound.entering_new (h : w.Sound) (hp : (w.act y).Plays a (.attempt q) (some g))
    (hnew : w.tasks.length ≤ a) :
    a ∈ (w.act y).ready ∧ (w.act y).job? a = some (.attempt q .entering) := by
  obtain ⟨rfl, rfl, slot, hgo, -⟩ := h.engages hp hnew
  obtain ⟨hready, -⟩ := going?_eq_some.mp hgo
  rw [act_of_going hgo]
  refine ⟨List.mem_append_right _ (List.mem_singleton_self _),
    job?_eq_some.mpr ⟨⟨.attempt q .entering, some g, false⟩, ?_, rfl⟩⟩
  exact engaged_new (w := { w with ready := w.ready.erase g }) (h.ready g hready)

/-- However a run goes, each attempt stands in one of these ways at its end. -/
theorem fares_run (config : RelayConfig) (mine : PeerAddress) (acts : List Act)
    (hp : ((start config mine).run acts).Plays a (.attempt q) (some g)) :
    (start config mine).Fares acts a q := by
  induction acts using List.reverseRecOn with
  | nil =>
    obtain ⟨task, ht, -⟩ := hp
    exact absurd ht (by simp [start, run])
  | append_singleton acts y ih =>
    have hs := sound_run (sound_start config mine) acts
    rw [run_concat] at hp
    by_cases hnew : ((start config mine).run acts).tasks.length ≤ a
    · obtain ⟨-, hj⟩ := hs.entering_new hp hnew
      have hf := hs.new_act y hnew
      rw [← run_concat] at hj hf
      exact .asks rfl hf hj
    · have hold := hp.back (hs.grows_act y) (Nat.lt_of_not_le hnew)
      rcases (recent_run config mine acts).attempt_act hold.role? y with
        ⟨hj, he⟩ | ⟨rfl, s, hg, hc⟩
      · exact (ih hold).aside hj he
      · exact (ih hold).comes hg hc

theorem Fares.accounted (h : w.Fares acts a q) (he : (w.run acts).exit? a = some e) :
    (∃ error i, e = .failed error ∧ w.AnsweredAt acts a q (.error error) i) ∨
      (∃ c i j, e = .done ∧ w.AnsweredAt acts a q (.ok c) i ∧ w.OffersAt acts a c j) ∨
      ∃ crash, e = .crashed crash := by
  have hend := isFinished_of_exit? he
  cases h with
  | asks _ hf | parts hf => exact absurd (hf.symm.trans hend) (by simp)
  | fails he' ha => exact .inl ⟨_, _, Option.some.inj (he.symm.trans he'), ha⟩
  | crashes he' => exact .inr (.inr ⟨_, Option.some.inj (he.symm.trans he')⟩)
  | offers hc ha ho =>
    rcases hc with he' | ⟨text, he'⟩ | ⟨hf, -⟩
    · exact .inr (.inl ⟨_, _, _, Option.some.inj (he.symm.trans he'), ha, ho⟩)
    · exact .inr (.inr ⟨_, Option.some.inj (he.symm.trans he')⟩)
    · exact absurd (hf.symm.trans hend) (by simp)

/-- The attempt closes its connection for a relay to push to, or has crashed as it did. -/
def HoldsBack (t : TaskId) (q : PeerAddress) (c : ConnId) (w : Overlay) : Prop :=
  (w.isFinished t = false ∧ ∃ o, w.job? t = some (.attempt q (.partingFrom c o))) ∨
    ∃ text, w.exit? t = some (.crashed (.collaborator text))

/-- An attempt that comes by a connection, or has closed it, makes an offer or holds back. -/
theorem Comes.connected (h : Comes t q u s v)
    (hs : u.reply q s = some (.ok c) ∨ ∃ o, s = .partingFrom c o) :
    Offers c u v ∨ v.HoldsBack t q c ∧
      (u.reply q s = some (.ok c) → u.manager.config.kind = .push) := by
  have hid : ∀ d, (u.reply q s = some (.ok d) ∨ ∃ o, s = .partingFrom d o) → d = c := by
    rintro d (hd | ⟨o, rfl⟩) <;> rcases hs with hc | ⟨o', ho'⟩
    · simpa using hd.symm.trans hc
    · subst ho'
      exact absurd hd (by simp [reply])
    · exact absurd hc (by simp [reply])
    · simp only [AttemptStage.partingFrom.injEq] at ho'
      exact ho'.1
  cases h with
  | asks s' hlate _ _ _ hn =>
    rcases hs with hc | ⟨o, rfl⟩
    · exact absurd (hn.symm.trans hc) (by simp)
    · exact absurd hlate (by simp [isLate])
  | fails e he =>
    rcases hs with hc | ⟨o, rfl⟩
    · exact absurd (he.symm.trans hc) (by simp)
    · exact absurd he (by simp [reply])
  | crashes text hn he =>
    refine .inr ⟨.inr ⟨text, he⟩, fun hc => ?_⟩
    rcases hn with hn | ⟨hk, -⟩
    · exact absurd (hn.symm.trans hc) (by simp)
    · exact hk
  | parts d o hk hr hf hj =>
    obtain rfl := hid d (.inl hr)
    exact .inr ⟨.inl ⟨hf, o, hj⟩, fun _ => hk⟩
  | offers d hr ho =>
    obtain rfl := hid d hr
    exact .inl ho
  | closes r o hdisc =>
    subst hdisc
    exact absurd hs (by simp [reply])

/-- An attempt that has a connection has made its offer, unless it holds back. -/
theorem answered_run (config : RelayConfig) (mine : PeerAddress) (acts : List Act)
    (h : (start config mine).AnsweredAt acts a q (.ok c) i) :
    (∃ j, (start config mine).OffersAt acts a c j) ∨
      config.kind = .push ∧ ((start config mine).run acts).HoldsBack a q c := by
  induction acts using List.reverseRecOn with
  | nil => exact absurd h.1 (by simp)
  | append_singleton acts y ih =>
    have hrec := recent_run config mine acts
    have hkind : ((start config mine).run acts).manager.config.kind = config.kind :=
      congrArg RelayConfig.kind (grows_run (sound_start config mine) acts).config
    rw [run_concat]
    rcases h.cases_concat with hold | ⟨rfl, s, hg, hr⟩
    · -- one that holds back is left as it is, or comes to its offer now
      rcases ih hold with ⟨j, hj⟩ | ⟨hk, ⟨hf, o, hj⟩ | ⟨text, he⟩⟩
      · exact .inl ⟨j, hj.append [y]⟩
      · rcases hrec.attempt_act (role?_of_job? hj) y with ⟨hj', he'⟩ | ⟨rfl, s, hg, hc⟩
        · refine .inr ⟨hk, .inl ⟨?_, o, hj'.trans hj⟩⟩
          rwa [isFinished, he']
        · obtain rfl : s = .partingFrom c o := by simpa using (job?_of_going hg).symm.trans hj
          rcases hc.connected (.inr ⟨o, rfl⟩) with ho | ⟨hback, -⟩
          · exact .inl ⟨_, offersAt_last ho⟩
          · exact .inr ⟨hk, hback⟩
      · exact .inr ⟨hk, .inr ⟨text, (hrec.sound.grows_act y).exit? he⟩⟩
    · rcases (hrec.sound.comes hg).connected (.inl hr) with ho | ⟨hback, hk⟩
      · exact .inl ⟨_, offersAt_last ho⟩
      · exact .inr ⟨hkind.symm.trans (hk hr), hback⟩

/-- The candidate of an attempt that is answered with an error fails then. -/
theorem AnsweredAt.fails {e : RelayError} (h : w.AnsweredAt acts a q (.error e) i) :
    w.FailsAt acts q i := by
  obtain ⟨hact, s, hg, hr⟩ := h
  exact ⟨_, hact, by simp [failing?, hg, failingIn?, hr]⟩

/-- Nobody fails in the step in which an attempt crashes. -/
theorem Recent.crash_unheard (h : w.Recent) (hr : w.role? a = some (.attempt q))
    (hf : w.isFinished a = false) {text : String}
    (he : (w.act y).exit? a = some (.crashed (.collaborator text))) : w.failing? y = none := by
  have hend := isFinished_of_exit? he
  rcases h.attempt_act hr y with ⟨-, hsame⟩ | ⟨rfl, s, hg, hc⟩
  · rw [isFinished, hsame, ← isFinished, hf] at hend
    exact absurd hend (by simp)
  · suffices hn : ∀ e, w.reply q s ≠ some (.error e) by
      cases hreply : w.reply q s with
      | none => simp [failing?, hg, failingIn?, hreply]
      | some answer =>
        cases answer with
        | ok c => simp [failing?, hg, failingIn?, hreply]
        | error e => exact absurd hreply (hn e)
    intro e hreply
    cases hc with
    | asks s' _ _ hf' | parts c o _ _ hf' => exact absurd (hf'.symm.trans hend) (by simp)
    | fails e' _ he' =>
      rcases he' with he' | he' <;> exact absurd (he'.symm.trans he) (by simp)
    | crashes text' hn =>
      rcases hn with hn | ⟨-, c, hn⟩ <;> exact absurd (hn.symm.trans hreply) (by simp)
    | offers c hn =>
      rcases hn with hn | ⟨o, rfl⟩
      · exact absurd (hn.symm.trans hreply) (by simp)
      · exact absurd hreply (by simp [reply])
    | closes r o hs =>
      obtain rfl := hs
      exact absurd hreply (by simp [reply])

end RelayUpkeep.Overlay

import RelayUpkeep.Proofs.Channels
import RelayUpkeep.Proofs.Finality

/-! # The parts of a shutdown

A part of a shutdown makes one call at most, in its first step. In a fair run it comes to its first
step and to its end, and it ends with what its call comes to, whatever becomes of the others. -/

namespace RelayUpkeep

/-- How a part of a shutdown ends when its call was answered. -/
def Outcome.exit : Outcome → Exit
  | succeed => .done
  | fail e => .failed e
  | crash text => .crashed (.collaborator text)

namespace Job

/-- A part of a shutdown that waits for the answer to its call. -/
def hasCalled : Job → Bool
  | closeRelay _ (some _) | releaseCreator _ (some _) => true
  | _ => false

theorem isFresh_of_hasCalled {job : Job} (h : job.hasCalled = true) : job.isFresh = false := by
  unfold hasCalled at h
  split at h <;> first | rfl | exact absurd h (by simp)

end Job

namespace Role

/-- The job of a part of a shutdown: before its first step, and when it waits for an answer. -/
def part? : Role → Option Outcome → Option Job
  | close r, pending => some (.closeRelay r pending)
  | release k, pending => some (.releaseCreator k pending)
  | _, _ => none

theorem hasCalled_of_part? {role : Role} {o : Outcome} {job : Job}
    (h : role.part? (some o) = some job) : job.hasCalled = true := by
  unfold part? at h
  split at h
  · obtain rfl := Option.some.inj h
    rfl
  · obtain rfl := Option.some.inj h
    rfl
  · exact absurd h (by simp)

end Role

namespace Overlay

variable {x : TaskId} {v w : Overlay} {acts : Nat → Act} {n : Nat} {role : Role} {r : RelayId}

/-- The call that a part of a shutdown makes in its first step, with the script of its answer. There
is nothing to call for a relay that is closed already, and nothing at all for a push relay. -/
def call? (w : Overlay) : Role → Option (Event × Script)
  | .close r =>
    match w.relays[r]? with
    | some ⟨_, _, some c, .live _, _⟩ =>
      (w.conns[c]?).map fun conn =>
        (.close c conn.remote, (w.behaviour conn.remote.id).close)
    | _ => none
  | .release k => some (.release k, w.releaseScript)
  | _ => none

/-- What a call comes to, and what a part ends with that has nothing to call. -/
def answer (call : Option (Event × Script)) : Exit :=
  call.elim .done fun c => c.2.outcome.exit

/-- Task `x` has ended, or will end in its next step. -/
def Answered (x : TaskId) (e : Exit) (w : Overlay) : Prop :=
  w.exit? x = some e ∨ w.isFinished x = false ∧ ∃ role o job due,
    Role.part? role (some o) = some job ∧ e = o.exit ∧ w.Pends x job due

/-! ## The first step -/

theorem ended_eq (w : Overlay) (x : TaskId) (o : Outcome) : w.ended x o = w.finish x o.exit := by
  cases o <;> rfl

@[simp] theorem journal_finish (w : Overlay) (x : TaskId) (e : Exit) :
    (w.finish x e).journal = w.journal := by
  obtain ⟨rs, h, -⟩ := w.finish_eq x e
  rw [h]

/-- A part that follows the script of its answer. -/
theorem answered_play (role : Role) (waiting : Outcome → Job)
    (hw : ∀ o, role.part? (some o) = some (waiting o)) (hlt : x < w.tasks.length)
    (hf : w.isFinished x = false) (s : Script) :
    (w.play x s waiting fun w o => w.ended x o).journal = w.journal ∧
      (w.play x s waiting fun w o => w.ended x o).Answered x s.outcome.exit := by
  unfold play
  split
  · simp only [ended_eq]
    exact ⟨journal_finish _ _ _, .inl (exit?_finish_self hf _)⟩
  · refine ⟨rfl, .inr ⟨hf, role, s.outcome, _, w.clock + s.delay, hw s.outcome, rfl, ?_, hf, ?_⟩⟩
    · exact ⟨{ w.tasks[x] with job := waiting s.outcome }, by simp [sleep, setJob, hlt], rfl⟩
    · exact .inr (List.mem_append_right _ (List.mem_singleton_self _))

/-- The events of the calls that are made at the present moment. -/
def entries (w : Overlay) (call : Option (Event × Script)) : List Entry :=
  call.toList.map fun c => ⟨w.clock, c.1⟩

theorem snd_shutRelay {relay : Relay} (hr : w.relays[r]? = some relay) :
    (w.shutRelay r).2 = if relay.signal.isClosed then none else relay.conn := by
  unfold shutRelay
  simp only [hr]
  cases relay.signal with
  | live l => cases relay.watcher <;> rfl
  | lost | shutDown => rfl

/-- What is left to be closed of a relay is what is called. -/
theorem Linked.call?_close (h : w.Linked) (r : RelayId) :
    (w.shutRelay r).2 = none ∧ w.call? (.close r) = none ∨
      ∃ c conn, (w.shutRelay r).2 = some c ∧ w.conns[c]? = some conn ∧ w.call? (.close r) =
        some (.close c conn.remote, (w.behaviour conn.remote.id).close) := by
  cases hr : w.relays[r]? with
  | none => exact .inl ⟨by simp [shutRelay, hr], by simp [call?, hr]⟩
  | some relay =>
    have ht := h.tends r relay hr
    have hsnd := snd_shutRelay hr
    obtain ⟨kind, address, conn, signal, watcher⟩ := relay
    cases signal with
    | lost | shutDown => exact .inl ⟨hsnd, by simp [call?, hr]⟩
    | live l =>
      cases conn with
      | none => exact .inl ⟨hsnd, by simp [call?, hr]⟩
      | some c =>
        unfold Tends at ht
        split at ht
        · obtain ⟨c', a, hc', hlt, -⟩ := ht
          obtain rfl := Option.some.inj hc'
          have hc := List.getElem?_eq_getElem hlt
          exact .inr ⟨c, _, hsnd, hc, by simp [call?, hr, hc]⟩
        · exact absurd ht.1 (by simp)

theorem journal_closeConn {c : ConnId} {conn : Conn} (h : w.conns[c]? = some conn) :
    (w.closeConn c).journal = w.journal ++ [⟨w.clock, .close c conn.remote⟩] := by
  simp only [closeConn, h]
  rcases (w.log (.close c conn.remote)).dropConn_eq c with ⟨-, h⟩ | ⟨-, rs, h, -⟩ <;> rw [h] <;> rfl

theorem pollCloseRelay_eq (w : Overlay) (x : TaskId) (r : RelayId) :
    w.pollCloseRelay x r none = match (w.shutRelay r).2 with
      | none => (w.shutRelay r).1.finish x .done
      | some c => ((w.shutRelay r).1.closeConn c).play x ((w.shutRelay r).1.closeScript c)
          (fun o => .closeRelay r (some o)) fun w o => w.ended x o := by
  unfold pollCloseRelay
  rcases w.shutRelay r with ⟨v, c | c⟩ <;> rfl

theorem answered_pollCloseRelay (h : w.Linked) (hlt : x < w.tasks.length)
    (hf : w.isFinished x = false) :
    (w.pollCloseRelay x r none).journal = w.journal ++ w.entries (w.call? (.close r)) ∧
      (w.pollCloseRelay x r none).Answered x (answer (w.call? (.close r))) := by
  have hg := Grows.shutRelay w r
  have hc := h.call?_close r
  obtain ⟨relays, tasks, ready, hv⟩ := w.shutRelay_frame r
  rw [pollCloseRelay_eq]
  generalize (w.shutRelay r).1 = v at hg hv
  have hf' : v.isFinished x = false := by rw [hv]; exact hf
  rcases hc with ⟨hs, hcall⟩ | ⟨c, conn, hs, hconn, hcall⟩ <;> simp only [hs, hcall]
  · refine ⟨?_, .inl (exit?_finish_self hf' _)⟩
    simp [entries, hv]
  · have hconn' : v.conns[c]? = some conn := by rw [hv]; exact hconn
    have hscript : v.closeScript c = (w.behaviour conn.remote.id).close := by
      simp only [closeScript, hconn']
      rw [hv]
      rfl
    have hst : Stirs x v (v.closeConn c) := stirs_closeConn v c
    have hlt' : x < (v.closeConn c).tasks.length :=
      Nat.lt_of_lt_of_le hlt (hg.trans (.stirs hst)).tasks.length_le
    obtain ⟨hj, ha⟩ := answered_play (.close r) (fun o => .closeRelay r (some o)) (fun _ => rfl)
      hlt' ((hst.isFinished x).trans hf') (v.closeScript c)
    refine ⟨?_, hscript ▸ ha⟩
    rw [hj, journal_closeConn hconn', hv]
    rfl

/-- A part of a shutdown makes its call in its first step, and waits for the answer if that takes
its time. -/
theorem Sound.answered_poll (h : w.Sound) (hx : x ∈ w.ready) (hf : w.isFinished x = false)
    {task : Task} (ht : w.tasks[x]? = some task) (hc : task.isCancelled = false)
    (hp : role.part? none = some task.job) :
    (w.poll x).journal = w.journal ++ w.entries (w.call? role) ∧
      (w.poll x).Answered x (answer (w.call? role)) := by
  have hlt := h.ready x hx
  rw [poll_resume ht hf hc]
  cases role with
  | close r =>
    obtain hj := Option.some.inj hp
    rw [← hj]
    exact answered_pollCloseRelay (w := { w with ready := w.ready.erase x }) (h.rest x).toLinked
      hlt hf
  | release k =>
    obtain hj := Option.some.inj hp
    rw [← hj]
    exact answered_play (w := ({ w with ready := w.ready.erase x } : Overlay).log (.release k))
      (.release k) (fun o => .releaseCreator k (some o)) (fun _ => rfl) hlt hf w.releaseScript
  | setup | shutdown | guard | attempt | watch => exact absurd hp (by simp [Role.part?])

/-! ## After the first step -/

/-- Task `x` has ended, or has made its call. -/
def Past (x : TaskId) (w : Overlay) : Prop := w.isFinished x = true ∨ w.Doing Job.hasCalled x

theorem Answered.past {e : Exit} (h : w.Answered x e) : w.Past x := by
  rcases h with h | ⟨-, role, o, job, due, hp, -, hpends⟩
  · exact .inl (isFinished_of_exit? h)
  · obtain ⟨task, ht, hj⟩ := hpends.task
    exact .inr ⟨hpends.going, task, ht, hj ▸ Role.hasCalled_of_part? hp⟩

/-- A part that was answered ends with the answer. -/
theorem exit?_poll_answered {task : Task} {o : Outcome} (hf : w.isFinished x = false)
    (ht : w.tasks[x]? = some task) (hc : task.isCancelled = false)
    (hp : role.part? (some o) = some task.job) :
    (w.poll x).exit? x = some o.exit ∧ (w.poll x).journal = w.journal := by
  have hend : w.poll x = ({ w with ready := w.ready.erase x } : Overlay).finish x o.exit := by
    rw [poll_resume ht hf hc]
    cases role with
    | close r =>
      rw [← Option.some.inj hp]
      exact ended_eq _ x o
    | release k =>
      rw [← Option.some.inj hp]
      exact ended_eq _ x o
    | setup | shutdown | guard | attempt | watch => exact absurd hp (by simp [Role.part?])
  rw [hend]
  exact ⟨exit?_finish_self (w := { w with ready := w.ready.erase x }) hf _, journal_finish _ _ _⟩

/-- A part that has made its call makes no other, and ends when it goes on. -/
theorem Past.poll (h : w.Past x) :
    (w.poll x).journal = w.journal ∧ (w.poll x).isFinished x = true := by
  rcases h with hf | ⟨hf, task, ht, hp⟩
  · rw [poll_finished hf]
    exact ⟨rfl, hf⟩
  obtain ⟨role, o, hrole⟩ : ∃ role o, Role.part? role (some o) = some task.job := by
    cases hj : task.job with
    | closeRelay r pending =>
      cases pending with
      | some o => exact ⟨.close r, o, rfl⟩
      | none => exact absurd hp (by simp [hj, Job.hasCalled])
    | releaseCreator k pending =>
      cases pending with
      | some o => exact ⟨.release k, o, rfl⟩
      | none => exact absurd hp (by simp [hj, Job.hasCalled])
    | _ => exact absurd hp (by simp [hj, Job.hasCalled])
  cases hc : task.isCancelled with
  | false =>
    obtain ⟨he, hj⟩ := exit?_poll_answered hf ht hc hrole
    exact ⟨hj, isFinished_of_exit? he⟩
  | true =>
    refine ⟨?_, isFinished_poll_cancelled ht hf hc⟩
    rw [poll_abandon ht hf hc]
    obtain ⟨tasks, gate, rs, -, h⟩ :=
      ({ w with ready := w.ready.erase x } : Overlay).abandon_frame x task.job
    rw [h, journal_finish]

theorem Past.act (h : w.Past x) (hs : w.Sound) (y : Act) : (w.act y).Past x := by
  by_cases hy : y = .poll x
  · subst hy
    simp only [Overlay.act]
    split
    · exact .inl h.poll.2
    · exact h
  · exact h.imp (hs.grows_act y).isFinished
      (hs.doing_act hy fun _ => Job.isFresh_of_hasCalled).mpr

theorem Past.after (h : (w.after acts n).Past x) (hs : w.Sound) {m : Nat} (hnm : n ≤ m) :
    (w.after acts m).Past x := by
  induction hnm with
  | refl => exact h
  | step _ ih => exact ih.act (hs.after acts _) _

/-- At moment `m`, part `x` of a shutdown takes its first step and makes its call. It makes no
other, and ends with what the call comes to. -/
structure CarriesOut (acts : Nat → Act) (x : TaskId) (role : Role) (m : Nat) (w : Overlay) :
    Prop where
  turn : acts m = .poll x
  ready : x ∈ (w.after acts m).ready
  going : (w.after acts m).isFinished x = false
  calls : (w.after acts (m + 1)).journal =
    (w.after acts m).journal ++ (w.after acts m).entries ((w.after acts m).call? role)
  once : ∀ n, n ≠ m → acts n = .poll x →
    (w.after acts (n + 1)).journal = (w.after acts n).journal
  ends : ∃ k, m < k ∧
    (w.after acts k).exit? x = some (answer ((w.after acts m).call? role))

theorem after_not_ready (ha : acts n = .poll x) (hx : x ∉ (w.after acts n).ready) :
    w.after acts (n + 1) = w.after acts n := by
  rw [Overlay.after, ha, Overlay.act, if_neg hx]

/-- In a fair run, a part of a shutdown that nobody asks to end carries out what it is for. -/
theorem Fair.carries_out (h : w.Fair acts) (hs : w.Sound) {job : Job} {due : Nat}
    (hp : (w.after acts n).Pends x job due) (hrole : role.part? none = some job)
    (hsteady : ∀ m, n ≤ m → ∀ task : Task, (w.after acts m).tasks[x]? = some task →
      task.isCancelled = false)
    (hnew : ∀ i, i < n → x ∉ (w.after acts i).ready) :
    ∃ m, n ≤ m ∧ w.CarriesOut acts x role m := by
  obtain ⟨m, hm, hpoll, hready, hpm, -, hfirst⟩ :=
    h.goes_first hs hp (P := fun _ => True) trivial fun _ _ _ _ => trivial
  obtain ⟨task, ht, hj⟩ := hpm.task
  have hnext := after_poll hpoll hready
  obtain ⟨hcalls, hans⟩ := (hs.after acts m).answered_poll hready hpm.going ht
    (hsteady m hm task ht) (hj ▸ hrole)
  rw [← hnext] at hcalls hans
  refine ⟨m, hm, hpoll, hready, hpm.going, hcalls, fun i hi ha => ?_, ?_⟩
  · by_cases hx : x ∈ (w.after acts i).ready
    · have hlt : m < i := by
        rcases Nat.lt_trichotomy i m with hlt | heq | hgt
        · refine absurd ⟨ha, hx⟩ (hfirst i (Nat.le_of_not_lt fun hin => hnew i hin hx) hlt)
        · exact absurd heq hi
        · exact hgt
      rw [after_poll ha hx]
      exact (hans.past.after hs hlt).poll.1
    · rw [after_not_ready ha hx]
  · rcases hans with he | ⟨-, role', o, job', due', hp', heq, hpends⟩
    · exact ⟨m + 1, Nat.lt_succ_self m, he⟩
    · obtain ⟨k, hk, hpollk, hreadyk, hpk⟩ := h.goes hs hpends
      obtain ⟨task', ht', hj'⟩ := hpk.task
      have hmk := Nat.lt_of_succ_le hk
      have hck := hsteady k (Nat.le_trans hm (Nat.le_of_lt hmk)) task' ht'
      refine ⟨k + 1, Nat.lt_succ_of_lt hmk, ?_⟩
      rw [after_poll hpollk hreadyk, heq]
      exact (exit?_poll_answered hpk.going ht' hck (hj' ▸ hp')).1

end Overlay

end RelayUpkeep

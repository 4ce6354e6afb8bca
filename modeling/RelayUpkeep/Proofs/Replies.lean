import RelayUpkeep.Proofs.OutsideActs

/-! # What attempts are answered

In one step an attempt goes on as far as its collaborators answer at once. It comes by a connection
or by an error in that step, or neither: one of them takes its time, or crashes. -/

namespace RelayUpkeep

/-- The answer of a collaborator who does not take its time. -/
def Script.immediate? (s : Script) : Option Outcome :=
  if s.delay = 0 then some s.outcome else none

/-- Someone is asked for a connection or for a handshake. -/
def Event.isAsk : Event → Bool
  | .connect .. | .handshake .. => true
  | _ => false

namespace Overlay

variable {t : TaskId} {q : PeerAddress} {u v w : Overlay} {s s' : AttemptStage}

/-! ## Replies -/

/-- What the answer to a handshake over connection `c` comes to. The connection of a stand-in is
connection `n`. -/
def handshakeReply (w : Overlay) (q : PeerAddress) (c n : ConnId) :
    Outcome → Option (Except RelayError ConnId)
  | .succeed => some (.ok (if (w.behaviour q.id).standIn.isSome then n else c))
  | .fail e => some (.error e)
  | .crash _ => none

/-- What the answer to a request for a connection comes to. -/
def connectReply (w : Overlay) (q : PeerAddress) : Outcome → Option (Except RelayError ConnId)
  | .succeed => (w.behaviour q.id).handshake.immediate?.bind
      (w.handshakeReply q w.conns.length (w.conns.length + 1))
  | .fail e => some (.error e)
  | .crash _ => none

/-- What an attempt for `q` comes by in its next step: a connection that is established, or the
error of whoever does not answer as it should. -/
def reply (w : Overlay) (q : PeerAddress) : AttemptStage → Option (Except RelayError ConnId)
  | .entering => (w.behaviour q.id).connect.immediate?.bind (w.connectReply q)
  | .connecting o => w.connectReply q o
  | .shaking c o => w.handshakeReply q c w.conns.length o
  | .partingFrom .. | .discarding .. => none

theorem handshakeReply_ok {c n d : ConnId} {o : Outcome}
    (h : w.handshakeReply q c n o = some (.ok d)) : d = c ∨ d = n := by
  cases o with
  | succeed =>
    simp only [handshakeReply, Option.some.injEq, Except.ok.injEq] at h
    split at h
    · exact .inr h.symm
    · exact .inl h.symm
  | fail | crash => exact absurd h (by simp [handshakeReply])

theorem connectReply_ok {d : ConnId} {o : Outcome} (h : w.connectReply q o = some (.ok d)) :
    w.conns.length ≤ d := by
  cases o with
  | succeed =>
    obtain ⟨o, -, ho⟩ := Option.bind_eq_some_iff.mp h
    rcases handshakeReply_ok ho with rfl | rfl
    · exact Nat.le_refl _
    · exact Nat.le_succ _
  | fail | crash => exact absurd h (by simp [connectReply])

/-- A connection that is established was just made, or is the one that the attempt waits on. -/
theorem reply_ok {c : ConnId} (h : w.reply q s = some (.ok c)) :
    w.conns.length ≤ c ∨ ∃ o, s = .shaking c o := by
  cases s with
  | entering =>
    obtain ⟨o, -, ho⟩ := Option.bind_eq_some_iff.mp h
    exact .inl (connectReply_ok ho)
  | connecting o => exact .inl (connectReply_ok h)
  | shaking d o =>
    rcases handshakeReply_ok h with rfl | rfl
    · exact .inr ⟨o, rfl⟩
    · exact .inl (Nat.le_refl _)
  | partingFrom | discarding => exact absurd h (by simp [reply])

/-! ## On the way to an answer -/

/-- The journal is added to by events of a kind. -/
def Adds (P : Event → Prop) (u v : Overlay) : Prop :=
  ∃ more, v.journal = u.journal ++ more ∧ ∀ e ∈ more, P e.event

namespace Adds

variable {P Q : Event → Prop}

theorem of_eq (h : v.journal = u.journal) : u.Adds P v := ⟨[], by simp [h], by simp⟩

theorem trans (h : u.Adds P v) (h' : v.Adds P w) : u.Adds P w := by
  obtain ⟨more, hj, hm⟩ := h
  obtain ⟨rest, hj', hr⟩ := h'
  refine ⟨more ++ rest, by rw [hj', hj, List.append_assoc], fun e he => ?_⟩
  exact (List.mem_append.mp he).elim (hm e) (hr e)

theorem log (w : Overlay) {e : Event} (h : P e) : w.Adds P (w.log e) :=
  ⟨[⟨w.clock, e⟩], rfl, by simpa using h⟩

theorem mono (h : u.Adds P v) (hpq : ∀ e, P e → Q e) : u.Adds Q v := by
  obtain ⟨more, hj, hm⟩ := h
  exact ⟨more, hj, fun e he => hpq _ (hm e he)⟩

end Adds

/-- Connections are opened or drop, collaborators are asked, and nothing else happens. -/
structure Approaches (t : TaskId) (u v : Overlay) : Prop where
  stirs : Stirs t u v
  frame : ∃ conns ready journal, v = { u with conns, ready, journal }
  asks : u.Adds (fun e => e.isAsk = true) v

namespace Approaches

theorem refl (w : Overlay) : Approaches t w w := ⟨.refl, ⟨_, _, _, rfl⟩, .of_eq rfl⟩

theorem trans (h : Approaches t u v) (h' : Approaches t v w) : Approaches t u w := by
  obtain ⟨hs, ⟨conns, ready, journal, rfl⟩, ha⟩ := h
  obtain ⟨hs', ⟨conns', ready', journal', rfl⟩, ha'⟩ := h'
  exact ⟨hs.trans hs', ⟨_, _, _, rfl⟩, ha.trans ha'⟩

theorem log (w : Overlay) {e : Event} (h : e.isAsk = true) (hp : e.isPlain)
    (hr : e.isReserve = false) : Approaches t w (w.log e) :=
  ⟨(Stir.log w e hp fun hres => absurd (hres.symm.trans hr) (by simp)).one, ⟨_, _, _, rfl⟩,
    .log w h⟩

theorem openConn (w : Overlay) (remote : PeerAddress) : Approaches t w (w.openConn remote).1 :=
  ⟨(Stir.openConn w remote).one, ⟨_, _, _, rfl⟩, .of_eq rfl⟩

theorem dropConn (w : Overlay) (c : ConnId) : Approaches t w (w.dropConn c) := by
  have hs : Stirs t w (w.dropConn c) := (Stir.dropConn w c).one
  rcases w.dropConn_eq c with ⟨-, h⟩ | ⟨-, rs, h, -⟩ <;> rw [h] at hs ⊢
  · exact .refl w
  · exact ⟨hs, ⟨_, _, _, rfl⟩, .of_eq rfl⟩

theorem arrive (w : Overlay) (id : PeerId) : Approaches t w (w.arrive id) := by
  unfold Overlay.arrive dropLink
  split
  · split
    · exact .dropConn _ _
    · exact .refl w
  · exact .refl w

end Approaches

theorem length_arrive (w : Overlay) (id : PeerId) :
    (w.arrive id).conns.length = w.conns.length := by
  unfold arrive dropLink
  split
  · split
    · next c _ =>
      rcases w.dropConn_eq c with ⟨-, h⟩ | ⟨-, rs, h, -⟩ <;> rw [h]
      exact List.length_modify _ _ _
    · rfl
  · rfl

/-! ## Steps of attempts -/

/-- What an attempt for `q` does in one step. -/
inductive Tries (t : TaskId) (q : PeerAddress) (u : Overlay) : AttemptStage → Overlay → Prop
  | connects {v : Overlay} {s : AttemptStage} {o : Outcome} {delay : Nat} (h : Approaches t u v)
      (hn : u.reply q s = none) : Tries t q u s (v.sleep t (.attempt q (.connecting o)) delay)
  | shakes {v : Overlay} {s : AttemptStage} {c : ConnId} {o : Outcome} {delay : Nat}
      (h : Approaches t u v) (hc : u.conns.length ≤ c) (hn : u.reply q s = none) :
      Tries t q u s (v.sleep t (.attempt q (.shaking c o)) delay)
  | fails {v : Overlay} {s : AttemptStage} {e : RelayError} (h : Approaches t u v)
      (hr : u.reply q s = some (.error e)) : Tries t q u s (v.failAttempt t q e)
  | crashes {v : Overlay} {s : AttemptStage} {text : String} (h : Approaches t u v)
      (hn : u.reply q s = none) : Tries t q u s (v.finish t (.crashed (.collaborator text)))
  | establishes {v : Overlay} {s : AttemptStage} {c : ConnId} {conn : Conn} (h : Approaches t u v)
      (hc : v.conns[c]? = some conn) (hr : u.reply q s = some (.ok c)) :
      Tries t q u s (v.establish t q c conn.remote)
  | parts (c : ConnId) (o : Outcome) : Tries t q u (.partingFrom c o) (u.parted t q c o)
  | discards (r : RelayId) (o : Outcome) : Tries t q u (.discarding r o) (u.discarded t o)

/-- The attempt has not been answered to the end. -/
def isAsking : AttemptStage → Bool
  | .connecting _ | .shaking .. => true
  | _ => false

/-- A step goes on in the next stage as long as the answers are immediate. -/
theorem Tries.after (ht : Tries t q v s' w) (h : Approaches t u v) (hs : isAsking s' = true)
    (hr : v.reply q s' = u.reply q s) (hle : u.conns.length ≤ v.conns.length) :
    Tries t q u s w := by
  cases ht with
  | connects h' hn => exact .connects (h.trans h') (hr ▸ hn)
  | shakes h' hc hn => exact .shakes (h.trans h') (Nat.le_trans hle hc) (hr ▸ hn)
  | fails h' hr' => exact .fails (h.trans h') (hr ▸ hr')
  | crashes h' hn => exact .crashes (h.trans h') (hr ▸ hn)
  | establishes h' hc hr' => exact .establishes (h.trans h') hc (hr ▸ hr')
  | parts | discards => exact absurd hs (by simp [isAsking])

theorem tries_shaken {c : ConnId} {o : Outcome} (hj : w.Refers t (.attempt q (.shaking c o))) :
    Tries t q w (.shaking c o) (w.shaken t q c o) := by
  cases o with
  | crash text => exact .crashes (.refl w) rfl
  | fail e => exact .fails (.refl w) rfl
  | succeed =>
    obtain ⟨conn, hc, rfl⟩ := hj
    have ha : Approaches t w (w.arrive conn.remote.id) := .arrive w _
    obtain ⟨conn', hc', hremote⟩ := Stirs.remote ha.stirs hc
    simp only [shaken, hc]
    cases hb : (w.behaviour conn.remote.id).standIn with
    | none =>
      have he : Tries t conn.remote w (.shaking c .succeed)
          ((w.arrive conn.remote.id).establish t conn.remote c conn'.remote) :=
        .establishes ha hc' (by simp [reply, handshakeReply, hb])
      rwa [hremote] at he
    | some other =>
      have hlast : ((w.arrive conn.remote.id).openConn other).1.conns[
          ((w.arrive conn.remote.id).openConn other).2]? = some ⟨other, true⟩ :=
        List.getElem?_concat_length
      have hlen : ((w.arrive conn.remote.id).openConn other).2 = w.conns.length :=
        length_arrive w conn.remote.id
      exact .establishes (ha.trans (.openConn _ other)) hlast
        (by rw [hlen]; simp [reply, handshakeReply, hb])

theorem tries_connected (o : Outcome) : Tries t q w (.connecting o) (w.connected t q o) := by
  cases o with
  | crash text => exact .crashes (.refl w) rfl
  | fail e => exact .fails (.refl w) rfl
  | succeed =>
    have ha : Approaches t w ((w.openConn q).1.log (.handshake t (w.openConn q).2 q)) :=
      (Approaches.openConn w q).trans (.log _ rfl rfl rfl)
    have hc : ((w.openConn q).1.log (.handshake t (w.openConn q).2 q)).conns[
        (w.openConn q).2]? = some ⟨q, true⟩ := List.getElem?_concat_length
    simp only [connected, play]
    split
    · next hd =>
      refine (tries_shaken ⟨_, hc, rfl⟩).after ha rfl ?_ ?_
      · have hi : (w.behaviour q.id).handshake.immediate? =
            some (w.behaviour q.id).handshake.outcome := if_pos hd
        have hlen : (w.openConn q).1.conns.length = w.conns.length + 1 := List.length_append
        simp only [reply, connectReply, hi, Option.bind_some, log, hlen]
        rfl
      · exact (Grows.stirs ha.stirs).conns.length_le
    · next hd =>
      have hi : (w.behaviour q.id).handshake.immediate? = none := if_neg hd
      exact .shakes ha (Nat.le_refl _) (by simp [reply, connectReply, hi])

theorem tries_enterAttempt (w : Overlay) : Tries t q w .entering (w.enterAttempt t q) := by
  have ha : Approaches t w (w.log (.connect t q)) := .log w rfl rfl rfl
  simp only [enterAttempt, play]
  split
  · next hd =>
    refine (tries_connected _).after ha rfl ?_ (Nat.le_refl _)
    have hi : (w.behaviour q.id).connect.immediate? = some (w.behaviour q.id).connect.outcome :=
      if_pos hd
    simp only [reply, hi, Option.bind_some]
    rfl
  · next hd =>
    have hi : (w.behaviour q.id).connect.immediate? = none := if_neg hd
    exact .connects ha (by simp [reply, hi])

theorem tries_pollAttempt (hj : w.Refers t (.attempt q s)) :
    Tries t q w s (w.pollAttempt t q s) := by
  cases s with
  | entering => exact tries_enterAttempt w
  | connecting o => exact tries_connected o
  | shaking c o => exact tries_shaken hj
  | partingFrom c o => exact .parts c o
  | discarding r o => exact .discards r o

/-! ## What comes after an answer -/

theorem discarded_eq (w : Overlay) (t : TaskId) (o : Outcome) :
    ∃ e, e ≠ .cancelled ∧ w.discarded t o = w.finish t e := by
  cases o <;> exact ⟨_, by simp, rfl⟩

/-- Once it has parted from the connection, an attempt ends or offers a relay. -/
theorem parted_cases (w : Overlay) (t : TaskId) (q : PeerAddress) (c : ConnId) (o : Outcome) :
    (∃ e, e ≠ .cancelled ∧ w.parted t q c o = w.finish t e) ∨
    ∃ p, w.parted t q c o = (w.addPushRelay p).1.offer t q w.relays.length p := by
  have hoffer : (∃ e, e ≠ .cancelled ∧ w.parted t q c .succeed = w.finish t e) ∨
      ∃ p, w.parted t q c .succeed = (w.addPushRelay p).1.offer t q w.relays.length p := by
    simp only [parted]
    split
    · exact .inl ⟨.done, by simp, rfl⟩
    · exact .inr ⟨_, rfl⟩
  cases o with
  | crash text => exact .inl ⟨.crashed (.collaborator text), by simp, rfl⟩
  | succeed | fail => exact hoffer

theorem addPushRelay_last (w : Overlay) (p : PeerAddress) :
    (w.addPushRelay p).1.relays[w.relays.length]? = some ⟨.push, p, none, .live none, none⟩ :=
  List.getElem?_concat_length

theorem addOpenRelay_last (w : Overlay) (c : ConnId) (p : PeerAddress) :
    (w.addOpenRelay c p).1.relays[w.relays.length]? =
      some ⟨.openTcp, p, some c, .live none, some w.tasks.length⟩ :=
  List.getElem?_concat_length

/-! ## Steps of tasks -/

theorem Job.eq_attempt {job : Job} (h : job.role = .attempt q) : ∃ s, job = .attempt q s := by
  cases job <;> simp [Job.role] at h ⊢
  exact h

/-- The job that a task goes on with when it is polled. -/
def going? (w : Overlay) (t : TaskId) : Option Job :=
  if t ∈ w.ready ∧ w.isFinished t = false then
    (w.tasks[t]?).bind fun task => if task.isCancelled then none else some task.job
  else none

theorem going?_eq_some {job : Job} : w.going? t = some job ↔ t ∈ w.ready ∧
    w.isFinished t = false ∧ ∃ task, w.tasks[t]? = some task ∧ task.isCancelled = false ∧
      task.job = job := by
  unfold going?
  split
  · next h => simp [Option.bind_eq_some_iff, h]
  · next h => simpa using fun hr hf => absurd ⟨hr, hf⟩ h

theorem act_of_going {job : Job} (h : w.going? t = some job) : w.act (.poll t) =
    ({ w with ready := w.ready.erase t } : Overlay).resume t job := by
  obtain ⟨hr, hf, task, ht, hc, rfl⟩ := going?_eq_some.mp h
  rw [act, if_pos hr, poll_resume ht hf hc]

theorem role?_of_going {job : Job} (h : w.going? t = some job) : w.role? t = some job.role := by
  obtain ⟨-, -, task, ht, -, rfl⟩ := going?_eq_some.mp h
  exact role?_eq_some.mpr ⟨task, ht, rfl⟩

/-- An act comes from outside, or a task is polled, and goes on with its job or does not. -/
theorem act_cases (w : Overlay) (x : Act) : x.isPoll = false ∨
    ∃ t, x = .poll t ∧ (w.going? t = none ∨ ∃ job, w.going? t = some job) := by
  cases x with
  | poll t => exact .inr ⟨t, rfl, Option.eq_none_or_eq_some _⟩
  | _ => exact .inl rfl

/-- A task that does not go on is not there to be polled, or was asked to end. -/
theorem Sound.act_of_not_going (hs : w.Sound) (h : w.going? t = none) : w.act (.poll t) = w ∨
    w.act (.poll t) = { w with ready := w.ready.erase t } ∨
    ∃ task, w.tasks[t]? = some task ∧ task.isCancelled = true ∧ w.isFinished t = false ∧
      w.act (.poll t) = ({ w with ready := w.ready.erase t } : Overlay).abandon t task.job := by
  by_cases hr : t ∈ w.ready
  swap
  · exact .inl (if_neg hr)
  rw [Overlay.act, if_pos hr]
  cases hf : w.isFinished t with
  | true => exact .inr (.inl (poll_finished hf))
  | false =>
    have ht := List.getElem?_eq_getElem (hs.ready t hr)
    refine .inr (.inr ⟨_, ht, ?_, rfl, ?_⟩)
    · by_contra hc
      have hg := going?_eq_some.mpr ⟨hr, hf, _, ht, Bool.eq_false_iff.mpr hc, rfl⟩
      exact absurd (h.symm.trans hg) (by simp)
    · refine poll_abandon ht hf ?_
      by_contra hc
      have hg := going?_eq_some.mpr ⟨hr, hf, _, ht, Bool.eq_false_iff.mpr hc, rfl⟩
      exact absurd (h.symm.trans hg) (by simp)

theorem Sound.tries (h : w.Sound) (hg : w.going? t = some (.attempt q s)) :
    Tries t q { w with ready := w.ready.erase t } s (w.act (.poll t)) := by
  obtain ⟨-, -, task, ht, -, hj⟩ := going?_eq_some.mp hg
  rw [act_of_going hg]
  refine tries_pollAttempt ?_
  exact (hj ▸ h.refers t task ht : w.Refers t (.attempt q s)).mono { Grows.refl w with }

end Overlay

end RelayUpkeep

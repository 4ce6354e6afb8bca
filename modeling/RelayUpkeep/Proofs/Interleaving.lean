import RelayUpkeep.Overlay.Schedule

/-! # Interleavings

What can happen to a node from outside, and in which order its tasks go on, is a list of acts. A
run is the fold of its acts; nothing is said about who is fair to whom. -/

namespace RelayUpkeep

/-- A peer that can be reached directly. -/
def PeerAddress.sample (n : UInt8) : PeerAddress :=
  .direct (.uniform n) ⟨.v4 #v[192, 0, 2, n], 4000, 4001⟩

inductive Act
  | poll (t : TaskId)
  | elapse (ms : Nat)
  | setUp (manual : List PeerAddress) (maxFail : Nat)
  | shutDown
  | closeRelay (r : RelayId)
  | cancel (t : TaskId)
  | observe (o : Observer)
  | listen (r : RelayId) (label : String) (nested : Option String)
  | dropConn (c : ConnId)
  | behave (peers : List PeerAddress) (b : Behaviour)
  | learn (peers : List PeerAddress)
  | nodeDown (isDown : Bool)
  | reservation (reserve release : Script)
  | hold
  | dropManager
  | moveTo (address : PeerAddress)
  deriving DecidableEq, Repr

namespace Act

/-- Tasks go on and time passes, and nothing else happens. -/
def isSchedule : Act → Bool
  | poll _ | elapse _ => true
  | _ => false

def isPoll : Act → Bool
  | poll _ => true
  | _ => false

theorem ne_poll {a : Act} (h : a.isPoll = false) (t : TaskId) : a ≠ .poll t := by
  rintro rfl
  exact absurd h (by simp [isPoll])

/-- Someone else replaces the address of the node. -/
def movesNode : Act → Bool
  | moveTo _ => true
  | _ => false

end Act

namespace Overlay

/-- Whether a task is a call, so that whoever made it can give it up. -/
def isCall (w : Overlay) (t : TaskId) : Bool :=
  match w.tasks[t]? with
  | some ⟨.setup .., _, _⟩ | some ⟨.shutdown _, _, _⟩ | some ⟨.closeRelay .., none, _⟩ => true
  | _ => false

/-- Only a task that is ready goes on, and only a relay that was made can be closed. -/
def act (w : Overlay) : Act → Overlay
  | .poll t => if t ∈ w.ready then w.poll t else w
  | .elapse ms => w.advanceTo (w.clock + ms)
  | .setUp manual maxFail => (w.spawn (.setup manual maxFail .entering) none).1
  | .shutDown => (w.spawn (.shutdown .entering) none).1
  | .closeRelay r => if r < w.relays.length then (w.spawn (.closeRelay r none) none).1 else w
  | .cancel t => if w.isCall t then w.cancel t else w
  | .observe o => w.withManager fun m => { m with observers := m.observers ++ [o] }
  | .listen r label nested => (w.listen r (.note label nested false)).1
  | .dropConn c => w.dropConn c
  | .behave peers b => { w with behaviours := peers.map (fun p => (p.id, b)) ++ w.behaviours }
  | .learn peers => { w with routing := peers }
  | .nodeDown isDown => { w with node := { w.node with isDown } }
  | .reservation reserve release =>
    { w with reserveScript := reserve, releaseScript := release }
  | .hold => { w with held := w.pooled }
  | .dropManager => { w with managerHeld := false }
  | .moveTo address => { w with node := { w.node with address } }

def run (w : Overlay) (acts : List Act) : Overlay := acts.foldl act w

@[simp] theorem run_nil (w : Overlay) : w.run [] = w := rfl

@[simp] theorem run_cons (w : Overlay) (a : Act) (acts : List Act) :
    w.run (a :: acts) = (w.act a).run acts := rfl

theorem run_append (w : Overlay) (acts more : List Act) :
    w.run (acts ++ more) = (w.run acts).run more := List.foldl_append

theorem run_concat (w : Overlay) (acts : List Act) (a : Act) :
    w.run (acts ++ [a]) = (w.run acts).act a := by
  rw [run_append, run_cons, run_nil]

theorem run_take_drop (w : Overlay) (acts : List Act) (i : Nat) :
    (w.run (acts.take i)).run (acts.drop i) = w.run acts := by
  rw [← run_append, List.take_append_drop]

theorem run_take_succ {w : Overlay} {acts : List Act} {i : Nat} {a : Act} (h : acts[i]? = some a) :
    w.run (acts.take (i + 1)) = (w.run (acts.take i)).act a := by
  rw [List.take_add_one, h, Option.toList_some, run_concat]

theorem run_at {w : Overlay} {acts : List Act} {i : Nat} {a : Act} (h : acts[i]? = some a) :
    w.run acts = ((w.run (acts.take i)).act a).run (acts.drop (i + 1)) := by
  rw [← run_take_succ h, run_take_drop]

section Places

variable {acts : List Act} {i : Nat} {a : Act}

theorem getElem?_append_of_eq_some (h : acts[i]? = some a) (more : List Act) :
    (acts ++ more)[i]? = some a :=
  (List.getElem?_append_left (List.getElem?_eq_some_iff.mp h).1).trans h

theorem take_append_of_eq_some (h : acts[i]? = some a) (more : List Act) :
    (acts ++ more).take i = acts.take i :=
  List.take_append_of_le_length (Nat.le_of_lt (List.getElem?_eq_some_iff.mp h).1)

theorem take_succ_append_of_eq_some (h : acts[i]? = some a) (more : List Act) :
    (acts ++ more).take (i + 1) = acts.take (i + 1) :=
  List.take_append_of_le_length (List.getElem?_eq_some_iff.mp h).1

end Places

/-- Every act of a run is allowed in the state that it meets. -/
def Along (allowed : Overlay → Act → Prop) : Overlay → List Act → Prop
  | _, [] => True
  | w, a :: acts => allowed w a ∧ (w.act a).Along allowed acts

instance decidableAlong {allowed : Overlay → Act → Prop} [∀ w a, Decidable (allowed w a)] :
    (w : Overlay) → (acts : List Act) → Decidable (w.Along allowed acts)
  | _, [] => .isTrue trivial
  | w, a :: acts =>
    have : Decidable ((w.act a).Along allowed acts) := decidableAlong (w.act a) acts
    inferInstanceAs (Decidable (allowed w a ∧ (w.act a).Along allowed acts))

theorem along_append {allowed : Overlay → Act → Prop} {w : Overlay} {acts more : List Act} :
    w.Along allowed (acts ++ more) ↔ w.Along allowed acts ∧ (w.run acts).Along allowed more := by
  induction acts generalizing w with
  | nil => simp [Along]
  | cons a acts ih => simp only [List.cons_append, Along, ih, run_cons, and_assoc]

theorem along_concat {allowed : Overlay → Act → Prop} {w : Overlay} {acts : List Act} {a : Act} :
    w.Along allowed (acts ++ [a]) ↔ w.Along allowed acts ∧ allowed (w.run acts) a := by
  simp [along_append, Along]

/-- What every allowed act keeps, a run keeps. -/
theorem run_induction {P : Overlay → Prop} {allowed : Overlay → Act → Prop} {w : Overlay}
    (h : P w) (step : ∀ v a, P v → allowed v a → P (v.act a)) (acts : List Act)
    (ha : w.Along allowed acts) : P (w.run acts) := by
  induction acts generalizing w with
  | nil => exact h
  | cons a acts ih => exact ih (step w a h ha.1) ha.2

/-! ## What runs by itself is an interleaving -/

/-- What follows by tasks going on and time passing. -/
def Follows (w w' : Overlay) : Prop :=
  ∃ acts : List Act, (∀ a ∈ acts, a.isSchedule) ∧ w' = w.run acts

theorem Follows.refl (w : Overlay) : w.Follows w := ⟨[], by simp, rfl⟩

theorem Follows.trans {u v w : Overlay} (h : u.Follows v) (h' : v.Follows w) : u.Follows w := by
  obtain ⟨acts, ha, rfl⟩ := h
  obtain ⟨more, hm, rfl⟩ := h'
  refine ⟨acts ++ more, ?_, (run_append _ _ _).symm⟩
  intro a hmem
  rcases List.mem_append.mp hmem with hmem | hmem
  · exact ha a hmem
  · exact hm a hmem

theorem follows_poll {w : Overlay} {t : TaskId} (h : t ∈ w.ready) : w.Follows (w.poll t) :=
  ⟨[.poll t], by simp [Act.isSchedule], by simp [act, h]⟩

theorem follows_drain (foreground : Option TaskId) (fuel : Nat) (w : Overlay) :
    w.Follows (drain foreground fuel w) := by
  induction fuel generalizing w with
  | zero => exact .refl w
  | succ fuel ih =>
    simp only [drain]
    split
    · exact .refl w
    · next t ht => exact (follows_poll (List.mem_of_find?_eq_some ht)).trans (ih _)

end Overlay

end RelayUpkeep

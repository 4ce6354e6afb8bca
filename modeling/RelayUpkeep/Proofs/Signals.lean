import RelayUpkeep.CloseSignal
import Mathlib.Data.List.TakeWhile

/-! # What becomes of a close signal

Whatever is done to a signal, in whatever order, one deed closes it at most and one listener is
called at most. Which listener that is can be read off the deeds alone.
-/

namespace RelayUpkeep.CloseSignal

variable {α : Type}

/-- What can be done to a signal. -/
inductive Deed (α : Type)
  | attach (l : α)
  | lose
  | shut
  deriving DecidableEq, Repr

namespace Deed

/-- Whether a deed closes a signal that is open. -/
def closes : Deed α → Bool
  | attach _ => false
  | lose | shut => true

def listener? : Deed α → Option α
  | attach l => some l
  | lose | shut => none

end Deed

/-- Do a deed. The second component is the listener to call at once, the third whether this closed
the link. -/
def apply (s : CloseSignal α) : Deed α → CloseSignal α × Option α × Bool
  | .attach l => ((s.listen l).1, (s.listen l).2, false)
  | .lose => s.lose
  | .shut => (s.shut.1, none, s.shut.2)

def after (s : CloseSignal α) : List (Deed α) → CloseSignal α
  | [] => s
  | d :: ds => (s.apply d).1.after ds

theorem after_append (s : CloseSignal α) (ds ds' : List (Deed α)) :
    s.after (ds ++ ds') = (s.after ds).after ds' := by
  induction ds generalizing s with
  | nil => rfl
  | cons d ds ih => exact ih _

/-- The listeners that some deeds call, in the order of the calls. -/
def called (s : CloseSignal α) : List (Deed α) → List α
  | [] => []
  | d :: ds => (s.apply d).2.1.toList ++ (s.apply d).1.called ds

/-- How many of some deeds say that they closed the link. -/
def closings (s : CloseSignal α) : List (Deed α) → Nat
  | [] => 0
  | d :: ds => (s.apply d).2.2.toNat + (s.apply d).1.closings ds

/-! ## Closing -/

@[simp] theorem apply_isClosed (s : CloseSignal α) (d : Deed α) :
    (s.apply d).1.isClosed = (s.isClosed || d.closes) := by
  rcases s with listener | (_ | _) | _ <;> cases d <;> rfl

/-- The deed that closes is a loss or a shutdown of a link that is still open. -/
theorem apply_closed (s : CloseSignal α) (d : Deed α) :
    (s.apply d).2.2 = (!s.isClosed && d.closes) := by
  rcases s with listener | (_ | _) | _ <;> cases d <;> rfl

theorem isClosed_after (s : CloseSignal α) (ds : List (Deed α)) :
    (s.after ds).isClosed = (s.isClosed || ds.any Deed.closes) := by
  induction ds generalizing s with
  | nil => simp [after]
  | cons d ds ih => simp [after, ih, Bool.or_assoc]

theorem closings_eq (s : CloseSignal α) (ds : List (Deed α)) :
    s.closings ds = (!s.isClosed && ds.any Deed.closes).toNat := by
  induction ds generalizing s with
  | nil => simp [closings]
  | cons d ds ih =>
    rw [closings, ih, apply_closed, apply_isClosed, List.any_cons]
    cases s.isClosed <;> cases d.closes <;> simp

/-- Who is called is told once, and the signal knows that. -/
theorem apply_called {s : CloseSignal α} {d : Deed α} {l : α} (h : (s.apply d).2.1 = some l) :
    (s.apply d).1 = .lost true := by
  rcases s with (_ | _) | (_ | _) | _ <;> cases d <;>
    simp_all [apply, listen, lose, shut]

/-! ## Calling -/

def attached (ds : List (Deed α)) : List α := ds.filterMap Deed.listener?

/-- The listener that is called for what was done to a new signal: if a loss closed it, the last
one attached before or, if there was none, the first one attached afterwards. -/
def chosen (ds : List (Deed α)) : Option α :=
  match ds.dropWhile fun d => !d.closes with
  | .lose :: rest =>
    (attached (ds.takeWhile fun d => !d.closes)).getLast?.or (attached rest).head?
  | _ => none

/-- A signal that nothing closes has the listener that was attached last. -/
theorem after_of_open (l : Option α) {ds : List (Deed α)} (h : ds.any Deed.closes = false) :
    (live l).after ds = live ((attached ds).getLast?.or l) := by
  induction ds generalizing l with
  | nil => rfl
  | cons d ds ih =>
    obtain ⟨hd, hds⟩ := Bool.or_eq_false_iff.mp (List.any_cons.symm.trans h)
    cases d with
    | attach l' =>
      refine (ih (some l') hds).trans ?_
      have ha : attached (.attach l' :: ds) = l' :: attached ds := rfl
      rw [ha, List.getLast?_cons]
      cases (attached ds).getLast? <;> rfl
    | lose | shut => exact absurd hd (by simp [Deed.closes])

/-- A listener that is attached takes the place of the one before. -/
theorem chosen_attach_attach (l l' : α) (ds : List (Deed α)) :
    chosen (.attach l :: .attach l' :: ds) = chosen (.attach l' :: ds) := by
  simp only [chosen, List.dropWhile_cons, List.takeWhile_cons, Deed.closes, Bool.not_false, if_true]
  split
  · simp [attached, Deed.listener?, List.getLast?_cons]
  · rfl

theorem called_of_told {s : CloseSignal α} (h : s = .lost true ∨ s = .shutDown)
    (ds : List (Deed α)) : s.called ds = [] := by
  induction ds with
  | nil => rfl
  | cons d ds ih => rcases h with rfl | rfl <;> cases d <;> exact ih

theorem called_lost (ds : List (Deed α)) :
    (lost false).called ds = (attached ds).head?.toList := by
  induction ds with
  | nil => rfl
  | cons d ds ih =>
    cases d with
    | attach l => exact congrArg (l :: ·) (called_of_told (.inl rfl) ds)
    | lose | shut => exact ih

/-- A signal that is open is as a new one to which the listener was attached that it has. -/
theorem called_live (l : Option α) (ds : List (Deed α)) :
    (live l).called ds = (chosen (l.toList.map .attach ++ ds)).toList := by
  induction ds generalizing l with
  | nil => cases l <;> rfl
  | cons d ds ih =>
    cases d with
    | attach l' =>
      refine (ih (some l')).trans ?_
      cases l with
      | none => rfl
      | some l => exact congrArg Option.toList (chosen_attach_attach l l' ds).symm
    | lose =>
      cases l with
      | none => exact called_lost ds
      | some l => exact congrArg (l :: ·) (called_of_told (.inl rfl) ds)
    | shut =>
      refine (called_of_told (.inr rfl) ds).trans ?_
      cases l <;> rfl

theorem called_eq (ds : List (Deed α)) : (live none).called ds = (chosen ds).toList :=
  called_live none ds

/-- Whoever is called is called for a loss that closed the link. -/
theorem find?_of_chosen {ds : List (Deed α)} {l : α} (h : chosen ds = some l) :
    ds.find? Deed.closes = some .lose := by
  rw [List.find?_eq_head?_dropWhile_not]
  unfold chosen at h
  split at h
  · next rest hd => rw [hd, List.head?_cons]
  · exact absurd h (by simp)

/-- The first deed that closes is a shutdown exactly if there is one before any loss. -/
theorem find?_closes_eq_shut {ds : List (Deed α)} : ds.find? Deed.closes = some .shut ↔
    ∃ before rest, ds = before ++ .shut :: rest ∧ .lose ∉ before := by
  induction ds with
  | nil => simp
  | cons d ds ih =>
    cases d with
    | attach l =>
      rw [List.find?_cons_of_neg (by simp [Deed.closes]), ih]
      constructor
      · rintro ⟨before, rest, rfl, h⟩
        exact ⟨.attach l :: before, rest, rfl, by simpa using h⟩
      · rintro ⟨_ | ⟨d, before⟩, rest, he, h⟩
        · exact absurd he (by simp)
        · obtain ⟨rfl, rfl⟩ := List.cons.inj he
          exact ⟨before, rest, rfl, fun hm => h (List.mem_cons_of_mem _ hm)⟩
    | lose =>
      rw [List.find?_cons_of_pos rfl]
      refine ⟨fun h => absurd h (by simp), ?_⟩
      rintro ⟨_ | ⟨d, before⟩, rest, he, h⟩
      · exact absurd he (by simp)
      · exact absurd (by simp [(List.cons.inj he).1]) h
    | shut => exact ⟨fun _ => ⟨[], ds, rfl, by simp⟩, fun _ => rfl⟩

end RelayUpkeep.CloseSignal

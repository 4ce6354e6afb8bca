import RelayUpkeep.Toml.Document
import Mathlib.Data.List.Basic
import Mathlib.Data.Char
import Mathlib.Data.Option.Basic

/-! # A written number is read back

A value without quotes is tried as a date and as a float first. What a number is written as is
neither: the first character after its digits ends the line.
-/

namespace RelayUpkeep.Toml

variable {n : Nat} {cs ds rest : List Char}

/-- Some digits, then the end of the line. -/
inductive Figures : List Char → Prop
  | stop (rest : List Char) : Figures ('\n' :: rest)
  | digit {d : Char} {cs : List Char} (isDigit : isDigit d) (more : Figures cs) : Figures (d :: cs)

theorem Figures.append (h : ∀ d ∈ ds, isDigit d) (rest : List Char) :
    Figures (ds ++ '\n' :: rest) := by
  induction ds with
  | nil => exact .stop rest
  | cons d ds ih =>
    obtain ⟨hd, hds⟩ := List.forall_mem_cons.mp h
    exact .digit hd (ih hds)

/-- No character but the end of the line stands where a digit is missing. -/
theorem Figures.head {c : Char} (h : Figures (c :: cs)) : c = '\n' ∨ isDigit c := by
  cases h with
  | stop _ => exact .inl rfl
  | digit hd _ => exact .inr hd

theorem Figures.tail {c : Char} (h : Figures (c :: cs)) (hc : isDigit c) : Figures cs := by
  cases h with
  | stop _ => exact absurd hc (by decide)
  | digit _ more => exact more

/-! ## Neither date nor time -/

theorem fullDate?_of_figures (h : Figures cs) : fullDate? cs = none := by
  unfold fullDate?
  split
  · next a b c d rest =>
    have hall : ¬(isDigit a && isDigit b && isDigit c && isDigit d) := by
      simp only [Bool.and_eq_true, not_and]
      intro hfour hd
      obtain ⟨⟨ha, hb⟩, hc⟩ := hfour
      rcases ((((h.tail ha).tail hb).tail hc).tail hd).head with hx | hx <;> revert hx <;> decide
    simp only [hall]
    rfl
  · rfl

theorem twoDigits?_figures {least greatest m : Nat} (h : Figures cs)
    (htwo : twoDigits? least greatest cs = some (m, rest)) : Figures rest := by
  unfold twoDigits? at htwo
  split at htwo
  · next a b more =>
    simp only [Bool.and_eq_true, Option.ite_none_right_eq_some, Option.some.injEq,
      Prod.mk.injEq] at htwo
    obtain ⟨⟨⟨⟨ha, hb⟩, -⟩, -⟩, -, rfl⟩ := htwo
    exact (h.tail ha).tail hb
  · cases htwo

theorem timeOfDay?_of_figures (h : Figures cs) : timeOfDay? cs = none := by
  have hhours : hoursMinutes? cs = none := by
    unfold hoursMinutes?
    cases htwo : twoDigits? 0 23 cs with
    | none => rfl
    | some read =>
      obtain ⟨m, rest⟩ := read
      cases twoDigits?_figures h htwo with
      | stop _ => rfl
      | digit hd _ =>
        simp only [Option.bind_eq_bind, Option.bind_some]
        split
        · next heq =>
          rw [(List.cons.inj heq).1] at hd
          exact absurd hd (by decide)
        · rfl
  simp [timeOfDay?, hhours]

theorem readDate_of_figures (h : Figures cs) : readDate cs = none := by
  simp [readDate, fullDate?_of_figures h, timeOfDay?_of_figures h]

/-! ## Digits -/

theorem isDigit_iff {c : Char} : isDigit c = c.isDigit := by
  simp [isDigit, Char.isDigit, Char.le_def]

theorem isDigit_of_mem_toDigits {c : Char} (hc : c ∈ Nat.toDigits 10 n) : isDigit c := by
  rw [isDigit_iff]
  exact Nat.isDigit_of_mem_toDigits (by decide) (by decide) hc

theorem toDigits_cons (n : Nat) : ∃ d ds, Nat.toDigits 10 n = d :: ds ∧ isDigit d := by
  cases h : Nat.toDigits 10 n with
  | nil => exact absurd h Nat.toDigits_ne_nil
  | cons d ds => exact ⟨d, ds, rfl, isDigit_of_mem_toDigits (h ▸ List.mem_cons_self)⟩

theorem toDigits_head_ne_zero (hn : n ≠ 0) : (Nat.toDigits 10 n).head? ≠ some '0' := by
  induction n using Nat.strongRecOn with
  | ind n ih =>
    rw [Nat.toDigits_eq_if (by decide)]
    split_ifs with hlt
    · simpa [Nat.digitChar_eq_zero] using hn
    · have := ih (n / 10) (by omega) (by omega)
      cases h : Nat.toDigits 10 (n / 10) with
      | nil => exact absurd h Nat.toDigits_ne_nil
      | cons d ds => simpa [h] using this

theorem numberOf_toDigits : numberOf 10 (Nat.toDigits 10 n) = n := by
  have hread : ∀ ds : List Char, (∀ d ∈ ds, isDigit d) → ∀ m,
      ds.foldl (fun m c => 10 * m + (Text.hexValue? c).getD 0) m = Nat.ofDigitChars 10 ds m := by
    intro ds hds
    induction ds with
    | nil => exact fun m => rfl
    | cons d ds ih =>
      obtain ⟨hd, hds⟩ := List.forall_mem_cons.mp hds
      have hval : Text.hexValue? d = some (d.toNat - '0'.toNat) := by
        simp only [isDigit, Bool.and_eq_true, decide_eq_true_eq] at hd
        simp [Text.hexValue?, hd]
      intro m
      simpa [hval, Nat.ofDigitChars] using ih hds _
  exact (hread _ (fun _ => isDigit_of_mem_toDigits) 0).trans Nat.ofDigitChars_ten_toDigits

theorem digitRun_append (h : ∀ d ∈ ds, isDigit d) (rest : List Char) :
    digitRun isDigit (ds ++ '\n' :: rest) = (ds, '\n' :: rest) := by
  induction ds with
  | nil =>
    rw [List.nil_append, digitRun.eq_def]
    simp [show isDigit '\n' = false from by decide]
  | cons d ds ih =>
    obtain ⟨hd, hds⟩ := List.forall_mem_cons.mp h
    rw [List.cons_append, digitRun.eq_def]
    simp [hd, ih hds]

theorem wholeDigits?_toDigits (n : Nat) (rest : List Char) :
    wholeDigits? (Nat.toDigits 10 n ++ '\n' :: rest) = some (Nat.toDigits 10 n, '\n' :: rest) := by
  by_cases hn : n = 0
  · subst hn
    rfl
  have hrun := digitRun_append (fun _ => isDigit_of_mem_toDigits (n := n)) rest
  have hzero := toDigits_head_ne_zero hn
  obtain ⟨d, ds, h, hd⟩ := toDigits_cons n
  have hne : d ≠ '0' := by simpa [h] using hzero
  rw [h, List.cons_append] at hrun ⊢
  rw [wholeDigits?.eq_def]
  simp [hne, digits?, hd, hrun]

theorem sign_toDigits (n : Nat) (rest : List Char) :
    sign (Nat.toDigits 10 n ++ rest) = (false, Nat.toDigits 10 n ++ rest) := by
  obtain ⟨d, ds, h, hd⟩ := toDigits_cons n
  rw [h]
  unfold sign
  split
  · simp_all [isDigit]
  · simp_all [isDigit]
  · rfl

theorem figures_toDigits (n : Nat) (rest : List Char) :
    Figures (Nat.toDigits 10 n ++ '\n' :: rest) :=
  .append (fun _ => isDigit_of_mem_toDigits) rest

/-! ## The number -/

theorem readFloat_toDigits (n : Nat) (rest : List Char) :
    readFloat (Nat.toDigits 10 n ++ '\n' :: rest) = none := by
  have hdecimal : decimalFloat? (Nat.toDigits 10 n ++ '\n' :: rest) = none := by
    simp [decimalFloat?, sign_toDigits, wholeDigits?_toDigits, exponent?]
  obtain ⟨d, ds, h, hd⟩ := toDigits_cons n
  rw [readFloat, hdecimal, sign_toDigits, h]
  simp only [List.cons_append, Option.none_or]
  split
  · simp_all [isDigit]
  · simp_all [isDigit]
  · rfl

theorem integerInRange?_of_lt (hn : n < integerLimit) :
    integerInRange? (n : Int) = some (n : Int) := by
  have hle : -(integerLimit : Int) ≤ n := by omega
  exact if_pos ⟨hle, by exact_mod_cast hn⟩

theorem readInteger_toDigits (hn : n < integerLimit) (rest : List Char) :
    readInteger (Nat.toDigits 10 n ++ '\n' :: rest) = some ((n : Int), '\n' :: rest) := by
  have hfigures := figures_toDigits n rest
  have hletter {x : Char} {cs} (heq : Nat.toDigits 10 n ++ '\n' :: rest = '0' :: x :: cs) :
      x = '\n' ∨ isDigit x := ((heq ▸ hfigures).tail (by decide)).head
  unfold readInteger
  split
  · next heq => exact absurd (hletter heq) (by decide)
  · next heq => exact absurd (hletter heq) (by decide)
  · next heq => exact absurd (hletter heq) (by decide)
  · simp only [sign_toDigits]
    rw [wholeDigits?_toDigits, Option.bind_eq_bind, Option.bind_some, numberOf_toDigits,
      if_neg (by decide), integerInRange?_of_lt hn]
    rfl

/-- A number that the format has is read back, up to the end of its line. -/
theorem readScalar_toDigits (hn : n < integerLimit) (rest : List Char) :
    readScalar (Nat.toDigits 10 n ++ '\n' :: rest) = some (.integer (n : Int), '\n' :: rest) := by
  have hdate := readDate_of_figures (figures_toDigits n rest)
  have hfloat := readFloat_toDigits n rest
  have hinteger := readInteger_toDigits hn rest
  obtain ⟨d, ds, h, hd⟩ := toDigits_cons n
  rw [h] at hdate hfloat hinteger ⊢
  unfold readScalar
  split
  · simp_all [isDigit]
  · simp_all [isDigit]
  · simp_all [isDigit]
  · simp_all [isDigit]
  · rw [hdate, hfloat, hinteger]
    rfl

end RelayUpkeep.Toml

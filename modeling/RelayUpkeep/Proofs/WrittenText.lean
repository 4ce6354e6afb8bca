import RelayUpkeep.Toml.Quoted
import Mathlib.Data.List.Basic
import Mathlib.Data.Char

/-! # A written string is read back

Four written forms, and one reader for each. Every form is shown to be read back with whatever
follows it, then the form that the writer takes is looked up.
-/

namespace RelayUpkeep.Toml

variable {c q : Char} {cs rest : List Char}

/-! ## One character -/

theorem scalar?_upperHex : ∀ n : Fin 128, (Text.upperHex 4 n).length = 4 ∧
    scalar? (Text.upperHex 4 n) = some (Char.ofNat n) := by
  decide +kernel

/-- How a basic string writes a character. -/
inductive Escaped (c : Char) : List Char → Prop
  | short (e : Char) (read : unescape? e = some c) : Escaped c ['\\', e]
  | code (i j k l : Char) (read : scalar? [i, j, k, l] = some c) : Escaped c ['\\', 'u', i, j, k, l]
  | plain (allowed : isPlain c) (not_quote : c ≠ '"') (not_backslash : c ≠ '\\') : Escaped c [c]

theorem escaped_code (hc : c < ' ' ∨ c = '\x7f') :
    Escaped c ('\\' :: 'u' :: Text.upperHex 4 c.toNat) := by
  have hn : c.toNat < 128 := by
    rcases hc with hc | rfl
    · exact Nat.lt_trans (show c.toNat < ' '.toNat from hc) (by decide)
    · decide
  obtain ⟨hlen, hread⟩ := scalar?_upperHex ⟨c.toNat, hn⟩
  match h : Text.upperHex 4 c.toNat, hlen with
  | [i, j, k, l], _ => exact .code i j k l (by simpa [← h] using hread)

theorem escaped (c : Char) : Escaped c (escape c) := by
  unfold escape
  split_ifs with hb ht hn hf hr hq hs hcode
  · exact .short 'b' (by simp [hb, unescape?])
  · exact .short 't' (by simp [ht, unescape?])
  · exact .short 'n' (by simp [hn, unescape?])
  · exact .short 'f' (by simp [hf, unescape?])
  · exact .short 'r' (by simp [hr, unescape?])
  · exact .short '"' (by simp [hq, unescape?])
  · exact .short '\\' (by simp [hs, unescape?])
  · exact escaped_code (by simpa using hcode)
  · refine .plain ?_ hq hs
    simp only [Bool.or_eq_true, decide_eq_true_eq, not_or, Char.not_lt] at hcode
    simp [isPlain, hcode.1, hcode.2]

theorem ne_lineEnd_of_isPlain (h : isPlain c) : c ≠ '\n' ∧ c ≠ '\r' := by
  constructor <;> rintro rfl <;> simp [isPlain] at h

/-- What a character is written as begins with no quote and no line end. -/
theorem Escaped.head {w : List Char} (h : Escaped c w) :
    ∃ d more, w = d :: more ∧ d ≠ '"' ∧ d ≠ '\n' ∧ d ≠ '\r' := by
  cases h with
  | short e _ => exact ⟨_, _, rfl, by decide⟩
  | code i j k l _ => exact ⟨_, _, rfl, by decide⟩
  | plain allowed hq _ => exact ⟨_, _, rfl, hq, ne_lineEnd_of_isPlain allowed⟩

/-- The letter after a backslash is not the one that begins a code point, nor a blank. -/
theorem letter_of_unescape? {e : Char} (read : unescape? e = some c) :
    e ≠ 'u' ∧ e ≠ 'U' ∧ ∀ rest, endsLine (e :: rest) = false := by
  refine ⟨?_, ?_, fun rest => ?_⟩
  · rintro rfl
    simp [unescape?] at read
  · rintro rfl
    simp [unescape?] at read
  · have hn : e ≠ '\n' := by rintro rfl; simp [unescape?] at read
    have hr : e ≠ '\r' := by rintro rfl; simp [unescape?] at read
    have hs : e ≠ ' ' := by rintro rfl; simp [unescape?] at read
    have ht : e ≠ '\t' := by rintro rfl; simp [unescape?] at read
    unfold endsLine
    split <;> simp_all

theorem Escaped.readBasic {w : List Char} (h : Escaped c w) (rest : List Char) :
    readBasic (w ++ rest) = prepend c (readBasic rest) := by
  cases h with
  | short e read =>
    obtain ⟨hu, hU, -⟩ := letter_of_unescape? read
    rw [Toml.readBasic.eq_def]
    simp [hu, hU, read]
  | code i j k l read => simp [Toml.readBasic, read]
  | plain allowed hq hs =>
    rw [List.cons_append, List.nil_append, Toml.readBasic.eq_def]
    simp [hq, hs, allowed]

theorem Escaped.readMultiBasic {w : List Char} (h : Escaped c w) (rest : List Char) :
    readMultiBasic false (w ++ rest) = prepend c (readMultiBasic false rest) := by
  cases h with
  | short e read =>
    obtain ⟨hu, hU, hline⟩ := letter_of_unescape? read
    rw [Toml.readMultiBasic.eq_def]
    simp [hu, hU, read, hline]
  | code i j k l read => simp [Toml.readMultiBasic, read, endsLine]
  | plain allowed hq hs =>
    obtain ⟨hn, hr⟩ := ne_lineEnd_of_isPlain allowed
    rw [List.cons_append, List.nil_append, Toml.readMultiBasic.eq_def]
    simp [hq, hs, allowed, hn, hr]

/-! ## Strings on one line -/

theorem readBasic_escape (cs rest : List Char) :
    readBasic (cs.flatMap escape ++ '"' :: rest) = some (cs, rest) := by
  induction cs with
  | nil =>
    rw [List.flatMap_nil, List.nil_append, readBasic.eq_def]
    rfl
  | cons c cs ih => simp [(escaped c).readBasic, ih, prepend]

theorem readLiteral_append (h : ∀ c ∈ cs, c ≠ '\'' ∧ isPlain c) (rest : List Char) :
    readLiteral (cs ++ '\'' :: rest) = some (cs, rest) := by
  induction cs with
  | nil => simp [readLiteral]
  | cons c cs ih =>
    obtain ⟨hc, hcs⟩ := List.forall_mem_cons.mp h
    simp [readLiteral, hc, ih hcs, prepend]

/-! ## Strings of several lines -/

theorem closing?_of_ne (h : c ≠ q) (rest : List Char) : closing? q (q :: c :: rest) = none := by
  cases rest with
  | nil => rfl
  | cons d rest => simp [closing?, h]

theorem closing?_of_ne_of_eq (h : c ≠ q) (rest : List Char) :
    closing? q (q :: q :: c :: rest) = none := by
  simp [closing?, h]

theorem closing?_zero (h : rest.head? ≠ some q) :
    closing? q (q :: q :: q :: rest) = some ([], rest) := by
  match rest, h with
  | [], _ => simp [closing?]
  | [d], h =>
    have hd : d ≠ q := by simpa using h
    simp [closing?, hd]
  | d :: e :: rest, h =>
    have hd : d ≠ q := by simpa using h
    simp [closing?, hd]

/-- One or two quotes in front of the closing ones belong to the text. -/
theorem closing?_one (h : rest.head? ≠ some q) :
    closing? q (q :: q :: q :: q :: rest) = some ([q], rest) := by
  cases rest with
  | nil => simp [closing?]
  | cons d rest =>
    have hd : d ≠ q := by simpa using h
    simp [closing?, hd]

theorem closing?_two : closing? q (q :: q :: q :: q :: q :: rest) = some ([q, q], rest) := by
  simp [closing?]

variable {w : List Char} {best k : Nat}

/-- A reader of several lines takes a quote for part of the text where no two quotes follow it in
the text, also where the text ends with it. -/
theorem read_quote {read : List Char → Option (List Char × List Char)}
    (step : ∀ cs, read (q :: cs) = (closing? q (q :: cs)).or (prepend q (read cs)))
    (hw : ∀ w', w ≠ q :: q :: w') (hrest : rest.head? ≠ some q) :
    read (q :: (w ++ q :: q :: q :: rest)) = prepend q (read (w ++ q :: q :: q :: rest)) := by
  match w, hw with
  | [], _ => simp [step, closing?_one hrest, closing?_zero hrest, prepend]
  | [d], _ =>
    by_cases hd : d = q
    · subst hd
      simp [step, closing?_two, closing?_one hrest, prepend]
    · simp [step, closing?_of_ne hd]
  | d :: e :: w', hw =>
    by_cases hd : d = q
    · subst hd
      have he : e ≠ d := fun he => hw w' (he ▸ rfl)
      rw [step]
      simp [closing?_of_ne_of_eq he]
    · simp [step, closing?_of_ne hd]

/-! ## Basic strings of several lines -/

theorem readMultiBasic_quote (cs : List Char) : readMultiBasic false ('"' :: cs) =
    (closing? '"' ('"' :: cs)).or (prepend '"' (readMultiBasic false cs)) := by
  rw [readMultiBasic.eq_def]
  cases h : closing? '"' ('"' :: cs) <;> simp [h]

theorem writeMultiBasic_two_ne : writeMultiBasic 2 cs ≠ '"' :: w := by
  match cs with
  | [] => simp [writeMultiBasic]
  | c :: cs =>
    obtain ⟨d, more, hw, hd, -⟩ := (escaped c).head
    unfold writeMultiBasic
    split_ifs <;> simp_all

theorem writeMultiBasic_ne (hk : k = 1 ∨ k = 2) : writeMultiBasic k cs ≠ '"' :: '"' :: w := by
  match cs with
  | [] => simp [writeMultiBasic]
  | c :: cs =>
    obtain ⟨d, more, hw, hd, -⟩ := (escaped c).head
    unfold writeMultiBasic
    split_ifs with hc h2 hn
    · simp
    · obtain rfl : k = 1 := by omega
      simpa using writeMultiBasic_two_ne
    all_goals simp_all

theorem readMultiBasic_writeMultiBasic (cs : List Char) (hk : k ≤ 2)
    (hrest : rest.head? ≠ some '"') :
    readMultiBasic false (writeMultiBasic k cs ++ '"' :: '"' :: '"' :: rest) = some (cs, rest) := by
  induction cs generalizing k with
  | nil =>
    rw [writeMultiBasic, List.nil_append, readMultiBasic_quote, closing?_zero hrest]
    rfl
  | cons c cs ih =>
    unfold writeMultiBasic
    split_ifs with hc h2 hn
    · subst hc
      have := (Escaped.short '"' (c := '"') (by simp [unescape?])).readMultiBasic
        (writeMultiBasic 0 cs ++ '"' :: '"' :: '"' :: rest)
      simpa [ih, prepend] using this
    · subst hc
      have hw w' : writeMultiBasic (k + 1) cs ≠ '"' :: '"' :: w' := writeMultiBasic_ne (by omega)
      rw [List.cons_append, read_quote readMultiBasic_quote hw hrest, ih (by omega)]
      rfl
    · subst hn
      rw [List.cons_append, readMultiBasic.eq_def]
      simp [ih, prepend]
    · rw [List.append_assoc, (escaped c).readMultiBasic, ih (by omega)]
      rfl

/-! ## Literal strings of several lines -/

theorem le_longestRun_go : best ≤ longestRun.go q best k cs := by
  induction cs generalizing best k with
  | nil => exact le_rfl
  | cons c cs ih =>
    unfold longestRun.go
    split_ifs
    · exact le_trans (Nat.le_max_left ..) ih
    · exact ih

/-- Two quotes after a quote make a run of three. -/
theorem ne_of_longestRun_go (h : longestRun.go q best k cs ≤ 2) (hk : 1 ≤ k) :
    cs ≠ q :: q :: w := by
  rintro rfl
  rw [longestRun.go, if_pos rfl, longestRun.go, if_pos rfl] at h
  have hrun : max (max best (k + 1)) (k + 1 + 1) ≤ 2 := le_trans le_longestRun_go h
  omega

theorem readMultiLiteral_quote (cs : List Char) : readMultiLiteral ('\'' :: cs) =
    (closing? '\'' ('\'' :: cs)).or (prepend '\'' (readMultiLiteral cs)) := by
  rw [readMultiLiteral.eq_def]
  cases h : closing? '\'' ('\'' :: cs) <;> simp [h]

theorem readMultiLiteral_append (h : ∀ c ∈ cs, c = '\n' ∨ isPlain c)
    (hrun : longestRun.go '\'' best k cs ≤ 2) (hrest : rest.head? ≠ some '\'') :
    readMultiLiteral (cs ++ '\'' :: '\'' :: '\'' :: rest) = some (cs, rest) := by
  induction cs generalizing best k with
  | nil =>
    rw [List.nil_append, readMultiLiteral_quote, closing?_zero hrest]
    rfl
  | cons c cs ih =>
    obtain ⟨hc, hcs⟩ := List.forall_mem_cons.mp h
    unfold longestRun.go at hrun
    split_ifs at hrun with hq
    · subst hq
      have hw w' : cs ≠ '\'' :: '\'' :: w' := ne_of_longestRun_go hrun (by omega)
      rw [List.cons_append, read_quote readMultiLiteral_quote hw hrest, ih hcs hrun]
      rfl
    · rw [List.cons_append, readMultiLiteral.eq_def]
      rcases hc with rfl | hc
      · simp [ih hcs hrun, prepend]
      · obtain ⟨hn, hr⟩ := ne_lineEnd_of_isPlain hc
        simp [hn, hr, hq, hc, ih hcs hrun, prepend]

/-! ## The form that is taken -/

theorem not_mem_of_longestRun_eq_zero (h : longestRun.go q best k cs = 0) : q ∉ cs := by
  induction cs generalizing best k with
  | nil => exact List.not_mem_nil
  | cons c cs ih =>
    unfold longestRun.go at h
    split_ifs at h with hc
    · have hle : max best (k + 1) ≤ longestRun.go q (max best (k + 1)) (k + 1) cs :=
        le_longestRun_go
      omega
    · simpa [Ne.symm hc] using ih h

theorem isPlain_of_not_needsEscape (h : needsEscape c = false) : c = '\n' ∨ isPlain c := by
  by_cases hn : c = '\n'
  · exact .inl hn
  by_cases ht : c = '\t'
  · exact .inr (by simp [isPlain, ht])
  simp only [needsEscape, Bool.or_eq_false_iff, Bool.and_eq_false_iff, decide_eq_false_iff_not,
    Char.not_lt] at h
  obtain ⟨h, h7⟩ := h
  have hle : ' ' ≤ c := by simpa [hn, ht] using h
  exact .inr (by simp [isPlain, hle, h7])

theorem quoteStyle_literal (h : quoteStyle cs = .literal) :
    cs ≠ [] ∧ ∀ c ∈ cs, c ≠ '\'' ∧ isPlain c := by
  simp only [quoteStyle] at h
  split_ifs at h with h1 h2
  simp only [Bool.and_eq_true, decide_eq_true_eq, Bool.not_eq_true'] at h2
  obtain ⟨⟨hplain, hrun⟩, hlines⟩ := h2
  refine ⟨?_, fun c hc => ⟨?_, ?_⟩⟩
  · rintro rfl
    exact h1 (by decide)
  · rintro rfl
    exact not_mem_of_longestRun_eq_zero hrun hc
  · have hesc : needsEscape c = false := by simpa using List.any_eq_false.mp hplain c hc
    refine (isPlain_of_not_needsEscape hesc).resolve_left ?_
    rintro rfl
    simp [hc] at hlines

theorem quoteStyle_multiLiteral (h : quoteStyle cs = .multiLiteral) :
    (∀ c ∈ cs, c = '\n' ∨ isPlain c) ∧ longestRun '\'' cs ≤ 2 := by
  simp only [quoteStyle] at h
  split_ifs at h with _ _ _ h4
  simp only [Bool.and_eq_true, decide_eq_true_eq, Bool.not_eq_true'] at h4
  refine ⟨fun c hc => isPlain_of_not_needsEscape ?_, h4.2⟩
  simpa using List.any_eq_false.mp h4.1 c hc

theorem dropLineEnd_of_head (hn : cs.head? ≠ some '\n') (hr : cs.head? ≠ some '\r') :
    dropLineEnd cs = cs := by
  unfold dropLineEnd
  split <;> simp_all

theorem dropLineEnd_leadIn (hw : '\n' ∉ cs → w.head? ≠ some '\n' ∧ w.head? ≠ some '\r') :
    dropLineEnd (leadIn cs ++ w) = w := by
  by_cases hn : '\n' ∈ cs
  · simp [leadIn, hn, dropLineEnd]
  · simpa [leadIn, hn] using dropLineEnd_of_head (hw hn).1 (hw hn).2

/-! ## All forms -/

theorem readString_basic (cs : List Char) (hrest : rest.head? ≠ some '"') :
    readString ('"' :: cs.flatMap escape ++ '"' :: rest) = some (String.ofList cs, rest) := by
  have hread := readBasic_escape cs rest
  simp only [readString]
  split
  · next heq =>
    -- an opening quote is followed by two more only where an empty string ends
    cases cs with
    | nil => simp_all
    | cons c cs =>
      obtain ⟨d, more, hw, hd, -⟩ := (escaped c).head
      simp_all
  all_goals simp_all

theorem readString_literal (hcs : cs ≠ []) (h : ∀ c ∈ cs, c ≠ '\'' ∧ isPlain c)
    (rest : List Char) :
    readString ('\'' :: cs ++ '\'' :: rest) = some (String.ofList cs, rest) := by
  have hread := readLiteral_append h rest
  simp only [readString]
  split
  · simp_all
  · simp_all
  · next heq =>
    cases cs with
    | nil => exact absurd rfl hcs
    | cons c cs => simp_all
  all_goals simp_all

theorem readString_multiBasic (cs : List Char) (hrest : rest.head? ≠ some '"') :
    readString (['"', '"', '"'] ++ leadIn cs ++ writeMultiBasic 0 cs ++ '"' :: '"' :: '"' :: rest) =
      some (String.ofList cs, rest) := by
  have hdrop : dropLineEnd (leadIn cs ++ (writeMultiBasic 0 cs ++ '"' :: '"' :: '"' :: rest)) =
      writeMultiBasic 0 cs ++ '"' :: '"' :: '"' :: rest := by
    refine dropLineEnd_leadIn fun hn => ?_
    cases cs with
    | nil => simp [writeMultiBasic]
    | cons c cs =>
      obtain ⟨d, more, hw, -, hdn, hdr⟩ := (escaped c).head
      have hc : c ≠ '\n' := fun hc => hn (hc ▸ List.mem_cons_self)
      unfold writeMultiBasic
      split_ifs <;> simp_all
  simp [readString, hdrop, readMultiBasic_writeMultiBasic cs (Nat.zero_le 2) hrest]

theorem readString_multiLiteral (h : ∀ c ∈ cs, c = '\n' ∨ isPlain c)
    (hrun : longestRun '\'' cs ≤ 2) (hrest : rest.head? ≠ some '\'') :
    readString (['\'', '\'', '\''] ++ leadIn cs ++ cs ++ '\'' :: '\'' :: '\'' :: rest) =
      some (String.ofList cs, rest) := by
  have hdrop : dropLineEnd (leadIn cs ++ (cs ++ '\'' :: '\'' :: '\'' :: rest)) =
      cs ++ '\'' :: '\'' :: '\'' :: rest := by
    refine dropLineEnd_leadIn fun hn => ?_
    cases cs with
    | nil => simp
    | cons c cs =>
      have hc : c ≠ '\n' := fun hc => hn (hc ▸ List.mem_cons_self)
      simpa using ne_lineEnd_of_isPlain ((h c List.mem_cons_self).resolve_left hc)
  simp [readString, hdrop, readMultiLiteral_append h hrun hrest]

/-- Every text is read back from the form it is written in. -/
theorem readString_writeString (text : String) (hd : rest.head? ≠ some '"')
    (hs : rest.head? ≠ some '\'') :
    readString (writeString text ++ rest) = some (text, rest) := by
  unfold writeString
  cases h : quoteStyle text.toList with
  | basic => simpa [h] using readString_basic text.toList hd
  | literal =>
    obtain ⟨hne, hplain⟩ := quoteStyle_literal h
    simpa [h] using readString_literal hne hplain rest
  | multiBasic => simpa [h] using readString_multiBasic text.toList hd
  | multiLiteral =>
    obtain ⟨hplain, hrun⟩ := quoteStyle_multiLiteral h
    simpa [h] using readString_multiLiteral hplain hrun hs

theorem writeString_head (text : String) :
    ∃ more, writeString text = '"' :: more ∨ writeString text = '\'' :: more := by
  unfold writeString
  cases h : quoteStyle text.toList <;> simp [h]

end RelayUpkeep.Toml

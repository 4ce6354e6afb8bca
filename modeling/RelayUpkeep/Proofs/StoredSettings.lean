import RelayUpkeep.Config.Stored
import RelayUpkeep.Proofs.WrittenNumber
import RelayUpkeep.Proofs.WrittenText
import Mathlib.Algebra.Group.Nat.Defs
import Mathlib.Computability.Primrec.List

/-! # Settings that are stored and read again

The stored form is a list of lines, each a key with its value, and perhaps a table at the end. It is
read back as the tree it was written from, and the tree as the settings, up to the part of a second
of the wait.
-/

namespace RelayUpkeep

open Toml

namespace Toml

variable {key : String} {value rest : List Char} {node : Node} {es : Entries} {d : Draft}
  {fuel room : Nat}

/-! ## Lines -/

/-- A key that needs no quotes. -/
def IsBare (key : String) : Prop :=
  key.toList ≠ [] ∧ ∀ c ∈ key.toList, isBareKeyChar c

instance (key : String) : Decidable (IsBare key) :=
  decidable_of_iff (key.toList.isEmpty = false ∧ key.toList.all isBareKeyChar = true)
    (by simp [IsBare, List.all_eq_true])

/-- The characters are read as the node wherever they stand behind the equals sign of a line. -/
def IsValue (value : List Char) (node : Node) : Prop :=
  ∀ rest, readValue nestingLimit (skipBlanks (' ' :: (value ++ '\n' :: rest))) =
    some (node, '\n' :: rest)

theorem skipBlanks_cons {c : Char} (h : c ≠ ' ' ∧ c ≠ '\t') (cs : List Char) :
    skipBlanks (c :: cs) = c :: cs := by
  simp [skipBlanks, h]

/-- A bare key begins like no other part of a line. -/
theorem IsBare.head (hkey : IsBare key) : ∃ c cs, key.toList = c :: cs ∧ isBareKeyChar c := by
  obtain ⟨hne, hall⟩ := hkey
  cases h : key.toList with
  | nil => exact absurd h hne
  | cons c cs => exact ⟨c, cs, rfl, hall c (h ▸ List.mem_cons_self)⟩

theorem ne_of_isBareKeyChar {c x : Char} (h : isBareKeyChar c) (hx : isBareKeyChar x = false) :
    c ≠ x := by
  rintro rfl
  simp [h] at hx

theorem readSimpleKey_bare (hkey : IsBare key)
    (hrest : ∀ c ∈ rest.head?, isBareKeyChar c = false) :
    readSimpleKey (key.toList ++ rest) = some (key, rest) := by
  obtain ⟨c, cs, h, hc⟩ := hkey.head
  have htake : (key.toList ++ rest).takeWhile isBareKeyChar = key.toList := by
    rw [List.takeWhile_append_of_pos hkey.2]
    cases rest <;> simp_all
  have hdrop : (key.toList ++ rest).dropWhile isBareKeyChar = rest := by
    rw [List.dropWhile_append_of_pos hkey.2]
    cases rest <;> simp_all
  unfold readSimpleKey
  split
  · next heq =>
    rw [h] at heq
    exact absurd (List.cons.inj heq).1 (ne_of_isBareKeyChar hc (by decide))
  · next heq =>
    rw [h] at heq
    exact absurd (List.cons.inj heq).1 (ne_of_isBareKeyChar hc (by decide))
  · rw [htake, hdrop, ← String.ofList_toList (s := key), h]
    simp

/-- A bare key ends where the first other character stands. -/
theorem readKey_bare (hkey : IsBare key) (hrest : ∀ c ∈ rest.head?, isBareKeyChar c = false)
    (hdot : (skipBlanks rest).head? ≠ some '.') :
    readKey (room + 1) (key.toList ++ rest) = some ([key], skipBlanks rest) := by
  have hskip : skipBlanks (key.toList ++ rest) = key.toList ++ rest := by
    obtain ⟨c, cs, h, hc⟩ := hkey.head
    rw [h]
    exact skipBlanks_cons
      ⟨ne_of_isBareKeyChar hc (by decide), ne_of_isBareKeyChar hc (by decide)⟩ _
  rw [readKey, hskip, readSimpleKey_bare hkey hrest]
  simp only [Option.bind_eq_bind, Option.bind_some]
  split
  · next heq => exact absurd (heq ▸ rfl) hdot
  · rfl

theorem line_append (key : String) (value rest : List Char) :
    RelayConfig.line key value ++ rest =
      key.toList ++ ' ' :: '=' :: ' ' :: (value ++ '\n' :: rest) := by
  simp [RelayConfig.line]

theorem readPair_line (hkey : IsBare key) (hvalue : IsValue value node) (rest : List Char) :
    readPair (readValue nestingLimit) (RelayConfig.line key value ++ rest) =
      some ([key], node, '\n' :: rest) := by
  have hread : readKey (78 + 1) (key.toList ++ ' ' :: '=' :: ' ' :: (value ++ '\n' :: rest)) =
      some ([key], '=' :: ' ' :: (value ++ '\n' :: rest)) :=
    readKey_bare hkey (by simp [isBareKeyChar]) (by simp [skipBlanks])
  rw [readPair, line_append, nestingLimit, hread]
  simp only [Option.bind_eq_bind, Option.bind_some]
  rw [← nestingLimit, hvalue rest]
  rfl

theorem lineEnd?_newline (rest : List Char) : lineEnd? ('\n' :: rest) = some rest := by
  simp [lineEnd?, skipBlanks]

theorem readLine_of_readPair {path : List String} {cs : List Char} (hcs : cs.head? ≠ some '[')
    (hpair : readPair (readValue nestingLimit) cs = some (path, node, '\n' :: rest)) :
    readLine d cs = (d.assign path node).map fun d => (d, rest) := by
  unfold readLine
  split
  · exact absurd rfl hcs
  · exact absurd rfl hcs
  · rw [hpair]
    cases h : d.assign path node <;> simp [h, lineEnd?_newline]

/-- A line gives its key the value. -/
theorem readLines_line (hkey : IsBare key) (hvalue : IsValue value node) (rest : List Char) :
    readLines (fuel + 1) d (RelayConfig.line key value ++ rest) =
      (d.assign [key] node).bind fun d => readLines fuel d rest := by
  have hpair := readPair_line hkey hvalue rest
  obtain ⟨c, cs, h, hc⟩ := hkey.head
  have hne {x : Char} (hx : isBareKeyChar x = false) : c ≠ x := ne_of_isBareKeyChar hc hx
  rw [line_append, h, List.cons_append] at hpair ⊢
  have hread := readLine_of_readPair (d := d) (by simp [hne (x := '[') (by decide)]) hpair
  have hnote : (c = '#' || c = '\n' || c = '\r') = false := by
    simp [hne (x := '#') (by decide), hne (x := '\n') (by decide), hne (x := '\r') (by decide)]
  rw [readLines, skipBlanks_cons ⟨hne (by decide), hne (by decide)⟩]
  simp only [hnote, hread]
  cases d.assign [key] node <;> rfl

/-! ## The tree -/

@[simp] theorem find?_nil : Entries.find? [] key = none := rfl

theorem find?_eq_none_iff : es.find? key = none ↔ key ∉ es.map Prod.fst := by
  simp only [Entries.find?, List.lookup_eq_none_iff, List.mem_map, not_exists, not_and, Prod.forall,
    bne_iff_ne]
  exact ⟨fun h k n hn hk => h k n hn hk.symm, fun h k n hn hk => h k n hn hk.symm⟩

theorem find?_concat (h : es.find? key = none) :
    Entries.find? (es ++ [(key, node)]) key = some node := by
  simp only [Entries.find?] at h ⊢
  simp [List.lookup_append, h]

theorem put_concat {new : Node} (h : es.find? key = none) :
    Entries.put key new (es ++ [(key, node)]) = es ++ [(key, new)] := by
  rw [find?_eq_none_iff] at h
  induction es with
  | nil => simp [Entries.put]
  | cons e es ih =>
    obtain ⟨k, n⟩ := e
    simp only [List.map_cons, List.mem_cons, not_or] at h
    simp [Entries.put, Ne.symm h.1, ih h.2]

theorem assign_root (h : es.find? key = none) :
    Draft.assign ⟨es, []⟩ [key] node = some ⟨es ++ [(key, node)], []⟩ := by
  simp [Draft.assign, Entries.updateAt, Entries.assignPath, Entries.assign, h]

theorem openTable_root (h : es.find? key = none) :
    Draft.openTable ⟨es, []⟩ [key] = some ⟨es ++ [(key, .table .header [])], [key]⟩ := by
  simp [Draft.openTable, Entries.updateAt, Entries.open?, h]

theorem assign_table {table : String} (h : es.find? table = none) :
    Draft.assign ⟨es ++ [(table, .table .header [])], [table]⟩ [key] node =
      some ⟨es ++ [(table, .table .header [(key, node)])], [table]⟩ := by
  simp [Draft.assign, Entries.updateAt, Entries.assignPath, Entries.assign, find?_concat h,
    put_concat h]

/-- A line of a document, as it is written and as it is read. -/
structure Setting where
  key : String
  value : List Char
  node : Node
  isBare : IsBare key
  isValue : IsValue value node

namespace Setting

def line (s : Setting) : List Char := RelayConfig.line s.key s.value

def entry (s : Setting) : String × Node := (s.key, s.node)

theorem length_line_pos (s : Setting) : 1 ≤ s.line.length := by
  simp only [line, RelayConfig.line, List.length_append, List.length_singleton]
  omega

theorem length_le_lines (ss : List Setting) : ss.length ≤ (ss.flatMap line).length := by
  induction ss with
  | nil => exact le_rfl
  | cons s ss ih =>
    have := s.length_line_pos
    rw [List.flatMap_cons, List.length_append, List.length_cons]
    omega

/-- Lines in front of the first table, with a key each, are the entries of the document. -/
theorem readLines_settings (ss : List Setting)
    (hkeys : (es.map Prod.fst ++ ss.map Setting.key).Nodup) (rest : List Char) :
    readLines (ss.length + fuel) ⟨es, []⟩ (ss.flatMap line ++ rest) =
      readLines fuel ⟨es ++ ss.map entry, []⟩ rest := by
  induction ss generalizing es with
  | nil => simp
  | cons s ss ih =>
    have hnew : es.find? s.key = none := by
      rw [find?_eq_none_iff]
      intro hmem
      exact (List.nodup_append.mp hkeys).2.2 _ hmem _ (by simp) rfl
    have hlater : ((es ++ [s.entry]).map Prod.fst ++ ss.map Setting.key).Nodup := by
      simpa [entry] using hkeys
    rw [List.flatMap_cons, List.append_assoc, List.length_cons, Nat.add_right_comm]
    rw [line, readLines_line s.isBare s.isValue, assign_root hnew, Option.bind_some]
    exact (ih hlater).trans (by simp [entry])

end Setting

/-- A header opens its table. -/
theorem readLine_header (hkey : IsBare key) (hnew : es.find? key = none) (rest : List Char) :
    readLine ⟨es, []⟩ ('[' :: (key.toList ++ ']' :: '\n' :: rest)) =
      some (⟨es ++ [(key, .table .header [])], [key]⟩, rest) := by
  have hread : readKey (78 + 1) (key.toList ++ ']' :: '\n' :: rest) =
      some ([key], ']' :: '\n' :: rest) :=
    readKey_bare hkey (by simp [isBareKeyChar]) (by simp [skipBlanks])
  obtain ⟨c, cs, h, hc⟩ := hkey.head
  unfold readLine
  split
  · next heq =>
    rw [h] at heq
    exact absurd (List.cons.inj (List.cons.inj heq).2).1 (ne_of_isBareKeyChar hc (by decide))
  · next heq =>
    rw [← (List.cons.inj heq).2, nestingLimit, hread]
    simp [openTable_root hnew, lineEnd?_newline]
  · next hne => exact absurd rfl (hne _)

/-- A table with one line, at the end of a document. -/
theorem readLines_table {table : String} (htable : IsBare table) (hkey : IsBare key)
    (hvalue : IsValue value node) (hnew : es.find? table = none) :
    readLines (fuel + 4) ⟨es, []⟩
        ('\n' :: '[' :: (table.toList ++ ']' :: '\n' :: RelayConfig.line key value)) =
      some (es ++ [(table, .table .header [(key, node)])]) := by
  have hline : readLines (fuel + 2) ⟨es ++ [(table, .table .header [])], [table]⟩
      (RelayConfig.line key value ++ []) =
        some (es ++ [(table, .table .header [(key, node)])]) := by
    rw [readLines_line hkey hvalue, assign_table hnew, Option.bind_some]
    rfl
  have hheader : readLines (fuel + 3) ⟨es, []⟩
      ('[' :: (table.toList ++ ']' :: '\n' :: RelayConfig.line key value)) =
        some (es ++ [(table, .table .header [(key, node)])]) := by
    rw [readLines, skipBlanks_cons (by decide)]
    simp only [readLine_header htable hnew]
    rw [← hline, List.append_nil]
    rfl
  rw [readLines, skipBlanks_cons (by decide)]
  simp only [lineEnd?_newline]
  exact hheader

/-! ## Values -/

theorem readValue_scalar {cs : List Char} (harray : cs.head? ≠ some '[')
    (htable : cs.head? ≠ some '\x7b') : readValue room cs = readScalar cs := by
  cases room with
  | zero => rfl
  | succ room =>
    unfold readValue
    split
    · exact absurd rfl harray
    · exact absurd rfl htable
    · rfl

theorem isValue_of_readScalar {c : Char} {cs : List Char} (hc : c ∉ [' ', '\t', '[', '\x7b'])
    (h : ∀ rest, readScalar (c :: cs ++ '\n' :: rest) = some (node, '\n' :: rest)) :
    IsValue (c :: cs) node := by
  intro rest
  simp only [List.mem_cons, List.not_mem_nil, or_false, not_or] at hc
  have hskip : skipBlanks (' ' :: (c :: cs ++ '\n' :: rest)) = c :: cs ++ '\n' :: rest := by
    simp [skipBlanks, hc]
  rw [hskip, readValue_scalar (by simp [hc]) (by simp [hc]), h rest]

theorem isValue_toDigits {n : Nat} (hn : n < integerLimit) :
    IsValue (Nat.toDigits 10 n) (.integer (n : Int)) := by
  have hread := readScalar_toDigits hn
  obtain ⟨d, ds, h, hd⟩ := toDigits_cons n
  rw [h] at hread ⊢
  refine isValue_of_readScalar ?_ hread
  simp only [List.mem_cons, List.not_mem_nil, or_false, not_or]
  refine ⟨?_, ?_, ?_, ?_⟩ <;> rintro rfl <;> revert hd <;> decide

theorem isValue_writeString (text : String) : IsValue (writeString text) (.string text) := by
  have hread rest : readString (writeString text ++ '\n' :: rest) = some (text, '\n' :: rest) :=
    readString_writeString text (by simp) (by simp)
  obtain ⟨cs, h | h⟩ := writeString_head text <;>
  · rw [h] at hread ⊢
    refine isValue_of_readScalar (by decide) fun rest => ?_
    have := hread rest
    rw [List.cons_append] at this ⊢
    simp [readScalar, this]

theorem isValue_boolean (b : Bool) : IsValue (toString b).toList (.boolean b) := by
  cases b
  · exact isValue_of_readScalar (by decide) fun rest => rfl
  · exact isValue_of_readScalar (by decide) fun rest => rfl

end Toml

/-! ## Settings -/

namespace RelayConfig

variable {c : RelayConfig} {text : String}

/-- The number of a policy that has one. -/
def threshold? : JoinPolicy → Option Nat
  | .atLeast n => some n
  | _ => none

theorem threshold?_eq_some {p : JoinPolicy} {n : Nat} :
    threshold? p = some n ↔ p = .atLeast n := by
  cases p <;> simp [threshold?]

/-- The numbers of the settings are integers of the format. -/
structure Fits (c : RelayConfig) : Prop where
  relays : c.maxRelays < integerLimit
  wait : c.failedWait.secs < integerLimit
  threshold : ∀ n ∈ threshold? c.joinPolicy, n < integerLimit

/-- Settings as they are kept: of the wait only the whole seconds. -/
def stored (c : RelayConfig) : RelayConfig :=
  { c with failedWait := .ofSecs c.failedWait.secs }

def textSetting (key : String) (text : String) (h : IsBare key) : Setting :=
  ⟨key, writeString text, .string text, h, isValue_writeString text⟩

def numberSetting (key : String) {n : Nat} (hn : n < integerLimit) (h : IsBare key) : Setting :=
  ⟨key, Nat.toDigits 10 n, .integer n, h, isValue_toDigits hn⟩

def switchSetting (key : String) (b : Bool) (h : IsBare key) : Setting :=
  ⟨key, (toString b).toList, .boolean b, h, isValue_boolean b⟩

/-- The lines in front of the table. -/
def settings (c : RelayConfig) (h : c.Fits) : List Setting :=
  numberSetting "max_relays" h.relays (by decide) ::
  numberSetting "failed_relay_wait_secs" h.wait (by decide) ::
  textSetting "relay_type" c.kind.storedName (by decide) ::
  (c.registrationId.toList.map fun id => textSetting "gcm_registration_id" id (by decide)) ++
  (match c.joinPolicy with
    | .anySuccess => [textSetting "join_policy" "any_success" (by decide)]
    | .allSucceed => [textSetting "join_policy" "all_succeed" (by decide)]
    | .atLeast _ => []) ++
  [switchSetting "filter_failed_manual_relays" c.filterFailedManual (by decide)]

/-- The table of a policy with a number, as it is written and as it is read. -/
def tableText (c : RelayConfig) : List Char :=
  match threshold? c.joinPolicy with
  | some n => '\n' :: '[' :: ("join_policy".toList ++
      ']' :: '\n' :: line "at_least" (Nat.toDigits 10 n))
  | none => []

def table (c : RelayConfig) : Entries :=
  match threshold? c.joinPolicy with
  | some n => [("join_policy", .table .header [("at_least", .integer n)])]
  | none => []

theorem render?_of_fits (h : c.Fits) :
    c.render? = some (String.ofList ((c.settings h).flatMap Setting.line ++ c.tableText)) := by
  have hthreshold := h.threshold
  cases hid : c.registrationId <;> cases hp : c.joinPolicy <;>
    simp_all [render?, writeNat?, h.relays, h.wait, policyTable?, policyLine, settings,
      Setting.line, numberSetting, textSetting, switchSetting, tableText, threshold?]

theorem lt_of_writeNat? {n : Nat} {ds : List Char} (h : writeNat? n = some ds) :
    n < integerLimit := by
  unfold writeNat? at h
  split at h
  · assumption
  · cases h

theorem fits_of_render? (h : c.render? = some text) : c.Fits := by
  simp only [render?, Option.bind_eq_bind, Option.bind_eq_some_iff] at h
  obtain ⟨relays, hrelays, wait, hwait, table, htable, -⟩ := h
  refine ⟨lt_of_writeNat? hrelays, lt_of_writeNat? hwait, fun n hn => ?_⟩
  rw [Option.mem_def, threshold?_eq_some] at hn
  simp only [hn, policyTable?, Option.bind_eq_bind, Option.bind_eq_some_iff] at htable
  obtain ⟨ds, hds, -⟩ := htable
  exact lt_of_writeNat? hds

/-! ## Reading them again -/

theorem nodup_keys (h : c.Fits) : ((c.settings h).map Setting.key).Nodup := by
  cases hid : c.registrationId <;> cases hp : c.joinPolicy <;>
    simp [settings, numberSetting, textSetting, switchSetting, hid, hp]

theorem not_mem_keys (h : c.Fits) {n : Nat} (hn : threshold? c.joinPolicy = some n) :
    "join_policy" ∉ (c.settings h).map Setting.key := by
  rw [threshold?_eq_some] at hn
  cases hid : c.registrationId <;>
    simp [settings, numberSetting, textSetting, switchSetting, hid, hn]

theorem readLines_tableText (h : c.Fits) {fuel : Nat} (hfuel : c.tableText.length < fuel) :
    readLines fuel ⟨(c.settings h).map Setting.entry, []⟩ c.tableText =
      some ((c.settings h).map Setting.entry ++ c.table) := by
  cases hn : threshold? c.joinPolicy with
  | none =>
    obtain ⟨fuel, rfl⟩ := Nat.exists_eq_add_one_of_ne_zero (Nat.ne_zero_of_lt hfuel)
    simp [tableText, table, hn, readLines, skipBlanks]
  | some n =>
    have hnew : Entries.find? ((c.settings h).map Setting.entry) "join_policy" = none := by
      rw [find?_eq_none_iff]
      simpa [Setting.entry, Function.comp_def] using not_mem_keys h hn
    have hlen : 4 ≤ c.tableText.length := by
      simp [tableText, hn, line]
    obtain ⟨fuel, rfl⟩ : ∃ k, fuel = k + 4 := ⟨fuel - 4, by omega⟩
    simp only [tableText, table, hn]
    exact readLines_table (by decide) (by decide) (isValue_toDigits (h.threshold n hn)) hnew

/-- The document of some settings is their tree. -/
theorem read?_render (h : c.Fits) (hrender : c.render? = some text) :
    Toml.read? text = some ((c.settings h).map Setting.entry ++ c.table) := by
  rw [render?_of_fits h, Option.some.injEq] at hrender
  obtain ⟨cs, hcs⟩ : ∃ cs, (c.settings h).flatMap Setting.line ++ c.tableText = 'm' :: cs := by
    simp [settings, Setting.line, numberSetting, line]
  have hlen := Setting.length_le_lines (c.settings h)
  obtain ⟨fuel, hfuel⟩ : ∃ fuel, ((c.settings h).flatMap Setting.line ++ c.tableText).length + 1 =
      (c.settings h).length + fuel := by
    refine ⟨_ - _, (Nat.add_sub_cancel' ?_).symm⟩
    rw [List.length_append]
    omega
  have htable : c.tableText.length < fuel := by
    rw [List.length_append] at hfuel
    omega
  have hread : Toml.read? text = readLines ((c.settings h).length + fuel) ⟨[], []⟩
      ((c.settings h).flatMap Setting.line ++ c.tableText) := by
    rw [← hfuel, ← hrender, hcs]
    simp [Toml.read?]
  rw [hread, Setting.readLines_settings _ (by simpa using nodup_keys h), List.nil_append]
  exact readLines_tableText h htable

theorem ofEntries?_tree (h : c.Fits) :
    ofEntries? ((c.settings h).map Setting.entry ++ c.table) = some c.stored := by
  cases hid : c.registrationId <;> cases hp : c.joinPolicy <;> cases hk : c.kind <;>
    simp [ofEntries?, setting?, Entries.find?, settings, numberSetting, textSetting, switchSetting,
      Setting.entry, table, threshold?, hid, hp, hk, natural?, string?, boolean?, RelayKind.ofNode?,
      RelayKind.storedName, JoinPolicy.ofNode?, variant?, isBare, stored, List.lookup]

/-- What was stored is read again and validated again. -/
theorem parse_render? (hrender : c.render? = some text) :
    parse text = c.stored.validate.map fun _ => c.stored := by
  have h := fits_of_render? hrender
  simp [parse, read?_render h hrender, ofEntries?_tree h]

theorem validate_eq_ok : c.validate = .ok () ↔ c.problem? = none := by
  unfold validate
  cases c.problem? <;> simp

theorem maxRelays_lt (valid : c.validate = .ok ()) : c.maxRelays < integerLimit := by
  rw [validate_eq_ok] at valid
  unfold problem? at valid
  split_ifs at valid with _ hmany
  exact lt_of_le_of_lt (Nat.not_lt.mp hmany) (by decide)

theorem fits_iff (valid : c.validate = .ok ()) : c.Fits ↔
    c.failedWait.secs ≤ 2 ^ 63 - 1 ∧ ∀ n, c.joinPolicy = .atLeast n → n ≤ 2 ^ 63 - 1 := by
  have hlimit (n : Nat) : n < integerLimit ↔ n ≤ 2 ^ 63 - 1 := by
    unfold integerLimit
    omega
  constructor
  · intro h
    refine ⟨(hlimit _).mp h.wait, fun n hn => (hlimit n).mp (h.threshold n ?_)⟩
    exact threshold?_eq_some.mpr hn
  · rintro ⟨hwait, hn⟩
    exact ⟨maxRelays_lt valid, (hlimit _).mpr hwait,
      fun n h => (hlimit n).mpr (hn n (threshold?_eq_some.mp h))⟩

theorem stored_of_whole (whole : c.failedWait.subsecNanos = 0) : c.stored = c := by
  have hwait : Span.ofSecs c.failedWait.secs = c.failedWait := by
    have := Nat.div_add_mod c.failedWait.nanos nanosPerSec
    rw [Span.subsecNanos] at whole
    rw [whole, Nat.add_zero, Nat.mul_comm] at this
    simp [Span.ofSecs, Span.ofParts, Span.secs, this]
  rw [stored, hwait]

/-- Valid settings with a wait of whole seconds can be stored unless a number is too great for the
format, and what is stored is read as the same settings. -/
theorem whole_settings_read_back (c : RelayConfig) (valid : c.validate = .ok ())
    (whole : c.failedWait.subsecNanos = 0) :
    (c.render?.isSome ↔
      c.failedWait.secs ≤ 2 ^ 63 - 1 ∧ ∀ n, c.joinPolicy = .atLeast n → n ≤ 2 ^ 63 - 1) ∧
    ∀ text, c.render? = some text → parse text = .ok c := by
  refine ⟨?_, fun text hrender => ?_⟩
  · rw [← fits_iff valid]
    constructor
    · intro h
      obtain ⟨text, hrender⟩ := Option.isSome_iff_exists.mp h
      exact fits_of_render? hrender
    · intro h
      rw [render?_of_fits h]
      rfl
  · rw [parse_render? hrender, stored_of_whole whole, valid]
    rfl

theorem whole_settings_read_back_sample :
    let c : RelayConfig := {
      kind := .push, registrationId := some "it's \"\"\"\r\n\\u0041\t\x07é"
      joinPolicy := .atLeast 2 }
    c.validate = .ok () ∧ c.failedWait.subsecNanos = 0 ∧ c.render?.map parse = some (.ok c) := by
  intro c
  have valid : c.validate = .ok () := rfl
  have whole : c.failedWait.subsecNanos = 0 := by decide
  obtain ⟨hsome, hread⟩ := whole_settings_read_back c valid whole
  refine ⟨valid, whole, ?_⟩
  obtain ⟨text, hrender⟩ := Option.isSome_iff_exists.mp (hsome.mpr ⟨by decide, by simp [c]⟩)
  rw [hrender, Option.map_some, hread text hrender]

/-! ## Parts of a second -/

@[simp] theorem stored_maxRelays (c : RelayConfig) : c.stored.maxRelays = c.maxRelays := rfl

@[simp] theorem stored_kind (c : RelayConfig) : c.stored.kind = c.kind := rfl

@[simp] theorem stored_joinPolicy (c : RelayConfig) : c.stored.joinPolicy = c.joinPolicy := rfl

@[simp] theorem stored_hasRegistrationId (c : RelayConfig) :
    c.stored.hasRegistrationId = c.hasRegistrationId := rfl

theorem problem?_stored (valid : c.problem? = none) : c.stored.problem? =
    if c.failedWait.nanos < nanosPerSec then some .noWait else none := by
  have hzero : c.stored.failedWait.nanos = 0 ↔ c.failedWait.nanos < nanosPerSec := by
    simp only [stored, Span.ofSecs, Span.ofParts, Span.secs, nanosPerSec]
    omega
  unfold problem? at valid ⊢
  split_ifs at valid with hnone hmany hwait hid hpolicy
  simp only [stored_maxRelays, stored_kind, stored_joinPolicy, stored_hasRegistrationId, hzero,
    hnone, hmany, hid, hpolicy, if_false]

/-- A wait without a whole second is stored as no wait. -/
theorem parse_of_valid (valid : c.validate = .ok ()) (hrender : c.render? = some text) :
    parse text = if c.failedWait.nanos < nanosPerSec
      then .error (.invalidConfig ConfigProblem.noWait.message) else .ok c.stored := by
  rw [parse_render? hrender, validate, problem?_stored (validate_eq_ok.mp valid)]
  split_ifs <;> rfl

/-- Valid settings that can be stored are read as the same settings with the whole seconds of the
wait, if there is a whole one. With a shorter wait they are refused. -/
theorem stored_settings_read_back (c : RelayConfig) (text : String) (valid : c.validate = .ok ())
    (stores : c.render? = some text) :
    (nanosPerSec ≤ c.failedWait.nanos →
      parse text = .ok { c with failedWait := .ofSecs c.failedWait.secs }) ∧
    (c.failedWait.nanos < nanosPerSec →
      parse text = .error (.invalidConfig "failed_relay_wait_time must be non-zero")) := by
  rw [parse_of_valid valid stores]
  constructor
  · intro hlong
    exact if_neg (Nat.not_lt.mpr hlong)
  · intro hshort
    exact if_pos hshort

theorem stored_settings_read_back_sample :
    let c : RelayConfig := { failedWait := ⟨2500000000⟩, joinPolicy := .allSucceed }
    ∃ text, c.validate = .ok () ∧ c.render? = some text ∧ nanosPerSec ≤ c.failedWait.nanos ∧
      parse text = .ok { c with failedWait := .ofSecs 2 } := by
  intro c
  have valid : c.validate = .ok () := rfl
  have hfits : c.Fits := (fits_iff valid).mpr ⟨by decide, by simp [c]⟩
  have hwait : nanosPerSec ≤ c.failedWait.nanos := by decide
  have hsecs : c.failedWait.secs = 2 := by decide
  refine ⟨_, valid, render?_of_fits hfits, hwait, ?_⟩
  rw [← hsecs]
  exact (stored_settings_read_back c _ valid (render?_of_fits hfits)).1 hwait

/-- A wait of half a second is valid, and what is stored of it is not. -/
theorem half_second_not_read_back :
    let c : RelayConfig := { failedWait := ⟨500000000⟩ }
    c.validate = .ok () ∧ ∃ text, c.render? = some text ∧
      parse text = .error (.invalidConfig "failed_relay_wait_time must be non-zero") := by
  intro c
  have valid : c.validate = .ok () := rfl
  have hfits : c.Fits := (fits_iff valid).mpr ⟨by decide, by simp [c]⟩
  refine ⟨valid, _, render?_of_fits hfits, ?_⟩
  rw [parse_of_valid valid (render?_of_fits hfits)]
  exact if_pos (by decide)

end RelayConfig

end RelayUpkeep

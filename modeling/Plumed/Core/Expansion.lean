/-
The lines a shortcut writes, as the input reader splits them: each line defines the label in front
of its colon and reads the labels its argument keywords name. The expansion is well formed
(`WellFormedExpansion`) when every line has a label, no label is defined twice, and every label a
line reads was given to the shortcut or is defined by an earlier line: `readInputWords` reads the
lines in order and resolves each argument against the actions already in the set.

The shortcuts build their lines by concatenating text. For every line that is plain words joined
by blanks, the reader gives the words back (`readWords_words`).
-/
import Plumed.Core.ActionShortcut

namespace Plumed.Core

/-! ## Plain words -/

/-- Characters that the input reader keeps inside a word: no brace and no separator. -/
def PlainChars (l : List Char) : Prop := ∀ c ∈ l, c ≠ '\x7b' ∧ c ≠ '\x7d' ∧ isSeparator c = false

instance (l : List Char) : Decidable (PlainChars l) :=
  inferInstanceAs (Decidable (∀ c ∈ l, c ≠ '\x7b' ∧ c ≠ '\x7d' ∧ isSeparator c = false))

@[simp] theorem plainChars_append {a b : List Char} : PlainChars (a ++ b) ↔ PlainChars a ∧ PlainChars b :=
  List.forall_mem_append

theorem plainChars_strAppend {a b : String} (ha : PlainChars a.data) (hb : PlainChars b.data) :
    PlainChars (a ++ b).data := by
  rw [String.data_append]; exact plainChars_append.2 ⟨ha, hb⟩

@[simp] theorem plainChars_flatMap {α : Type} {l : List α} {f : α → List Char} :
    PlainChars (l.flatMap f) ↔ ∀ a ∈ l, PlainChars (f a) := by
  simp only [PlainChars, List.mem_flatMap]
  exact ⟨fun h a ha c hc => h c ⟨a, ha, hc⟩, fun h c ⟨a, ha, hc⟩ => h a ha c hc⟩

/-- A word that the reader reads as one word: not empty, and made of plain characters. -/
structure PlainWord (w : String) : Prop where
  ne_nil : w.data ≠ []
  plain : PlainChars w.data

theorem plainWord_iff {w : String} : PlainWord w ↔ w.data ≠ [] ∧ PlainChars w.data :=
  ⟨fun h => ⟨h.ne_nil, h.plain⟩, fun h => ⟨h.1, h.2⟩⟩

instance (w : String) : Decidable (PlainWord w) := decidable_of_iff _ plainWord_iff.symm

theorem plainWord_colon {l : String} (hl : PlainChars l.data) : PlainWord (l ++ ":") :=
  plainWord_iff.2 ⟨by simp [String.data_append], plainChars_strAppend hl (by decide)⟩

theorem plainWord_keyword {k v : String} (hk : PlainChars k.data) (hv : PlainChars v.data) : PlainWord (k ++ "=" ++ v) :=
  plainWord_iff.2 ⟨by simp [String.data_append], plainChars_strAppend (plainChars_strAppend hk (by decide)) hv⟩

theorem readWordsFrom_words : ∀ (w : List Char) (ws : List (List Char)), w ≠ [] → PlainChars w →
    (∀ v ∈ ws, v ≠ [] ∧ PlainChars v) → readWordsFrom (w ++ ws.flatMap (' ' :: ·)) 0 [] = w :: ws
  | w, ws, hne, hw, hws => by
    have hplain : ∀ rest, readWordsFrom (w ++ rest) 0 [] = readWordsFrom rest 0 ([] ++ w) := fun _ =>
      readWordsFrom_plain w [] fun c hc => ⟨(hw c hc).1, (hw c hc).2.1, fun _ => (hw c hc).2.2⟩
    cases ws with
    | nil => rw [List.flatMap_nil, hplain, List.nil_append, readWordsFrom, if_neg hne]
    | cons v vs =>
      obtain ⟨hv, hvp⟩ := hws v (List.mem_cons_self v vs)
      rw [List.flatMap_cons, hplain, List.nil_append, List.cons_append, readWordsFrom_blank, if_neg hne,
        readWordsFrom_words v vs hv hvp fun u hu => hws u (List.mem_cons_of_mem v hu), List.singleton_append]

/-- A line whose text is the plain word `w` followed by the plain words `ws`, each after a blank,
is read as those words. -/
theorem readWords_words {s w : String} {ws : List String} (hs : s.data = w.data ++ ws.flatMap (' ' :: ·.data))
    (hw : PlainWord w) (hws : ∀ v ∈ ws, PlainWord v) : readWords s = w :: ws := by
  have hflat : ws.flatMap (' ' :: ·.data) = (ws.map String.data).flatMap (' ' :: ·) := by
    simp [List.flatMap_map]
  have h := readWordsFrom_words w.data (ws.map String.data) hw.ne_nil hw.plain (by
    simpa using fun v hv => ⟨(hws v hv).ne_nil, (hws v hv).plain⟩)
  show (readWordsFrom s.data 0 []).map String.mk = w :: ws
  rw [hs, hflat, h, List.map_cons, List.map_map]
  exact congrArg _ (List.map_id'' (fun _ => rfl) ws)

theorem data_foldl_append {α : Type} (l : List α) (piece : α → String) : ∀ s : String,
    (l.foldl (fun s a => s ++ piece a) s).data = s.data ++ l.flatMap fun a => (piece a).data := by
  induction l with
  | nil => simp
  | cons a l ih => intro s; rw [List.foldl_cons, ih, String.data_append, List.flatMap_cons, List.append_assoc]

/-! ## What a line defines and reads -/

/-- `Tools::interpretLabel` (tools/Tools.cpp is not among the sources): a first word ending in `:`
is the label of the line. -/
def lineLabel : List String → Option String
  | w :: _ => if w.data.getLast? = some ':' then some (String.mk w.data.dropLast) else none
  | [] => none

theorem lineLabel_of_data {w l : String} (rest : List String) (h : w.data = l.data ++ [':']) :
    lineLabel (w :: rest) = some l := by
  simp only [lineLabel, h, List.getLast?_concat, List.dropLast_concat, if_true]

@[simp] theorem lineLabel_colon (l : String) (rest : List String) : lineLabel ((l ++ ":") :: rest) = some l :=
  lineLabel_of_data rest (String.data_append l ":")

/-- The keywords through which the actions the shortcuts write read the values of other actions:
`ARG` and its numbered forms `ARG1`, `ARG2`, …, the `WEIGHT` of `COORDINATIONNUMBER` and the
`HEIGHTS` of the histograms. -/
def isArgumentKey (k : List Char) : Bool :=
  k == "WEIGHT".data || k == "HEIGHTS".data || (k.take 3 == "ARG".data && (k.drop 3).all Char.isDigit)

/-- The items of a comma-separated list; `cur` is the item read so far. -/
def splitCommas : List Char → List Char → List (List Char)
  | [], cur => [cur]
  | c :: cs, cur => if c = ',' then cur :: splitCommas cs [] else splitCommas cs (cur ++ [c])

theorem splitCommas_append_comma : ∀ (a b cur : List Char), ',' ∉ a →
    splitCommas (a ++ ',' :: b) cur = (cur ++ a) :: splitCommas b []
  | [], b, cur, _ => by simp [splitCommas]
  | c :: a, b, cur, h => by
    rw [List.mem_cons, not_or] at h
    rw [List.cons_append, splitCommas, if_neg (Ne.symm h.1), splitCommas_append_comma a b _ h.2, List.append_assoc,
      List.singleton_append]

theorem splitCommas_noComma : ∀ (l cur : List Char), ',' ∉ l → splitCommas l cur = [cur ++ l]
  | [], cur, _ => by simp [splitCommas]
  | c :: cs, cur, h => by
    rw [List.mem_cons, not_or] at h
    rw [splitCommas, if_neg (Ne.symm h.1), splitCommas_noComma cs _ h.2, List.append_assoc, List.singleton_append]

theorem splitCommas_join {x : List Char} {ys : List (List Char)} (hx : ',' ∉ x) (hys : ∀ y ∈ ys, ',' ∉ y) :
    splitCommas (x ++ ys.flatMap (',' :: ·)) [] = x :: ys := by
  induction ys generalizing x with
  | nil => rw [List.flatMap_nil, List.append_nil, splitCommas_noComma _ _ hx, List.nil_append]
  | cons y ys ih =>
    rw [List.flatMap_cons, List.cons_append, splitCommas_append_comma _ _ _ hx, List.nil_append,
      ih (hys y (List.mem_cons_self y ys)) fun z hz => hys z (List.mem_cons_of_mem y hz)]

/-- The labels one word reads: for `key=value` with an argument keyword, the action of each item of
the value (`a.w` reads `a`). -/
def wordLabels (w : String) : List String :=
  if '=' ∈ w.data ∧ isArgumentKey (w.data.takeWhile (· ≠ '=')) = true then
    (splitCommas (w.data.dropWhile (· ≠ '=')).tail []).map fun item => labelOf (String.mk item)
  else []

/-- The labels a line reads: those of its words after the first, which is its label or its action. -/
def readLabels (line : List String) : List String := line.tail.flatMap wordLabels

@[simp] theorem readLabels_cons (w : String) (ws : List String) : readLabels (w :: ws) = ws.flatMap wordLabels := rfl

theorem wordLabels_keyword {w k v : String} (hw : w.data = k.data ++ '=' :: v.data) (hk : '=' ∉ k.data) :
    wordLabels w =
      if isArgumentKey k.data then (splitCommas v.data []).map fun item => labelOf (String.mk item) else [] := by
  have hpos : ∀ c ∈ k.data, decide (c ≠ '=') = true := fun c hc => by
    simp only [decide_eq_true_eq]; rintro rfl; exact hk hc
  have htake : w.data.takeWhile (· ≠ '=') = k.data := by
    rw [hw, List.takeWhile_append_of_pos hpos]; simp
  have hdrop : w.data.dropWhile (· ≠ '=') = '=' :: v.data := by
    rw [hw, List.dropWhile_append_of_pos hpos]; simp
  have hmem : '=' ∈ w.data := by simp [hw]
  simp only [wordLabels, htake, hdrop, List.tail_cons, hmem, true_and]

theorem labelOf_append {a : String} (b : String) (ha : '.' ∉ a.data) : labelOf (a ++ b) = a ++ labelOf b := by
  have hpos : ∀ c ∈ a.data, decide (c ≠ '.') = true := fun c hc => by
    simp only [decide_eq_true_eq]; rintro rfl; exact ha hc
  apply String.ext
  simp only [labelOf, String.toList, String.data_append, List.takeWhile_append_of_pos hpos]

theorem labelOf_of_noDot {a : String} (ha : '.' ∉ a.data) : labelOf a = a := by
  have h := labelOf_append "" ha
  rwa [String.append_empty, show labelOf "" = "" from rfl, String.append_empty] at h

/-- A word `key=a<suffix>` with an argument keyword reads the label `a<suffix>` up to its dot, for
`a` with neither a dot nor a comma and a suffix with no comma. -/
theorem wordLabels_argument {w k : String} (a suffix : String) (hw : w.data = k.data ++ '=' :: (a ++ suffix).data)
    (hk : '=' ∉ k.data) (harg : isArgumentKey k.data = true) (ha : '.' ∉ a.data ∧ ',' ∉ a.data)
    (hs : ',' ∉ suffix.data) : wordLabels w = [a ++ labelOf suffix] := by
  have hcomma : ',' ∉ (a ++ suffix).data := by simp [String.data_append, ha.2, hs]
  rw [wordLabels_keyword hw hk, if_pos harg, splitCommas_noComma _ _ hcomma, List.nil_append, List.map_singleton]
  exact congrArg (· :: []) (labelOf_append suffix ha.1)

theorem wordLabels_labelArgument {lab : String} (hlab : '.' ∉ lab.data ∧ ',' ∉ lab.data) (k suffix : String)
    (hk : '=' ∉ k.data) (harg : isArgumentKey k.data = true) (hs : ',' ∉ suffix.data) :
    wordLabels (k ++ "=" ++ (lab ++ suffix)) = [lab ++ labelOf suffix] :=
  wordLabels_argument lab suffix (by simp [String.data_append]) hk harg hlab hs

theorem wordLabels_other {w k v : String} (hw : w.data = k.data ++ '=' :: v.data) (hk : '=' ∉ k.data)
    (harg : isArgumentKey k.data = false) : wordLabels w = [] := by
  rw [wordLabels_keyword hw hk, if_neg (by simp [harg])]

theorem wordLabels_noEquals {w : String} (hw : '=' ∉ w.data) : wordLabels w = [] := by
  simp [wordLabels, hw]

@[simp] theorem append_left_inj_string (a : String) {b c : String} : a ++ b = a ++ c ↔ b = c :=
  ⟨fun h => String.ext (List.append_cancel_left (by simpa only [String.data_append] using congrArg String.data h)),
    congrArg (a ++ ·)⟩

theorem wordLabels_nonArgument {w : String} (h : isArgumentKey (w.data.takeWhile (· ≠ '=')) = false) :
    wordLabels w = [] := by
  rw [wordLabels, if_neg fun hc => Bool.false_ne_true (h.symm.trans hc.2)]

/-- The label and the reads of a line of plain words after its label, none of which reads a label. -/
theorem readWords_readsNothing {s l : String} (ws : List String)
    (hs : s.data = (l ++ ":").data ++ ws.flatMap (' ' :: ·.data)) (hl : PlainChars l.data)
    (hws : ∀ v ∈ ws, PlainWord v ∧ wordLabels v = []) :
    lineLabel (readWords s) = some l ∧ readLabels (readWords s) = [] := by
  rw [readWords_words hs (plainWord_colon hl) fun v hv => (hws v hv).1]
  exact ⟨lineLabel_colon l ws, by simpa [readLabels] using fun v hv => (hws v hv).2⟩

@[simp] theorem append_eq_self_string (a : String) {b : String} : a ++ b = a ↔ b = "" := by
  refine ⟨fun h => String.ext (List.eq_nil_of_length_eq_zero ?_), fun h => h ▸ String.append_empty a⟩
  simpa [String.data_append] using congrArg (·.data.length) h

/-! ## Well-formed expansions -/

/-- Every label a line reads is in scope when the line is read: in `scope` at the start (the labels
given to the shortcut), or defined by an earlier line. -/
def ReadsInScope : List String → List (List String) → Prop
  | _, [] => True
  | scope, line :: rest => readLabels line ⊆ scope ∧ ReadsInScope ((lineLabel line).toList ++ scope) rest

theorem readsInScope_cons (scope : List String) (line : List String) (rest : List (List String)) :
    ReadsInScope scope (line :: rest) ↔
      readLabels line ⊆ scope ∧ ReadsInScope ((lineLabel line).toList ++ scope) rest :=
  Iff.rfl

/-- The lines of a shortcut, as the reader splits them, read in order on the labels `given` to the
shortcut: every line has a label, no two lines the same one, and every line reads only labels in
scope. -/
structure WellFormedExpansion (given : List String) (lines : List (List String)) : Prop where
  labelled : ∀ line ∈ lines, (lineLabel line).isSome
  distinct : (lines.filterMap lineLabel).Nodup
  inScope : ReadsInScope given lines

/-- The labels in scope after `lines`, the last line's label first. -/
def scopeAfter : List String → List (List String) → List String
  | scope, [] => scope
  | scope, line :: rest => scopeAfter ((lineLabel line).toList ++ scope) rest

theorem readsInScope_append : ∀ (scope : List String) (xs ys : List (List String)),
    ReadsInScope scope (xs ++ ys) ↔ ReadsInScope scope xs ∧ ReadsInScope (scopeAfter scope xs) ys
  | scope, [], ys => by simp [ReadsInScope, scopeAfter]
  | scope, x :: xs, ys => by
    rw [List.cons_append, ReadsInScope, ReadsInScope, scopeAfter, readsInScope_append _ xs ys, and_assoc]

theorem mem_scopeAfter {l : String} : ∀ (scope : List String) (xs : List (List String)),
    l ∈ scopeAfter scope xs ↔ l ∈ scope ∨ l ∈ xs.filterMap lineLabel
  | scope, [] => by simp [scopeAfter]
  | scope, x :: xs => by
    rw [scopeAfter, mem_scopeAfter, List.mem_append]
    cases h : lineLabel x <;> simp [h, or_assoc, or_left_comm]

/-- The label the last line defines: the one the shortcut's later lines and its users read. -/
def lastLabel (lines : List (List String)) : Option String := lines.getLast?.bind lineLabel

end Plumed.Core

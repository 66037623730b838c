/-
`ActionShortcut::interpretDataLabel`: the values a label `a.name` of a shortcut stands for. For
`a.*` it collects the action of every output component of the shortcut, numbered components
`a_<comp>1, a_<comp>2, …` included, and returns: the numbered loop leaves at the first missing
label, within one more pass than the set has actions (`interpretDataLabel_star`). For `a.<comp><n>` it
enters a loop over `j = 1, 2, …` that has no exit: it never returns. At the pass where `name`
is `<comp><j>` it looks up `a_<comp><n><n>`, with the number twice, and stops the program when
there is no such action; otherwise it goes on for ever.

`convertInputLineToString` writes the words of a line back as text, a word with a blank as
`key={value}`. For every line of words without braces, tabs or newlines, in which each word with a
blank has its key before its first `=`, the input reader gives the words back
(`readWords_convertInputLineToString`); a word with a blank and no `=` is written `word={word}`.
-/
import Plumed.Core.PlumedMain
import Plumed.Tools.Convert

namespace Plumed.Core

open Plumed.Tools

/-! ## Loops with no bound -/

/-- What one pass of a `for (j = 1;; ++j)` loop does: go on with a new state, leave the loop, or
stop the program with an error. -/
inductive Pass (σ : Type) where
  | next (s : σ)
  | exit (s : σ)
  | abort (msg : String)

/-- The loop `for (;; ++j) body` on `fuel` passes: `none` while it is still running, the state it
leaves with, or the error that stopped it. -/
def runFor {σ : Type} (body : Nat → σ → Pass σ) : Nat → Nat → σ → Option (Except String σ)
  | 0, _, _ => none
  | fuel + 1, j, s =>
    match body j s with
    | .next s' => runFor body fuel (j + 1) s'
    | .exit s' => some (.ok s')
    | .abort msg => some (.error msg)

section Loops

variable {σ : Type} {body : Nat → σ → Pass σ}

theorem runFor_ne_ok (hbody : ∀ j s s', body j s ≠ .exit s') :
    ∀ fuel j s r, runFor body fuel j s ≠ some (.ok r)
  | 0, _, _, _ => nofun
  | fuel + 1, j, s, r => by
    rw [runFor]
    cases h : body j s with
    | next s' => exact runFor_ne_ok hbody fuel (j + 1) s' r
    | exit s' => exact absurd h (hbody j s s')
    | abort msg => nofun

theorem runFor_none (hbody : ∀ j s, ∃ s', body j s = .next s') : ∀ fuel j s, runFor body fuel j s = none
  | 0, _, _ => rfl
  | fuel + 1, j, s => by
    obtain ⟨s', h⟩ := hbody j s
    rw [runFor, h]
    exact runFor_none hbody fuel (j + 1) s'

theorem runFor_isSome (hexit : ∀ j s, body j s = .exit s ∨ (∃ s', body j s = .next s') ∨ ∃ m, body j s = .abort m) :
    ∀ {fuel j : Nat} (s : σ), (∃ k < fuel, ∀ s, ∀ s', body (j + k) s ≠ .next s') → (runFor body fuel j s).isSome
  | 0, _, _, ⟨_, hk, _⟩ => absurd hk (Nat.not_lt_zero _)
  | fuel + 1, j, s, ⟨k, hk, hstop⟩ => by
    rw [runFor]
    rcases hexit j s with h | ⟨s', h⟩ | ⟨m, h⟩
    · rw [h]; rfl
    · rw [h]
      have hk0 : k ≠ 0 := by rintro rfl; exact hstop s s' h
      refine runFor_isSome hexit s' ⟨k - 1, by omega, fun s s'' => ?_⟩
      rw [show j + 1 + (k - 1) = j + k by omega]; exact hstop s s''
    · rw [h]; rfl

theorem runFor_mono : ∀ {fuel fuel' j : Nat} {s : σ} {r : Except String σ}, fuel ≤ fuel' →
    runFor body fuel j s = some r → runFor body fuel' j s = some r
  | 0, _, _, _, _, _, h => nomatch h
  | fuel + 1, fuel' + 1, j, s, r, hle, h => by
    rw [runFor] at h ⊢
    cases hb : body j s with
    | next s' => rw [hb] at h; exact runFor_mono (by omega) h
    | exit s' => rw [hb] at h; exact h
    | abort m => rw [hb] at h; exact h

end Loops

/-! ## `interpretDataLabel` -/

section Interpret

variable (set : List Action)

/-- `selectWithLabel<ActionWithValue*>(l)`: the action labelled `l`, when it has values. -/
def selectWithValue (l : String) : Option Action :=
  match selectWithLabel set l with
  | some p => if (actionAt set p).isActionWithValue then some (actionAt set p) else none
  | none => none

/-- `copyOutput(0)->use(myuser, arg)` of an action that must have exactly one component; the
error names the action. -/
def useSingle (label : String) (act : Action) (arg : List Value) : Except String (List Value) :=
  if act.components.length ≠ 1 then .error ("action named " ++ label ++ " has more than one component")
  else .ok (arg ++ act.components.take 1)

/-- The loop over `a_<comp>1, a_<comp>2, …` of `a.*`: every component of each, up to the first
missing label. -/
def starLoop (a comp : String) (j : Nat) (arg : List Value) : Pass (List Value) :=
  match selectWithValue set (a ++ "_" ++ comp ++ toString j) with
  | none => .exit arg
  | some act => .next (arg ++ act.components)

/-- Output component `comp` of `a.*`: the action `a` for the unnamed component, else `a_<comp>`,
else the numbered actions `a_<comp>1, a_<comp>2, …`. -/
def starComponent (a : String) (fuel : Nat) (arg : List Value) (comp : String) : Option (Except String (List Value)) :=
  if comp = "" then
    match selectWithValue set a with
    | none => some (.ok arg)
    | some act => some (useSingle a act arg)
  else match selectWithValue set (a ++ "_" ++ comp) with
    | some act => some (useSingle (a ++ "_" ++ comp) act arg)
    | none => runFor (starLoop set a comp) fuel 1 arg

/-- The output components in order, each on the values collected so far; the first that stops
or runs out of fuel ends the loop. -/
def componentsLoop (f : List Value → String → Option (Except String (List Value))) :
    List String → List Value → Option (Except String (List Value))
  | [], arg => some (.ok arg)
  | comp :: comps, arg =>
    match f arg comp with
    | some (.ok arg') => componentsLoop f comps arg'
    | r => r

/-- The loop of `a.<comp><n>` over `j = 1, 2, …`: when `name` is `comp` followed by `j`, it takes
the action `a_<name><j>` (a null pointer when there is none) and its output of that name; it has
no `break`. -/
def dataLabelLoop (a name comp : String) (j : Nat) (arg : List Value) : Pass (List Value) :=
  if name = comp ++ toString j then
    match selectWithValue set (a ++ "_" ++ name ++ toString j) with
    | none => .abort ("null pointer dereference: no action with values labelled " ++ a ++ "_" ++ name ++ toString j)
    | some act =>
      match act.components.find? (·.name == a ++ "_" ++ name ++ toString j) with
      | none => .abort ("there is no output named " ++ a ++ "_" ++ name ++ toString j)
      | some v => .next (arg ++ [v])
  else .next arg

/-- The text after the first `.` of a data label, or the whole label when it has no `.`
(`substr(npos + 1)` reads from `0`). -/
def dataLabelName (mystr : String) : String := if '.' ∈ mystr.toList then componentPart mystr else mystr

/-- `ActionShortcut::interpretDataLabel(mystr, myuser, arg)` of a shortcut whose keywords give the
output components `outComps`, on the loops' `fuel`: `a` is the text before the first `.` and
`name` is `dataLabelName`. `none` is a loop still running when the fuel ran out. ActionWithValue.h is not among the
sources: a missing output is an error. -/
def interpretDataLabel (outComps : List String) (fuel : Nat) (mystr : String) (arg : List Value) :
    Option (Except String (List Value)) :=
  let a := labelOf mystr
  let name := dataLabelName mystr
  if name = "*" then componentsLoop (starComponent set a fuel) outComps arg
  else match (selectWithValue set a).bind fun act => act.components.find? (·.name == mystr) with
    | some v => some (.ok (arg ++ [v]))
    | none =>
      match outComps.find? fun comp => (findFrom comp.toList name.toList 0).isSome with
      | none => some (.ok arg)
      | some comp =>
        if name = comp then
          match selectWithValue set (a ++ "_" ++ name) with
          | none => some (.error ("null pointer dereference: no action with values labelled " ++ a ++ "_" ++ name))
          | some act =>
            match act.components.find? (·.name == a ++ "_" ++ name) with
            | none => some (.error ("there is no output named " ++ a ++ "_" ++ name))
            | some v => some (.ok (arg ++ [v]))
        else runFor (dataLabelLoop set a name comp) fuel 1 arg

/-! ### The label `a.*` -/

theorem mem_labels_of_selectWithValue {l : String} {act : Action} (h : selectWithValue set l = some act) :
    l ∈ set.map (·.label) := by
  unfold selectWithValue at h
  split at h
  · rename_i p hp
    obtain ⟨x, hx, hl⟩ := List.any_eq_true.mp (List.findIdx?_isSome.symm.trans (congrArg Option.isSome hp))
    exact List.mem_map.mpr ⟨x, hx, by simpa using hl⟩
  · cases h

/-- Among `a_<comp>1, …, a_<comp>(m+1)` for `m` the number of actions, some label has no action:
distinct numbers give distinct labels. -/
theorem exists_missing_numbered (a comp : String) :
    ∃ k < set.length + 1, selectWithValue set (a ++ "_" ++ comp ++ toString (1 + k)) = none := by
  by_contra hall
  push_neg at hall
  have hnd : ((List.range (set.length + 1)).map fun k => a ++ "_" ++ comp ++ toString (1 + k)).Nodup :=
    (List.nodup_range _).map fun x y hxy => by have := append_toString_inj hxy; omega
  have hsub : ((List.range (set.length + 1)).map fun k => a ++ "_" ++ comp ++ toString (1 + k)) ⊆
      set.map (·.label) := fun x hx => by
    obtain ⟨k, hk, rfl⟩ := List.mem_map.mp hx
    obtain ⟨act, hact⟩ := Option.ne_none_iff_exists'.mp (hall k (List.mem_range.mp hk))
    exact mem_labels_of_selectWithValue set hact
  have := (List.subperm_of_subset hnd hsub).length_le
  simp at this

/-- Every output component of `a.*` returns within `set.length + 1` passes. -/
theorem starComponent_isSome (a : String) {fuel : Nat} (hfuel : set.length + 1 ≤ fuel) (arg : List Value)
    (comp : String) : (starComponent set a fuel arg comp).isSome := by
  unfold starComponent
  split_ifs
  · split <;> rfl
  · split
    · rfl
    · obtain ⟨k, hk, hnone⟩ := exists_missing_numbered set a comp
      refine runFor_isSome (fun j s => ?_) arg ⟨k, by omega, fun s s' => ?_⟩
      · unfold starLoop; split
        · exact .inl rfl
        · exact .inr (.inl ⟨_, rfl⟩)
      · unfold starLoop; rw [hnone]; nofun

theorem componentsLoop_isSome {f : List Value → String → Option (Except String (List Value))}
    (hf : ∀ arg comp, (f arg comp).isSome) : ∀ comps arg, (componentsLoop f comps arg).isSome
  | [], _ => rfl
  | comp :: comps, arg => by
    rw [componentsLoop]
    obtain ⟨r, hr⟩ := Option.isSome_iff_exists.mp (hf arg comp)
    rw [hr]
    cases r with
    | ok arg' => exact componentsLoop_isSome hf comps arg'
    | error e => rfl

theorem componentsLoop_mono {f g : List Value → String → Option (Except String (List Value))}
    (hfg : ∀ arg comp r, f arg comp = some r → g arg comp = some r) :
    ∀ {comps arg r}, componentsLoop f comps arg = some r → componentsLoop g comps arg = some r
  | [], _, _, h => h
  | comp :: comps, arg, r, h => by
    rw [componentsLoop] at h ⊢
    cases hc : f arg comp with
    | none => rw [hc] at h; cases h
    | some r' =>
      rw [hc] at h
      rw [hfg arg comp r' hc]
      cases r' with
      | ok arg' => exact componentsLoop_mono hfg h
      | error e => exact h

/-- `a.*` returns: from `set.length + 1` passes on, every fuel gives the same values. -/
theorem interpretDataLabel_star (outComps : List String) (mystr : String) (arg : List Value)
    (hstar : dataLabelName mystr = "*") :
    ∃ r, ∀ fuel, set.length + 1 ≤ fuel → interpretDataLabel set outComps fuel mystr arg = some r := by
  simp only [interpretDataLabel, if_pos hstar]
  obtain ⟨r, hr⟩ := Option.isSome_iff_exists.mp
    (componentsLoop_isSome (starComponent_isSome set (labelOf mystr) le_rfl) outComps arg)
  refine ⟨r, fun fuel hfuel => componentsLoop_mono (fun arg comp r' h => ?_) hr⟩
  unfold starComponent at h ⊢
  split_ifs at h ⊢
  · exact h
  · split at h
    · exact h
    · exact runFor_mono hfuel h

/-! ### The label `a.<comp><n>` -/

theorem dataLabelLoop_ne_exit (a name comp : String) (j : Nat) (arg arg' : List Value) :
    dataLabelLoop set a name comp j arg ≠ .exit arg' := by
  unfold dataLabelLoop
  split_ifs
  · split
    · nofun
    · split <;> nofun
  · nofun

/-- When the output component found in the label's name is not the whole name, and the label is
no component of an action `a`, `interpretDataLabel` enters the numbered loop and never returns. -/
theorem interpretDataLabel_neverReturns (outComps : List String) (mystr : String) (arg : List Value)
    {comp : String} (hstar : dataLabelName mystr ≠ "*")
    (hown : ((selectWithValue set (labelOf mystr)).bind fun act => act.components.find? (·.name == mystr)) = none)
    (hcomp : outComps.find? (fun c => (findFrom c.toList (dataLabelName mystr).toList 0).isSome) = some comp)
    (hne : dataLabelName mystr ≠ comp) :
    ∀ fuel r, interpretDataLabel set outComps fuel mystr arg ≠ some (.ok r) := fun fuel r => by
  simp only [interpretDataLabel, if_neg hstar, hown, hcomp, if_neg hne]
  exact runFor_ne_ok (dataLabelLoop_ne_exit set _ _ _) fuel 1 arg r

/-- A shortcut `a` with the output component `lt` that made the action `a_lt1`, whose one output is
`a_lt1`. -/
def setLt : List Action :=
  [{ (default : Action) with
     label := "a_lt1", name := "LESS_THAN", isActionWithValue := true,
     components := [{ (default : Value) with name := "a_lt1" }] }]

theorem interpretDataLabel_ltOne :
    dataLabelName "a.lt1" ≠ "*" ∧
    ((selectWithValue setLt (labelOf "a.lt1")).bind fun act => act.components.find? (·.name == "a.lt1")) = none ∧
    (["lt"].find? fun c => (findFrom c.toList (dataLabelName "a.lt1").toList 0).isSome) = some "lt" ∧
    dataLabelName "a.lt1" ≠ "lt" ∧
    ∀ fuel r, interpretDataLabel setLt ["lt"] fuel "a.lt1" [] ≠ some (.ok r) :=
  ⟨by decide, rfl, rfl, by decide,
    interpretDataLabel_neverReturns setLt ["lt"] "a.lt1" [] (by decide) rfl rfl (by decide)⟩

/-- At its first pass the loop looks up `a_lt11`, which does not exist. -/
example : interpretDataLabel setLt ["lt"] 1 "a.lt1" [] =
    some (.error "null pointer dereference: no action with values labelled a_lt11") := rfl

/-- When moreover the name is `<comp><n>` and `a_<comp><n><n>` has the output of that name, the
loop goes on for ever: every fuel runs out. -/
theorem interpretDataLabel_diverges (outComps : List String) (mystr : String) (arg : List Value)
    {comp : String} {n : Nat} (hstar : dataLabelName mystr ≠ "*")
    (hown : ((selectWithValue set (labelOf mystr)).bind fun act => act.components.find? (·.name == mystr)) = none)
    (hcomp : outComps.find? (fun c => (findFrom c.toList (dataLabelName mystr).toList 0).isSome) = some comp)
    (hne : dataLabelName mystr ≠ comp) (hn : dataLabelName mystr = comp ++ toString n)
    (hact : ∃ act v, selectWithValue set (labelOf mystr ++ "_" ++ dataLabelName mystr ++ toString n) = some act ∧
      act.components.find? (·.name == labelOf mystr ++ "_" ++ dataLabelName mystr ++ toString n) = some v) :
    ∀ fuel, interpretDataLabel set outComps fuel mystr arg = none := fun fuel => by
  simp only [interpretDataLabel, if_neg hstar, hown, hcomp, if_neg hne]
  refine runFor_none (fun j s => ?_) fuel 1 arg
  unfold dataLabelLoop
  split_ifs with hj
  · obtain rfl : j = n := append_toString_inj (hj.symm.trans hn)
    obtain ⟨act, v, hsel, hfind⟩ := hact
    rw [hsel]; simp only [hfind]; exact ⟨_, rfl⟩
  · exact ⟨_, rfl⟩

end Interpret

/-! ## Writing the input line back -/

section Line

/-- `ActionShortcut::convertInputLineToString` on one word, with the blank before it, in list form
(`convertWordStd` is the loop body on `std::string`, and `convertWordStd_eq` shows it writes this): a
word with a blank is written `key=\x7bvalue\x7d`, cut at its first `=`, and a word with a blank and no
`=` is written whole on both sides. -/
def convertWord (w : List Char) : List Char :=
  if ' ' ∈ w then
    ' ' :: (w.takeWhile (· ≠ '=') ++ '=' :: '\x7b' ::
      ((if '=' ∈ w then (w.dropWhile (· ≠ '=')).drop 1 else w) ++ ['\x7d']))
  else ' ' :: w

/-- `ActionShortcut::convertInputLineToString`: the text of the words of `line`, each after a blank,
and `line` emptied. -/
def convertInputLineToString (line : List String) : String × List String :=
  (String.mk (line.flatMap fun w => convertWord w.toList), [])

/-- The separators of the input reader: blank, tab and newline. -/
def isSeparator (c : Char) : Bool := c == ' ' || c == '\t' || c == '\n'

/-- The words of an input line as the input reader (`Tools::getWords` with braces as parentheses;
tools/Tools.cpp is not among the sources) splits it: a separator ends a word outside braces, and
braces group and are dropped. `level` is the depth of braces, `word` the word read so far. -/
def readWordsFrom : List Char → Nat → List Char → List (List Char)
  | [], _, word => if word = [] then [] else [word]
  | c :: cs, level, word =>
    if c = '\x7b' then readWordsFrom cs (level + 1) word
    else if c = '\x7d' then readWordsFrom cs (level - 1) word
    else if isSeparator c && level == 0 then (if word = [] then [] else [word]) ++ readWordsFrom cs 0 []
    else readWordsFrom cs level (word ++ [c])

/-- The words the input reader finds in a line. -/
def readWords (s : String) : List String := (readWordsFrom s.toList 0 []).map String.mk

/-- A word that the written line gives back: not empty, without braces, tabs or newlines, and, when
it holds a blank, of the form `key=value` with neither a blank nor `=` in `key`. -/
structure ConvertibleWord (w : String) : Prop where
  ne_nil : w.toList ≠ []
  plain : ∀ c ∈ w.toList, c ≠ '\x7b' ∧ c ≠ '\x7d' ∧ c ≠ '\t' ∧ c ≠ '\n'
  keyValue : ' ' ∈ w.toList → ∃ k v, w.toList = k ++ '=' :: v ∧ '=' ∉ k ∧ ' ' ∉ k

theorem readWordsFrom_plain {level : Nat} {rest : List Char} :
    ∀ (cs word : List Char), (∀ c ∈ cs, c ≠ '\x7b' ∧ c ≠ '\x7d' ∧ (level = 0 → isSeparator c = false)) →
      readWordsFrom (cs ++ rest) level word = readWordsFrom rest level (word ++ cs)
  | [], word, _ => by simp
  | c :: cs, word, h => by
    obtain ⟨h1, h2, h3⟩ := h c (List.mem_cons_self c cs)
    have hsep : (isSeparator c && level == 0) = false := by
      cases hl : level with
      | zero => simp [h3 hl]
      | succ => simp
    rw [List.cons_append, readWordsFrom, if_neg h1, if_neg h2, hsep, if_neg Bool.false_ne_true,
      readWordsFrom_plain cs _ fun c' hc' => h c' (List.mem_cons_of_mem c hc'), List.append_assoc,
      List.singleton_append]

theorem readWordsFrom_blank (rest word : List Char) :
    readWordsFrom (' ' :: rest) 0 word = (if word = [] then [] else [word]) ++ readWordsFrom rest 0 [] := by
  simp [readWordsFrom, isSeparator]

theorem readWordsFrom_convertWords (line : List String) (word : List Char) :
    readWordsFrom (line.flatMap fun w => convertWord w.toList) 0 word =
      (if word = [] then [] else [word]) ++ readWordsFrom (line.flatMap fun w => convertWord w.toList) 0 [] := by
  cases line with
  | nil => by_cases hw : word = [] <;> simp [readWordsFrom, hw]
  | cons w line =>
    have hblank : ∀ word, readWordsFrom (convertWord w.toList ++ line.flatMap fun w => convertWord w.toList) 0 word =
        (if word = [] then [] else [word]) ++
          readWordsFrom ((convertWord w.toList).tail ++ line.flatMap fun w => convertWord w.toList) 0 [] := by
      intro word
      unfold convertWord
      split <;> rw [List.cons_append, readWordsFrom_blank] <;> rfl
    rw [List.flatMap_cons, hblank, hblank]
    simp

/-- The reader finds a convertible word where `convertInputLineToString` wrote it. -/
theorem readWordsFrom_convertWord {w : String} (hw : ConvertibleWord w) (rest : List Char) :
    readWordsFrom (convertWord w.toList ++ rest) 0 [] = readWordsFrom rest 0 w.toList := by
  have hplain : ∀ (cs : List Char) (level : Nat), (∀ c ∈ cs, c ∈ w.toList) → (level = 0 → ' ' ∉ cs) →
      ∀ c ∈ cs, c ≠ '\x7b' ∧ c ≠ '\x7d' ∧ (level = 0 → isSeparator c = false) := fun cs level hsub hblank c hc => by
    obtain ⟨h1, h2, h3, h4⟩ := hw.plain c (hsub c hc)
    refine ⟨h1, h2, fun hl => ?_⟩
    have h5 : c ≠ ' ' := fun h => hblank hl (h ▸ hc)
    simp [isSeparator, h3, h4, h5]
  unfold convertWord
  by_cases hs : ' ' ∈ w.toList
  · obtain ⟨k, v, hkv, hk, hkb⟩ := hw.keyValue hs
    have hne : ∀ c ∈ k, decide (c ≠ '=') = true := fun c hc => by
      simp only [decide_eq_true_eq]; rintro rfl; exact hk hc
    have htake : w.toList.takeWhile (· ≠ '=') = k := by
      rw [hkv, List.takeWhile_append_of_pos hne]; simp
    have hdrop : w.toList.dropWhile (· ≠ '=') = '=' :: v := by
      rw [hkv, List.dropWhile_append_of_pos hne]; simp
    have hsub : ∀ c ∈ k, c ∈ w.toList := fun c hc => hkv ▸ List.mem_append_left _ hc
    have hsubv : ∀ c ∈ v, c ∈ w.toList := fun c hc => hkv ▸ List.mem_append_right _ (List.mem_cons_of_mem _ hc)
    rw [if_pos hs, if_pos (hkv ▸ List.mem_append_right k (List.mem_cons_self '=' v)), htake, hdrop, List.drop_one,
      List.tail_cons, List.cons_append, readWordsFrom_blank, if_pos rfl, List.nil_append, List.append_assoc,
      readWordsFrom_plain k _ (hplain k 0 hsub fun _ => hkb)]
    simp only [List.cons_append, List.append_assoc, List.nil_append, List.singleton_append]
    rw [readWordsFrom, if_neg (by decide), if_neg (by decide), if_neg (by decide), readWordsFrom, if_pos rfl,
      Nat.zero_add, readWordsFrom_plain v _ (hplain v 1 hsubv nofun), readWordsFrom, if_neg (by decide), if_pos rfl,
      hkv, List.append_assoc, List.singleton_append]
  · rw [if_neg hs, List.cons_append, readWordsFrom_blank, if_pos rfl, List.nil_append,
      readWordsFrom_plain _ _ (hplain _ 0 (fun _ h => h) fun _ => hs), List.nil_append]

/-- `convertInputLineToString`, for every line of convertible words: the input reader gives the
words back from the written text, and the line is emptied. -/
theorem readWords_convertInputLineToString (line : List String) (h : ∀ w ∈ line, ConvertibleWord w) :
    readWords (convertInputLineToString line).1 = line ∧ (convertInputLineToString line).2 = [] := by
  refine ⟨?_, rfl⟩
  suffices hwords : readWordsFrom (line.flatMap fun w => convertWord w.toList) 0 [] = line.map String.toList by
    show List.map String.mk (readWordsFrom (line.flatMap fun w => convertWord w.toList) 0 []) = line
    rw [hwords, List.map_map]
    exact List.map_id'' (fun w => rfl) line
  induction line with
  | nil => rfl
  | cons w line ih =>
    have hw := h w (List.mem_cons_self w line)
    rw [List.flatMap_cons, readWordsFrom_convertWord hw, readWordsFrom_convertWords, if_neg hw.ne_nil,
      ih fun w' h' => h w' (List.mem_cons_of_mem w h'), List.map_cons, List.singleton_append]

/-- The line of a `DISTANCE` with a switching function whose keyword value holds a blank. -/
theorem readWords_convertInputLineToString_switch :
    readWords (convertInputLineToString ["d:", "DISTANCE", "SWITCH=RATIONAL R_0=1"]).1 =
      ["d:", "DISTANCE", "SWITCH=RATIONAL R_0=1"] ∧
    (convertInputLineToString ["d:", "DISTANCE", "SWITCH=RATIONAL R_0=1"]).2 = [] :=
  readWords_convertInputLineToString _ fun w hw => by
    simp only [List.mem_cons, List.mem_singleton, List.not_mem_nil, or_false] at hw
    rcases hw with rfl | rfl | rfl
    · exact ⟨by decide, by decide, fun h => absurd h (by decide)⟩
    · exact ⟨by decide, by decide, fun h => absurd h (by decide)⟩
    · exact ⟨by decide, by decide, fun _ => ⟨"SWITCH".toList, "RATIONAL R_0=1".toList, by decide, by decide, by decide⟩⟩

/-- The text written for that line: the value with a blank goes in braces. -/
example : (convertInputLineToString ["d:", "DISTANCE", "SWITCH=RATIONAL R_0=1"]).1 =
    " d: DISTANCE SWITCH=\x7bRATIONAL R_0=1\x7d" := by decide

/-- The loop body of `ActionShortcut::convertInputLineToString` on one word as it is written on
`std::string`: `find(" ")`, then `eq = find_first_of("=")`, `substr(0, eq)` and `substr(eq + 1)`
with `eq + 1` a `size_t`. `substr` is not called past the end: `eq` is a position of the word or
`npos`. -/
def convertWordStd (w : List Char) : List Char :=
  if (findFrom [' '] w 0).isSome then
    let eq := findFirstOf '=' w
    ' ' :: (substr w 0 eq ++ '=' :: '\x7b' :: (substr w ((eq + 1) % 2 ^ 64) npos ++ ['\x7d']))
  else ' ' :: w

theorem substr_zero_npos {w : List Char} (hlen : w.length < npos) : substr w 0 npos = w := by
  rw [substr, List.drop_zero, List.take_of_length_le hlen.le]

/-- A `std::string` word writes as the list form `convertWord` gives, every `std::string` being
shorter than `npos`. -/
theorem convertWordStd_eq {w : List Char} (hlen : w.length < npos) : convertWordStd w = convertWord w := by
  unfold convertWordStd convertWord
  dsimp only
  by_cases hs : ' ' ∈ w
  · obtain ⟨k, -, hk, -⟩ := findFrom_single_some 0 hs
    rw [if_pos (by rw [hk]; rfl), if_pos hs]
    by_cases he : '=' ∈ w
    · obtain ⟨i, hi, hf, ht, hd⟩ := findFrom_single_some 0 he
      have hmod : (i + 1) % 2 ^ 64 = i + 1 := Nat.mod_eq_of_lt (by unfold npos at hlen; omega)
      rw [if_pos he, findFirstOf, hf, Nat.zero_add, Option.getD_some, hmod, substr, List.drop_zero, ht, substr, ← hd,
        List.take_of_length_le (by rw [List.length_drop]; omega)]
    · have hne : ∀ c ∈ w, decide (c ≠ '=') = true := fun c hc => by
        simp only [decide_eq_true_eq]; rintro rfl; exact he hc
      rw [if_neg he, findFirstOf, findFrom_single_none 0 he, Option.getD_none, show (npos + 1) % 2 ^ 64 = 0 by decide,
        substr_zero_npos hlen, List.takeWhile_eq_self_iff.2 hne]
  · rw [if_neg (by rw [findFrom_single_none 0 hs]; exact Bool.false_ne_true), if_neg hs]

/-- A word with a blank and no `=`, of fewer than `npos` characters as every `std::string` is, is
written `word=\x7bword\x7d`: `find_first_of` gives `npos`, `substr(0, npos)` is the whole word, and
`npos + 1` wraps to 0 in `size_t`, so `substr(npos + 1)` is the whole word too. -/
theorem convertWordStd_noEquals {w : List Char} (hlen : w.length < npos) (hs : ' ' ∈ w) (he : '=' ∉ w) :
    convertWordStd w = ' ' :: (w ++ '=' :: '\x7b' :: (w ++ ['\x7d'])) := by
  obtain ⟨k, -, hk, -⟩ := findFrom_single_some 0 hs
  have hnpos : findFirstOf '=' w = npos := by rw [findFirstOf, findFrom_single_none 0 he, Option.getD_none]
  have hwrap : (npos + 1) % 2 ^ 64 = 0 := by decide
  rw [convertWordStd, if_pos (by rw [hk]; rfl)]
  dsimp only
  rw [hnpos, hwrap, substr_zero_npos hlen]

/-- `CUSTOM FUNC=x y`, mistyped without its `=`, as the single word `FUNC x`: written twice. -/
theorem convertWordStd_noEquals_func :
    convertWordStd "FUNC x".toList = " FUNC x=\x7bFUNC x\x7d".toList :=
  (convertWordStd_noEquals (by decide) (by decide) (by decide)).trans (by decide)

/-- Read back, that word is two words, the second of which holds the first. -/
example : readWords (convertInputLineToString ["FUNC x"]).1 = ["FUNC", "x=FUNC x"] := by decide

end Line

end Plumed.Core

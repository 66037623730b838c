/-
`HistogramBase::resolveNormalizationShortcut`: the actions a histogram shortcut adds for its
normalization. With `HEIGHTS` and without `UNORMALIZED`, the histogram is computed unnormalized
under `lab_unorm`, the heights are combined under `lab_hsum`, and `lab` is their quotient;
otherwise the histogram itself is `lab`, flagged `UNORMALIZED` when the shortcut is. For every
label without a dot or a comma, every list of words and every keyword map, the actions are a
well-formed expansion on the labels the words and the heights name, and the last one defines `lab`
(`resolveNormalizationShortcut_wellFormed`).
-/
import Plumed.Core.Expansion
import Plumed.Multicolvar.ExpandFunctions

namespace Plumed.Gridtools

open Plumed.Core Plumed.Multicolvar

/-- `HistogramBase::resolveNormalizationShortcut(lab, words, keys, actions)`: `actions` with the
normalization's actions appended. `words[0]` is the histogram's action (the callers pass at least
that word). -/
def resolveNormalizationShortcut (lab : String) (words : List String) (keys : KeyMap)
    (actions : List (List String)) : List (List String) :=
  let heights := keys.lookup "HEIGHTS"
  let unorm := (keys.lookup "UNORMALIZED").isSome
  let normInput := if heights.isSome && !unorm then
      [[lab ++ "_hsum:", "COMBINE", "ARG=" ++ heights.getD "", "PERIODIC=NO"]] else []
  let inp := (if heights.isSome && !unorm then [lab ++ "_unorm:", words.headD "", "UNORMALIZED"]
      else [lab ++ ":", words.headD ""] ++ if unorm then ["UNORMALIZED"] else []) ++
    words.tail ++ (if heights.isSome then ["HEIGHTS=" ++ heights.getD ""] else [])
  let ninp := if heights.isSome && !unorm then
      [[lab ++ ":", "MATHEVAL", "ARG1=" ++ lab ++ "_unorm", "ARG2=" ++ lab ++ "_hsum", "FUNC=x/y", "PERIODIC=NO"]]
    else []
  actions ++ normInput ++ [inp] ++ ninp

/-- The labels the shortcut's own input names: those its words read, and those of its `HEIGHTS`. -/
def givenLabels (words : List String) (keys : KeyMap) : List String :=
  words.flatMap wordLabels ++ ((keys.lookup "HEIGHTS").map fun h => wordLabels ("HEIGHTS=" ++ h)).getD []

/-- The histogram line reads its action's word, the flags and words after it and its heights, and so
only labels the shortcut's input names. -/
theorem histogramLine_reads (words flags hgt : List String) (hflags : flags.flatMap wordLabels = []) (first : String) :
    readLabels (first :: words.headD "" :: (flags ++ (words.tail ++ hgt))) ⊆
      words.flatMap wordLabels ++ hgt.flatMap wordLabels := by
  cases words with
  | nil => simp [hflags, wordLabels_noEquals (by decide : '=' ∉ "".data)]
  | cons w ws => simp [hflags]

/-- `resolveNormalizationShortcut`, for every label without a dot or a comma, every list of words and
every keyword map: the actions it adds are a well-formed expansion on the labels the shortcut's
words and heights name, and the last of them defines `lab`. -/
theorem resolveNormalizationShortcut_wellFormed (lab : String) (words : List String) (keys : KeyMap)
    (hlab : '.' ∉ lab.data ∧ ',' ∉ lab.data) :
    WellFormedExpansion (givenLabels words keys) (resolveNormalizationShortcut lab words keys []) ∧
      lastLabel (resolveNormalizationShortcut lab words keys []) = some lab := by
  have hhsum : ∀ rest, lineLabel ((lab ++ "_hsum:") :: rest) = some (lab ++ "_hsum") :=
    fun rest => lineLabel_of_data rest (by simp [String.data_append])
  have hunorm : ∀ rest, lineLabel ((lab ++ "_unorm:") :: rest) = some (lab ++ "_unorm") :=
    fun rest => lineLabel_of_data rest (by simp [String.data_append])
  have hquot : wordLabels ("ARG1=" ++ lab ++ "_unorm") ++ wordLabels ("ARG2=" ++ lab ++ "_hsum") =
      [lab ++ "_unorm", lab ++ "_hsum"] := by
    rw [wordLabels_argument (k := "ARG1") lab "_unorm" (by simp [String.data_append]) (by decide) rfl hlab (by decide),
      wordLabels_argument (k := "ARG2") lab "_hsum" (by simp [String.data_append]) (by decide) rfl hlab (by decide)]
    simp only [List.singleton_append, List.cons.injEq, append_left_inj_string, and_true]
    decide
  have hunormFlag : ["UNORMALIZED"].flatMap wordLabels = [] := by decide
  have hheights : ∀ h, wordLabels ("ARG=" ++ h) = wordLabels ("HEIGHTS=" ++ h) := fun h => by
    rw [wordLabels_keyword (k := "ARG") (v := h) (by simp [String.data_append]) (by decide),
      wordLabels_keyword (k := "HEIGHTS") (v := h) (by simp [String.data_append]) (by decide)]
    rfl
  unfold resolveNormalizationShortcut givenLabels
  cases hh : keys.lookup "HEIGHTS" with
  | none =>
    have hr := histogramLine_reads words (if (keys.lookup "UNORMALIZED").isSome then ["UNORMALIZED"] else []) []
      (by split <;> simp [hunormFlag]) (lab ++ ":")
    simp only [List.append_nil, List.flatMap_nil] at hr
    simp only [Option.isSome_none, Bool.false_and, Bool.false_eq_true, if_false, Option.map_none', Option.getD_none,
      List.append_nil, List.nil_append, List.cons_append]
    exact ⟨⟨by simp, by simp, hr, trivial⟩, by simp [lastLabel]⟩
  | some h =>
    have hr := histogramLine_reads words ["UNORMALIZED"] ["HEIGHTS=" ++ h] hunormFlag
    simp only [List.flatMap_cons, List.flatMap_nil, List.append_nil] at hr
    cases hu : (keys.lookup "UNORMALIZED").isSome with
    | true =>
      simp only [Option.isSome_some, Bool.not_true, Bool.and_false, Bool.false_eq_true, if_false, if_true,
        Option.map_some', Option.getD_some, List.nil_append, List.append_nil, List.cons_append, List.singleton_append]
      exact ⟨⟨by simp, by simp, hr (lab ++ ":"), trivial⟩, by simp [lastLabel]⟩
    | false =>
      simp only [Option.isSome_some, Bool.not_false, Bool.and_true, if_true, Option.map_some', Option.getD_some,
        List.cons_append, List.singleton_append, List.nil_append]
      refine ⟨⟨by simp [hhsum, hunorm], by simp [hhsum, hunorm], ?_, ?_, ?_, trivial⟩, by simp [lastLabel]⟩
      · simp (disch := decide) only [readLabels_cons, List.flatMap_cons, List.flatMap_nil, wordLabels_nonArgument,
          hheights, List.nil_append, List.append_nil]
        exact List.subset_append_right _ _
      · exact (hr _).trans (List.subset_append_right _ _)
      · simp (disch := decide) only [readLabels_cons, List.flatMap_cons, List.flatMap_nil, wordLabels_nonArgument,
          List.nil_append, List.append_nil, hquot, hhsum, hunorm, Option.toList_some]
        simp

/-- A `KDE` of the distances `d1` labelled `h` and weighted by `w`: normalized by the sum of `w`. -/
theorem resolveNormalizationShortcut_wellFormed_heights :
    WellFormedExpansion (givenLabels ["KDE", "ARG=d1"] [("HEIGHTS", "w")])
        (resolveNormalizationShortcut "h" ["KDE", "ARG=d1"] [("HEIGHTS", "w")] []) ∧
      lastLabel (resolveNormalizationShortcut "h" ["KDE", "ARG=d1"] [("HEIGHTS", "w")] []) = some "h" :=
  resolveNormalizationShortcut_wellFormed "h" ["KDE", "ARG=d1"] [("HEIGHTS", "w")] (by decide)

end Plumed.Gridtools

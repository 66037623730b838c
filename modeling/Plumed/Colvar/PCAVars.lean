/-
`PCAVars::PCAVars`, the `PCAVARS` shortcut: the lines it reads after the reference configuration
`lab_ref` and the position vector `lab_pos`, which `RMSD::createReferenceConfiguration` and
`RMSD::createPosVector` define. The first line is the squared displacement from the reference. Each
further frame of the reference file is an eigenvector: its components, normalized by the frame's
norm and, unless the metric is `SIMPLE`, weighted by the square roots of the first frame's beta
column over its sum, are the constant `lab_peig-<n>`, and `lab_eig-<n>` is the projection of the
displacement on it. The residual `lab_residual_2` combines the squared distance with the squared
projections, and `lab_residual` is its square root.

For every label of plain characters without a dot or a comma, every metric, every printer of plain
numbers and every list of frames, the input reader splits the lines into a well-formed expansion on
`lab_ref` and `lab_pos` whose last line defines `lab_residual` (`pcaVarsLines_wellFormed`). The
frame loop is handled once for any number of frames (`frameLines_spec`): its labels are numbered
from one, and the residual reads exactly the projections it defined.
-/
import Plumed.Core.Expansion
import Plumed.Tools.Vector
import Plumed.Tools.Convert

namespace Plumed.Colvar

open Plumed.Core Plumed.Tools

section Model

variable {D : Type} [Zero D] [Add D] [Mul D] [Div D]

/-- `displace[i] = displace[i] / dtot`: the beta column of the first frame over its sum. -/
def normalizedDisplace (beta : List D) : List D :=
  let dtot := beta.foldl (· + ·) 0
  beta.map (· / dtot)

/-- `normed_coeffs` of one frame, over a type `D` of doubles with its square root: component `k` of
atom `i` at `k * n + i`, divided by the norm of the whole frame and, unless the metric is `SIMPLE`,
weighted by `sqrt(displace[i])`. -/
def normedCoeffs (sqrt : D → D) (mtype : String) (displace : List D) (pos : List (Vec D)) : List D :=
  let norm := sqrt (pos.foldl (fun norm p => norm + p 0 * p 0 + p 1 * p 1 + p 2 * p 2) 0)
  (List.finRange 3).flatMap fun k => pos.mapIdx fun i p =>
    if mtype = "SIMPLE" then p k / norm else sqrt (displace.getD i 0) * p k / norm

/-- `pvec`: `Tools::convert(normed_coeffs[0], pvec)`, then `pvec += "," + coeff1` for each further
coefficient. -/
def coeffVector (convert : D → String) (coeffs : List D) : String :=
  coeffs.tail.foldl (fun pvec c => pvec ++ ("," ++ convert c)) (convert (coeffs.headD 0))

/-- The two lines of the eigenvector numbered `num`: its coefficients, and the projection of the
displacement on them. -/
def eigenvectorLines (lab num pvec : String) : List String :=
  [lab ++ "_peig-" ++ num ++ ": CONSTANT_VALUE VALUES=" ++ pvec,
   lab ++ "_eig-" ++ num ++ ": DOT DIAGONAL_ELEMENTS_ONLY ARG2=" ++ lab ++ "_peig-" ++ num ++ " ARG1=" ++ lab ++
     ".disp"]

/-- The loop `while (do_read)` over the frames after the first, `nfram` numbering them. -/
def frameLines (lab : String) (pvecOf : List (Vec D) → String) : Nat → List (List (Vec D)) → List String
  | _, [] => []
  | nfram, pos :: rest => eigenvectorLines lab (toString nfram) (pvecOf pos) ++ frameLines lab pvecOf (nfram + 1) rest

end Model

/-- `resid_inp` after its three loops over the `n` eigenvectors: the squared distance less the squared
projections. -/
def residualLine (lab : String) (n : Nat) : String :=
  let args := (List.range n).foldl (fun s i => s ++ ("," ++ lab ++ "_eig-" ++ toString (i + 1)))
    (lab ++ "_residual_2: COMBINE PERIODIC=NO ARG=" ++ lab ++ ".dist")
  let coeffs := (List.range n).foldl (fun s _ => s ++ ",-1") (args ++ " COEFFICIENTS=1")
  (List.range n).foldl (fun s _ => s ++ ",2") (coeffs ++ " POWERS=1")

/-- `rmsd_line`: the squared displacement of the positions from the reference. -/
def rmsdLine (lab : String) : String :=
  lab ++ ": RMSD_CALC DISPLACEMENT SQUARED ARG2=" ++ lab ++ "_ref ARG1=" ++ lab ++ "_pos"

/-- The lines `PCAVars::PCAVars` reads after the reference and the positions, for the metric `mtype`:
`beta` is the beta column of the reference file's first frame and `frames` the positions of the
frames after it. -/
def pcaVarsLines {D : Type} [Zero D] [Add D] [Mul D] [Div D] (sqrt : D → D) (convert : D → String)
    (lab mtype : String) (beta : List D) (frames : List (List (Vec D))) : List String :=
  let displace := normalizedDisplace beta
  (rmsdLine lab ++ " TYPE=" ++ mtype) ::
    frameLines lab (fun pos => coeffVector convert (normedCoeffs sqrt mtype displace pos)) 1 frames ++
    [residualLine lab frames.length,
     lab ++ "_residual: MATHEVAL ARG=" ++ lab ++ "_residual_2 FUNC=sqrt(x) PERIODIC=NO"]

/-! ## The lines as the reader splits them -/

section Words

/-- The label of the eigenvector numbered `k`. -/
abbrev peigLabel (lab : String) (k : Nat) : String := lab ++ "_peig-" ++ toString k

/-- The label of the projection on the eigenvector numbered `k`. -/
abbrev eigLabel (lab : String) (k : Nat) : String := lab ++ "_eig-" ++ toString k

theorem toString_plain (n : Nat) :
    PlainChars (toString n).data ∧ '.' ∉ (toString n).data ∧ ',' ∉ (toString n).data :=
  ⟨fun c hc => (by decide : PlainChars "0123456789".data) c (toString_digits n c hc),
    fun h => absurd (toString_digits n _ h) (by decide), fun h => absurd (toString_digits n _ h) (by decide)⟩

theorem coeffVector_plain {D : Type} [Zero D] {convert : D → String} (hconvert : ∀ x, PlainChars (convert x).data)
    (coeffs : List D) : PlainChars (coeffVector convert coeffs).data := by
  simp only [coeffVector, data_foldl_append, plainChars_append, plainChars_flatMap]
  exact ⟨hconvert _, fun _ _ => plainChars_strAppend (by decide) (hconvert _)⟩

theorem noDot_append {a b : String} (ha : '.' ∉ a.data ∧ ',' ∉ a.data) (hb : '.' ∉ b.data ∧ ',' ∉ b.data) :
    '.' ∉ (a ++ b).data ∧ ',' ∉ (a ++ b).data := by
  simp only [String.data_append, List.mem_append, not_or]
  exact ⟨⟨ha.1, hb.1⟩, ha.2, hb.2⟩

theorem append_toString_noDot {s : String} (hs : '.' ∉ s.data ∧ ',' ∉ s.data) (k : Nat) :
    '.' ∉ (s ++ toString k).data ∧ ',' ∉ (s ++ toString k).data :=
  noDot_append hs (toString_plain k).2

variable {lab : String} (hlab : PlainChars lab.data ∧ '.' ∉ lab.data ∧ ',' ∉ lab.data)
include hlab

theorem eigenvectorLines_spec (k : Nat) {pvec : String} (hpvec : PlainChars pvec.data) :
    (eigenvectorLines lab (toString k) pvec).map readWords =
      [[peigLabel lab k ++ ":", "CONSTANT_VALUE", "VALUES" ++ "=" ++ pvec],
       [eigLabel lab k ++ ":", "DOT", "DIAGONAL_ELEMENTS_ONLY", "ARG2" ++ "=" ++ (lab ++ ("_peig-" ++ toString k)),
        "ARG1" ++ "=" ++ (lab ++ ".disp")]] := by
  have hnum : ∀ s : String, PlainChars s.data → PlainChars (lab ++ s ++ toString k).data :=
    fun s hs => plainChars_strAppend (plainChars_strAppend hlab.1 hs) (toString_plain k).1
  simp only [eigenvectorLines, List.map_cons, List.map_nil, List.cons.injEq, and_true]
  refine ⟨readWords_words (by simp [String.data_append]) (plainWord_colon (hnum _ (by decide))) ?_,
    readWords_words (by simp [String.data_append]) (plainWord_colon (hnum _ (by decide))) ?_⟩ <;>
    simp only [List.forall_mem_cons]
  · exact ⟨by decide, plainWord_keyword (by decide) hpvec, List.forall_mem_nil _⟩
  · exact ⟨by decide, by decide,
      plainWord_keyword (by decide) (plainChars_strAppend hlab.1 (plainChars_strAppend (by decide) (toString_plain k).1)),
      plainWord_keyword (by decide) (plainChars_strAppend hlab.1 (by decide)), List.forall_mem_nil _⟩

/-- With `lab` in scope, the eigenvector's lines read only labels in scope: the projection reads the
eigenvector and `lab`. -/
theorem eigenvectorLines_reads (k : Nat) {pvec : String} (hpvec : PlainChars pvec.data) {scope : List String}
    (hscope : lab ∈ scope) : ReadsInScope scope ((eigenvectorLines lab (toString k) pvec).map readWords) := by
  have hsfx := append_toString_noDot (s := "_peig-") (by decide) k
  have hval : wordLabels ("VALUES" ++ "=" ++ pvec) = [] :=
    wordLabels_other (k := "VALUES") (v := pvec) (by simp [String.data_append]) (by decide) rfl
  have hpeig : wordLabels ("ARG2" ++ "=" ++ (lab ++ ("_peig-" ++ toString k))) = [peigLabel lab k] := by
    rw [wordLabels_labelArgument hlab.2 "ARG2" _ (by decide) rfl hsfx.2, labelOf_of_noDot hsfx.1]
    exact congrArg (· :: []) (String.append_assoc _ _ _).symm
  have hdisp : wordLabels ("ARG1" ++ "=" ++ (lab ++ ".disp")) = [lab] := by
    rw [wordLabels_labelArgument hlab.2 "ARG1" _ (by decide) rfl (by decide)]
    exact congrArg (· :: []) (String.append_empty lab)
  rw [eigenvectorLines_spec hlab k hpvec]
  simp (disch := decide) only [ReadsInScope, readLabels_cons, List.flatMap_cons, List.flatMap_nil, hval, hpeig,
    hdisp, wordLabels_nonArgument, lineLabel_colon, Option.toList_some, List.nil_append, List.append_nil]
  simp [hscope]

/-- The frame loop from the number `nfram` on, for any number of frames: every line is labelled, the
labels are the eigenvectors' and the projections' in the order of their numbers, and with `lab` in
scope every line reads only labels in scope. -/
theorem frameLines_spec {D : Type} {pvecOf : List (Vec D) → String} (hpvec : ∀ pos, PlainChars (pvecOf pos).data) :
    ∀ (frames : List (List (Vec D))) (nfram : Nat),
      (∀ line ∈ (frameLines lab pvecOf nfram frames).map readWords, (lineLabel line).isSome) ∧
      ((frameLines lab pvecOf nfram frames).map readWords).filterMap lineLabel =
        (List.range' nfram frames.length).flatMap (fun k => [peigLabel lab k, eigLabel lab k]) ∧
      ∀ scope, lab ∈ scope → ReadsInScope scope ((frameLines lab pvecOf nfram frames).map readWords)
  | [], _ => ⟨List.forall_mem_nil _, rfl, fun _ _ => trivial⟩
  | pos :: rest, nfram => by
    obtain ⟨h1, h2, h3⟩ := frameLines_spec hpvec rest (nfram + 1)
    have he := eigenvectorLines_spec hlab nfram (hpvec pos)
    rw [frameLines, List.map_append]
    refine ⟨List.forall_mem_append.2 ⟨by simp [he], h1⟩, by
      simp only [List.filterMap_append, h2, he, List.filterMap_cons, lineLabel_colon, List.filterMap_nil,
        List.length_cons, List.range'_succ, List.flatMap_cons],
      fun scope h => (readsInScope_append _ _ _).2 ⟨eigenvectorLines_reads hlab nfram (hpvec pos) h,
        h3 _ ((mem_scopeAfter _ _).2 (Or.inl h))⟩⟩

/-- The residual's line defines `lab_residual_2` and reads `lab` (through `lab.dist`) and the
projections numbered `1` to `n`, in order. -/
theorem residualLine_reads (n : Nat) :
    lineLabel (readWords (residualLine lab n)) = some (lab ++ "_residual_2") ∧
      readLabels (readWords (residualLine lab n)) = lab :: (List.range n).map fun i => eigLabel lab (i + 1) := by
  let argText := (List.range n).foldl (fun s i => s ++ ("," ++ lab ++ "_eig-" ++ toString (i + 1))) (lab ++ ".dist")
  let coefText := (List.range n).foldl (fun s _ => s ++ ",-1") "1"
  let powText := (List.range n).foldl (fun s _ => s ++ ",2") "1"
  have heig : ∀ k, '.' ∉ (eigLabel lab k).data ∧ ',' ∉ (eigLabel lab k).data :=
    append_toString_noDot (noDot_append hlab.2 (by decide))
  have hargData : argText.data =
      (lab ++ ".dist").data ++ ((List.range n).map fun i => (eigLabel lab (i + 1)).data).flatMap (',' :: ·) := by
    simp [argText, data_foldl_append, String.data_append, List.flatMap_map]
  have hrepeat : ∀ piece : String, PlainChars piece.data →
      PlainChars ((List.range n).foldl (fun s _ => s ++ piece) "1").data := fun piece hp => by
    simp only [data_foldl_append, plainChars_append, plainChars_flatMap]
    exact ⟨by decide, fun _ _ => hp⟩
  have hwords : readWords (residualLine lab n) = [lab ++ "_residual_2" ++ ":", "COMBINE", "PERIODIC=NO",
      "ARG" ++ "=" ++ argText, "COEFFICIENTS" ++ "=" ++ coefText, "POWERS" ++ "=" ++ powText] := by
    refine readWords_words (by simp [residualLine, argText, coefText, powText, data_foldl_append, String.data_append])
      (plainWord_colon (plainChars_strAppend hlab.1 (by decide))) ?_
    simp only [List.forall_mem_cons]
    refine ⟨by decide, by decide, plainWord_keyword (by decide) ?_, plainWord_keyword (by decide) (hrepeat _ (by decide)),
      plainWord_keyword (by decide) (hrepeat _ (by decide)), List.forall_mem_nil _⟩
    simp only [argText, data_foldl_append, plainChars_append, plainChars_flatMap]
    exact ⟨plainChars_strAppend hlab.1 (by decide), fun i _ => plainChars_strAppend
      (plainChars_strAppend (plainChars_strAppend (by decide) hlab.1) (by decide)) (toString_plain _).1⟩
  have hargs : wordLabels ("ARG" ++ "=" ++ argText) = lab :: (List.range n).map fun i => eigLabel lab (i + 1) := by
    rw [wordLabels_keyword (k := "ARG") (v := argText) (by simp [String.data_append]) (by decide),
      if_pos (by decide : isArgumentKey "ARG".data = true), hargData,
      splitCommas_join (by simp only [String.data_append, List.mem_append, not_or]; exact ⟨hlab.2.2, by decide⟩)
        (by simpa using fun i _ => (heig (i + 1)).2),
      List.map_cons, List.map_map]
    congr 1
    · exact (labelOf_append ".dist" hlab.2.1).trans (String.append_empty lab)
    · exact List.map_congr_left fun i _ => labelOf_of_noDot (heig (i + 1)).1
  have hcoef : wordLabels ("COEFFICIENTS" ++ "=" ++ coefText) = [] :=
    wordLabels_other (k := "COEFFICIENTS") (v := coefText) (by simp [String.data_append]) (by decide) rfl
  have hpow : wordLabels ("POWERS" ++ "=" ++ powText) = [] :=
    wordLabels_other (k := "POWERS") (v := powText) (by simp [String.data_append]) (by decide) rfl
  rw [hwords, readLabels_cons]
  refine ⟨lineLabel_colon _ _, ?_⟩
  simp (disch := decide) only [List.flatMap_cons, List.flatMap_nil, hargs, hcoef, hpow, wordLabels_nonArgument,
    List.nil_append, List.append_nil]

theorem rmsdLine_reads {mtype : String} (hmtype : PlainChars mtype.data) :
    lineLabel (readWords (rmsdLine lab ++ " TYPE=" ++ mtype)) = some lab ∧
      readLabels (readWords (rmsdLine lab ++ " TYPE=" ++ mtype)) = [lab ++ "_ref", lab ++ "_pos"] := by
  have hwords : readWords (rmsdLine lab ++ " TYPE=" ++ mtype) = [lab ++ ":", "RMSD_CALC", "DISPLACEMENT", "SQUARED",
      "ARG2" ++ "=" ++ (lab ++ "_ref"), "ARG1" ++ "=" ++ (lab ++ "_pos"), "TYPE" ++ "=" ++ mtype] := by
    refine readWords_words (by simp [rmsdLine, String.data_append]) (plainWord_colon hlab.1) ?_
    simp only [List.forall_mem_cons]
    exact ⟨by decide, by decide, by decide, plainWord_keyword (by decide) (plainChars_strAppend hlab.1 (by decide)),
      plainWord_keyword (by decide) (plainChars_strAppend hlab.1 (by decide)), plainWord_keyword (by decide) hmtype,
      List.forall_mem_nil _⟩
  rw [hwords, readLabels_cons]
  refine ⟨lineLabel_colon _ _, ?_⟩
  simp (disch := decide) only [List.flatMap_cons, List.flatMap_nil, wordLabels_nonArgument,
    wordLabels_labelArgument hlab.2, wordLabels_other (w := "TYPE" ++ "=" ++ mtype) (k := "TYPE") (v := mtype)
      (by simp [String.data_append]) (by decide) rfl, List.nil_append, List.append_nil]
  rfl

theorem finalLine_reads :
    lineLabel (readWords (lab ++ "_residual: MATHEVAL ARG=" ++ lab ++ "_residual_2 FUNC=sqrt(x) PERIODIC=NO")) =
        some (lab ++ "_residual") ∧
      readLabels (readWords (lab ++ "_residual: MATHEVAL ARG=" ++ lab ++ "_residual_2 FUNC=sqrt(x) PERIODIC=NO")) =
        [lab ++ "_residual_2"] := by
  have hwords : readWords (lab ++ "_residual: MATHEVAL ARG=" ++ lab ++ "_residual_2 FUNC=sqrt(x) PERIODIC=NO") =
      [lab ++ "_residual" ++ ":", "MATHEVAL", "ARG" ++ "=" ++ (lab ++ "_residual_2"), "FUNC=sqrt(x)", "PERIODIC=NO"] := by
    refine readWords_words (by simp [String.data_append]) (plainWord_colon (plainChars_strAppend hlab.1 (by decide))) ?_
    simp only [List.forall_mem_cons]
    exact ⟨by decide, plainWord_keyword (by decide) (plainChars_strAppend hlab.1 (by decide)), by decide, by decide,
      List.forall_mem_nil _⟩
  rw [hwords, readLabels_cons]
  refine ⟨lineLabel_colon _ _, ?_⟩
  simp (disch := decide) only [List.flatMap_cons, List.flatMap_nil, wordLabels_nonArgument,
    wordLabels_labelArgument hlab.2, List.nil_append, List.append_nil]
  rfl

end Words

/-! ## The expansion -/

theorem ne_of_take_two {a b : String} (h : a.data.take 2 ≠ b.data.take 2) : a ≠ b := fun e => h (e ▸ rfl)

/-- The suffixes of the expansion's labels differ: in their first two characters, or, for two
eigenvectors or two projections, in their numbers. -/
theorem suffixes_nodup (n : Nat) :
    (("" :: ((List.range' 1 n).flatMap fun k => ["_peig-" ++ toString k, "_eig-" ++ toString k])) ++
      ["_residual_2", "_residual"]).Nodup := by
  rw [List.nodup_append, List.nodup_cons, List.nodup_flatMap]
  refine ⟨⟨?_, fun k _ => ?_, (List.nodup_range' 1 n).imp fun hab => ?_⟩, by decide, ?_⟩
  · simp [ne_of_take_two, String.data_append]
  · simp [ne_of_take_two, String.data_append]
  · simp [ne_of_take_two, String.data_append, Function.onFun, toString_injective.eq_iff, hab, hab.symm]
  · simp [ne_of_take_two, String.data_append]

/-- `PCAVARS`, for every label of plain characters with neither a dot nor a comma, every metric of
plain characters, every printer of doubles that prints plain characters, every beta column and every
list of frames after the first: the lines it reads after the reference and the positions, as the
reader splits them, are a well-formed expansion on `lab_ref` and `lab_pos`, and the last one defines
`lab_residual`. -/
theorem pcaVarsLines_wellFormed {D : Type} [Zero D] [Add D] [Mul D] [Div D] (sqrt : D → D) (convert : D → String)
    (lab mtype : String) (beta : List D) (frames : List (List (Vec D)))
    (hlab : PlainChars lab.data ∧ '.' ∉ lab.data ∧ ',' ∉ lab.data) (hmtype : PlainChars mtype.data)
    (hconvert : ∀ x, PlainChars (convert x).data) :
    WellFormedExpansion [lab ++ "_ref", lab ++ "_pos"] ((pcaVarsLines sqrt convert lab mtype beta frames).map readWords) ∧
      lastLabel ((pcaVarsLines sqrt convert lab mtype beta frames).map readWords) = some (lab ++ "_residual") := by
  obtain ⟨hf1, hf2, hf3⟩ := frameLines_spec hlab (fun pos => coeffVector_plain hconvert
    (normedCoeffs sqrt mtype (normalizedDisplace beta) pos)) frames 1
  obtain ⟨hml, hmr⟩ := rmsdLine_reads hlab hmtype
  obtain ⟨hrl, hrr⟩ := residualLine_reads hlab frames.length
  obtain ⟨hfl, hfr⟩ := finalLine_reads hlab
  simp only [pcaVarsLines, List.map_cons, List.map_append, List.map_nil]
  generalize (frameLines lab _ 1 frames).map readWords = fw at hf1 hf2 hf3
  refine ⟨⟨?_, ?_, ?_⟩, ?_⟩
  · exact List.forall_mem_cons.2 ⟨by simp [hml], List.forall_mem_append.2 ⟨hf1, by simp [hrl, hfl]⟩⟩
  · have h := (suffixes_nodup frames.length).map fun a b h => (append_left_inj_string lab).1 h
    simp only [List.filterMap_cons, hml, List.filterMap_append, hf2, hrl, hfl, List.filterMap_nil]
    simpa [List.map_flatMap, String.append_assoc] using h
  · rw [readsInScope_append, readsInScope_cons, hmr, hml, scopeAfter, hml]
    refine ⟨⟨List.Subset.refl _, hf3 _ (by simp)⟩, ?_⟩
    simp only [ReadsInScope, hrr, hrl, hfr, Option.toList_some, List.singleton_append, and_true]
    refine ⟨fun x hx => (mem_scopeAfter _ _).2 ?_, List.cons_subset.2 ⟨List.mem_cons_self _ _, List.nil_subset _⟩⟩
    rw [hf2]
    rcases List.mem_cons.1 hx with rfl | hx
    · exact Or.inl (by simp)
    · obtain ⟨i, hi, rfl⟩ := List.mem_map.1 hx
      have hi := List.mem_range.1 hi
      exact Or.inr (List.mem_flatMap.2 ⟨i + 1, List.mem_range'_1.2 ⟨by omega, by omega⟩, by simp⟩)
  · simp [lastLabel, List.getLast?_cons, List.getLast?_append, hfl]


/-- `PCAVARS` labelled `pca`, with the metric `OPTIMAL` and two eigenvectors of one atom, over
natural numbers printed in decimal. -/
theorem pcaVarsLines_wellFormed_two :
    WellFormedExpansion ["pca_ref", "pca_pos"]
        ((pcaVarsLines Nat.sqrt toString "pca" "OPTIMAL" [1] [[![1, 0, 0]], [![0, 1, 0]]]).map readWords) ∧
      lastLabel ((pcaVarsLines Nat.sqrt toString "pca" "OPTIMAL" [1] [[![1, 0, 0]], [![0, 1, 0]]]).map readWords) =
        some "pca_residual" :=
  pcaVarsLines_wellFormed Nat.sqrt toString "pca" "OPTIMAL" [1] [[![1, 0, 0]], [![0, 1, 0]]] (by decide) (by decide)
    fun x => (toString_plain x).1

end Plumed.Colvar

/-
`RadialTetra::RadialTetra`, the `TETRA_RADIAL` shortcut: the lines it reads for the species given by
`SPECIES`, or by `SPECIESA` and `SPECIESB`, and the errors that stop it. For every label without a
dot or a comma and every keyword value of plain characters, the input reader splits the lines into a
well-formed expansion (`radialTetraLines_wellFormed`). The lines build the distance matrix, its four
lowest entries per row, their sum and the sum of their squares, the mean distance, and last the
per-atom value under the shortcut's own label, which `expandFunctions` then reads.
-/
import Plumed.Core.Expansion
import Plumed.Multicolvar.ExpandFunctions

namespace Plumed.Symfunc

open Plumed.Core Plumed.Multicolvar

/-- `parse(key, value)` of a keyword of the shortcut: its value, or, when it is absent, the default
`dflt` it was registered with: `-1` for the compulsory `CUTOFF`, and the empty text the string was
declared with for the `SPECIES` keywords, which have none. -/
def parseKeyword (keys : KeyMap) (key dflt : String) : String := (keys.lookup key).getD dflt

/-- The distance-matrix line, over `SPECIES` or else over `SPECIESA` and `SPECIESB`, each of which
must then be given. -/
def matrixLine (lab : String) (nopbc : Bool) (keys : KeyMap) : Except String String :=
  let pbcstr := if nopbc then " NOPBC" else ""
  let spStr := parseKeyword keys "SPECIES" ""
  let rcut := parseKeyword keys "CUTOFF" "-1"
  if spStr.length > 0 then
    .ok (lab ++ "_mat: DISTANCE_MATRIX GROUP=" ++ spStr ++ " CUTOFF=" ++ rcut ++ pbcstr)
  else
    let specA := parseKeyword keys "SPECIESA" ""
    let specB := parseKeyword keys "SPECIESB" ""
    if specA.length = 0 then .error "missing input atoms"
    else if specB.length = 0 then .error "missing SPECIESB keyword"
    else .ok (lab ++ "_mat: DISTANCE_MATRIX GROUPA=" ++ specA ++ " GROUPB=" ++ specB ++ " CUTOFF=" ++ rcut ++ pbcstr)

/-- The lines read after the distance matrix, in order. -/
def neighbourLines (lab : String) : List String :=
  [lab ++ "_neigh: NEIGHBORS ARG=" ++ lab ++ "_mat.w NLOWEST=4",
   lab ++ "_near4: MATHEVAL ARG2=" ++ lab ++ "_neigh ARG1=" ++ lab ++ "_mat.w FUNC=x*y PERIODIC=NO",
   lab ++ "_sum4: COORDINATIONNUMBER WEIGHT=" ++ lab ++ "_near4",
   lab ++ "_near4_2: MATHEVAL ARG1=" ++ lab ++ "_near4 FUNC=x*x PERIODIC=NO",
   lab ++ "_sum4_2: COORDINATIONNUMBER WEIGHT=" ++ lab ++ "_near4_2",
   lab ++ "_meanr: MATHEVAL ARG1=" ++ lab ++ "_sum4 FUNC=0.25*x PERIODIC=NO",
   lab ++ ": MATHEVAL ARG1=" ++ lab ++ "_sum4 ARG2=" ++ lab ++ "_sum4_2 ARG3=" ++ lab ++ "_meanr " ++
     "FUNC=(1-(y-x*z)/(12*z*z)) PERIODIC=NO"]

/-- The lines `RadialTetra::RadialTetra` reads itself, in order. -/
def radialTetraLines (lab : String) (nopbc : Bool) (keys : KeyMap) : Except String (List String) :=
  matrixLine lab nopbc keys >>= fun mat => pure (mat :: neighbourLines lab)

/-- `RadialTetra::RadialTetra`: its own lines, then the lines `expandFunctions(lab, lab, "", keymap)`
reads for the functions the keyword map asks for. -/
def radialTetra {D : Type} [Field D] (tools : ToolsRoutines D) (lab : String) (nopbc : Bool) (keys keymap : KeyMap) :
    Except String (List String) :=
  radialTetraLines lab nopbc keys >>= fun own => expandFunctions lab lab "" keymap tools >>= fun more => pure (own ++ more)

/-! ## The lines as the reader splits them -/

section Words

variable {lab : String}

theorem parseKeyword_plain {keys : KeyMap} (hkeys : ∀ kv ∈ keys, PlainChars kv.2.data) (key : String)
    {dflt : String} (hd : PlainChars dflt.data) : PlainChars (parseKeyword keys key dflt).data := by
  unfold parseKeyword
  cases h : keys.lookup key with
  | none => exact hd
  | some v =>
    obtain ⟨l₁, l₂, hsplit, -⟩ := List.lookup_eq_some_iff.1 h
    exact hkeys (key, v) (hsplit ▸ List.mem_append_right l₁ (List.mem_cons_self _ l₂))

/-- The distance-matrix line defines `lab_mat` and reads no label. -/
theorem matrixLine_reads {nopbc : Bool} {keys : KeyMap} {mat : String} (hlab : PlainChars lab.data)
    (hkeys : ∀ kv ∈ keys, PlainChars kv.2.data) (h : matrixLine lab nopbc keys = .ok mat) :
    lineLabel (readWords mat) = some (lab ++ "_mat") ∧ readLabels (readWords mat) = [] := by
  have hkw : ∀ k key dflt, PlainChars k.data → '=' ∉ k.data → isArgumentKey k.data = false →
      PlainChars dflt.data → PlainWord (k ++ "=" ++ parseKeyword keys key dflt) ∧
        wordLabels (k ++ "=" ++ parseKeyword keys key dflt) = [] :=
    fun k key dflt hk he ha hd => ⟨plainWord_keyword hk (parseKeyword_plain hkeys key hd),
      wordLabels_other (v := parseKeyword keys key dflt) (by simp [String.data_append]) he ha⟩
  have hpbc : ∀ v ∈ (if nopbc then ["NOPBC"] else []), PlainWord v ∧ wordLabels v = [] := by
    cases nopbc <;> decide
  have hmat : PlainChars (lab ++ "_mat").data := plainChars_strAppend hlab (by decide)
  unfold matrixLine at h
  dsimp only at h
  generalize hp : (if nopbc then " NOPBC" else "") = pbcstr at h
  have hpdata : pbcstr.data = (if nopbc then ["NOPBC"] else []).flatMap (' ' :: ·.data) := by
    subst hp; cases nopbc <;> rfl
  split at h
  · cases h
    refine readWords_readsNothing (["DISTANCE_MATRIX", "GROUP" ++ "=" ++ parseKeyword keys "SPECIES" "",
      "CUTOFF" ++ "=" ++ parseKeyword keys "CUTOFF" "-1"] ++ if nopbc then ["NOPBC"] else [])
      (by simp [String.data_append, hpdata]) hmat (List.forall_mem_append.2 ⟨?_, hpbc⟩)
    simp only [List.forall_mem_cons]
    exact ⟨by decide, hkw "GROUP" _ _ (by decide) (by decide) rfl (by decide),
      hkw "CUTOFF" _ _ (by decide) (by decide) rfl (by decide), List.forall_mem_nil _⟩
  · split at h
    · cases h
    · split at h
      · cases h
      · cases h
        refine readWords_readsNothing (["DISTANCE_MATRIX", "GROUPA" ++ "=" ++ parseKeyword keys "SPECIESA" "",
          "GROUPB" ++ "=" ++ parseKeyword keys "SPECIESB" "", "CUTOFF" ++ "=" ++ parseKeyword keys "CUTOFF" "-1"] ++
            if nopbc then ["NOPBC"] else [])
          (by simp [String.data_append, hpdata]) hmat (List.forall_mem_append.2 ⟨?_, hpbc⟩)
        simp only [List.forall_mem_cons]
        exact ⟨by decide, hkw "GROUPA" _ _ (by decide) (by decide) rfl (by decide),
          hkw "GROUPB" _ _ (by decide) (by decide) rfl (by decide),
          hkw "CUTOFF" _ _ (by decide) (by decide) rfl (by decide), List.forall_mem_nil _⟩

/-- The lines after the distance matrix, as the reader splits them. -/
theorem neighbourLines_words (hlab : PlainChars lab.data) :
    (neighbourLines lab).map readWords =
      [[lab ++ "_neigh" ++ ":", "NEIGHBORS", "ARG" ++ "=" ++ (lab ++ "_mat.w"), "NLOWEST=4"],
       [lab ++ "_near4" ++ ":", "MATHEVAL", "ARG2" ++ "=" ++ (lab ++ "_neigh"), "ARG1" ++ "=" ++ (lab ++ "_mat.w"),
        "FUNC=x*y", "PERIODIC=NO"],
       [lab ++ "_sum4" ++ ":", "COORDINATIONNUMBER", "WEIGHT" ++ "=" ++ (lab ++ "_near4")],
       [lab ++ "_near4_2" ++ ":", "MATHEVAL", "ARG1" ++ "=" ++ (lab ++ "_near4"), "FUNC=x*x", "PERIODIC=NO"],
       [lab ++ "_sum4_2" ++ ":", "COORDINATIONNUMBER", "WEIGHT" ++ "=" ++ (lab ++ "_near4_2")],
       [lab ++ "_meanr" ++ ":", "MATHEVAL", "ARG1" ++ "=" ++ (lab ++ "_sum4"), "FUNC=0.25*x", "PERIODIC=NO"],
       [lab ++ ":", "MATHEVAL", "ARG1" ++ "=" ++ (lab ++ "_sum4"), "ARG2" ++ "=" ++ (lab ++ "_sum4_2"),
        "ARG3" ++ "=" ++ (lab ++ "_meanr"), "FUNC=(1-(y-x*z)/(12*z*z))", "PERIODIC=NO"]] := by
  have hl : ∀ s : String, PlainChars s.data → PlainChars (lab ++ s).data := fun _ => plainChars_strAppend hlab
  have hk : ∀ k s : String, PlainChars k.data → PlainChars s.data → PlainWord (k ++ "=" ++ (lab ++ s)) :=
    fun k s hk hs => plainWord_keyword hk (hl s hs)
  simp only [neighbourLines, List.map_cons, List.map_nil, List.cons.injEq, and_true]
  refine ⟨?_, ?_, ?_, ?_, ?_, ?_, ?_⟩ <;> refine readWords_words (by simp [String.data_append]) ?_ ?_ <;>
    (try simp only [List.forall_mem_cons]) <;> (repeat' apply And.intro) <;>
    first
    | exact List.forall_mem_nil _
    | decide
    | exact plainWord_colon hlab
    | (refine plainWord_colon (hl _ ?_); decide)
    | (refine hk _ _ ?_ ?_ <;> decide)

end Words

/-- `TETRA_RADIAL`, for every label of plain characters with neither a dot nor a comma, every flag
`NOPBC` and every keyword map of plain values: when the shortcut does not stop, the lines it reads
itself, as the reader splits them, are a well-formed expansion on no given label, and the last one
defines the shortcut's own label. -/
theorem radialTetraLines_wellFormed (lab : String) (nopbc : Bool) (keys : KeyMap)
    (hlab : PlainChars lab.data ∧ '.' ∉ lab.data ∧ ',' ∉ lab.data) (hkeys : ∀ kv ∈ keys, PlainChars kv.2.data)
    {lines : List String} (h : radialTetraLines lab nopbc keys = .ok lines) :
    WellFormedExpansion [] (lines.map readWords) ∧ lastLabel (lines.map readWords) = some lab := by
  obtain ⟨mat, hmat, h⟩ := except_bind_eq_ok h
  cases h
  obtain ⟨hml, hmr⟩ := matrixLine_reads hlab.1 hkeys hmat
  rw [List.map_cons, neighbourLines_words hlab.1]
  refine ⟨⟨?_, ?_, ?_⟩, ?_⟩
  · simp [hml]
  · simp [hml]
  · simp (disch := decide) only [ReadsInScope, readLabels_cons, hmr, List.flatMap_cons, List.flatMap_nil,
      wordLabels_labelArgument hlab.2, wordLabels_nonArgument, hml, lineLabel_colon]
    simp
    decide
  · simp [lastLabel]

/-- `TETRA_RADIAL` labelled `t` over the atoms `1-64` with the cutoff `0.5`. -/
theorem radialTetraLines_wellFormed_group :
    WellFormedExpansion [] (("t_mat: DISTANCE_MATRIX GROUP=1-64 CUTOFF=0.5" :: neighbourLines "t").map readWords) ∧
      lastLabel (("t_mat: DISTANCE_MATRIX GROUP=1-64 CUTOFF=0.5" :: neighbourLines "t").map readWords) = some "t" :=
  radialTetraLines_wellFormed "t" false [("SPECIES", "1-64"), ("CUTOFF", "0.5")] (by decide) (by decide) rfl

end Plumed.Symfunc

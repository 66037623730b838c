/-
`MultiColvarBase::expandFunctions`: the input lines a multicolvar shortcut reads for the functions
its keyword map asks for (`LESS_THAN`, `MORE_THAN`, `BETWEEN` and their numbered forms, `ALT_MIN`,
`MIN`, `MAX`, `HIGHEST`, `LOWEST`, `SUM`, `MEAN` and `HISTOGRAM`), in the order it reads them.

The numbered loops `for (i = 1;; ++i)` stop at the first number whose keyword is missing; they run
on a fuel of one more than the size of the keyword map, which never runs out
(`numberedLoop_fuel`), since the keywords of distinct numbers differ. With weights, the numbered
`LESS_THAN` and `MORE_THAN` terms read a `MATHEVAL` line with no space before `ARG2=`, and the
numbered `MORE_THAN` one multiplies the weights by the `LESS_THAN` term of its number; the
numbered `BETWEEN` terms read the line their `SUM` expects.
-/
import Plumed.Core.ActionSet
import Plumed.Tools.Convert
import Mathlib.Algebra.EuclideanDomain.Field
import Mathlib.Algebra.Field.Defs
import Mathlib.Data.List.Nodup

namespace Plumed.Multicolvar

open Plumed.Tools

/-- The `Tools` routines `expandFunctions` calls for `HISTOGRAM`, over a type `D` of doubles
(Tools.h is not among the sources): `getWords` splits a text into words, `parseUnsigned` and
`parseDouble` read the value of a keyword (none when it is missing) and return the words without
it, and `convert` prints a double. -/
structure ToolsRoutines (D : Type) where
  getWords : String → List String
  parseUnsigned : List String → String → Option Nat × List String
  parseDouble : List String → String → Option D × List String
  convert : D → String

/-- The keyword map of the shortcut (a `std::map`): `keymap.count(k)` is `lookup k` being some. -/
abbrev KeyMap := List (String × String)

/-! ## Reading the lines -/

/-- `readInputLine` of each section's lines in order; the first section that fails stops the
shortcut with its error. -/
def runSections : List (Except String (List String)) → Except String (List String)
  | [] => .ok []
  | s :: ss => do
    let a ← s
    let b ← runSections ss
    pure (a ++ b)

theorem mem_runSections {lines : List String} {x : String} (ls : List String) :
    ∀ {ss : List (Except String (List String))}, runSections ss = .ok lines → .ok ls ∈ ss → x ∈ ls →
      x ∈ lines
  | s :: ss, h, hs, hx => by
    obtain ⟨a, ha, h⟩ := Plumed.Core.except_bind_eq_ok h
    obtain ⟨b, hb, h⟩ := Plumed.Core.except_bind_eq_ok h
    cases h
    rcases List.mem_cons.mp hs with rfl | hs
    · cases ha; exact List.mem_append_left _ hx
    · exact List.mem_append_right _ (mem_runSections ls hb hs hx)

/-! ## The numbered loops -/

/-- `for (unsigned i = start;; ++i) { if (!keymap.count(key + istr)) break; … }` on `fuel` passes:
the pass for `i` reads `body istr value`. -/
def numberedLoop (keymap : KeyMap) (key : String) (body : String → String → List String) :
    Nat → Nat → List String
  | 0, _ => []
  | fuel + 1, i =>
    match keymap.lookup (key ++ toString i) with
    | none => []
    | some v => body (toString i) v ++ numberedLoop keymap key body fuel (i + 1)

theorem mem_keys_of_lookup {k : String} {keymap : KeyMap} (h : (keymap.lookup k).isSome) :
    k ∈ keymap.map Prod.fst := by
  obtain ⟨p, hp, hk⟩ := List.lookup_isSome_iff.mp h
  exact List.mem_map.mpr ⟨p, hp, (beq_iff_eq.mp hk).symm⟩

theorem present_le_length {keymap : KeyMap} {key : String} {i m : Nat}
    (h : ∀ k < m, (keymap.lookup (key ++ toString (i + k))).isSome) : m ≤ keymap.length := by
  have hnd : ((List.range m).map fun k => key ++ toString (i + k)).Nodup :=
    (List.nodup_range m).map fun a b hab => by have := append_toString_inj hab; omega
  have hsub : ((List.range m).map fun k => key ++ toString (i + k)) ⊆ keymap.map Prod.fst := by
    intro x hx
    obtain ⟨k, hk, rfl⟩ := List.mem_map.mp hx
    exact mem_keys_of_lookup (h k (List.mem_range.mp hk))
  simpa using (List.subperm_of_subset hnd hsub).length_le

/-- A loop that meets a missing keyword within its fuel gives the same lines on any larger fuel. -/
theorem numberedLoop_stable {keymap : KeyMap} {key : String} {body : String → String → List String} :
    ∀ {fuel fuel' i : Nat}, fuel ≤ fuel' → (∃ k < fuel, keymap.lookup (key ++ toString (i + k)) = none) →
      numberedLoop keymap key body fuel i = numberedLoop keymap key body fuel' i
  | 0, _, _, _, ⟨_, hk, _⟩ => absurd hk (Nat.not_lt_zero _)
  | fuel + 1, fuel' + 1, i, hle, ⟨k, hk, hnone⟩ => by
    simp only [numberedLoop]
    cases hi : keymap.lookup (key ++ toString i) with
    | none => rfl
    | some v =>
      have hk0 : k ≠ 0 := by rintro rfl; simp [hi] at hnone
      refine congrArg _ (numberedLoop_stable (by omega) ⟨k - 1, by omega, ?_⟩)
      rwa [show i + 1 + (k - 1) = i + k by omega]

/-- The fuel `keymap.length + 1` of the numbered loops never runs out: any larger fuel reads the
same lines. -/
theorem numberedLoop_fuel (keymap : KeyMap) (key : String) (body : String → String → List String)
    {fuel : Nat} (h : keymap.length + 1 ≤ fuel) :
    numberedLoop keymap key body fuel 1 = numberedLoop keymap key body (keymap.length + 1) 1 := by
  refine (numberedLoop_stable h ?_).symm
  by_contra hall
  push_neg at hall
  exact absurd (present_le_length fun k hk => Option.ne_none_iff_isSome.mp (hall k hk)) (by omega)

theorem body_subset_numberedLoop {keymap : KeyMap} {key : String} {body : String → String → List String}
    {n : Nat} {v : String} (hv : keymap.lookup (key ++ toString n) = some v) :
    ∀ {fuel i : Nat}, i ≤ n → n < i + fuel → (∀ k, i ≤ k → k < n → (keymap.lookup (key ++ toString k)).isSome) →
      body (toString n) v ⊆ numberedLoop keymap key body fuel i
  | 0, _, hi, hn, _ => absurd hn (by omega)
  | fuel + 1, i, hi, hn, hpre => by
    rw [numberedLoop]
    rcases Nat.eq_or_lt_of_le hi with rfl | hlt
    · rw [hv]; exact List.subset_append_left _ _
    · obtain ⟨w, hw⟩ := Option.isSome_iff_exists.mp (hpre i le_rfl hlt)
      rw [hw]
      exact List.subset_append_of_subset_right _
        (body_subset_numberedLoop hv hlt (by omega) fun k hk hkn => hpre k (by omega) hkn)

/-- A numbered term whose keywords for `1, …, n` are all present has its pass run. -/
theorem body_subset_numbered {keymap : KeyMap} {key : String} {body : String → String → List String}
    {n : Nat} {v : String} (hn : 1 ≤ n) (hv : keymap.lookup (key ++ toString n) = some v)
    (hpre : ∀ k, 1 ≤ k → k < n → (keymap.lookup (key ++ toString k)).isSome) :
    body (toString n) v ⊆ numberedLoop keymap key body (keymap.length + 1) 1 := by
  have hlen : n ≤ keymap.length := by
    refine @present_le_length keymap key 1 n fun k hk => ?_
    rcases Nat.lt_or_ge (1 + k) n with h | h
    · exact hpre (1 + k) (by omega) h
    · rw [show 1 + k = n by omega, hv]; rfl
  exact body_subset_numberedLoop hv hn (by omega) hpre

theorem lookup_first_isSome {keymap : KeyMap} {key v : String} {n : Nat} (hn : 1 ≤ n)
    (hv : keymap.lookup (key ++ toString n) = some v)
    (hpre : ∀ k, 1 ≤ k → k < n → (keymap.lookup (key ++ toString k)).isSome) :
    (keymap.lookup (key ++ toString 1)).isSome := by
  rcases Nat.eq_or_lt_of_le hn with rfl | hlt
  · rw [hv]; rfl
  · exact hpre 1 le_rfl hlt

/-! ## The sections -/

section Sections

variable (labout argin weights : String) (keymap : KeyMap)

/-- The `SUM` of a term, over its weighted form when there are weights. -/
def sumLine (sumName term : String) : String :=
  labout ++ "_" ++ sumName ++ ": SUM ARG=" ++
    (if 0 < weights.length then labout ++ "_w" ++ term else labout ++ "_" ++ term) ++ " PERIODIC=NO"

/-- The weighted form of a term: `MATHEVAL ARG1=<weights> ARG2=<term> FUNC=x*y`. -/
def weightedLine (term : String) : List String :=
  if 0 < weights.length then
    [labout ++ "_w" ++ term ++ ": MATHEVAL ARG1=" ++ weights ++ " ARG2=" ++ labout ++ "_" ++ term ++
      " FUNC=x*y PERIODIC=NO"]
  else []

/-- The lines of a switching-function term `term` of action `action` on the switch `s`, weighted
when there are weights, then summed into `sumName`. -/
def switchLines (action term sumName s : String) : List String :=
  [labout ++ "_" ++ term ++ ": " ++ action ++ " ARG=" ++ argin ++ " SWITCH=\x7b" ++ s ++ "\x7d"] ++
    weightedLine labout weights term ++ [sumLine labout weights sumName term]

/-- The unnumbered term `keyword` of a switching function, when the map has it. -/
def unnumberedLines (keyword action term sumName : String) : List String :=
  match keymap.lookup keyword with
  | none => []
  | some s => switchLines labout argin weights action term sumName s

/-- `LESS_THAN`. -/
def lessThanLines : List String := unnumberedLines labout argin weights keymap "LESS_THAN" "LESS_THAN" "lt" "lessthan"

/-- `MORE_THAN`. -/
def moreThanLines : List String := unnumberedLines labout argin weights keymap "MORE_THAN" "MORE_THAN" "mt" "morethan"

/-- `BETWEEN`. -/
def betweenLines : List String := unnumberedLines labout argin weights keymap "BETWEEN" "BETWEEN" "bt" "between"

/-- `BETWEEN1, BETWEEN2, …`: the pass for `istr` reads the term `bt<istr>` as the unnumbered term. -/
def betweenNumbered : List String :=
  if (keymap.lookup "BETWEEN1").isSome then
    numberedLoop keymap "BETWEEN" (fun istr s => switchLines labout argin weights "BETWEEN" ("bt" ++ istr)
      ("between" ++ istr) s) (keymap.length + 1) 1
  else []

/-- `LESS_THAN1, LESS_THAN2, …`: the weighted line has no space before `ARG2=`. -/
def lessThanNumbered : List String :=
  if (keymap.lookup "LESS_THAN1").isSome then
    numberedLoop keymap "LESS_THAN" (fun istr s =>
      [labout ++ "_lt" ++ istr ++ ": LESS_THAN ARG=" ++ argin ++ " SWITCH=\x7b" ++ s ++ "\x7d"] ++
      (if 0 < weights.length then
        [labout ++ "_wlt" ++ istr ++ ": MATHEVAL ARG1=" ++ weights ++ "ARG2=" ++ labout ++ "_lt" ++ istr ++
          " FUNC=x*y PERIODIC=NO"]
      else []) ++ [sumLine labout weights ("lessthan" ++ istr) ("lt" ++ istr)]) (keymap.length + 1) 1
  else []

/-- `MORE_THAN1, MORE_THAN2, …`: the weighted line has no space before `ARG2=`, and its `ARG2` is
the `LESS_THAN` term `lt<istr>`. -/
def moreThanNumbered : List String :=
  if (keymap.lookup "MORE_THAN1").isSome then
    numberedLoop keymap "MORE_THAN" (fun istr s =>
      [labout ++ "_mt" ++ istr ++ ": MORE_THAN ARG=" ++ argin ++ " SWITCH=\x7b" ++ s ++ "\x7d"] ++
      (if 0 < weights.length then
        [labout ++ "_wmt" ++ istr ++ ": MATHEVAL ARG1=" ++ weights ++ "ARG2=" ++ labout ++ "_lt" ++ istr ++
          " FUNC=x*y PERIODIC=NO"]
      else []) ++ [sumLine labout weights ("morethan" ++ istr) ("mt" ++ istr)]) (keymap.length + 1) 1
  else []

/-- `plumed_merror` of the functions that take no weights. -/
def refuseWeights (keyword : String) : Except String Unit :=
  if 0 < weights.length then .error ("cannot use " ++ keyword ++ " with this shortcut") else .ok ()

/-- `::isspace`: blank, tab, newline, vertical tab, form feed and carriage return. -/
def isspace (c : Char) : Bool :=
  c == ' ' || c == '\t' || c == '\n' || c == '\x0b' || c == '\x0c' || c == '\r'

/-- The value of `BETA` in `s`: `substr(dd + 5)` of the position `dd` of `BETA`, computed in
`size_t` (so a missing `BETA` reads from position `4`), with the blanks removed; a position past
the end throws. -/
def betaString (s : String) : Except String String :=
  let dd := (findFrom "BETA".toList s.toList 0).getD npos
  let pos := (dd + 5) % 2 ^ 64
  if pos ≤ s.length then .ok (String.mk ((s.toList.drop pos).filter fun c => !isspace c))
  else .error "basic_string::substr"

/-- `ALT_MIN`, `MIN` and `MAX`: no weights; the exponential of each value, its sum, and the
function of the sum, with the value of `BETA` in both. -/
def softMinLines (keyword suffix : String) (meFunc outFunc : String → String) : Except String (List String) :=
  match keymap.lookup keyword with
  | none => .ok []
  | some s => do
    refuseWeights weights keyword
    let beta ← betaString s
    pure [labout ++ "_me_" ++ suffix ++ ": MATHEVAL ARG1=" ++ argin ++ " FUNC=" ++ meFunc beta ++ " PERIODIC=NO",
      labout ++ "_mec_" ++ suffix ++ ": SUM ARG=" ++ labout ++ "_me_" ++ suffix ++ " PERIODIC=NO",
      labout ++ "_" ++ suffix ++ ": MATHEVAL ARG=" ++ labout ++ "_mec_" ++ suffix ++ " FUNC=" ++ outFunc beta ++
        " PERIODIC=NO"]

/-- `ALT_MIN`. -/
def altMinLines : Except String (List String) :=
  softMinLines labout argin weights keymap "ALT_MIN" "altmin" (fun b => "exp(-x*" ++ b ++ ")") (fun b => "-log(x)/" ++ b)

/-- `MIN`. -/
def minLines : Except String (List String) :=
  softMinLines labout argin weights keymap "MIN" "min" (fun b => "exp(" ++ b ++ "/x)") (fun b => b ++ "/log(x)")

/-- `MAX`. -/
def maxLines : Except String (List String) :=
  softMinLines labout argin weights keymap "MAX" "max" (fun b => "exp(x/" ++ b ++ ")") (fun b => b ++ "*log(x)")

/-- `HIGHEST` and `LOWEST`: no weights; one line. -/
def extremeLines (keyword suffix : String) : Except String (List String) :=
  match keymap.lookup keyword with
  | none => .ok []
  | some _ => do
    refuseWeights weights keyword
    pure [labout ++ "_" ++ suffix ++ ": " ++ keyword ++ " ARG=" ++ argin]

/-- `SUM`: the sum of the values, weighted when there are weights. -/
def sumLines : List String :=
  match keymap.lookup "SUM" with
  | none => []
  | some _ =>
    (if 0 < weights.length then
      [labout ++ "_wsum: MATHEVAL ARG1=" ++ weights ++ " ARG2=" ++ argin ++ " FUNC=x*y PERIODIC=NO"]
    else []) ++
    [labout ++ "_sum: SUM ARG=" ++ (if 0 < weights.length then labout ++ "_wsum" else argin) ++ " PERIODIC=NO"]

/-- `MEAN`: no weights. -/
def meanLines : Except String (List String) :=
  match keymap.lookup "MEAN" with
  | none => .ok []
  | some _ => do
    refuseWeights weights "MEAN"
    pure [labout ++ "_mean: MEAN ARG=" ++ argin ++ " PERIODIC=NO"]

variable {D : Type} [Field D]

/-- The lines of bin `i` (numbered `i + 1`) of a histogram of `BETWEEN` terms of width `delr` from
`lower`, with the switching function `words[0]`. -/
def histogramBin (tools : ToolsRoutines D) (words : List String) (lower delr smear : D) (i : Nat) :
    Except String (List String) :=
  match words.head? with
  | none => .error "words[0] read past its end"
  | some w0 =>
    let istr := toString (i + 1)
    .ok (switchLines labout argin weights "BETWEEN" ("bt" ++ istr) ("between" ++ istr)
      (w0 ++ " LOWER=" ++ tools.convert (lower + i * delr) ++ " UPPER=" ++ tools.convert (lower + (i + 1) * delr) ++
        " SMEAR=" ++ tools.convert smear))

/-- `HISTOGRAM`: `NBINS`, `LOWER` and `UPPER` must be given, `SMEAR` defaults to `0.5`; one
`BETWEEN` term per bin. -/
def histogramLines (tools : ToolsRoutines D) : Except String (List String) :=
  match keymap.lookup "HISTOGRAM" with
  | none => .ok []
  | some spec => do
    let words := tools.getWords spec
    let (nbins?, words) := tools.parseUnsigned words "NBINS"
    let some nbins := nbins? | .error "did not find NBINS in specification for HISTOGRAM"
    let (lower?, words) := tools.parseDouble words "LOWER"
    let some lower := lower? | .error "did not find LOWER in specification for HISTOGRAM"
    let (upper?, words) := tools.parseDouble words "UPPER"
    let some upper := upper? | .error "did not find UPPER in specification for HISTOGRAM"
    let delr := (upper - lower) / (nbins : D)
    let (smear?, words) := tools.parseDouble words "SMEAR"
    let smear := smear?.getD (1 / 2)
    List.flatten <$> (List.range nbins).mapM (histogramBin labout argin weights tools words lower delr smear)

/-- `MultiColvarBase::expandFunctions(labout, argin, weights, keymap, action)`: the lines it reads,
or the error that stops it. -/
def expandFunctions (tools : ToolsRoutines D) : Except String (List String) :=
  if keymap.isEmpty then .ok []
  else runSections [.ok (lessThanLines labout argin weights keymap), .ok (lessThanNumbered labout argin weights keymap),
    .ok (moreThanLines labout argin weights keymap), .ok (moreThanNumbered labout argin weights keymap),
    altMinLines labout argin weights keymap, minLines labout argin weights keymap,
    maxLines labout argin weights keymap, extremeLines labout argin weights keymap "HIGHEST" "highest",
    extremeLines labout argin weights keymap "LOWEST" "lowest", .ok (sumLines labout argin weights keymap),
    meanLines labout argin weights keymap, .ok (betweenLines labout argin weights keymap),
    .ok (betweenNumbered labout argin weights keymap), histogramLines labout argin weights keymap tools]

/-! ## The weighted lines -/

theorem ne_nil_of_lookup {k v : String} {keymap : KeyMap} (h : keymap.lookup k = some v) :
    keymap.isEmpty = false := by
  cases keymap with
  | nil => simp at h
  | cons => rfl

/-- With weights, the numbered `MORE_THAN` term `n`, its keywords `MORE_THAN1 … MORE_THANn`
present, reads a `MATHEVAL` with no space before `ARG2=`, over the `LESS_THAN` term `n`. -/
theorem expandFunctions_moreThanWeighted (tools : ToolsRoutines D) {lines : List String} {n : Nat}
    {s : String} (hw : 0 < weights.length) (hn : 1 ≤ n)
    (hv : keymap.lookup ("MORE_THAN" ++ toString n) = some s)
    (hpre : ∀ k, 1 ≤ k → k < n → (keymap.lookup ("MORE_THAN" ++ toString k)).isSome)
    (h : expandFunctions labout argin weights keymap tools = .ok lines) :
    labout ++ "_wmt" ++ toString n ++ ": MATHEVAL ARG1=" ++ weights ++ "ARG2=" ++ labout ++ "_lt" ++
      toString n ++ " FUNC=x*y PERIODIC=NO" ∈ lines := by
  rw [expandFunctions, if_neg (by simp [ne_nil_of_lookup hv])] at h
  refine mem_runSections (moreThanNumbered labout argin weights keymap) h (by simp) ?_
  rw [moreThanNumbered, if_pos (show (keymap.lookup "MORE_THAN1").isSome from lookup_first_isSome hn hv hpre)]
  exact body_subset_numbered hn hv hpre (by simp [hw])

/-- With weights, the numbered `BETWEEN` term `n`, its keywords `BETWEEN1 … BETWEENn` present,
reads the `MATHEVAL` of the weights and the term `bt<n>` that its `SUM` adds up. -/
theorem expandFunctions_betweenWeighted (tools : ToolsRoutines D) {lines : List String} {n : Nat}
    {s : String} (hw : 0 < weights.length) (hn : 1 ≤ n)
    (hv : keymap.lookup ("BETWEEN" ++ toString n) = some s)
    (hpre : ∀ k, 1 ≤ k → k < n → (keymap.lookup ("BETWEEN" ++ toString k)).isSome)
    (h : expandFunctions labout argin weights keymap tools = .ok lines) :
    labout ++ "_wbt" ++ toString n ++ ": MATHEVAL ARG1=" ++ weights ++ " ARG2=" ++ labout ++ "_bt" ++
      toString n ++ " FUNC=x*y PERIODIC=NO" ∈ lines ∧
    labout ++ "_between" ++ toString n ++ ": SUM ARG=" ++ labout ++ "_wbt" ++ toString n ++ " PERIODIC=NO" ∈ lines := by
  rw [expandFunctions, if_neg (by simp [ne_nil_of_lookup hv])] at h
  have hfirst : (keymap.lookup "BETWEEN1").isSome := lookup_first_isSome hn hv hpre
  have hsub := @body_subset_numbered keymap "BETWEEN" (fun istr s => switchLines labout argin weights "BETWEEN"
    ("bt" ++ istr) ("between" ++ istr) s) n s hn hv hpre
  have hmem : ∀ x ∈ switchLines labout argin weights "BETWEEN" ("bt" ++ toString n) ("between" ++ toString n) s,
      x ∈ lines := fun x hx =>
    mem_runSections (betweenNumbered labout argin weights keymap) h (by simp)
      (by rw [betweenNumbered, if_pos hfirst]; exact hsub hx)
  have e1 : ∀ x : String, "_w" ++ ("bt" ++ x) = "_wbt" ++ x := fun x => by rw [← String.append_assoc]; rfl
  have e2 : ∀ x : String, "_" ++ ("bt" ++ x) = "_bt" ++ x := fun x => by rw [← String.append_assoc]; rfl
  have e3 : ∀ x : String, "_" ++ ("between" ++ x) = "_between" ++ x := fun x => by rw [← String.append_assoc]; rfl
  constructor <;> apply hmem <;> simp [switchLines, weightedLine, sumLine, hw, String.append_assoc, e1, e2, e3]

end Sections

/-- `MORE_THAN1` with the weights `w`: the weighted line reads `ARG1=wARG2=d_lt1`, one word, and
multiplies by the `LESS_THAN` term `d_lt1`, which was never defined; the `SUM` then adds up
`d_wmt1`. -/
theorem expandFunctions_moreThanOne {D : Type} [Field D] (tools : ToolsRoutines D) :
    expandFunctions "d" "a" "w" [("MORE_THAN1", "RATIONAL R_0=1")] tools =
      .ok ["d_mt1: MORE_THAN ARG=a SWITCH=\x7bRATIONAL R_0=1\x7d",
        "d_wmt1: MATHEVAL ARG1=wARG2=d_lt1 FUNC=x*y PERIODIC=NO",
        "d_morethan1: SUM ARG=d_wmt1 PERIODIC=NO"] := rfl

end Plumed.Multicolvar

/-
`PlumedMain::cmd`, the interface through which an MD code drives PLUMED, as a state machine. The
first word of the command selects a `case`; each `case` checks, in this order, that PLUMED is
initialized (`CHECK_INIT`) or not yet (`CHECK_NOTINIT`) and that the pointer is not null
(`CHECK_NOTNULL`), and then does its work. The checks of the 78 cases are one table (`checksOf`);
the cases that change the fields `cmd` itself holds (`initialized`, the units flag, the restart and
checkpoint flags, the step, the MD engine's name, the input file) have their own work, and every
other case hands its words and pointer to the parts of `PlumedMain` that are not modelled here
(`Engine.perform`). The actions these parts read may call the public `PlumedMain::setUnits`, so
the engine's work may set the units flag.

Over every run of commands: a run that succeeds from an uninitialized state is a setup phase of
commands allowed before initialization, then at most one `init`, then commands allowed after it
(`cmdRun_phases`); and once PLUMED is initialized no command changes the setup it was initialized
with, the MD engine's name, the restart flag and the input file (`cmdRun_setupFrozen`).
-/
import Plumed.Core.ActionShortcut

namespace Plumed.Core

/-! ## The commands -/

/-- What `cmd` is handed through its `void*`: a null pointer, an integer, a text, or a pointer to
data the model does not follow (positions, forces, a file, a communicator). -/
inductive Payload where
  | null
  | int (n : Int)
  | text (s : String)
  | data
  deriving DecidableEq, Repr

/-- `*static_cast<int*>(val)`: a payload that is not an integer is read as `0`. -/
def Payload.toInt : Payload → Int
  | .int n => n
  | _ => 0

/-- `static_cast<char*>(val)`: a payload that is not a text is read as the empty text. -/
def Payload.toText : Payload → String
  | .text s => s
  | _ => ""

/-- The check on `initialized` a case makes first. -/
inductive InitCheck where
  | afterInit
  | beforeInit
  | none
  deriving DecidableEq, Repr

/-- The checks of a case: on `initialized`, whether the pointer must not be null, and whether the
message of `CHECK_INIT` names `words[0]` rather than the whole `word`. -/
structure Checks where
  init : InitCheck
  notNull : Bool
  firstWord : Bool
  deriving DecidableEq, Repr

/-- The `case` labels of `cmd` with their checks, in the order of the switch; `none` for a word with
no case. The labels are the words of `PlumedMainMap.inc` (not among the sources) with `cmd_`. -/
def checksOf : String → Option Checks
  | "setBox" => some ⟨.afterInit, true, false⟩
  | "setPositions" => some ⟨.afterInit, false, false⟩
  | "setMasses" => some ⟨.afterInit, false, false⟩
  | "setCharges" => some ⟨.afterInit, false, false⟩
  | "setPositionsX" => some ⟨.afterInit, false, false⟩
  | "setPositionsY" => some ⟨.afterInit, false, false⟩
  | "setPositionsZ" => some ⟨.afterInit, false, false⟩
  | "setVirial" => some ⟨.afterInit, true, false⟩
  | "setEnergy" => some ⟨.afterInit, true, false⟩
  | "setForces" => some ⟨.afterInit, false, false⟩
  | "setForcesX" => some ⟨.afterInit, false, false⟩
  | "setForcesY" => some ⟨.afterInit, false, false⟩
  | "setForcesZ" => some ⟨.afterInit, false, false⟩
  | "calc" => some ⟨.afterInit, false, false⟩
  | "prepareDependencies" => some ⟨.afterInit, false, false⟩
  | "shareData" => some ⟨.afterInit, false, false⟩
  | "prepareCalc" => some ⟨.afterInit, false, false⟩
  | "performCalc" => some ⟨.afterInit, false, false⟩
  | "performCalcNoUpdate" => some ⟨.afterInit, false, false⟩
  | "update" => some ⟨.afterInit, false, false⟩
  | "setStep" => some ⟨.afterInit, true, false⟩
  | "setStepLong" => some ⟨.afterInit, true, false⟩
  | "setValue" => some ⟨.afterInit, false, true⟩
  | "setValueForces" => some ⟨.afterInit, false, true⟩
  | "setAtomsNlocal" => some ⟨.afterInit, true, false⟩
  | "setAtomsGatindex" => some ⟨.afterInit, false, false⟩
  | "setAtomsFGatindex" => some ⟨.afterInit, false, false⟩
  | "setAtomsContiguous" => some ⟨.afterInit, true, false⟩
  | "createFullList" => some ⟨.afterInit, true, false⟩
  | "getFullList" => some ⟨.afterInit, true, false⟩
  | "clearFullList" => some ⟨.afterInit, false, false⟩
  | "getDataRank" => some ⟨.afterInit, false, true⟩
  | "getDataShape" => some ⟨.afterInit, false, true⟩
  | "setMemoryForData" => some ⟨.afterInit, false, true⟩
  | "setErrorHandler" => some ⟨.none, false, false⟩
  | "read" => some ⟨.afterInit, false, false⟩
  | "readInputLine" => some ⟨.afterInit, true, false⟩
  | "readInputLines" => some ⟨.afterInit, true, false⟩
  | "clear" => some ⟨.afterInit, false, false⟩
  | "getApiVersion" => some ⟨.none, true, false⟩
  | "init" => some ⟨.beforeInit, false, false⟩
  | "setRealPrecision" => some ⟨.beforeInit, true, false⟩
  | "setMDLengthUnits" => some ⟨.beforeInit, true, false⟩
  | "setMDChargeUnits" => some ⟨.beforeInit, true, false⟩
  | "setMDMassUnits" => some ⟨.beforeInit, true, false⟩
  | "setMDEnergyUnits" => some ⟨.beforeInit, true, false⟩
  | "setMDTimeUnits" => some ⟨.beforeInit, true, false⟩
  | "setNaturalUnits" => some ⟨.beforeInit, false, false⟩
  | "setNoVirial" => some ⟨.beforeInit, false, false⟩
  | "setPlumedDat" => some ⟨.beforeInit, true, false⟩
  | "setMPIComm" => some ⟨.beforeInit, false, false⟩
  | "setMPIFComm" => some ⟨.beforeInit, false, false⟩
  | "setMPImultiSimComm" => some ⟨.beforeInit, false, false⟩
  | "setNatoms" => some ⟨.beforeInit, true, false⟩
  | "setTimestep" => some ⟨.beforeInit, true, false⟩
  | "setKbT" => some ⟨.beforeInit, true, false⟩
  | "setRestart" => some ⟨.beforeInit, true, false⟩
  | "doCheckPoint" => some ⟨.afterInit, true, false⟩
  | "setNumOMPthreads" => some ⟨.none, true, false⟩
  | "throw" => some ⟨.none, true, false⟩
  | "setMDEngine" => some ⟨.beforeInit, true, false⟩
  | "setLog" => some ⟨.beforeInit, false, false⟩
  | "setLogFile" => some ⟨.beforeInit, true, false⟩
  | "setStopFlag" => some ⟨.afterInit, true, false⟩
  | "getExchangesFlag" => some ⟨.afterInit, true, false⟩
  | "setExchangesSeed" => some ⟨.afterInit, true, false⟩
  | "setNumberOfReplicas" => some ⟨.afterInit, true, false⟩
  | "getExchangesList" => some ⟨.afterInit, true, false⟩
  | "runFinalJobs" => some ⟨.afterInit, false, false⟩
  | "isEnergyNeeded" => some ⟨.afterInit, true, false⟩
  | "getBias" => some ⟨.afterInit, true, false⟩
  | "checkAction" => some ⟨.none, true, false⟩
  | "setExtraCV" => some ⟨.none, true, false⟩
  | "setExtraCVForce" => some ⟨.none, true, false⟩
  | "GREX" => some ⟨.none, false, false⟩
  | "CLTool" => some ⟨.beforeInit, false, false⟩
  | "createValue" => some ⟨.none, false, false⟩
  | "convert" => some ⟨.none, false, false⟩
  | _ => none

/-- `CHECK_INIT`'s message. -/
def initMessage (word : String) : String :=
  "cmd(\"" ++ word ++ "\") should be only used after plumed initialization"

/-- `CHECK_NOTINIT`'s message. -/
def notInitMessage (word : String) : String :=
  "cmd(\"" ++ word ++ "\") should be only used before plumed initialization"

/-- `CHECK_NOTNULL`'s message. -/
def nullMessage (word : String) : String := "NULL pointer received in cmd(\"" ++ word ++ "\")"

/-- The message of the `default` case. -/
def unknownMessage (word : String) : String :=
  "cannot interpret cmd(\"" ++ word ++ "\"). check plumed developers manual to see the available commands."

/-- The checks of a case for the command `word` of first word `w`, in order. -/
def runChecks (c : Checks) (word w : String) (val : Payload) (initialized : Bool) : Except String Unit :=
  match c.init with
  | .afterInit => if initialized then nullCheck else .error (initMessage (if c.firstWord then w else word))
  | .beforeInit => if initialized then .error (notInitMessage word) else nullCheck
  | .none => nullCheck
where
  nullCheck : Except String Unit := if c.notNull && val == .null then .error (nullMessage word) else .ok ()

/-! ## The state -/

/-- The parts of `PlumedMain` that `cmd` hands its work to, as functions of their state `E`. -/
structure Engine (E : Type) where
  /-- `readInputLine`, given the units flag: the actions it creates may call the public
  `setUnits(natural, u)`, as `UNITS NATURAL` does, and so leave another flag. -/
  readInputLine : String → Bool → E → Except String (Bool × E)
  /-- `readInputFile`, given the units flag, which the actions it creates may set. -/
  readInputFile : String → Bool → E → Except String (Bool × E)
  /-- `startStep`: the inputs reset for a new step. -/
  startStep : E → E
  /-- `setUnits(naturalUnits, units)`: the units handed to the actions that take data. -/
  setUnits : Bool → E → E
  /-- Whether the set holds an `ActionToPutData` of the label. -/
  hasPutData : String → E → Bool
  /-- The number of atoms of the interface action of the label, `0` when there is none. -/
  interfaceAtoms : String → E → Nat
  /-- `actionSet.clearDelete(); inputs.clear();`. -/
  clearActions : E → E
  /-- The work of every other case: its words and pointer, on the parts not modelled (passing data
  in and out, the steps of the calculation, the replica exchange, the MD units, the log), given the
  units flag, which the actions it runs may set. -/
  perform : List String → Payload → Bool → E → Except String (Bool × E)

/-- The fields of `PlumedMain` that `cmd` sets itself, and the rest of it. -/
structure MainState (E : Type) where
  initialized : Bool
  naturalUnits : Bool
  restart : Bool
  doCheckPoint : Bool
  step : Int
  mdEngine : String
  plumedDat : String
  engine : E

variable {E : Type} (eng : Engine E)

/-- The state after work of the engine that left the units flag `r.1` and the engine `r.2`. -/
def MainState.afterEngine (st : MainState E) (r : Bool × E) : MainState E :=
  { st with naturalUnits := r.1, engine := r.2 }

/-- `case cmd_createValue`: the words after the first, each after a blank, read as an input line. -/
def createValue (words : List String) (st : MainState E) : Except String (MainState E) :=
  eng.readInputLine (String.join (words.tail.map (" " ++ ·))) st.naturalUnits st.engine >>= fun r =>
    pure (st.afterEngine r)

/-- The line `setNatoms` and `clear` hand to `cmd` to create the MD engine's input action. -/
def domainDecompositionLine (mdEngine : String) (natoms : Nat) : String :=
  "createValue " ++ mdEngine ++ ": DOMAIN_DECOMPOSITION NATOMS=" ++ toString natoms ++
    " VALUE1=posx UNIT1=length PERIODIC1=NO CONSTANT1=False ROLE1=x" ++
    " VALUE2=posy UNIT2=length PERIODIC2=NO CONSTANT2=False ROLE2=y" ++
    " VALUE3=posz UNIT3=length PERIODIC3=NO CONSTANT3=False ROLE3=z" ++
    " VALUE4=Masses UNIT4=mass PERIODIC4=NO CONSTANT4=True ROLE4=m" ++
    " VALUE5=Charges UNIT5=charge PERIODIC5=NO CONSTANT5=True ROLE5=q"

/-- A nested `cmd(line)` on one of the lines above, which all start with `createValue`. -/
def cmdCreateValue (line : String) (st : MainState E) : Except String (MainState E) :=
  createValue eng (readWords line) st

/-- `init`: initialized first, then the input file read if one was set, and the units handed on. -/
def init (st : MainState E) : Except String (MainState E) :=
  let st := { st with initialized := true }
  (if st.plumedDat.length > 0 then
      eng.readInputFile st.plumedDat st.naturalUnits st.engine >>= fun r => pure { st.afterEngine r with plumedDat := "" }
    else pure st) >>= fun st => pure { st with engine := eng.setUnits st.naturalUnits st.engine }

/-- `case cmd_clear`: the actions deleted, the MD engine's input action created again with as many
atoms as it had, and `initialized` set to false and back to true. -/
def clear (st : MainState E) : Except String (MainState E) :=
  let natoms := eng.interfaceAtoms st.mdEngine st.engine
  let st := { st with engine := eng.clearActions st.engine }
  (if natoms > 0 then cmdCreateValue eng (domainDecompositionLine st.mdEngine natoms) st else pure st) >>= fun st =>
    pure { st with initialized := true, engine := eng.setUnits st.naturalUnits st.engine }

/-- `case cmd_setNatoms`: the MD engine's input action created when the number is positive. -/
def setNatoms (val : Payload) (st : MainState E) : Except String (MainState E) :=
  if val.toInt > 0 then cmdCreateValue eng (domainDecompositionLine st.mdEngine val.toInt.toNat) st else pure st

/-- `testThrow`, used only in testing: it always throws, the exception named by the first word of
`what`; the exceptions thrown with a text carry `what`. -/
def testThrow (what : String) : String :=
  match readWords what with
  | [] => "words.size()>0"
  | w :: _ =>
    if w ∈ ["PLMD::ExceptionError", "PLMD::ExceptionDebug", "PLMD::Exception", "PLMD::lepton::Exception",
        "std::underflow_error", "std::overflow_error", "std::range_error", "std::runtime_error",
        "std::out_of_range", "std::length_error", "std::domain_error", "std::invalid_argument",
        "std::logic_error", "std::ios_base::failure"] then what
    else if w ∈ ["std::bad_exception", "std::bad_array_new_length", "std::bad_alloc", "std::bad_function_call",
        "std::bad_weak_ptr", "std::bad_cast", "std::bad_typeid"] then w
    else "unknown exception " ++ what

/-- The work of the case of first word `w`, once its checks have passed. -/
def work (words : List String) (w : String) (val : Payload) (st : MainState E) : Except String (MainState E) :=
  match w with
  | "setStep" | "setStepLong" => pure { st with step := val.toInt, engine := eng.startStep st.engine }
  | "read" =>
    eng.readInputFile (if val = .null then "plumed.dat" else val.toText) st.naturalUnits st.engine >>= fun r =>
      pure (st.afterEngine r)
  | "readInputLine" => eng.readInputLine val.toText st.naturalUnits st.engine >>= fun r => pure (st.afterEngine r)
  | "clear" => clear eng st
  | "init" => init eng st
  | "setNaturalUnits" => pure { st with naturalUnits := true }
  | "setPlumedDat" => pure { st with plumedDat := val.toText }
  | "setNatoms" => setNatoms eng val st
  | "setTimestep" =>
    (if eng.hasPutData "timestep" st.engine then pure st
      else cmdCreateValue eng "createValue timestep: TIMESTEP" st) >>= fun st =>
    eng.perform words val st.naturalUnits st.engine >>= fun r => pure (st.afterEngine r)
  | "setKbT" =>
    cmdCreateValue eng "createValue KbT: PUT CONSTANT PERIODIC=NO UNIT=energy" st >>= fun st =>
    eng.perform words val st.naturalUnits st.engine >>= fun r => pure (st.afterEngine r)
  | "setRestart" => pure (if val.toInt ≠ 0 then { st with restart := true } else st)
  | "doCheckPoint" => pure { st with doCheckPoint := val.toInt ≠ 0 }
  | "throw" => .error (testThrow val.toText)
  | "setMDEngine" => pure { st with mdEngine := val.toText }
  | "createValue" => createValue eng words st
  | _ => eng.perform words val st.naturalUnits st.engine >>= fun r => pure (st.afterEngine r)

/-- `PlumedMain::cmd(word, val)`: nothing for a blank command, the `default` error for a word with
no case, and otherwise the checks of the case and then its work. -/
def cmd (word : String) (val : Payload) (st : MainState E) : Except String (MainState E) :=
  match readWords word with
  | [] => pure st
  | w :: rest =>
    match checksOf w with
    | none => .error (unknownMessage word)
    | some c => do
      runChecks c word w val st.initialized
      work eng (w :: rest) w val st

/-- A run of commands, stopped by the first that throws. -/
def cmdRun (cmds : List (String × Payload)) (st : MainState E) : Except String (MainState E) :=
  cmds.foldlM (fun st c => cmd eng c.1 c.2 st) st

/-- The first word of a command, the one that selects its case. -/
def firstWord (word : String) : Option String := (readWords word).head?

/-- The setup that only the commands before `init` give: the MD engine's name, the restart flag
and the input file. The units flag is not part of it: the actions read after `init` may set it
through `setUnits`. -/
def MainState.setup (st : MainState E) : String × Bool × String :=
  (st.mdEngine, st.restart, st.plumedDat)

/-! ## One command -/

theorem runChecks_ok {c : Checks} {word w : String} {val : Payload} {initialized : Bool}
    (h : runChecks c word w val initialized = .ok ()) :
    (c.init = .afterInit → initialized = true) ∧ (c.init = .beforeInit → initialized = false) := by
  unfold runChecks at h
  cases hc : c.init <;> rw [hc] at h <;> cases initialized <;> simp_all

/-- A step that keeps `initialized` and the setup. -/
def Keeps (st st' : MainState E) : Prop := st'.initialized = st.initialized ∧ st'.setup = st.setup

theorem Keeps.trans {st₁ st₂ st₃ : MainState E} (h₁ : Keeps st₁ st₂) (h₂ : Keeps st₂ st₃) : Keeps st₁ st₃ :=
  ⟨h₂.1.trans h₁.1, h₂.2.trans h₁.2⟩

theorem keeps_bind {x : Except String (MainState E)} {f : MainState E → Except String (MainState E)}
    {st st' : MainState E} (hx : ∀ st₁, x = .ok st₁ → Keeps st st₁)
    (hf : ∀ st₁ st₂, f st₁ = .ok st₂ → Keeps st₁ st₂) (h : x >>= f = .ok st') : Keeps st st' := by
  obtain ⟨st₁, h₁, h₂⟩ := except_bind_eq_ok h
  exact (hx st₁ h₁).trans (hf st₁ st' h₂)

theorem keeps_engine {x : Except String (Bool × E)} {st st' : MainState E}
    (h : x >>= (fun r => pure (st.afterEngine r)) = .ok st') : Keeps st st' := by
  obtain ⟨r, -, h⟩ := except_bind_eq_ok h
  cases h
  exact ⟨rfl, rfl⟩

theorem cmdCreateValue_keeps {line : String} {st st' : MainState E} (h : cmdCreateValue eng line st = .ok st') :
    Keeps st st' :=
  keeps_engine h

theorem setNatoms_keeps {val : Payload} {st st' : MainState E} (h : setNatoms eng val st = .ok st') :
    Keeps st st' := by
  unfold setNatoms at h
  split at h
  · exact cmdCreateValue_keeps eng h
  · cases h; exact ⟨rfl, rfl⟩

theorem clear_ok {st st' : MainState E} (h : clear eng st = .ok st') :
    st'.initialized = true ∧ st'.setup = st.setup := by
  obtain ⟨st₁, h₁, h⟩ := except_bind_eq_ok h
  cases h
  split at h₁
  · exact ⟨rfl, (cmdCreateValue_keeps eng h₁).2⟩
  · cases h₁; exact ⟨rfl, rfl⟩

theorem init_ok {st st' : MainState E} (h : init eng st = .ok st') : st'.initialized = true := by
  obtain ⟨st₁, h₁, h⟩ := except_bind_eq_ok h
  cases h
  split at h₁
  · obtain ⟨e, -, h₁⟩ := except_bind_eq_ok h₁
    cases h₁; rfl
  · cases h₁; rfl

/-- The work of a case: only `init` and `clear` set `initialized`, to true, and only the cases
before initialization that set it change the setup. -/
theorem work_ok {words : List String} {w : String} {val : Payload} {st st' : MainState E}
    (h : work eng words w val st = .ok st') :
    st'.initialized = (st.initialized || w == "init" || w == "clear") ∧
    (w ≠ "init" → w ≠ "setPlumedDat" → w ≠ "setRestart" → w ≠ "setMDEngine" → st'.setup = st.setup) := by
  have hkeeps : Keeps st st' → w ≠ "init" → w ≠ "clear" →
      st'.initialized = (st.initialized || w == "init" || w == "clear") ∧
      (w ≠ "init" → w ≠ "setPlumedDat" → w ≠ "setRestart" → w ≠ "setMDEngine" → st'.setup = st.setup) :=
    fun hk hi hc => ⟨by rw [hk.1, beq_false_of_ne hi, beq_false_of_ne hc, Bool.or_false, Bool.or_false],
      fun _ _ _ _ => hk.2⟩
  unfold work at h
  split at h
  next => cases h; exact hkeeps ⟨rfl, rfl⟩ (by decide) (by decide)
  next => cases h; exact hkeeps ⟨rfl, rfl⟩ (by decide) (by decide)
  next => exact hkeeps (keeps_engine h) (by decide) (by decide)
  next => exact hkeeps (keeps_engine h) (by decide) (by decide)
  next =>
    obtain ⟨hi, hs⟩ := clear_ok eng h
    exact ⟨by simp [hi], fun _ _ _ _ => hs⟩
  next => exact ⟨by simp [init_ok eng h], fun h => absurd rfl h⟩
  next => cases h; exact hkeeps ⟨rfl, rfl⟩ (by decide) (by decide)
  next => cases h; exact ⟨by simp, fun _ h => absurd rfl h⟩
  next => exact hkeeps (setNatoms_keeps eng h) (by decide) (by decide)
  next =>
    refine hkeeps (keeps_bind (fun st₁ h₁ => ?_) (fun _ _ h₂ => keeps_engine h₂) h) (by decide) (by decide)
    split at h₁
    · cases h₁; exact ⟨rfl, rfl⟩
    · exact cmdCreateValue_keeps eng h₁
  next =>
    exact hkeeps (keeps_bind (fun _ h₁ => cmdCreateValue_keeps eng h₁) (fun _ _ h₂ => keeps_engine h₂) h)
      (by decide) (by decide)
  next => exact ⟨by split at h <;> cases h <;> simp, fun _ _ h => absurd rfl h⟩
  next => cases h; exact hkeeps ⟨rfl, rfl⟩ (by decide) (by decide)
  next => cases h
  next => cases h; exact ⟨by simp, fun _ _ _ h => absurd rfl h⟩
  next => exact hkeeps (keeps_engine h) (by decide) (by decide)
  next _ _ _ _ _ hclear hinit _ _ _ _ _ _ _ _ _ _ => exact hkeeps (keeps_engine h) hinit hclear

/-- One command that succeeds: a blank one changes nothing; otherwise its first word has a case, the
case allows the current phase, and its work gives the new state. -/
theorem cmd_ok {word : String} {val : Payload} {st st' : MainState E} (h : cmd eng word val st = .ok st') :
    (firstWord word = none ∧ st' = st) ∨
    ∃ w c, firstWord word = some w ∧ checksOf w = some c ∧ (c.init = .afterInit → st.initialized = true) ∧
      (c.init = .beforeInit → st.initialized = false) ∧ work eng (readWords word) w val st = .ok st' := by
  unfold cmd at h
  unfold firstWord
  cases hw : readWords word with
  | nil => rw [hw] at h; cases h; exact .inl ⟨rfl, rfl⟩
  | cons w rest =>
    rw [hw] at h
    dsimp only at h
    cases hc : checksOf w with
    | none => rw [hc] at h; cases h
    | some c =>
      rw [hc] at h
      obtain ⟨⟨⟩, hu, h⟩ := except_bind_eq_ok h
      exact .inr ⟨w, c, rfl, hc, (runChecks_ok hu).1, (runChecks_ok hu).2, h⟩

/-- An engine that accepts every command and keeps no state; its only action is `UNITS NATURAL`,
which calls `setUnits(true, u)`. -/
def acceptAll : Engine Unit :=
  ⟨fun line nu _ => .ok (line == "UNITS NATURAL" || nu, ()), fun _ nu _ => .ok (nu, ()), id, fun _ => id,
    fun _ _ => false, fun _ _ => 0, id, fun _ _ nu _ => .ok (nu, ())⟩

/-- PLUMED as constructed: not initialized, nothing set. -/
def created : MainState Unit := ⟨false, false, false, false, 0, "", "", ()⟩

/-- The cases whose work changes the setup are all allowed only before initialization. -/
theorem setup_words_beforeInit {w : String} {c : Checks} (hc : checksOf w = some c) (h : c.init ≠ .beforeInit) :
    w ≠ "init" ∧ w ≠ "setPlumedDat" ∧ w ≠ "setRestart" ∧ w ≠ "setMDEngine" := by
  refine ⟨?_, ?_, ?_, ?_⟩ <;> rintro rfl <;> cases hc <;> exact h rfl

/-! ## Runs of commands -/

/-- A first word whose case is allowed once PLUMED is initialized. -/
def AllowedAfterInit (w : String) : Prop := ∃ c, checksOf w = some c ∧ c.init ≠ .beforeInit

/-- A first word, other than `init`, whose case is allowed before PLUMED is initialized. -/
def AllowedBeforeInit (w : String) : Prop := w ≠ "init" ∧ ∃ c, checksOf w = some c ∧ c.init ≠ .afterInit

/-- The first words of a run of commands, blank commands left out. -/
def trace (cmds : List (String × Payload)) : List String := cmds.filterMap fun c => firstWord c.1

theorem cmdRun_cons (word : String) (val : Payload) (cmds : List (String × Payload)) (st : MainState E) :
    cmdRun eng ((word, val) :: cmds) st = cmd eng word val st >>= cmdRun eng cmds := by
  rw [cmdRun, List.foldlM_cons]; rfl

theorem trace_cons (word : String) (val : Payload) (cmds : List (String × Payload)) :
    trace ((word, val) :: cmds) = (firstWord word).toList ++ trace cmds := by
  unfold trace
  cases h : firstWord word <;> simp [h]

/-- A run from an initialized state: every command in it is allowed after initialization, and
PLUMED stays initialized with the setup it had. -/
theorem cmdRun_afterInit : ∀ (cmds : List (String × Payload)) (st st' : MainState E), st.initialized = true →
    cmdRun eng cmds st = .ok st' →
      st'.initialized = true ∧ st'.setup = st.setup ∧ ∀ w ∈ trace cmds, AllowedAfterInit w
  | [], _, _, h0, h => by cases h; exact ⟨h0, rfl, fun _ h => nomatch h⟩
  | (word, val) :: cmds, st, st', h0, h => by
    rw [cmdRun_cons] at h
    obtain ⟨st₁, h₁, hrest⟩ := except_bind_eq_ok h
    rcases cmd_ok eng h₁ with ⟨hw, rfl⟩ | ⟨w, c, hw, hc, -, hb, hwork⟩
    · obtain ⟨hi, hs, hall⟩ := cmdRun_afterInit cmds st₁ st' h0 hrest
      exact ⟨hi, hs, by rw [trace_cons, hw]; exact hall⟩
    · have hnb : c.init ≠ .beforeInit := fun hcb => by rw [hb hcb] at h0; cases h0
      obtain ⟨hi₁, hs₁⟩ := work_ok eng hwork
      obtain ⟨h1, h2, h3, h4⟩ := setup_words_beforeInit hc hnb
      obtain ⟨hi, hs, hall⟩ := cmdRun_afterInit cmds st₁ st' (by rw [hi₁, h0]; rfl) hrest
      refine ⟨hi, hs.trans (hs₁ h1 h2 h3 h4), ?_⟩
      rw [trace_cons, hw, Option.toList_some, List.singleton_append]
      rintro v (_ | ⟨_, hv⟩)
      · exact ⟨c, hc, hnb⟩
      · exact hall v hv

/-- Once PLUMED is initialized, for every engine and every run of commands that succeeds: it stays
initialized, the setup it was initialized with (the MD engine's name, the restart flag, the input
file) does not change, and every command of the run is one allowed after initialization, so `init`
is never run again. The units flag may still change: the actions read after `init` set it through
`setUnits`. -/
theorem cmdRun_setupFrozen (cmds : List (String × Payload)) {st st' : MainState E} (h0 : st.initialized = true)
    (h : cmdRun eng cmds st = .ok st') :
    st'.initialized = true ∧ st'.setup = st.setup ∧ ∀ w ∈ trace cmds, AllowedAfterInit w :=
  cmdRun_afterInit eng cmds st st' h0 h

/-- After `init`, reading `UNITS NATURAL` turns the units flag on, and a step and a calculation
follow: the setup is kept. -/
theorem cmdRun_setupFrozen_units :
    (⟨true, true, false, false, 1, "gromacs", "", ()⟩ : MainState Unit).initialized = true ∧
    (⟨true, true, false, false, 1, "gromacs", "", ()⟩ : MainState Unit).setup =
      (⟨true, false, false, false, 0, "gromacs", "", ()⟩ : MainState Unit).setup ∧
    ∀ w ∈ trace [("readInputLine", .text "UNITS NATURAL"), ("setStep", .int 1), ("calc", .null)], AllowedAfterInit w :=
  cmdRun_setupFrozen acceptAll [("readInputLine", .text "UNITS NATURAL"), ("setStep", .int 1), ("calc", .null)]
    (show (⟨true, false, false, false, 0, "gromacs", "", ()⟩ : MainState Unit).initialized = true from rfl)
    (show cmdRun acceptAll [("readInputLine", .text "UNITS NATURAL"), ("setStep", .int 1), ("calc", .null)]
        ⟨true, false, false, false, 0, "gromacs", "", ()⟩ = .ok ⟨true, true, false, false, 1, "gromacs", "", ()⟩ from rfl)

/-- The life of PLUMED as an MD code drives it: for every engine and every run of commands that
succeeds from an uninitialized state, the first words of the commands are a setup phase of commands
allowed before initialization, then either nothing, or `init` followed only by commands allowed after
initialization; PLUMED ends initialized exactly when `init` was run. -/
theorem cmdRun_phases : ∀ (cmds : List (String × Payload)) {st st' : MainState E}, st.initialized = false →
    cmdRun eng cmds st = .ok st' →
      ∃ pre post, trace cmds = pre ++ post ∧ (∀ w ∈ pre, AllowedBeforeInit w) ∧
        (post = [] ∨ ∃ rest, post = "init" :: rest ∧ ∀ w ∈ rest, AllowedAfterInit w) ∧
        st'.initialized = !post.isEmpty
  | [], _, _, h0, h => by cases h; exact ⟨[], [], rfl, fun _ h => (nomatch h), .inl rfl, h0⟩
  | (word, val) :: cmds, st, st', h0, h => by
    rw [cmdRun_cons] at h
    obtain ⟨st₁, h₁, hrest⟩ := except_bind_eq_ok h
    rcases cmd_ok eng h₁ with ⟨hw, rfl⟩ | ⟨w, c, hw, hc, ha, -, hwork⟩
    · obtain ⟨pre, post, htr, hpre, hpost, hi⟩ := cmdRun_phases cmds h0 hrest
      exact ⟨pre, post, by rw [trace_cons, hw, htr]; rfl, hpre, hpost, hi⟩
    · have hna : c.init ≠ .afterInit := fun hca => by rw [ha hca] at h0; cases h0
      have hi₁ := (work_ok eng hwork).1
      rw [h0] at hi₁
      by_cases hinit : w = "init"
      · subst hinit
        obtain ⟨hi, -, hall⟩ := cmdRun_afterInit eng cmds st₁ st' hi₁ hrest
        exact ⟨[], "init" :: trace cmds, by rw [trace_cons, hw]; rfl, fun _ h => (nomatch h),
          .inr ⟨trace cmds, rfl, hall⟩, hi⟩
      · have hclear : w ≠ "clear" := fun hcl => by subst hcl; cases hc; exact hna rfl
        obtain ⟨pre, post, htr, hpre, hpost, hi⟩ :=
          cmdRun_phases cmds (by rw [hi₁, beq_false_of_ne hinit, beq_false_of_ne hclear]; rfl) hrest
        refine ⟨w :: pre, post, by rw [trace_cons, hw, htr]; rfl, ?_, hpost, hi⟩
        rintro v (_ | ⟨_, hv⟩)
        · exact ⟨hinit, c, hc, hna⟩
        · exact hpre v hv

/-- An MD code naming itself, giving the number of atoms, initializing, then setting the step and
calculating. -/
def mdRun : List (String × Payload) :=
  [("setMDEngine", .text "gromacs"), ("setNatoms", .int 2), ("init", .null), ("setStep", .int 1), ("calc", .null)]

theorem cmdRun_phases_md :
    ∃ pre post, trace mdRun = pre ++ post ∧ (∀ w ∈ pre, AllowedBeforeInit w) ∧
      (post = [] ∨ ∃ rest, post = "init" :: rest ∧ ∀ w ∈ rest, AllowedAfterInit w) ∧
      (⟨true, false, false, false, 1, "gromacs", "", ()⟩ : MainState Unit).initialized = !post.isEmpty :=
  cmdRun_phases acceptAll mdRun (show created.initialized = false from rfl)
    (show cmdRun acceptAll mdRun created = .ok ⟨true, false, false, false, 1, "gromacs", "", ()⟩ from rfl)

end Plumed.Core

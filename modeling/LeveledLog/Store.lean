import LeveledLog.Arrivals
import LeveledLog.Path

/-!
# Stores

A store is a file system with directories, files and devices, in which a program works in one
directory, its home. Everything in it stands at a place, which is the list of the names from
the root down to it. A path is followed step by step and fails at the first step that leads
nowhere or out of something that is no directory.
-/

namespace LeveledLog

/-- The names that lead down from the root. -/
abbrev Place := List Bytes

/-- What stands at a place. -/
inductive Node where
  | directory
  /-- A file with what was written to it. -/
  | file (contents : Arrivals)
  | nullDevice
  | fullDevice
  | standardOutput
  deriving DecidableEq, Repr

/-- A file system. -/
structure Store where
  /-- The directory in which paths start that do not start at the root. -/
  home : Place
  /-- What stands at the places that are taken. -/
  nodes : List (Place × Node)
  deriving DecidableEq, Repr

namespace Store

/-! ## Places -/

/-- What stands at a place. -/
def node? (s : Store) (place : Place) : Option Node := s.nodes.lookup place

/-- Let something stand at a place. -/
def put (s : Store) (place : Place) (node : Node) : Store :=
  { s with nodes := (place, node) :: s.nodes.filter fun n => n.1 != place }

private theorem lookup_filter_ne (nodes : List (Place × Node)) {p q : Place} (h : q ≠ p) :
    (nodes.filter fun n => n.1 != p).lookup q = nodes.lookup q := by
  induction nodes with
  | nil => rfl
  | cons n rest ih =>
    obtain ⟨r, node⟩ := n
    by_cases hr : r = p
    · subst hr
      simp [List.lookup_cons, beq_eq_false_iff_ne.mpr h, ih]
    · simp [List.lookup_cons, hr, ih]

/-- What is put at a place stands there, and nothing else moves. -/
theorem node?_put (s : Store) (p q : Place) (node : Node) :
    (s.put p node).node? q = if q = p then some node else s.node? q := by
  by_cases h : q = p
  · simp [put, node?, h]
  · simp [put, node?, h, List.lookup_cons, beq_eq_false_iff_ne.mpr h, lookup_filter_ne _ h]

/-- Put bytes at the end of a file, which is created if nothing stands at the place. A device
stays as it is. -/
def append (s : Store) (place : Place) (data : Bytes) : Store :=
  match s.node? place with
  | none => s.put place (.file (.ofBytes data))
  | some (.file old) => s.put place (.file (old.add data))
  | some _ => s

/-- Bytes go to the end of a file. -/
theorem node?_append_of_file {s : Store} {place : Place} {old : Arrivals}
    (h : s.node? place = some (.file old)) (data : Bytes) :
    (s.append place data).node? place = some (.file (old.add data)) := by
  simp [append, h, node?_put]

/-! ## Following paths -/

/-- Go down from a directory to another one in it. -/
def enter (s : Store) (directory : Place) (name : Bytes) : Except SystemError Place :=
  if Path.maxName < name.length then .error .nameTooLong
  else
    match s.node? (directory ++ [name]) with
    | some .directory => .ok (directory ++ [name])
    | some _ => .error .notADirectory
    | none => .error .notFound

/-- Take one step from a directory. The root is the directory above itself. -/
def move (s : Store) (directory : Place) : Path.Step → Except SystemError Place
  | .stay => .ok directory
  | .up => .ok directory.dropLast
  | .down name => s.enter directory name

/-- The directory in which a path starts. -/
def start (s : Store) (path : Path) : Place := if path.fromRoot then [] else s.home

/-- The place that a path opens for writing, where something else than a directory stands or
nothing yet. Only the last step may lead to a place that is not taken. -/
def locate (s : Store) (path : Path) : Except SystemError Place := do
  let directory ← path.steps.dropLast.foldlM s.move (s.start path)
  match path.steps.getLast? with
  | some (.down name) =>
    if path.closed then .error .isADirectory
    else if Path.maxName < name.length then .error .nameTooLong
    else if s.node? (directory ++ [name]) = some .directory then .error .isADirectory
    else .ok (directory ++ [name])
  | _ => .error .isADirectory

/-- What a path leads to: the directory that its steps end in, or what stands at the place it
opens. -/
def find? (s : Store) (path : Path) : Option Node :=
  match path.steps.foldlM s.move (s.start path) with
  | .ok place => s.node? place
  | .error _ =>
    match s.locate path with
    | .ok place => s.node? place
    | .error _ => none

/-- What the text of a path leads to. -/
def lookup? (s : Store) (path : Bytes) : Option Node :=
  (Path.parse path).toOption.bind s.find?

/-- The contents of the file that a path leads to. -/
def contents? (s : Store) (path : Bytes) : Option Bytes :=
  match s.lookup? path with
  | some (.file contents) => some contents.bytes
  | _ => none

/-- Open a path for appending, which creates the file. -/
def openForAppending (s : Store) (path : Bytes) : Except SystemError (Place × Store) := do
  let place ← s.locate (← Path.parse path)
  return (place, s.append place [])

/-! ## The usual file system -/

/-- The names of the directories at the root of a system. -/
def rootDirectories : List Bytes :=
  ["bin", "boot", "dev", "etc", "home", "lib", "media", "mnt", "opt", "proc", "root", "run", "sbin",
    "srv", "sys", "tmp", "usr", "var"].map utf8

/-- The devices by their names in the directory of devices. -/
def devices : List (Bytes × Node) :=
  [(utf8 "null", .nullDevice), (utf8 "zero", .nullDevice), (utf8 "full", .fullDevice),
    (utf8 "stdout", .standardOutput)]

/-- The usual directories and devices, and a home that is empty. -/
def empty : Store :=
  let home := [utf8 "tmp", utf8 "work"]
  ⟨home,
    [([], .directory), (home, .directory)] ++
      rootDirectories.map (fun name => ([name], .directory)) ++
      devices.map fun (name, device) => ([utf8 "dev", name], device)⟩

/-- The usual file system with the given files. A path that leads nowhere is passed over. -/
def ofFiles (files : List (Bytes × Bytes)) : Store :=
  files.foldl (fun s (path, contents) =>
    match s.openForAppending path with
    | .ok (place, s) => s.append place contents
    | .error _ => s) empty

end Store

end LeveledLog

import ReactiveView.Error.Lookup

namespace ReactiveView

/-- What stands at the end of a path once all links are followed. -/
inductive Content where
  | directory
  | file (bytes : List UInt8)
  deriving DecidableEq

def directorySize : Nat := 4096

def Content.size : Content → Nat
  | .directory => directorySize
  | .file bytes => bytes.length

/-- Answer what the loader asks of a file system: the content at a path that exists, and the path
without links that takes its place. -/
structure FileSystem where
  content? : Path → Option Content
  realPath : Path → Except LookupError Path

inductive FileEntry where
  | directory
  | file (bytes : List UInt8)
  | link (target : String)
  deriving DecidableEq

structure FileTree where
  entries : List (Path × FileEntry)

namespace FileTree

def empty : FileTree := ⟨[]⟩

def entry? (tree : FileTree) (path : Path) : Option FileEntry :=
  if path.isEmpty then some .directory else tree.entries.lookup path

def put (tree : FileTree) (path : Path) (entry : FileEntry) : FileTree :=
  ⟨(path, entry) :: tree.entries⟩

def linkLimit : Nat := 40

/-- Follow names from a path without links; `links` more links may be followed. -/
def walk (tree : FileTree) (links : Nat) (done : Path) (names : List String) :
    Except DeadEnd Path :=
  match names with
  | [] => .ok done
  | name :: rest =>
    if name = "" ∨ name = "." then walk tree links done rest
    else if name = ".." then walk tree links done.dropLast rest
    else if nameLimit < name.utf8ByteSize then .error .nameTooLong
    else
      match tree.entry? (done ++ [name]) with
      | none => .error .missing
      | some .directory => walk tree links (done ++ [name]) rest
      | some (.file _) => if rest.isEmpty then .ok (done ++ [name]) else .error .notDirectory
      | some (.link target) =>
        match links with
        | 0 => .error .tooManyLinks
        | left + 1 =>
          walk tree left (if Path.isAbsolute target then [] else done)
            (Path.segments target ++ rest)
termination_by (links, names.length)

def LooksUp (name : String) : Prop :=
  name ≠ "" ∧ name ≠ "." ∧ name ≠ ".." ∧ name.utf8ByteSize ≤ nameLimit

instance (name : String) : Decidable (LooksUp name) := inferInstanceAs (Decidable (_ ∧ _))

theorem walk_up (tree : FileTree) (links : Nat) (done : Path) (rest : List String) :
    tree.walk links done (".." :: rest) = tree.walk links done.dropLast rest := by
  rw [walk, if_neg (by decide), if_pos rfl]

section

variable {tree : FileTree} {done : Path} {name : String}

theorem walk_lookUp (h : LooksUp name) (links : Nat) (rest : List String) :
    tree.walk links done (name :: rest) =
      match tree.entry? (done ++ [name]) with
      | none => .error .missing
      | some .directory => tree.walk links (done ++ [name]) rest
      | some (.file _) => if rest.isEmpty then .ok (done ++ [name]) else .error .notDirectory
      | some (.link target) =>
        match links with
        | 0 => .error .tooManyLinks
        | left + 1 =>
          tree.walk left (if Path.isAbsolute target then [] else done) (Path.segments target ++ rest) := by
  obtain ⟨hne, hdot, hdots, hlength⟩ := h
  rw [walk, if_neg (not_or.2 ⟨hne, hdot⟩), if_neg hdots, if_neg (Nat.not_lt.2 hlength)]

theorem walk_directory (h : LooksUp name) (hentry : tree.entry? (done ++ [name]) = some .directory)
    (links : Nat) (rest : List String) :
    tree.walk links done (name :: rest) = tree.walk links (done ++ [name]) rest := by
  rw [walk_lookUp h, hentry]

theorem walk_file (h : LooksUp name) {bytes : List UInt8}
    (hentry : tree.entry? (done ++ [name]) = some (.file bytes)) (links : Nat) :
    tree.walk links done [name] = .ok (done ++ [name]) := by
  rw [walk_lookUp h, hentry]
  rfl

theorem walk_link (target : String) (h : LooksUp name)
    (hentry : tree.entry? (done ++ [name]) = some (.link target)) (hrelative : Path.isAbsolute target = false)
    (left : Nat) (rest : List String) :
    tree.walk (left + 1) done (name :: rest) = tree.walk left done (Path.segments target ++ rest) := by
  rw [walk_lookUp h, hentry]
  simp only [hrelative, Bool.false_eq_true, if_false]

end

def openPath (tree : FileTree) (path : Path) : Except DeadEnd Path :=
  if path.isTooLong then .error .nameTooLong else tree.walk linkLimit [] path

def content? (tree : FileTree) (path : Path) : Option Content :=
  match tree.openPath path with
  | .error _ => none
  | .ok place =>
    match tree.entry? place with
    | some .directory => some .directory
    | some (.file bytes) => some (.file bytes)
    | _ => none

def enter (here : FileTree × Path) (name : String) : FileTree × Path :=
  match here.1.walk linkLimit here.2 [name] with
  | .ok inside => (here.1, inside)
  | .error _ => (here.1.put (here.2 ++ [name]) .directory, here.2 ++ [name])

def enterAll (tree : FileTree) (path : Path) : FileTree × Path := path.foldl enter (tree, [])

def addDirectory (tree : FileTree) (path : Path) : FileTree := (tree.enterAll path).1

def add (tree : FileTree) (path : Path) (entry : FileEntry) : FileTree :=
  let (tree, directory) := tree.enterAll path.dropLast
  tree.put (directory ++ path.getLast?.toList) entry

/-- Hold a link that stands on a path: where it stands, its target, and the names after it. -/
structure Crossing where
  place : Path
  target : String
  rest : Path
  deriving DecidableEq

def firstLink (tree : FileTree) (done : Path) : List String → Except LookupError (Option Crossing)
  | [] => .ok none
  | name :: rest =>
    let place := done ++ [name]
    if place.isTooLong then .error ⟨.nameTooLong, .entry, place⟩
    else
      match tree.entry? place with
      | some (.link target) => .ok (some ⟨place, target, rest⟩)
      | some _ => firstLink tree place rest
      | none =>
        match tree.entry? done with
        | some (.file _) => .error ⟨.notDirectory, .entry, place⟩
        | _ => .error ⟨.missing, .entry, place⟩

def Crossing.expand (c : Crossing) : Path := Path.resolve c.place.dropLast c.target ++ c.rest

def expansionLimit : Nat := 1000

/-- Expand the first link of a path until there is none. A link must lead somewhere. -/
def expandLinks (tree : FileTree) : Nat → Path → Except LookupError Path
  | 0, path => .error ⟨.tooManyLinks, .entry, path⟩
  | fuel + 1, path =>
    match tree.firstLink [] path with
    | .error cause => .error cause
    | .ok none => .ok path
    | .ok (some crossing) =>
      match tree.openPath crossing.place with
      | .error cause => .error ⟨cause, .target, crossing.place⟩
      | .ok _ => expandLinks tree fuel crossing.expand

section

variable {tree : FileTree} {path : Path}

theorem expandLinks_of_error {cause : LookupError} (h : tree.firstLink [] path = .error cause) (fuel : Nat) :
    tree.expandLinks (fuel + 1) path = .error cause := by
  rw [expandLinks, h]

theorem expandLinks_of_none (h : tree.firstLink [] path = .ok none) (fuel : Nat) :
    tree.expandLinks (fuel + 1) path = .ok path := by
  rw [expandLinks, h]

theorem expandLinks_of_link {crossing : Crossing} (h : tree.firstLink [] path = .ok (some crossing))
    {place : Path} (hopen : tree.openPath crossing.place = .ok place) (fuel : Nat) :
    tree.expandLinks (fuel + 1) path = tree.expandLinks fuel crossing.expand := by
  rw [expandLinks, h]
  dsimp only
  rw [hopen]

end

def fileSystem (tree : FileTree) : FileSystem where
  content? := tree.content?
  realPath := tree.expandLinks expansionLimit

theorem realPath_of_none {tree : FileTree} {path : Path} (h : tree.firstLink [] path = .ok none) :
    tree.fileSystem.realPath path = .ok path := expandLinks_of_none h 999

end FileTree

end ReactiveView

import Overhaul.CommandLine.ScheduleFile

/-!
# Paths among files

A tree of files has a folder in which a program works. A path leads from there, one name after the
other, and each name is taken in a folder that exists: a path does not lead through a file or a
missing folder, not even when it turns back right after it. Main definitions: `FileTree.content`,
what is found at a path, `FileTree.add?`, which makes a file, and `FileTree.overwrite`, which
changes one.
-/

namespace Overhaul.CommandLine

/-- The names that lead from the outermost folder to a place. -/
abbrev Place := List (List Char)

/-- Folders and files, and the folder where paths begin. -/
structure FileTree where
  working : Place
  folders : List Place
  files : List (Place × String)
  deriving Repr

namespace FileTree

/-- The tree without files. The working folder lies in a folder of the outermost one; both have
empty names, which no path spells. -/
def empty : FileTree where
  working := [[], []]
  folders := [[], [[]], [[], []]]
  files := []

/-- The text of the file at a place. -/
def text? (tree : FileTree) (place : Place) : Option String :=
  tree.files.lookup place

/-- There is a folder at the place. -/
def isFolder (tree : FileTree) (place : Place) : Bool := tree.folders.contains place

/-- The place where a path begins. -/
def start (tree : FileTree) (path : String) : Place :=
  if path.startsWith "/" then [] else tree.working

/-- Where a name leads from a place, which has to be a folder. An empty name and a point stay; two
points turn back, though not out of the outermost folder. -/
def step (tree : FileTree) (place : Place) (name : List Char) : Option Place :=
  if !tree.isFolder place then none
  else if name = [] ∨ name = ['.'] then some place
  else if name = ['.', '.'] then some place.dropLast
  else
    let next := place ++ [name]
    if tree.isFolder next || (tree.text? next).isSome then some next else none

/-- Where a path leads; none when there is nothing. An empty path leads nowhere. -/
def walk? (tree : FileTree) (path : String) : Option Place :=
  if path = "" then none
  else (path.toList.splitOn '/').foldlM tree.step (tree.start path)

/-- What is found at a path. A folder is there, but cannot be read. -/
def content (tree : FileTree) (path : String) : FileContent :=
  match tree.walk? path with
  | none => .missing
  | some place =>
    match tree.text? place with
    | some s => .text s
    | none => .unreadable

/-- Goes from a folder into the one of that name, which is made if there is none; nothing when a
file is in the way. -/
def enter? (tree : FileTree) (place : Place) (name : List Char) : Option (FileTree × Place) :=
  if name = ['.', '.'] then some (tree, place.dropLast)
  else
    let next := place ++ [name]
    if (tree.text? next).isSome then none
    else if tree.isFolder next then some (tree, next)
    else some ({ tree with folders := next :: tree.folders }, next)

/-- The tree with one more file, and with the folders that its path goes through. -/
def add? (tree : FileTree) (path text : String) : Option FileTree := do
  let parts := Format.parts path
  let name ← parts.getLast?
  let (tree, folder) ← parts.dropLast.foldlM (fun (tree, place) name => tree.enter? place name)
    (tree, tree.start path)
  let place := folder ++ [name]
  if name = ['.', '.'] || tree.isFolder place then none
  else some { tree with files := (place, text) :: tree.files.filter fun f => f.1 ≠ place }

/-- The tree with the files at the given paths, made in that order; what cannot be made is left
out. -/
def ofFiles (files : List (String × String)) : FileTree :=
  files.foldl (fun tree f => (tree.add? f.1 f.2).getD tree) empty

/-- The tree in which the file at the place holds the text; as it was where there is no file. -/
def withText (tree : FileTree) (place : Place) (text : String) : FileTree :=
  { tree with files := tree.files.map fun f => if f.1 = place then (f.1, text) else f }

/-- The tree in which the file that the path leads to holds the text. -/
def overwrite (tree : FileTree) (path text : String) : FileTree :=
  match tree.walk? path with
  | some place => tree.withText place text
  | none => tree

/-- Files stay where they are, and only one gets the text. -/
theorem text?_withText (tree : FileTree) (place : Place) (text : String) (other : Place) :
    (tree.withText place text).text? other =
      (tree.text? other).map fun s => if other = place then text else s := by
  obtain ⟨_, _, files⟩ := tree
  simp only [text?, withText]
  induction files with
  | nil => rfl
  | cons f fs ih =>
    obtain ⟨here, s⟩ := f
    by_cases h : other = here
    · by_cases h' : here = place <;> simp [h, h']
    · have hne : (other == here) = false := beq_eq_false_iff_ne.2 h
      by_cases h' : here = place
      · subst h'
        simp [List.lookup_cons, hne, ih]
      · simp [List.lookup_cons, h', hne, ih]

/-- Writing a file makes and removes no folder. -/
@[simp] theorem isFolder_withText (tree : FileTree) (place : Place) (text : String)
    (other : Place) : (tree.withText place text).isFolder other = tree.isFolder other := rfl

/-- Writing a file changes no step of a path. -/
theorem step_withText (tree : FileTree) (place : Place) (text : String) :
    (tree.withText place text).step = tree.step := by
  funext other name
  simp [step, text?_withText]

/-- Writing a file changes not where a path leads. -/
theorem walk?_overwrite (tree : FileTree) (path text other : String) :
    (tree.overwrite path text).walk? other = tree.walk? other := by
  unfold overwrite
  split
  · simp only [walk?, step_withText, start]
    rfl
  · rfl

end FileTree

end Overhaul.CommandLine

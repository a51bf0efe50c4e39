/-!
# Folders

Files that are held in memory, and how a path finds one of them.  A command that
reads its script from a folder needs no file system.

## Main definitions

* `Folder` — files under their names
* `Folder.parts` — what stands between the slashes of a path
* `Folder.walk` — follows the parts of a path from a place in the folder
* `Folder.text?` — the text of the file that a path names

## Main statements

* `Folder.walk_stay` — an empty part and a single dot stay where they are
* `Folder.walk_file_cons` — nothing lies behind a file, not even a closing slash

## Design decisions

* A file may have a name with slashes.  The places in front of such a name are
  folders, and there are no others.
* A folder is no file: a path that ends at one names nothing, and so does a path
  that goes on behind a file.
* What is outside of the folder is not known, so a path that starts with a slash,
  or that goes up too far, names nothing.
-/

namespace Scriptlet

/-- **Folder.**  Files in memory. -/
structure Folder where
  /-- The parts of the name of each file, and its bytes. -/
  files : List (List String × ByteArray)

namespace Folder

/-- The characters between the slashes of a path.  A slash at an end has an empty
part beside it. -/
def split : List Char → List (List Char)
  | [] => [[]]
  | c :: cs =>
    if c = '/' then [] :: split cs
    else
      match split cs with
      | [] => [[c]]
      | first :: rest => (c :: first) :: rest

/-- **Parts** of a path. -/
def parts (path : String) : List String :=
  (split path.toList).map String.ofList

/-- Whether a part leads nowhere else. -/
def stays (part : String) : Bool := part == "" || part == "."

/-- The folder with the given files. -/
def ofFiles (files : List (String × ByteArray)) : Folder :=
  ⟨files.map fun (name, data) => ((parts name).filter (!stays ·), data)⟩

/-- Whether a place is a folder: some file lies further inside. -/
def isFolder (folder : Folder) (place : List String) : Bool :=
  folder.files.any fun (name, _) => place.isPrefixOf name && decide (place.length < name.length)

/-- **Walking.**  The file that the parts of a path lead to from a place. -/
def walk (folder : Folder) (place : List String) : List String → Option ByteArray
  | [] => none
  | part :: rest =>
    if stays part then folder.walk place rest
    else if part = ".." then
      if place.isEmpty then none else folder.walk place.dropLast rest
    else if folder.isFolder (place ++ [part]) then folder.walk (place ++ [part]) rest
    else if rest.isEmpty then folder.files.lookup (place ++ [part])
    else none

@[simp] theorem walk_nil (folder : Folder) (place : List String) :
    folder.walk place [] = none := rfl

/-- An empty part and a single dot stay where they are. -/
theorem walk_stay (folder : Folder) (place : List String) {part : String} (rest : List String)
    (h : stays part = true) : folder.walk place (part :: rest) = folder.walk place rest := by
  rw [walk, if_pos h]

/-- **Nothing lies behind a file**, not even a closing slash. -/
theorem walk_file_cons (folder : Folder) (place : List String) {part : String}
    (behind : String) (rest : List String) (named : stays part = false) (down : part ≠ "..")
    (file : folder.isFolder (place ++ [part]) = false) :
    folder.walk place (part :: behind :: rest) = none := by
  simp [walk, named, down, file]

/-- The bytes of the file that a path names. -/
def find? (folder : Folder) (path : String) : Option ByteArray :=
  match path.toList with
  | '/' :: _ => none
  | _ => folder.walk [] (parts path)

/-- **Text** of the file that a path names, if there is one and it is a text. -/
def text? (folder : Folder) (path : String) : Option String :=
  (folder.find? path).bind String.fromUTF8?

end Folder

end Scriptlet

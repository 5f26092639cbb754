/-
**A tree of files, and reading and writing in it.**

Files are known by the elements of their absolute path; a directory is any place above a file or
above the working directory. A path is followed element by element, as an operating system does:
each element but the last has to be a directory, and none may be too long. A path that is too long
as a whole, or holds a zero byte, is not followed at all.

* `Directory.read` is the content of a file.
* `Directory.write` replaces or adds a file; its directory has to be there.
-/
import Guwen.Command.Path

namespace Guwen

/-- **Why a file cannot be read or written.** -/
inductive FileError where
  | notFound
  | isDirectory
  | notDirectory
  | nameTooLong
  /-- The path holds a zero byte. -/
  | malformed
  /-- Any other reason, in words. -/
  | other (reason : Text)
deriving DecidableEq, Repr

namespace FileError

/-- The wording of the failure. -/
def text : FileError → Text
  | notFound => "no such file or directory"
  | isDirectory => "is a directory"
  | notDirectory => "not a directory"
  | nameTooLong => "file name too long"
  | malformed => "invalid argument"
  | other reason => reason

/-- The wording when a file is to be read: a directory opens, but cannot be read. -/
def readMessage (e : FileError) (path : Text) : Text :=
  (if e = .isDirectory then "read " else "open " : Text) ++ path ++ ": " ++ e.text

/-- The wording when a file is to be written. -/
def writeMessage (e : FileError) (path : Text) : Text := "open " ++ path ++ ": " ++ e.text

end FileError

/-- **A tree of files** and the directory in which work is done. -/
structure Directory where
  home : List Text
  files : List (List Text × Text)
deriving DecidableEq, Repr

namespace Directory

/-- What a path leads to. -/
inductive Place where
  | directory
  | file (path : List Text) (content : Text)
  /-- Nothing yet, in a directory that is there. -/
  | vacant (path : List Text)

/-- The content of the file at a path. -/
def file? (d : Directory) (path : List Text) : Option Text :=
  (d.files.find? fun file => file.1 == path).map (·.2)

/-- A place above a file or above the working directory, or that directory itself. -/
def isDirectory (d : Directory) (path : List Text) : Bool :=
  path.isPrefixOf d.home || d.files.any fun file => path.isPrefixOf file.1 && path != file.1

/-- Following the elements of a path from a directory. Slashes behind the last element ask for a
directory, whatever the element is. -/
def walk (d : Directory) (place : List Text) : List Text → Except FileError Place
  | [] => .ok .directory
  | element :: rest =>
    if element.isEmpty || element == Path.here then d.walk place rest
    else if element == Path.above then d.walk place.dropLast rest
    else
      let next := place ++ [element]
      if d.isDirectory next then d.walk next rest
      else if !rest.isEmpty && rest.all (·.isEmpty) then .error .isDirectory
      else if Path.elementLimit < element.length then .error .nameTooLong
      else match d.file? next, rest.isEmpty with
        | some content, true => .ok (.file next content)
        | none, true => .ok (.vacant next)
        | some _, false => .error .notDirectory
        | none, false => .error .notFound

/-- What a path leads to. -/
def place (d : Directory) (path : Text) : Except FileError Place :=
  if path.contains 0 then .error .malformed
  else if Path.lengthLimit < path.length then .error .nameTooLong
  else d.walk (if Path.isAbsolute path then [] else d.home) (List.splitOn Path.slash path)

/-- **The content of a file.** -/
def read (d : Directory) (path : Text) : Except FileError Text := do
  match ← d.place path with
  | .directory => .error .isDirectory
  | .file _ content => return content
  | .vacant _ => .error .notFound

/-- The files with one of them replaced or added. -/
def put (files : List (List Text × Text)) (path : List Text) (content : Text) :
    List (List Text × Text) :=
  match files with
  | [] => [(path, content)]
  | file :: rest =>
    if file.1 = path then (path, content) :: rest else file :: put rest path content

/-- **A file written.** -/
def write (d : Directory) (path content : Text) : Except FileError Directory := do
  match ← d.place path with
  | .directory => .error .isDirectory
  | .file path _ | .vacant path => return { d with files := put d.files path content }

end Directory

end Guwen

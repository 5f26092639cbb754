/-
**Paths: where a file lies.**

A path is a text whose elements stand between slashes. `Path.absolute` makes a path start at the
root and free of `.`, `..` and doubled slashes; `Path.withExtension` changes what follows the last
dot of the last element.
-/
import Guwen.Text

namespace Guwen

namespace Path

/-- The byte between elements. -/
def slash : UInt8 := 0x2F

/-- The byte before an extension. -/
def dot : UInt8 := 0x2E

/-- The element for the place itself. -/
def here : Text := "."

/-- The element for the place above. -/
def above : Text := ".."

/-- The most bytes that an element may have. -/
def elementLimit : Nat := 255

/-- The most bytes that a whole path may have. -/
def lengthLimit : Nat := 4095

/-- A path that starts at the root. -/
def isAbsolute (path : Text) : Bool := path.head? == some slash

/-- The elements left when `.` and `..` are carried out from the root. -/
def elements (path : Text) : List Text :=
  (List.splitOn slash path).foldl (fun sofar element =>
    if element.isEmpty || element == here then sofar
    else if element == above then sofar.dropLast
    else sofar ++ [element]) []

/-- The path from the root through some elements. -/
def ofElements (elements : List Text) : Text := [slash] ++ Text.join [slash] elements

/-- **A path made absolute and clean;** a relative one starts at `home`. -/
def absolute (home path : Text) : Text :=
  ofElements (elements (if isAbsolute path then path else home ++ [slash] ++ path))

/-- A path without the extension of its last element. -/
def withoutExtension (path : Text) : Text :=
  let last := path.reverse.takeWhile (· != slash)
  if last.contains dot then path.take (path.length - ((last.takeWhile (· != dot)).length + 1))
  else path

/-- **A path with another extension.** -/
def withExtension (path extension : Text) : Text := withoutExtension path ++ extension

end Path

end Guwen

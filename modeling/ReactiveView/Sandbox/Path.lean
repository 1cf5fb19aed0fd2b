import ReactiveView.Sandbox.Limits

namespace ReactiveView

def nameLimit : Nat := 255

def pathLimit : Nat := 4095

abbrev Path := List String

namespace Path

def separator : Char := '/'

/-- Cut a text at every character of a class. There is always one part more than there are cuts. -/
def cut (isCut : Char → Bool) : List Char → List (List Char)
  | [] => [[]]
  | c :: rest =>
    if isCut c then [] :: cut isCut rest
    else
      match cut isCut rest with
      | part :: parts => (c :: part) :: parts
      | [] => [[c]]

def segments (text : String) : List String :=
  (cut (· == separator) text.toList).map String.ofList

def isAbsolute (text : String) : Bool := text.toList.head? == some separator

/-- Follow one name: a dot stays, and two dots go up, but not above the root. -/
def follow (path : Path) (name : String) : Path :=
  if name = "" ∨ name = "." then path else if name = ".." then path.dropLast else path ++ [name]

def resolve (base : Path) (text : String) : Path :=
  (segments text).foldl follow (if isAbsolute text then [] else base)

def text (path : Path) : String :=
  if path.isEmpty then "/" else path.foldl (fun out name => out ++ "/" ++ name) ""

def isTooLong (path : Path) : Bool := pathLimit < path.text.utf8ByteSize

def relative : Path → Path → List String
  | a :: base, b :: target =>
    if a = b then relative base target
    else ((a :: base).map fun _ => "..") ++ b :: target
  | base, target => (base.map fun _ => "..") ++ target

def startsWithDots (name : String) : Bool := "..".toList.isPrefixOf name.toList

/-- Tell whether a path lies below a root, judged by the text of the path that leads to it: anything
that starts with two dots counts as going up. -/
def isInside (root target : Path) : Bool :=
  match relative root target with
  | [] => false
  | name :: _ => !startsWithDots name

def baseName (text : String) : String :=
  ((segments text).filter fun name => name != "").getLastD ""

def hasSourceExtension (text : String) : Bool :=
  let name := (baseName text).toList
  sourceExtension.toList.reverse.isPrefixOf name.reverse && sourceExtension.length < name.length

def hasTraversal (text : String) : Bool :=
  (cut (fun c => c == separator || c == '\\') text.toList).any fun name => name == "..".toList

def hasNul (text : String) : Bool := text.toList.any fun c => c.toNat == 0

end Path

end ReactiveView

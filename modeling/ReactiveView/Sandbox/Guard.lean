import ReactiveView.Error.Failure
import ReactiveView.Sandbox.FileTree

namespace ReactiveView.Guard

def textFault? (requested : String) : Option PathFault :=
  if Path.hasNul requested then some .invalidCharacters
  else if !Path.hasSourceExtension requested then some .wrongExtension
  else if Path.hasTraversal requested then some .traversal
  else none

def linksStayInside (fs : FileSystem) (root target : Path) : Except LookupError Bool :=
  if (fs.content? target).isNone then .ok true
  else return Path.isInside (← fs.realPath root) (← fs.realPath target)

/-- Path of an acceptable request below a root; the root itself may be relative to a directory. -/
def validate (fs : FileSystem) (directory : Path) (requested root : String) :
    Except Failure Path :=
  let base := Path.resolve directory root
  let target := Path.resolve base requested
  let refuse (fault : PathFault) := .error (.sandbox (.pathRejected requested fault))
  match textFault? requested with
  | some fault => refuse fault
  | none =>
    if !Path.isInside base target then refuse .outsideRoot
    else
      match linksStayInside fs base target with
      | .error cause => .error (.defect (.lookup cause))
      | .ok false => refuse .outsideRoot
      | .ok true => .ok target

end ReactiveView.Guard

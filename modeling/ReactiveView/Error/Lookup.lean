import ReactiveView.Sandbox.Path

namespace ReactiveView

inductive DeadEnd where
  | missing
  /-- Names follow the name of a file. -/
  | notDirectory
  | tooManyLinks
  | nameTooLong
  deriving DecidableEq

namespace DeadEnd

def code : DeadEnd → String
  | .missing => "ENOENT"
  | .notDirectory => "ENOTDIR"
  | .tooManyLinks => "ELOOP"
  | .nameTooLong => "ENAMETOOLONG"

def phrase : DeadEnd → String
  | .missing => "no such file or directory"
  | .notDirectory => "not a directory"
  | .tooManyLinks => "too many symbolic links encountered"
  | .nameTooLong => "name too long"

end DeadEnd

inductive Question where
  | entry
  | target
  deriving DecidableEq

def Question.name : Question → String
  | .entry => "lstat"
  | .target => "stat"

/-- Hold what stops the search for a real path: a question about some path has no answer. -/
structure LookupError where
  cause : DeadEnd
  question : Question
  path : Path
  deriving DecidableEq

def LookupError.message (e : LookupError) : String :=
  e.cause.code ++ ": " ++ e.cause.phrase ++ ", " ++ e.question.name ++ " '" ++ e.path.text ++ "'"

end ReactiveView

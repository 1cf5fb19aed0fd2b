namespace ReactiveView

namespace Log

inductive Level where
  | debug
  | info
  | warn
  | error
  deriving DecidableEq

def Level.name : Level → String
  | .debug => "debug"
  | .info => "info"
  | .warn => "warn"
  | .error => "error"

def Level.all : List Level := [.debug, .info, .warn, .error]

def Level.ofName? (name : String) : Option Level := all.find? fun level => level.name == name

structure Line where
  level : Level
  items : List String
  deriving DecidableEq

end Log

inductive Console where
  | working
  | failing
  | missing
  deriving DecidableEq

namespace Console

def mark : String := "[prism]"

def isShown (environment : String) (level : Log.Level) : Bool :=
  environment != "production" || level == .error

def show? (console : Console) (environment : String) (line : Log.Line) : Option Log.Line :=
  if isShown environment line.level && console == .working then
    some ⟨line.level, mark :: line.items⟩
  else none

end Console

end ReactiveView

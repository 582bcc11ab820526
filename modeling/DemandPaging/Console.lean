namespace DemandPaging

inductive Level where
  | error | warn | info | debug | trace
deriving DecidableEq

namespace Level

def all : List Level := [error, warn, info, debug, trace]

def name : Level → String
  | error => "ERROR"
  | warn => "WARN"
  | info => "INFO"
  | debug => "DEBUG"
  | trace => "TRACE"

def ofName? (s : String) : Option Level := all.find? fun level => level.name == s

def colour : Level → Nat
  | error => 31
  | warn => 93
  | info => 34
  | debug => 32
  | trace => 90

def label (level : Level) : String :=
  String.ofList (List.replicate (5 - level.name.length) ' ') ++ level.name

end Level

def escape : String := "\x1b["

def consoleLine (level : Level) (message : String) : String :=
  escape ++ toString level.colour ++ "m[" ++ level.label ++ "] " ++ message ++ escape ++ "0m"

end DemandPaging

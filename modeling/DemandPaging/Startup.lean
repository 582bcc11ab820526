import DemandPaging.Machine

namespace DemandPaging

/-- Makes the machine unless it is there already; also gives what is reported. -/
def startOnce (current : Option Machine) (frames : Nat) (sectors : Option Nat) :
    Machine × List Event :=
  match current with
  | some machine => (machine, [])
  | none => (.fresh frames sectors [], [.started])

end DemandPaging

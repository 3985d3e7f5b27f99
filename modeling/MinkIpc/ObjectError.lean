import Mathlib.Data.List.Basic

/-! The error codes of the Mink object model that the modelled functions
return. `code` is the value on the wire and in the C interface. -/

namespace MinkIpc

inductive ObjectError
  | error
  | invalid
  | mem
  | defunct
  | badObj
  | noSlots
  | maxArgs
  | unavail
  | kmem
  | remote
  | replay
  | maxReplay
  | other (code : Int)
  deriving DecidableEq, Repr

def ObjectError.code : ObjectError → Int
  | error => 1
  | invalid => 2
  | mem => 5
  | defunct => -90
  | badObj => -92
  | noSlots => -93
  | maxArgs => -94
  | unavail => -96
  | kmem => -97
  | remote => -98
  | replay => -101
  | maxReplay => -102
  | other code => code

end MinkIpc

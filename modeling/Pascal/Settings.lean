/-! # Settings of a run -/

namespace Pascal

structure Settings where
  /-- How many routines of the program may be active at a time. -/
  maxCallDepth : Nat := 64
  /-- Whether a listener is told the variables with every line. -/
  debugSnapshots : Bool := true
deriving DecidableEq, Repr

end Pascal

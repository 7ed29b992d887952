import Pascal.Library

/-! # Screen control -/

namespace Pascal.Library

/-- Waiting takes no time here, but a run that has been cancelled stops. -/
def delay (args : List Value) : Host Unit := do
  let _ ← ordinalArg args 0
  if (← EStateM.get).cancelled then Host.fail .cancelled

def crt : Library where
  name := "crt"
  routines :=
    [procedure "clrscr" [] fun _ => Host.clearScreen,
      procedure "delay" [param "milliseconds" .integer] delay]

end Pascal.Library

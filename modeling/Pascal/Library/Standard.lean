import Pascal.Library.System
import Pascal.Library.Math
import Pascal.Library.Screen

/-! # The standard libraries -/

namespace Pascal.Library

/-- The libraries that programs can use. -/
def standard : List Library := [system, math, crt]

end Pascal.Library

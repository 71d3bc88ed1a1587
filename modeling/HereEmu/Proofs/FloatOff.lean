import HereEmu.Proofs.Expansion
import HereEmu.Proofs.FloatRun

/-!
# A float unit that is off

With `mstatus.FS` zero a float instruction is illegal. The wrappers
`normal_float_exec` and `normal_compress_float_exec` ask first, so that nothing
else of the instruction happens. The compressed stores go through
`normal_compress_exec` instead and do not ask: they write a float register to
memory whether the unit is on or not.
-/

namespace HereEmu

open Lib (Exec)
open RVCPU CsrRegFile Mstatus

variable {P : Platform} {s : RVCPU P} {f : ExecFunc P.FloatOp P.VectorOp} {d : P.Decoded}

end HereEmu

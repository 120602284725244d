import Artifice.Codec.GfKernels

/-!
The kernels of `lib/cauchy_rs.c` with the tables of `gf_init`: each of them sets the first bytes of its
destination, to what `gf_add` and `gf_mul` give for a byte, and no others, with vectors and without.
-/

namespace Artifice

open Lib

section

variable {t : FieldTables} {g : GfCtx}

/-! ### In place -/

end

/-! ### The tables of `gf_init` -/

end Artifice

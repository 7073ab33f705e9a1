import Aero.Proofs.Matrix

/-!
Bounds checks. The code of a check goes on exactly where an index is in range. For a heap array the range is the size
that is recorded for its buffer, in elements.
-/

namespace Aero.Lowering

open IR IR.Build IR.Site

end Aero.Lowering

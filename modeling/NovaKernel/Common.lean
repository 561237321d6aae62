import Mathlib.Algebra.Group.Int.Defs
import Mathlib.Algebra.Group.Nat.Defs

set_option autoImplicit false

namespace NovaKernel

abbrev Word := BitVec 32
abbrev Byte := BitVec 8

instance : LawfulBEq Byte := inferInstanceAs (LawfulBEq (BitVec 8))

end NovaKernel

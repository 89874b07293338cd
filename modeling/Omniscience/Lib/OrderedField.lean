import Mathlib.Algebra.Order.Field.Basic

/-!
# Ordered fields

What follows of `IsStrictOrderedRing` for the order, as instances of a scope: a search for these
classes otherwise goes through every ordered structure of the library first.
-/

namespace Omniscience.OrderedField

variable {K : Type*} [Field K] [LinearOrder K] [IsStrictOrderedRing K]

scoped instance isOrderedRing : IsOrderedRing K := IsStrictOrderedRing.toIsOrderedRing

scoped instance isOrderedAddMonoid : IsOrderedAddMonoid K := IsOrderedRing.toIsOrderedAddMonoid

scoped instance addLeftMono : AddLeftMono K := inferInstance

scoped instance addRightMono : AddRightMono K := inferInstance

scoped instance addLeftStrictMono : AddLeftStrictMono K := inferInstance

scoped instance addRightStrictMono : AddRightStrictMono K := inferInstance

scoped instance addRightReflectLE : AddRightReflectLE K := inferInstance

scoped instance addRightReflectLT : AddRightReflectLT K := inferInstance

scoped instance posMulMono : PosMulMono K := inferInstance

scoped instance mulPosMono : MulPosMono K := inferInstance

scoped instance existsAddOfLE : ExistsAddOfLE K := inferInstance

end Omniscience.OrderedField

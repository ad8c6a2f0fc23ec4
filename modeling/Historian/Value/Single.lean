/-!
# Single-precision reals

A logged real travels as the four octets of an IEEE 754 single.  It is kept as its
bits, so that every not-a-number keeps its payload; arithmetic goes through the
double it widens to.
-/

namespace Historian

/-- A single-precision real, by its bits. -/
structure Single where
  bits : UInt32
  deriving DecidableEq, Repr

namespace Single

/-- The double with the same value. -/
def toDouble (value : Single) : Float :=
  (Float32.ofBits value.bits).toFloat

/-- The nearest single. -/
def ofDouble (value : Float) : Single :=
  ⟨value.toFloat32.toBits⟩

/-- The single nearest to a natural number. -/
def ofNat (value : UInt64) : Single :=
  ⟨value.toFloat32.toBits⟩

/-- The single nearest to an integer. -/
def ofInt (value : Int64) : Single :=
  ⟨value.toFloat32.toBits⟩

end Single

end Historian

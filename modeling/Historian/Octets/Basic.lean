/-!
# Octet strings

Everything a device sends or receives is a string of octets.  Numbers wider than
one octet travel most significant octet first; this file cuts them into octets
and puts them together again.
-/

namespace Historian

/-- A string of octets, first octet first. -/
abbrev Octets := List UInt8

namespace Octets

/-- The two octets of a 16-bit number, most significant first. -/
def ofWord16 (value : UInt16) : Octets :=
  [UInt8.ofNat (value.toNat / 256), UInt8.ofNat value.toNat]

/-- The four octets of a 32-bit number, most significant first. -/
def ofWord32 (value : UInt32) : Octets :=
  [UInt8.ofNat (value.toNat / 16777216), UInt8.ofNat (value.toNat / 65536),
    UInt8.ofNat (value.toNat / 256), UInt8.ofNat value.toNat]

/-- The 16-bit number with the octets `high` and `low`. -/
def word16 (high low : UInt8) : UInt16 :=
  UInt16.ofNat (high.toNat * 256 + low.toNat)

/-- The 32-bit number with the octets `a`, `b`, `c`, `d`, most significant first. -/
def word32 (a b c d : UInt8) : UInt32 :=
  UInt32.ofNat (((a.toNat * 256 + b.toNat) * 256 + c.toNat) * 256 + d.toNat)

/-- Bit `index` of an octet, counted from the least significant. -/
def bit (octet : UInt8) (index : Nat) : Bool :=
  octet.toNat.testBit index

@[simp] theorem length_ofWord16 (value : UInt16) : (ofWord16 value).length = 2 := rfl

@[simp] theorem length_ofWord32 (value : UInt32) : (ofWord32 value).length = 4 := rfl

end Octets

end Historian

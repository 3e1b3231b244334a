/-!
The checksum of a descriptor's payload: the reflected cyclic redundancy check of width 32.
-/

namespace TeamRoles.Descriptor

namespace Checksum

/-- Divides by the generator polynomial, one bit of the remainder. -/
def step (r : UInt32) : UInt32 :=
  if r &&& 1 = 1 then (r >>> 1) ^^^ 0xEDB88320 else r >>> 1

def steps : Nat → UInt32 → UInt32
  | 0, r => r
  | n + 1, r => steps n (step r)

def addByte (r : UInt32) (b : UInt8) : UInt32 := steps 8 (r ^^^ b.toUInt32)

end Checksum

def checksum (bytes : List UInt8) : UInt32 :=
  bytes.foldl Checksum.addByte 0xFFFFFFFF ^^^ 0xFFFFFFFF

end TeamRoles.Descriptor

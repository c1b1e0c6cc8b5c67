import Overhaul.Id

/-!
# Fresh identifiers

A fresh identifier begins with the time in milliseconds, so that later ones sort behind earlier
ones, and is random otherwise, but for six bits that tell its layout.
-/

namespace Overhaul.Id

/-- The bits of an identifier made at a time, which is counted in milliseconds, from a random
number. -/
def freshBits (millis random : Nat) : BitVec 128 :=
  BitVec.ofNat 48 millis ++ 7#4 ++ BitVec.ofNat 12 (random >>> 62) ++ 2#2 ++
    BitVec.ofNat 62 random

end Overhaul.Id

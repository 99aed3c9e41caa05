/-
Random identifiers: sixteen bytes in hex digits, in groups that hyphens separate. Six of the bits
are fixed; they mark the identifier as a random one.
-/
import Newsletter.Bytes.Basic

namespace Newsletter.Identifier

/-- The first half of a byte replaced by a number below sixteen. -/
def markHigh (mark : UInt8) (byte : UInt8) : UInt8 := mark * 16 + byte % 16

/-- The first two bits of a byte replaced by one and zero. -/
def markVariant (byte : UInt8) : UInt8 := 128 + byte % 64

/-- The numbers of bytes between the hyphens. -/
def groups : List Nat := [4, 2, 2, 2, 6]

/-- The hex digits of bytes, in groups of the given lengths. -/
def hexGroups : List Nat → Bytes → List String
  | [], _ => []
  | n :: ns, bytes => Bytes.hex (bytes.take n) :: hexGroups ns (bytes.drop n)

/-- The identifier of random bytes. -/
def ofRandom (bytes : Bytes) : String :=
  "-".intercalate (hexGroups groups ((bytes.modify 6 (markHigh 4)).modify 8 markVariant))

end Newsletter.Identifier

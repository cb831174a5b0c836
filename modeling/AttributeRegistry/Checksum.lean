import AttributeRegistry.Json.Basic
import AttributeRegistry.Sha256

/-!
# Checksums

Identity by content: the SHA-256 digest, in hexadecimal, of a text or of a value's compact JSON.
-/

namespace AttributeRegistry

/-- A checksum as it is written; one read from a manifest may be any text. -/
structure Checksum where
  hex : String
deriving DecidableEq, Repr

namespace Checksum

/-- The checksum of a text. -/
def ofText (content : String) : Checksum :=
  ⟨Sha256.hexDigest content⟩

/-- The checksum of a value: that of its compact form. -/
def ofJson (v : Json) : Checksum :=
  ofText v.toText

/-- The first twelve digits. -/
def short (c : Checksum) : String :=
  String.ofList (c.hex.toList.take 12)

/-- Whether a text has this checksum. -/
def verify (c : Checksum) (content : String) : Bool :=
  c = ofText content

end Checksum

end AttributeRegistry

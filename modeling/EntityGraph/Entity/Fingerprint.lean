import EntityGraph.Digest.Sha256
import EntityGraph.Entity.Codec
import EntityGraph.Json.Printer

/-!
# Fingerprints

The fingerprint of a list of entities is the SHA-256 digest of its compact JSON text. Two
compilations with the same outcome have the same fingerprint.
-/
namespace EntityGraph

/-- A digest in hexadecimal, or any text that is to be compared with one. -/
structure Fingerprint where
  hex : String
  deriving DecidableEq, Repr, Inhabited

namespace Fingerprint

def ofText (text : String) : Fingerprint := ⟨Sha256.hexOfText text⟩

/-- The text that is digested. -/
def canonicalText (entities : List Entity) : String := (Entity.listToJson entities).compact

def ofEntities (entities : List Entity) : Fingerprint := ofText (canonicalText entities)

/-- Whether the entities have this fingerprint, letter case included. -/
def verify (self : Fingerprint) (entities : List Entity) : Bool := ofEntities entities == self

end Fingerprint

end EntityGraph

import SparseLoop.Digest.Sha256
import SparseLoop.Generation

/-!
# Provenance

The provenance of a generated file says what it was made from: the digest of
the canonical text of the request, the digest of the file, and the version of
the generator.  It is written as a small JSON file of its own.
-/

namespace SparseLoop

/-- The version of the generator. -/
def generatorVersion : String :=
  "0.3.2"

/-- What a generated file was made from. -/
structure Provenance where
  requestHash : String
  outputHash : String
  version : String
deriving DecidableEq, Repr

namespace Provenance

/-- The provenance of a generation. -/
def ofGeneration (request : Request) (source : GeneratedSource) :
    Provenance where
  requestHash := Sha256.hexDigest request.canonicalText
  outputHash := Sha256.hexDigest source.text
  version := generatorVersion

/-- One member of the provenance file. -/
def memberLine (key value : String) : String :=
  s!"  \"{key}\": \"{value}\""

/-- The text of the provenance file. -/
def text (provenance : Provenance) : String :=
  let members :=
    [ memberLine "request_hash" provenance.requestHash,
      memberLine "output_hash" provenance.outputHash,
      memberLine "generator_version" provenance.version ]
  "\x7b\n" ++ ",\n".intercalate members ++ "\n\x7d\n"

end Provenance

end SparseLoop

import XeBuild.SuCheck.ManifestTotals

/-!
# What the digest of a manifest covers

The digest in the header covers `cont.size` bytes of the body. The item loops
follow offsets of their own, so their reads lie in the covered bytes exactly
when the manifest is laid out in them.
-/

namespace XeBuild.SuCheck

open ListRange

set_option autoImplicit false

def ManifestBuffer.Covers (man : ManifestBuffer) (place : Nat × Nat) : Prop :=
  place.1 + place.2 ≤ man.contentSize

section Region

variable {env : CheckEnv} {man : ManifestBuffer} {schema : Schema} {sbuf : Bytes}

end Region

/-! ## A digest of the content header alone -/

end XeBuild.SuCheck

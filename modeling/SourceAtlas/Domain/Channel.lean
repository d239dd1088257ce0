import SourceAtlas.Domain.Basic

/-!
# Channels of a domain

Files that import the message contract and whose stem is known serve the channels of that stem.
-/

namespace SourceAtlas.Domain

/-- An import that contains one of these reaches the message contract. -/
def contractMarkers : List String := ["ipc-contract", "ipc-types"]

/-- The channels served by files of known stems. -/
def channelTable : List (String × String) :=
  [("session-manager", "session:*"), ("cli-manager", "session:*"),
   ("settings-persistence", "settings:*"), ("agent-team-manager", "teams:*"),
   ("history-manager", "history:*"), ("checkpoint-manager", "checkpoint:*"),
   ("prompt-templates-manager", "template:*"), ("quota-service", "quota:*"),
   ("file-dragdrop-handler", "dragdrop:*"), ("atlas-manager", "atlas:*")]

def channelOfStem? (stem : String) : Option String := channelTable.lookup stem

def importsContract (file : SourceFile) : Bool :=
  file.imports.any fun target => contractMarkers.any (Text.hasPart target)

def channelOf? (file : SourceFile) : Option String :=
  if importsContract file then channelOfStem? (Path.stem file.path) else none

/-- The channels of a list of files, each once, in the order of the first file that serves them. -/
def channelsOf (files : List SourceFile) : List String := distinct (files.filterMap channelOf?)

/-- Attach the channels of its files to a domain. -/
def withChannels (domain : Domain) : Domain :=
  match channelsOf domain.files with
  | [] => domain
  | channels => { domain with channels := some (", ".intercalate channels) }

end SourceAtlas.Domain

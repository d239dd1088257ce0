import SourceAtlas.Proofs.Domain.Sources
import SourceAtlas.Proofs.Text.Parts

/-!
# Channels of domains

A file serves a channel if it imports the message contract and the channel belongs to its stem. Above
the lowest sensitivity a domain has the channels that its files serve, each once and in the order of
the first file that serves it, and nothing else about the files plays a part.
-/

namespace SourceAtlas

namespace Domain

variable {files others : List SourceFile} {file : SourceFile} {domain : Domain} {channel : String}
  {threshold : Number.Binary64} {sensitivity : Sensitivity}

/-! ## What a file serves -/

/-- The file imports something with a marker of the message contract in its name. -/
def ReachesContract (file : SourceFile) : Prop :=
  ∃ target ∈ file.imports, ∃ marker ∈ contractMarkers, marker.toList <:+: target.toList

theorem importsContract_iff : importsContract file = true ↔ ReachesContract file := by
  unfold importsContract ReachesContract
  simp only [List.any_eq_true, Text.hasPart_iff]

instance (file : SourceFile) : Decidable (ReachesContract file) :=
  decidable_of_iff _ importsContract_iff

/-- The file imports the message contract, and the channel is the one of its stem. -/
structure Serves (file : SourceFile) (channel : String) : Prop where
  reaches : ReachesContract file
  known : (Path.stem file.path, channel) ∈ channelTable

theorem channelOfStem?_eq_some_iff {stem : String} :
    channelOfStem? stem = some channel ↔ (stem, channel) ∈ channelTable := by
  have hdistinct : ∀ item ∈ channelTable, channelTable.lookup item.1 = some item.2 := by decide
  constructor
  · intro h
    obtain ⟨front, back, hsplit, -⟩ := List.lookup_eq_some_iff.mp h
    rw [hsplit]
    simp
  · exact hdistinct (stem, channel)

theorem channelOf?_eq_some_iff : channelOf? file = some channel ↔ Serves file channel := by
  unfold channelOf?
  rw [Option.ite_none_right_eq_some, importsContract_iff, channelOfStem?_eq_some_iff]
  exact ⟨fun ⟨hreaches, hknown⟩ => ⟨hreaches, hknown⟩, fun h => ⟨h.reaches, h.known⟩⟩

/-- No channel has a comma in its name. -/
theorem Serves.comma (h : Serves file channel) : ',' ∉ channel.toList := by
  have htable : ∀ item ∈ channelTable, ',' ∉ item.2.toList := by decide
  exact htable _ h.known

/-! ## What files serve together -/

/-- From some place on, the files up to there serve the first channel and not the second one. -/
def ServedBefore (files : List SourceFile) (first second : String) : Prop :=
  ∃ front back, files = front ++ back ∧ (∃ file ∈ front, Serves file first) ∧
    ∀ file ∈ front, ¬ Serves file second

/-- The channels that files serve, in the order of the first file that serves them. -/
structure AreChannels (files : List SourceFile) (channels : List String) : Prop where
  once : channels.Nodup
  served : ∀ channel, channel ∈ channels ↔ ∃ file ∈ files, Serves file channel
  inOrder : channels.Pairwise (ServedBefore files)

theorem mem_channelsOf : channel ∈ channelsOf files ↔ ∃ file ∈ files, Serves file channel := by
  rw [channelsOf, mem_distinct, List.mem_filterMap]
  simp only [channelOf?_eq_some_iff]

theorem areChannels_channelsOf (files : List SourceFile) : AreChannels files (channelsOf files) where
  once := nodup_distinct _
  served _ := mem_channelsOf
  inOrder := by
    have hmet := pairwise_distinct_filterMap channelOf? files
    simp only [ne_eq, channelOf?_eq_some_iff] at hmet
    exact hmet

theorem channelsOf_eq_nil_iff :
    channelsOf files = [] ↔ ∀ file ∈ files, ∀ channel, ¬ Serves file channel := by
  rw [List.eq_nil_iff_forall_not_mem]
  simp only [mem_channelsOf, not_exists, not_and]
  exact forall_comm.trans (forall_congr' fun file => forall_comm)

/-- Files that do not import the contract have no part in the channels. -/
theorem channelsOf_filter (files : List SourceFile) :
    channelsOf (files.filter fun file => decide (ReachesContract file)) = channelsOf files := by
  have hserves : ∀ file, (if decide (ReachesContract file) = true then channelOf? file else none) =
      channelOf? file := by
    intro file
    rw [ite_eq_left_iff]
    intro hfar
    by_contra hsome
    obtain ⟨channel, hchannel⟩ := Option.ne_none_iff_exists'.mp (Ne.symm hsome)
    exact hfar (decide_eq_true (channelOf?_eq_some_iff.mp hchannel).reaches)
  unfold channelsOf
  rw [List.filterMap_filter]
  simp only [hserves]

/-! ## Channels at a sensitivity -/

theorem channels_of_mem_byDirectory (h : domain ∈ byDirectory files) : domain.channels = none := by
  unfold byDirectory at h
  rw [List.mem_mergeSort] at h
  obtain ⟨group, -, rfl⟩ := List.mem_map.mp h
  rfl

theorem channels_refined (hsensitivity : sensitivity ≠ .low) (threshold : Number.Binary64)
    (files : List SourceFile) (domain : Domain) :
    (refined threshold sensitivity files domain).channels = (withChannels domain).channels := by
  cases sensitivity with
  | low => exact absurd rfl hsensitivity
  | medium => rfl
  | high =>
      have halike := alike_withGroupName threshold (namingGroups files) (withChannels domain)
      unfold refined
      dsimp only
      rw [halike]

/-- The channels of a domain are written in a row, if it has any. -/
theorem channels_of_mem_infer (hsensitivity : sensitivity ≠ .low)
    (hdomain : domain ∈ infer threshold sensitivity files) :
    domain.channels = if channelsOf domain.files = [] then none
      else some (", ".intercalate (channelsOf domain.files)) := by
  rw [infer_eq_map] at hdomain
  obtain ⟨lower, hlower, rfl⟩ := List.mem_map.mp hdomain
  rw [channels_refined hsensitivity, files_refined, withChannels]
  split
  · next hnone => rw [if_pos hnone, channels_of_mem_byDirectory hlower]
  · next hsome => rw [if_neg hsome]

/-- The files of a domain are those with the key of any of them. -/
theorem files_eq_filter (hdomain : domain ∈ infer threshold sensitivity files)
    (hfile : file ∈ domain.files) :
    domain.files = files.filter fun other => keyOf other = directoryKey file.path := by
  rw [eq_refined_around hdomain hfile, files_refined]
  rfl

theorem channels_eq_none_iff (hsensitivity : sensitivity ≠ .low)
    (hdomain : domain ∈ infer threshold sensitivity files) :
    domain.channels = none ↔ ∀ file ∈ domain.files, ∀ channel, ¬ Serves file channel := by
  rw [channels_of_mem_infer hsensitivity hdomain, ← channelsOf_eq_nil_iff]
  split
  · next hnone => exact iff_of_true rfl hnone
  · next hsome => exact iff_of_false nofun hsome

/-- The channels of a domain are read back from its row. -/
theorem areChannels_of_channels (hsensitivity : sensitivity ≠ .low)
    (hdomain : domain ∈ infer threshold sensitivity files) {row : String}
    (hrow : domain.channels = some row) :
    AreChannels domain.files (Text.partsBetween ", " row) := by
  rw [channels_of_mem_infer hsensitivity hdomain] at hrow
  split at hrow
  · cases hrow
  · next hsome =>
      have hcomma : ∀ channel ∈ channelsOf domain.files, ',' ∉ channel.toList := by
        intro channel hchannel
        obtain ⟨file, -, hserves⟩ := mem_channelsOf.mp hchannel
        exact hserves.comma
      rw [← Option.some.inj hrow, Text.partsBetween_intercalate rfl hsome hcomma]
      exact areChannels_channelsOf _

/-- Two domains of one directory have the same channels if the same files import the contract. -/
theorem channels_eq_of_filter_eq {twin : Domain} {otherThreshold : Number.Binary64}
    {otherSensitivity : Sensitivity} (hsensitivity : sensitivity ≠ .low)
    (hother : otherSensitivity ≠ .low) (hdomain : domain ∈ infer threshold sensitivity files)
    (htwin : twin ∈ infer otherThreshold otherSensitivity others)
    (hcontract : (others.filter fun file => decide (ReachesContract file)) =
      files.filter fun file => decide (ReachesContract file))
    (hdirectory : ∀ file ∈ domain.files, ∀ other ∈ twin.files,
      directoryKey file.path = directoryKey other.path) :
    twin.channels = domain.channels := by
  obtain ⟨file, hfile⟩ := exists_file_of_mem_infer hdomain
  obtain ⟨other, hotherFile⟩ := exists_file_of_mem_infer htwin
  have hchannels : channelsOf twin.files = channelsOf domain.files := by
    rw [← channelsOf_filter twin.files, ← channelsOf_filter domain.files,
      files_eq_filter htwin hotherFile, files_eq_filter hdomain hfile,
      hdirectory file hfile other hotherFile, List.filter_comm, hcontract, List.filter_comm]
  rw [channels_of_mem_infer hother htwin, channels_of_mem_infer hsensitivity hdomain, hchannels]

/-- Above the lowest sensitivity a domain has no channels exactly if its files serve none. Else its
row, split at the commas, holds the channels that they serve, each once and in the order of the first
file that serves it, and it depends on the files that import the contract alone. -/
theorem infer_servedChannels (hsensitivity : sensitivity ≠ .low) (threshold : Number.Binary64)
    (files : List SourceFile) :
    ∀ domain ∈ infer threshold sensitivity files,
      (domain.channels = none ↔ ∀ file ∈ domain.files, ∀ channel, ¬ Serves file channel) ∧
      (∀ row, domain.channels = some row →
        AreChannels domain.files (Text.partsBetween ", " row)) ∧
      ∀ (otherThreshold : Number.Binary64) (otherSensitivity : Sensitivity)
        (others : List SourceFile), otherSensitivity ≠ .low →
        (others.filter fun file => decide (ReachesContract file)) =
          (files.filter fun file => decide (ReachesContract file)) →
        ∀ twin ∈ infer otherThreshold otherSensitivity others,
          (∀ file ∈ domain.files, ∀ other ∈ twin.files,
            directoryKey file.path = directoryKey other.path) →
          twin.channels = domain.channels := by
  intro domain hdomain
  refine ⟨channels_eq_none_iff hsensitivity hdomain, fun row hrow => ?_, ?_⟩
  · exact areChannels_of_channels hsensitivity hdomain hrow
  · intro otherThreshold otherSensitivity others hother hcontract twin htwin hdirectory
    exact channels_eq_of_filter_eq hsensitivity hother hdomain htwin hcontract hdirectory

/-- Two managers of one channel, and one that does not import the contract. -/
def managersOfChannels : List SourceFile :=
  [("src/main/session-manager.ts", ["./ipc-contract"]), ("src/main/history-manager.ts", ["fs"]),
    ("src/main/cli-manager.ts", ["../shared/ipc-types"])].map fun (path, imports) =>
    { path := path, location := "/p/" ++ path, language := .typescript, lineCount := 9,
      sizeBytes := 90, imports := imports }

/-- The channel of the two is there once, and the one of the other manager is not there. -/
theorem infer_servedChannels_managers :
    Sensitivity.medium ≠ .low ∧
      ∃ domain ∈ infer (.ofRatio false 3 10) .medium managersOfChannels, ∃ row,
        domain.channels = some row ∧ (Text.partsBetween ", " row).Nodup ∧
          "session:*" ∈ Text.partsBetween ", " row ∧ "history:*" ∉ Text.partsBetween ", " row := by
  have hmedium : Sensitivity.medium ≠ .low := nofun
  obtain ⟨domain, hdomain, hall⟩ := exists_domain_around (.ofRatio false 3 10) .medium
    (List.head_mem (l := managersOfChannels) (by decide))
  have hfiles : domain.files = managersOfChannels := by
    rw [hall]
    decide +kernel
  have hserves : ∃ file ∈ domain.files, Serves file "session:*" := by
    rw [hfiles]
    exact ⟨_, List.head_mem (by decide), by decide +kernel, by decide +kernel⟩
  have hsilent : ¬ ∃ file ∈ domain.files, Serves file "history:*" := by
    rintro ⟨file, hfile, hreaches, hknown⟩
    rw [hfiles] at hfile
    have hnone : ∀ file ∈ managersOfChannels, ReachesContract file →
        (Path.stem file.path, "history:*") ∉ channelTable := by decide +kernel
    exact hnone file hfile hreaches hknown
  obtain ⟨hnone, hrow, -⟩ :=
    infer_servedChannels hmedium (.ofRatio false 3 10) managersOfChannels domain hdomain
  cases hchannels : domain.channels with
  | none =>
      obtain ⟨file, hfile, hsession⟩ := hserves
      exact absurd hsession (hnone.mp hchannels file hfile _)
  | some row =>
      obtain ⟨honce, hserved, -⟩ := hrow row hchannels
      exact ⟨hmedium, domain, hdomain, row, hchannels, honce, (hserved _).mpr hserves,
        fun hmem => hsilent ((hserved _).mp hmem)⟩

end Domain

end SourceAtlas

import SourceAtlas.Main
import SourceAtlas.Proofs.Command.Placement
import SourceAtlas.Proofs.Dependency.Directory
import SourceAtlas.Proofs.Dependency.Module
import SourceAtlas.Proofs.Dependency.Tally
import SourceAtlas.Proofs.Disk.Commutation
import SourceAtlas.Proofs.Disk.Survival
import SourceAtlas.Proofs.Document.Index
import SourceAtlas.Proofs.Document.Order
import SourceAtlas.Proofs.Domain.Channels
import SourceAtlas.Proofs.Domain.Convention
import SourceAtlas.Proofs.Domain.Partition
import SourceAtlas.Proofs.Import.Exactness
import SourceAtlas.Proofs.Listing.Excludes
import SourceAtlas.Proofs.Listing.Git
import SourceAtlas.Proofs.Listing.Pruning
import SourceAtlas.Proofs.Project.LineBreaks
import SourceAtlas.Proofs.Project.Refusal
import SourceAtlas.Proofs.Project.Rejected
import SourceAtlas.Proofs.Project.Status
import SourceAtlas.Proofs.Scan.Closure
import SourceAtlas.Proofs.Scan.Progress
import SourceAtlas.Proofs.Service.Agreement
import SourceAtlas.Proofs.Settings.Loading
import SourceAtlas.Proofs.Tag.Proposal
import SourceAtlas.Proofs.Tag.Removal
import SourceAtlas.Proofs.Tag.Retagging
import SourceAtlas.Proofs.Tag.Weights
import SourceAtlas.Proofs.Writing.Confinement
import SourceAtlas.Proofs.Writing.Independence
import SourceAtlas.Service.Framework

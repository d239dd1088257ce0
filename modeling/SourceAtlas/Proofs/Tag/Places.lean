import Mathlib.Data.List.FinRange
import SourceAtlas.Proofs.Tag.Ranking

/-!
# One ranking for all limits

A list may hold a file twice, so a ranking puts the places of a list in order and not its files: the
larger score goes first, and of equal scores the place in front. The best files are those at the first
places of one ranking, whatever the limit is, and places without a candidate have no part in it.
-/

namespace SourceAtlas.RankedFile

variable {weights : Sign.Weights} {files : List SourceFile} {limit more : Int}

/-- The file is of a language with a line comment and shows some sign. -/
def MayBeProposed (file : SourceFile) : Prop :=
  file.language.lineComment?.isSome = true ∧ ∃ sign, Sign.holds file sign = true

theorem mayBeProposed_iff {file : SourceFile} : MayBeProposed file ↔ isCandidate file = true :=
  isCandidate_iff.symm

/-- The file at a place, with its signs and their weights. -/
def atPlace (weights : Sign.Weights) (files : List SourceFile) (place : Fin files.length) :
    RankedFile := ofFile weights (files.get place)

end SourceAtlas.RankedFile

import SourceAtlas.Proofs.Listing.Walk
import SourceAtlas.Proofs.Settings.Overrides

/-!
# More patterns to exclude

Patterns take paths out of a listing and do nothing else to it: the paths that stay keep their order,
and where the paths come from does not depend on the patterns.
-/

namespace SourceAtlas

namespace Listing

variable {old patterns others : List String} {segment path : String}

/-- Some segment of the path matches one of the patterns. -/
def isMatched (patterns : List String) (path : String) : Bool :=
  (Path.segments path).any fun segment =>
    patterns.any fun pattern => Glob.matchesName pattern segment

theorem isMatched_congr (h : ∀ pattern, pattern ∈ patterns ↔ pattern ∈ others) :
    isMatched patterns = isMatched others := by
  funext path
  unfold isMatched
  congr 1
  funext segment
  rw [Bool.eq_iff_iff, List.any_eq_true, List.any_eq_true]
  simp only [h]

/-- A segment is excluded by patterns put together if it is excluded by one of the two lists. -/
theorem isExcluded_addExcludes : isExcluded (Settings.addExcludes old patterns) segment =
    (isExcluded old segment || patterns.any fun pattern => Glob.matchesName pattern segment) := by
  rw [Bool.eq_iff_iff]
  simp only [isExcluded, Bool.or_eq_true, List.any_eq_true, Settings.mem_addExcludes, or_and_right,
    exists_or, or_assoc]

theorem accepts_addExcludes : accepts (Settings.addExcludes old patterns) path =
    (accepts old path && !isMatched patterns path) := by
  have hsegments : (Path.segments path).any (isExcluded (Settings.addExcludes old patterns)) =
      ((Path.segments path).any (isExcluded old) || isMatched patterns path) := by
    rw [Bool.eq_iff_iff]
    simp only [isMatched, List.any_eq_true, Bool.or_eq_true, isExcluded_addExcludes, and_or_left,
      exists_or]
  have hmoved : ∀ out hit hidden known : Bool,
      (!(out || hit) && !hidden && known) = ((!out && !hidden && known) && !hit) := by decide
  unfold accepts
  dsimp only
  rw [hsegments]
  exact hmoved _ _ _ _

theorem arrange_addExcludes (old patterns paths : List String) :
    arrange (Settings.addExcludes old patterns) paths =
      (arrange old paths).filter fun path => !isMatched patterns path := by
  unfold arrange
  rw [← Text.sortDistinct_filter, List.filter_filter]
  congr 1
  refine List.filter_congr fun path _ => ?_
  rw [accepts_addExcludes, Bool.and_comm]

/-- More patterns take the paths that match them out of a listing, and change nothing else. -/
theorem ofTree_addExcludes (tree : Tree) (shell : Shell) (reply : Git.Reply)
    (old patterns : List String) (root : Location) :
    ofTree tree shell reply (Settings.addExcludes old patterns) root =
      { ofTree tree shell reply old root with
        paths := (ofTree tree shell reply old root).paths.filter
          fun path => !isMatched patterns path } := by
  unfold ofTree
  cases gitPaths reply with
  | ok paths => simp only [arrange_addExcludes]
  | error trouble => simp only [arrange_addExcludes]

end Listing

namespace Settings

open Listing

variable {settings : Settings}

theorem exists_withExcludes (hvalid : settings.IsValid) (patterns : List String) :
    ∃ result, settings.withOverrides { excludes := patterns } = .ok result ∧
      result.excludes = addExcludes settings.excludes patterns := by
  have hacceptable : IsAcceptable { excludes := patterns } := ⟨nofun, nofun⟩
  obtain ⟨result, hresult⟩ := (exists_overridden_iff hvalid.share).mpr hacceptable
  exact ⟨result, hresult, (withOverrides_eq_ok_iff.mp hresult).excludes⟩

/-- Valid settings can be given more patterns. Whatever git answers, the listing is then the old one
without the paths that have a segment matching one of these, and their order and repetitions do not
matter. -/
theorem withExcludes_onlyFilters (hvalid : settings.IsValid) (patterns : List String) :
    ∃ result, settings.withOverrides { excludes := patterns } = .ok result ∧
      (∀ tree shell reply root, ofTree tree shell reply result.excludes root =
        { ofTree tree shell reply settings.excludes root with
          paths := (ofTree tree shell reply settings.excludes root).paths.filter
            fun path => !isMatched patterns path }) ∧
      ∀ others, (∀ pattern, pattern ∈ others ↔ pattern ∈ patterns) →
        ∃ twin, settings.withOverrides { excludes := others } = .ok twin ∧
          ∀ tree shell reply root, ofTree tree shell reply twin.excludes root =
            ofTree tree shell reply result.excludes root := by
  obtain ⟨result, hresult, hexcludes⟩ := exists_withExcludes hvalid patterns
  refine ⟨result, hresult, fun tree shell reply root => ?_, fun others hsame => ?_⟩
  · rw [hexcludes, ofTree_addExcludes]
  · obtain ⟨twin, htwin, hothers⟩ := exists_withExcludes hvalid others
    refine ⟨twin, htwin, fun tree shell reply root => ?_⟩
    rw [hexcludes, hothers, ofTree_addExcludes, ofTree_addExcludes, isMatched_congr hsame]

/-- Of three paths that git lists, a pattern takes out the one below the directory it matches. -/
theorem withExcludes_onlyFilters_generated :
    standard.IsValid ∧ ∃ result, standard.withOverrides { excludes := ["g*"] } = .ok result ∧
      ∀ tree shell root,
        (ofTree tree shell (.ok "a.ts\x00gen/b.ts\x00main.ts\x00") result.excludes root).paths =
          ["a.ts", "main.ts"] := by
  obtain ⟨result, hresult, hlisting, -⟩ := withExcludes_onlyFilters isValid_standard ["g*"]
  have hgit : gitPaths (.ok "a.ts\x00gen/b.ts\x00main.ts\x00") =
      .ok ["a.ts", "gen/b.ts", "main.ts"] := by decide +kernel
  have hold : arrange standard.excludes ["a.ts", "gen/b.ts", "main.ts"] =
      ["a.ts", "gen/b.ts", "main.ts"] := by
    have haccepted : ["a.ts", "gen/b.ts", "main.ts"].filter (accepts standard.excludes) =
        ["a.ts", "gen/b.ts", "main.ts"] := by decide +kernel
    rw [arrange, haccepted]
    exact Text.sortDistinct_of_pairwise (by decide +kernel)
  refine ⟨isValid_standard, result, hresult, fun tree shell root => ?_⟩
  rw [hlisting, ofTree, hgit]
  dsimp only
  rw [hold]
  decide +kernel

end Settings

end SourceAtlas

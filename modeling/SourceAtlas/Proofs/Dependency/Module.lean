import SourceAtlas.Proofs.Dependency.Relative
import SourceAtlas.Proofs.Import.Script
import SourceAtlas.Proofs.Path.Join
import SourceAtlas.Proofs.Text.Order

/-!
# Imports of modules by their names

A module is imported from beside a file by dots and a dotted name. The extractor hands the text over
as it stands, and it is resolved as the path of a file whose name starts with a dot. So it does not
get to the file of the module.
-/

namespace SourceAtlas.Dependency

open SourceAtlas.Path Text ImportRule Pattern

variable {files : List SourceFile} {source target file : SourceFile} {name : String}
  {dirs parts : List (List Char)} {path part base after : List Char} {dots : Nat}

/-- A part of the dotted name of a module. -/
structure IsIdentifier (part : List Char) : Prop where
  ne_nil : part ≠ []
  word : ∀ c ∈ part, isWord c = true

/-- An import of a module: dots, one more than there are directories to go up, and a dotted name. -/
def moduleImport (dots : Nat) (parts : List (List Char)) : List Char :=
  List.replicate dots '.' ++ join '.' parts

/-- The path of the module that is imported so from a directory. -/
def modulePath (dirs : List (List Char)) (dots : Nat) (parts : List (List Char)) : List Char :=
  join '/' (dirs.take (dirs.length + 1 - dots) ++ parts) ++ ".py".toList

/-- Some segment of the path starts with a dot. -/
def IsHidden (path : List Char) : Prop := ['/', '.'] <:+: '/' :: path

instance (path : List Char) : Decidable (IsHidden path) :=
  inferInstanceAs (Decidable (_ <:+: _))

/-! ## The text of an import -/

theorem IsIdentifier.not_mem (h : IsIdentifier part) {c : Char} (hc : isWord c = false) : c ∉ part :=
  fun hmem => by
    rw [h.word c hmem] at hc
    cases hc

theorem IsIdentifier.isSegment (h : IsIdentifier part) : IsSegment part where
  ne_nil := h.ne_nil
  ne_dot := fun hsame => h.not_mem (c := '.') (by decide) (hsame ▸ List.mem_cons_self)
  ne_up := fun hsame => h.not_mem (c := '.') (by decide) (hsame ▸ List.mem_cons_self)
  slash := h.not_mem (by decide)

theorem head?_moduleImport (hdots : 0 < dots) (parts : List (List Char)) :
    (moduleImport dots parts).head? = some '.' := by
  obtain ⟨fewer, rfl⟩ := Nat.exists_eq_succ_of_ne_zero hdots.ne'
  rfl

theorem isDotted_of_mem_moduleImport (hwords : ∀ part ∈ parts, IsIdentifier part) :
    ∀ c ∈ moduleImport dots parts, isDotted c = true := by
  have hjoin : ∀ c ∈ join '.' parts, isDotted c = true :=
    forall_mem_join (by decide) fun part hpart c hc => by
      rw [isDotted, (hwords part hpart).word c hc, Bool.true_or]
  rw [moduleImport, List.forall_mem_append]
  exact ⟨fun c hc => by rw [List.eq_of_mem_replicate hc]; decide, hjoin⟩

theorem exists_isWord_mem_moduleImport (dots : Nat) (hparts : parts ≠ [])
    (hwords : ∀ part ∈ parts, IsIdentifier part) :
    ∃ c ∈ moduleImport dots parts, isWord c = true := by
  obtain ⟨first, others, rfl⟩ := List.exists_cons_of_ne_nil hparts
  have hfirst := hwords first List.mem_cons_self
  obtain ⟨c, more, rfl⟩ := List.exists_cons_of_ne_nil hfirst.ne_nil
  refine ⟨c, ?_, hfirst.word c List.mem_cons_self⟩
  rw [moduleImport, join_cons]
  simp

theorem isSegment_moduleImport (dots : Nat) (hparts : parts ≠ [])
    (hwords : ∀ part ∈ parts, IsIdentifier part) : IsSegment (moduleImport dots parts) := by
  obtain ⟨c, hmem, hc⟩ := exists_isWord_mem_moduleImport dots hparts hwords
  have hdot : c ≠ '.' := by
    rintro rfl
    exact absurd hc (by decide)
  refine ⟨fun hnil => ?_, fun hsame => ?_, fun hsame => ?_, fun hslash => ?_⟩
  · rw [hnil] at hmem
    cases hmem
  · exact hdot (by simpa [hsame] using hmem)
  · exact hdot (by simpa [hsame] using hmem)
  · exact absurd (isDotted_of_mem_moduleImport hwords _ hslash) (by decide)

theorem isBlank_of_isDotted {c : Char} (h : isDotted c = true) : isBlank c = false := by
  rw [isDotted, Bool.or_eq_true, beq_iff_eq] at h
  rcases h with hword | rfl
  · exact isBlank_of_isWord hword
  · decide

theorem isDotted_of_isBlank {c : Char} (h : isBlank c = true) : isDotted c = false :=
  disjoint_symm (fun _ => isBlank_of_isDotted) c h

/-- Behind `from`, a dotted name in front of `import` is the target. -/
theorem mem_memberImport {name target rest : List Char} (hname : ∀ c ∈ name, isDotted c = true)
    (hne : name ≠ []) :
    (target, rest) ∈ memberImport.matchesAt
        ("from".toList ++ ([' '] ++ (name ++ ([' '] ++ ("import".toList ++ after))))) ↔
      name = target ∧ after = rest := by
  have hlead : ∀ text next, memberImport.lead.Allows text next ↔
      (Pattern.text "from").Allows text fun behind => blanks.Allows behind next :=
    fun _ _ => allows_seq
  have htail : ∀ text, memberImport.tail.Allows text (· = rest) ↔
      blanks.Allows text fun behind => (Pattern.text "import").Allows behind (· = rest) :=
    fun _ => allows_seq
  have hspace : ∀ c ∈ [' '], isBlank c = true := by decide
  have hstops : Stops isBlank (name ++ ([' '] ++ ("import".toList ++ after))) := by
    obtain ⟨c, more, rfl⟩ := List.exists_cons_of_ne_nil hne
    exact stops_cons.mpr (isBlank_of_isDotted (hname c List.mem_cons_self))
  generalize hback : [' '] ++ ("import".toList ++ after) = back at hstops ⊢
  -- the target starts with a dotted character, and its tail with a blank one
  have hfirst : ∀ c behind, (memberImport.target.Allows (c :: behind) fun rest' =>
      consumed (c :: behind) rest' = target ∧ memberImport.tail.Allows rest' (· = rest)) →
      isBlank c = false := fun c behind h => isBlank_of_isDotted (accepts_of_allows_run1 h)
  have hbehind : ∀ c behind, consumed (name ++ back) (c :: behind) = target ∧
      memberImport.tail.Allows (c :: behind) (· = rest) → isDotted c = false :=
    fun c behind h => isDotted_of_isBlank (isBlank_of_allows_blanks ((htail _).mp h.2))
  have htarget : memberImport.target.Allows (name ++ back) (fun rest' =>
      consumed (name ++ back) rest' = target ∧ memberImport.tail.Allows rest' (· = rest)) ↔ _ :=
    allows_run1_append hname (hback ▸ stops_cons.mpr (by decide)) hbehind
  have hend : memberImport.tail.Allows back (· = rest) ↔ after = rest := by
    have hword : ∀ c behind, (Pattern.text "import").Allows (c :: behind) (· = rest) →
        isBlank c = false := by
      intro c behind h
      rw [head_of_allows_text rfl h]
      decide
    rw [htail, ← hback, allows_blanks_append hspace
      (stops_isBlank_word (by decide) (by decide) after) hword]
    exact (and_iff_right (List.cons_ne_nil _ _)).trans (allows_literal_append _)
  rw [mem_matchesAt, hlead, allows_keyword (by decide) (by decide) hspace
    (stops_cons.mpr (by decide)) hstops hfirst, htarget, consumed_append, hend]
  simp [hne]

/-- The extractor finds the import where it stands between `from` and `import`. -/
theorem mem_importsOf_python (hdots : 0 < dots) (hwords : ∀ part ∈ parts, IsIdentifier part)
    (after : List Char) : String.ofList (moduleImport dots parts) ∈ Language.python.importsOf
      ("from ".toList ++ (moduleImport dots parts ++ (" import".toList ++ after))) := by
  have hne : moduleImport dots parts ≠ [] := fun hnil => by
    have hhead := head?_moduleImport hdots parts
    rw [hnil] at hhead
    cases hhead
  have hhead : (memberImport.matchesAt ("from".toList ++ ([' '] ++ (moduleImport dots parts ++
      ([' '] ++ ("import".toList ++ after)))))).head? = some (moduleImport dots parts, after) :=
    head?_matchesAt (mem_memberImport (isDotted_of_mem_moduleImport hwords) hne)
  have hscan := mem_scan_of_head? hhead
  rw [Language.importsOf, extractTargets, mem_sortDistinct, List.mem_map]
  exact ⟨_, List.mem_flatMap.mpr ⟨memberImport, List.mem_cons_of_mem _ List.mem_cons_self, hscan⟩, rfl⟩

/-! ## Files that the path reaches -/

/-- The import is resolved as the path of a file in the directory of its own. -/
theorem relativePath_moduleImport (hdirs : ∀ dir ∈ dirs, IsSegment dir) (hbase : '/' ∉ base)
    (hpath : source.path.toList = join '/' (dirs ++ [base])) (hdots : 0 < dots)
    (hparts : parts ≠ []) (hwords : ∀ part ∈ parts, IsIdentifier part)
    (himport : name.toList = moduleImport dots parts) :
    relativePath source name = join '/' (dirs ++ [moduleImport dots parts]) := by
  have hsegments : ∀ dir ∈ dirs ++ [moduleImport dots parts], IsSegment dir :=
    List.forall_mem_append.mpr ⟨hdirs,
      List.forall_mem_singleton.mpr (isSegment_moduleImport dots hparts hwords)⟩
  rw [relativePath, hpath, himport, dirName_join hdirs hbase,
    joinText_join hdirs (head?_moduleImport hdots parts), normalize_join (by simp) hsegments]

theorem head?_lastSegment_of_hasName {name : List Char} (h : HasName file name) :
    (lastSegment file.path.toList).head? = (lastSegment name).head? := by
  rcases h with rfl | rfl
  · rfl
  · rw [lastSegment_withoutExtension, head?_splitName]

theorem lastSegment_lastSegment (path : List Char) :
    lastSegment (lastSegment path) = lastSegment path :=
  lastSegment_of_not_mem (slash_not_mem_lastSegment path)

/-- A path whose last segment starts with a dot reaches files with such a name, or an index behind
it. -/
theorem Reaches.dotted (h : Reaches files path file) (hdot : (lastSegment path).head? = some '.') :
    (lastSegment file.path.toList).head? = some '.' ∨ HasName file (path ++ "/index".toList) := by
  have htrimmed : (lastSegment (withoutExtension path)).head? = some '.' := by
    rw [lastSegment_withoutExtension, head?_splitName, hdot]
  rcases h with ⟨name, hname, hhas⟩ | ⟨-, name, hname, -, hbare⟩
  · simp only [candidates, List.mem_cons, List.not_mem_nil, or_false] at hname
    rcases hname with rfl | rfl | rfl
    · exact .inl ((head?_lastSegment_of_hasName hhas).trans hdot)
    · exact .inr hhas
    · exact .inl ((head?_lastSegment_of_hasName hhas).trans htrimmed)
  · have hfile : (lastSegment file.path.toList).head? = (lastSegment name).head? := by
      rw [← hbare.1, bareName, lastSegment_withoutExtension, head?_splitName,
        lastSegment_lastSegment]
    simp only [List.mem_cons, List.not_mem_nil, or_false] at hname
    rcases hname with rfl | rfl
    · exact .inl (hfile.trans hdot)
    · exact .inl (hfile.trans htrimmed)

theorem IsHidden.append (h : IsHidden path) (more : List Char) : IsHidden (path ++ more) :=
  h.trans (List.infix_append' [] ('/' :: path) more)

theorem isHidden_of_lastSegment (h : (lastSegment path).head? = some '.') : IsHidden path := by
  obtain ⟨rest, hrest⟩ := List.head?_eq_some_iff.mp h
  have hpath := beforeLastSegment_append_lastSegment path
  rw [hrest] at hpath
  rcases beforeLastSegment_cases path with hnone | ⟨front, hfront⟩
  · rw [hnone] at hpath
    exact ⟨[], rest, by rw [← hpath]; rfl⟩
  · rw [hfront] at hpath
    exact ⟨'/' :: front, rest, by rw [← hpath]; simp⟩

theorem IsHidden.of_withoutExtension (h : IsHidden (withoutExtension path)) : IsHidden path := by
  obtain ⟨ending, hending⟩ := exists_append_withoutExtension path
  rw [hending]
  exact h.append ending

theorem Reaches.isHidden (h : Reaches files path file)
    (hdot : (lastSegment path).head? = some '.') : IsHidden file.path.toList := by
  have hindex : IsHidden (path ++ "/index".toList) := (isHidden_of_lastSegment hdot).append _
  rcases h.dotted hdot with hlast | hnamed | htrimmed
  · exact isHidden_of_lastSegment hlast
  · rwa [hnamed]
  · exact IsHidden.of_withoutExtension (htrimmed ▸ hindex)

/-! ## The file of the module -/

theorem head?_ne_dot (h : IsIdentifier part) (more : List Char) : (part ++ more).head? ≠ some '.' := by
  obtain ⟨c, rest, rfl⟩ := List.exists_cons_of_ne_nil h.ne_nil
  intro hdot
  obtain rfl : c = '.' := Option.some.inj hdot
  exact absurd (h.word '.' List.mem_cons_self) (by decide)

/-- The module that the import names is no index of the import: the segment in front of it would be
the import. -/
theorem not_index_of_module {init : List (List Char)} {last : List Char}
    (hdirs : ∀ dir ∈ dirs, IsSegment dir) (hdots : 0 < dots)
    (hwords : ∀ part ∈ init ++ [last], IsIdentifier part) :
    join '/' (dirs.take (dirs.length + 1 - dots) ++ (init ++ [last])) ≠
      join '/' (dirs ++ [moduleImport dots (init ++ [last])] ++ ["index".toList]) := by
  intro hjoin
  have hsegment := isSegment_moduleImport dots (by simp) hwords
  have hleft : ∀ dir ∈ dirs.take (dirs.length + 1 - dots) ++ (init ++ [last]), IsSegment dir :=
    List.forall_mem_append.mpr ⟨fun dir hdir => hdirs dir (List.mem_of_mem_take hdir),
      fun part hpart => (hwords part hpart).isSegment⟩
  have hright : ∀ dir ∈ dirs ++ [moduleImport dots (init ++ [last]), "index".toList],
      IsSegment dir :=
    List.forall_mem_append.mpr ⟨hdirs, List.forall_mem_cons.mpr ⟨hsegment,
      List.forall_mem_singleton.mpr ⟨by decide, by decide, by decide, by decide⟩⟩⟩
  rw [List.append_assoc, List.singleton_append] at hjoin
  have hsame := eq_of_join_eq (by simp) (by simp) hleft hright hjoin
  have hsplit := List.take_append_drop (dirs.length + 1 - dots) dirs
  generalize dirs.take (dirs.length + 1 - dots) = up at hsame hsplit
  rw [← hsplit, List.append_assoc] at hsame
  have hhead := head?_moduleImport hdots (init ++ [last])
  generalize moduleImport dots (init ++ [last]) = segment at hsame hhead
  have hmem : segment ∈ init ++ [last] := by
    rw [List.append_cancel_left hsame]
    simp
  exact head?_ne_dot (hwords _ hmem) [] (by rw [List.append_nil, hhead])

/-- The module that the import names is no file that it reaches. -/
theorem not_reaches_module (hdirs : ∀ dir ∈ dirs, IsSegment dir) (hdots : 0 < dots)
    (hparts : parts ≠ []) (hwords : ∀ part ∈ parts, IsIdentifier part)
    (hpath : target.path.toList = modulePath dirs dots parts) :
    ¬ Reaches files (join '/' (dirs ++ [moduleImport dots parts])) target := by
  intro hreaches
  have hsegment := isSegment_moduleImport dots hparts hwords
  have hdot : (lastSegment (join '/' (dirs ++ [moduleImport dots parts]))).head? = some '.' := by
    rw [lastSegment_join dirs hsegment.slash, head?_moduleImport hdots]
  obtain ⟨init, last, rfl⟩ := (List.eq_nil_or_concat' parts).resolve_left hparts
  have hlast : IsIdentifier last := hwords last (by simp)
  rw [modulePath, ← List.append_assoc, join_append] at hpath
  have hslash : '/' ∉ last ++ ".py".toList := fun hmem =>
    (List.mem_append.mp hmem).elim hlast.isSegment.slash (by decide)
  have hindex : join '/' (dirs ++ [moduleImport dots (init ++ [last])]) ++ "/index".toList =
      join '/' (dirs ++ [moduleImport dots (init ++ [last])] ++ ["index".toList]) :=
    (join_append_singleton (by simp) _).symm
  rcases hreaches.dotted hdot with hhead | hnamed | htrimmed
  · rw [hpath, lastSegment_join _ hslash] at hhead
    exact head?_ne_dot hlast _ hhead
  · have hsame := congrArg lastSegment hnamed
    rw [hpath, hindex, lastSegment_join _ hslash, lastSegment_join _ (by decide)] at hsame
    have hmem : '.' ∈ "index".toList := hsame ▸ by simp
    exact absurd hmem (by decide)
  · have hstem : ∃ c ∈ last, c ≠ '.' := by
      obtain ⟨c, rest, rfl⟩ := List.exists_cons_of_ne_nil hlast.ne_nil
      exact ⟨c, List.mem_cons_self, fun hc => head?_ne_dot hlast [] (by simp [hc])⟩
    have hcut : splitName (last ++ ".py".toList) = (last, ".py".toList) :=
      splitName_append (by decide) hstem
    rw [hpath, withoutExtension_join _ hslash, hcut, hindex, List.append_assoc] at htrimmed
    exact not_index_of_module hdirs hdots hwords htrimmed

/-- An import of a module from beside a file, as the extractor finds it, counts on no edge to the file
of the module: it is the path of a file in the directory of its own, and reaches only files with a
segment that starts with a dot. -/
theorem module_import_counts_nowhere (hnodup : (files.map (·.path)).Nodup)
    (hsource : source ∈ files) (htarget : target ∈ files) (hdirs : ∀ dir ∈ dirs, IsSegment dir)
    (hbase : '/' ∉ base) (hpath : source.path.toList = join '/' (dirs ++ [base]))
    (hdots : 0 < dots) (hparts : parts ≠ []) (hwords : ∀ part ∈ parts, IsIdentifier part)
    (hmodule : target.path.toList = modulePath dirs dots parts)
    (himport : name.toList = moduleImport dots parts) (hname : name ∈ source.imports) :
    (∀ after, name ∈ Language.python.importsOf
      ("from ".toList ++ (name.toList ++ (" import".toList ++ after)))) ∧
    relativePath source name = join '/' (dirs ++ [name.toList]) ∧
    importsBetween (graph internalStarts files) (source.path, target.path) =
      importsBetween (graph internalStarts (files.map (dropImport source.path name)))
        (source.path, target.path) ∧
    ((∀ file ∈ files, ¬ IsHidden file.path.toList) →
      CountsOn internalStarts files source.path name none) := by
  have hdot : name.toList.head? = some '.' := himport ▸ head?_moduleImport hdots parts
  have hrelative := relativePath_moduleImport hdirs hbase hpath hdots hparts hwords himport
  have hedge : CountsOn internalStarts files source.path name _ :=
    countsOn_edge? hnodup hsource hname
  rw [edge?_of_dot hdot, hrelative] at hedge
  have hlast : (lastSegment (join '/' (dirs ++ [moduleImport dots parts]))).head? = some '.' := by
    rw [lastSegment_join dirs (isSegment_moduleImport dots hparts hwords).slash,
      head?_moduleImport hdots]
  refine ⟨fun after => ?_, himport ▸ hrelative, ?_, fun hplain => ?_⟩
  · have hfound := mem_importsOf_python hdots hwords after
    rwa [← himport, String.ofList_toList] at hfound
  · refine (hedge (source.path, target.path)).trans (Nat.add_eq_left.mpr (if_neg fun hto => ?_))
    obtain ⟨found, hfound, hedgeTo⟩ := Option.bind_eq_some_iff.mp hto
    have hsame := eq_of_path_eq hnodup (mem_of_findSome? hfound) htarget (path_of_edgeTo hedgeTo)
    exact not_reaches_module hdirs hdots hparts hwords hmodule
      (hsame ▸ reaches_of_findSome? hfound)
  · cases hfound : (candidates (join '/' (dirs ++ [moduleImport dots parts]))).findSome?
        (find? (files.map namesOf)) with
    | none => rwa [hfound] at hedge
    | some found =>
        exact absurd ((reaches_of_findSome? hfound).isHidden hlast)
          (hplain found (mem_of_findSome? hfound))

def pythonFile (path : String) (imports : List String) : SourceFile :=
  { fileAt path imports with language := .python }

/-- A file that imports a module from the directory beside its own. -/
def packageFiles : List SourceFile :=
  [pythonFile "pkg/app/main.py" ["..util.text"], pythonFile "pkg/util/text.py" []]

theorem module_import_counts_nowhere_package :
    modulePath ["pkg".toList, "app".toList] 2 ["util".toList, "text".toList] =
        "pkg/util/text.py".toList ∧
      relativePath (pythonFile "pkg/app/main.py" ["..util.text"]) "..util.text" =
        "pkg/app/..util.text".toList ∧
      CountsOn internalStarts packageFiles "pkg/app/main.py" "..util.text" none := by
  have hdirs : ∀ dir ∈ ["pkg".toList, "app".toList], IsSegment dir := by
    rintro dir hdir
    rcases List.mem_pair.mp hdir with rfl | rfl
    · exact ⟨by decide, by decide, by decide, by decide⟩
    · exact ⟨by decide, by decide, by decide, by decide⟩
  have hwords : ∀ part ∈ ["util".toList, "text".toList], IsIdentifier part := by
    rintro part hpart
    rcases List.mem_pair.mp hpart with rfl | rfl
    · exact ⟨by decide, by decide⟩
    · exact ⟨by decide, by decide⟩
  have hmodule : (pythonFile "pkg/util/text.py" []).path.toList =
      modulePath ["pkg".toList, "app".toList] 2 ["util".toList, "text".toList] := by decide
  have hsource : pythonFile "pkg/app/main.py" ["..util.text"] ∈ packageFiles := List.mem_cons_self
  have htarget : pythonFile "pkg/util/text.py" [] ∈ packageFiles :=
    List.mem_cons_of_mem _ List.mem_cons_self
  have hpath : (pythonFile "pkg/app/main.py" ["..util.text"]).path.toList =
      join '/' (["pkg".toList, "app".toList] ++ ["main.py".toList]) := by decide
  obtain ⟨-, hrelative, -, hnowhere⟩ := module_import_counts_nowhere (by decide) hsource htarget
    hdirs (by decide) hpath (by decide) (by decide) hwords hmodule (by decide) List.mem_cons_self
  exact ⟨hmodule.symm, hrelative.trans (by decide), hnowhere (by decide +kernel)⟩

/-- A file that imports a module from its own directory. -/
def siblingFiles : List SourceFile :=
  [pythonFile "pkg/a.py" [".b"], pythonFile "pkg/b.py" []]

/-- There is no edge from the file to the module that it imports. -/
theorem graph_siblingFiles :
    moduleImport 1 ["b".toList] = ".b".toList ∧
      modulePath ["pkg".toList] 1 ["b".toList] = "pkg/b.py".toList ∧
      ".b" ∈ Language.python.importsOf "from .b import c".toList ∧
      graph internalStarts siblingFiles = [] := by
  have hwords : ∀ part ∈ ["b".toList], IsIdentifier part :=
    List.forall_mem_singleton.mpr ⟨by decide, by decide⟩
  exact ⟨by decide, by decide, mem_importsOf_python Nat.one_pos hwords " c".toList,
    by decide +kernel⟩

end SourceAtlas.Dependency

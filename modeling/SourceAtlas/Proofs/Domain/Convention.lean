import SourceAtlas.Proofs.Domain.Coverage
import SourceAtlas.Proofs.Path.Segment
import SourceAtlas.Proofs.Settings.Values
import SourceAtlas.Text.Word

/-!
# Modules and their hooks

The manager module `<name>-manager` and the hook `use<Name>` belong to one group. Any name behind
`use` is that of a hook, in lower case as well, so a TypeScript module whose own name starts with
`use` is taken for a hook and leaves the group. A domain whose files share a group has its title.
-/

namespace SourceAtlas

namespace Text

variable {start text ending other front : List Char}

/-! ## Beginnings and endings -/

theorem dropStart?_eq_none_iff : dropStart? start text = none ↔ ¬ start <+: text := by
  rw [Option.eq_none_iff_forall_ne_some, List.IsPrefix, not_exists]
  exact forall_congr' fun rest => not_congr (dropStart?_eq_some_iff.trans eq_comm)

theorem dropEnd?_eq_none_iff : dropEnd? ending text = none ↔ ¬ ending <:+ text := by
  rw [Option.eq_none_iff_forall_ne_some, List.IsSuffix, not_exists]
  exact forall_congr' fun front => not_congr (dropEnd?_eq_some_iff.trans eq_comm)

/-- Neither of two endings ends with the other. -/
def AreApart (first second : List Char) : Prop := ¬ first <:+ second ∧ ¬ second <:+ first

instance (first second : List Char) : Decidable (AreApart first second) :=
  inferInstanceAs (Decidable (_ ∧ _))

theorem AreApart.not_suffix (h : AreApart other ending) (front : List Char) :
    ¬ other <:+ front ++ ending := fun hother =>
  (List.suffix_or_suffix_of_suffix hother (List.suffix_append front ending)).elim h.1 h.2

/-- A beginning without a character is there if it stands in front of that character. -/
theorem prefix_append_cons_iff {c : Char} (hc : c ∉ start) (rest : List Char) :
    start <+: text ++ c :: rest ↔ start <+: text := by
  refine ⟨fun h => ?_, fun h => h.trans (List.prefix_append _ _)⟩
  have hfront : text ++ [c] <+: text ++ c :: rest := ⟨rest, (List.append_cons text c rest).symm⟩
  rcases List.prefix_or_prefix_of_prefix h hfront with hshort | hlong
  · rcases List.prefix_concat_iff.mp hshort with hall | htext
    · exact absurd (hall ▸ List.mem_concat_self) hc
    · exact htext
  · exact absurd (hlong.subset List.mem_concat_self) hc

/-! ## First letters -/

theorem exists_upperChar {c : Char} (hc : c.isLower = true) :
    ∃ d, upperChar c = [d] ∧ lowerChar d = [c] ∧ d ≠ '\n' := by
  have hascii : c.toNat < 128 := by
    unfold Char.isLower at hc
    simp only [Bool.and_eq_true, decide_eq_true_eq] at hc
    have hle : c.toNat ≤ 122 := hc.2
    omega
  have hletter := of_ascii (P := fun c => c.isLower = true →
    lowerChar c.toUpper = [c] ∧ c.toUpper ≠ '\n') (by decide +kernel) hascii
  exact ⟨c.toUpper, if_pos hascii, hletter hc⟩

end Text

namespace Domain

open Text Number

variable {files : List SourceFile} {domain : Domain} {path name group : String}
  {threshold : Binary64}

/-! ## Names of modules -/

/-- A name of letters and digits, with a lower-case letter of the Latin alphabet in front. -/
structure IsModuleName (name : String) : Prop where
  lower : ∃ c rest, name.toList = c :: rest ∧ c.isLower = true
  plain : ∀ c ∈ name.toList, isWord c = true ∧ c ≠ '_'

/-- The name of the hook of a module. -/
def hookName (name : String) : String := "use" ++ String.ofList (capitalize name.toList)

/-- A file that is a manager module of this name or its hook. -/
def IsFileOf (name path : String) : Prop :=
  Path.baseName path ∈
    [name ++ "-manager.ts", name ++ "-manager.js", hookName name ++ ".ts", hookName name ++ ".tsx"]

/-- A manager module whose own name starts as those of hooks do. -/
def LooksLikeHook (name path : String) : Prop :=
  Path.baseName path = name ++ "-manager.ts" ∧ hasStart name "use" = true

theorem IsModuleName.not_mem (h : IsModuleName name) {c : Char} (hc : isWord c = false) :
    c ∉ name.toList := fun hmem => by
  rw [(h.plain c hmem).1] at hc
  cases hc

theorem IsModuleName.isPlainName (h : IsModuleName name) : isPlainName name.toList = true := by
  obtain ⟨c, rest, hname, -⟩ := h.lower
  have hbreak := h.not_mem (c := '\n') (by decide +kernel)
  unfold Domain.isPlainName
  rw [hname] at hbreak ⊢
  simpa using hbreak

/-- The hook of a module has a plain name, and the name of the module is read back from it. -/
theorem IsModuleName.capitalize_spec (h : IsModuleName name) :
    Domain.isPlainName (capitalize name.toList) = true ∧
      uncapitalize (capitalize name.toList) = name.toList := by
  obtain ⟨c, rest, hname, hlower⟩ := h.lower
  obtain ⟨d, hupper, hback, hd⟩ := exists_upperChar hlower
  have hbreak := h.not_mem (c := '\n') (by decide +kernel)
  rw [hname] at hbreak ⊢
  have hcapital : capitalize (c :: rest) = d :: rest := by
    rw [capitalize, hupper, List.singleton_append]
  rw [hcapital, uncapitalize, hback, List.singleton_append]
  refine ⟨?_, rfl⟩
  unfold Domain.isPlainName
  simpa [hd.symm] using List.not_mem_of_not_mem_cons hbreak

/-! ## Groups of file names -/

section FileNames

variable {text front rest : List Char} {ending : String} {endings : List String}

theorem nameBefore?_append (hmem : ending ∈ endings)
    (hother : ∀ other ∈ endings, other ≠ ending → AreApart other.toList ending.toList)
    (hplain : isPlainName front = true) :
    nameBefore? endings (front ++ ending.toList) = some front := by
  have hfound : endings.findSome? (fun other => dropEnd? other.toList (front ++ ending.toList)) =
      some front := by
    induction endings with
    | nil => cases hmem
    | cons first rest ih =>
        rw [List.findSome?_cons]
        by_cases hfirst : first = ending
        · rw [hfirst, dropEnd?_eq_some_iff.mpr rfl]
        · have hapart := hother first List.mem_cons_self hfirst
          rw [dropEnd?_eq_none_iff.mpr (hapart.not_suffix front)]
          exact ih (List.mem_of_ne_of_mem (Ne.symm hfirst) hmem)
            fun other hin => hother other (List.mem_cons_of_mem _ hin)
  rw [nameBefore?, hfound, Option.filter_some, if_pos hplain]

theorem nameBefore?_eq_none (h : ∀ ending ∈ endings, ¬ ending.toList <:+ text) :
    nameBefore? endings text = none := by
  have hnone : endings.findSome? (fun ending => dropEnd? ending.toList text) = none :=
    List.findSome?_eq_none_iff.mpr fun ending hending => dropEnd?_eq_none_iff.mpr (h ending hending)
  rw [nameBefore?, hnone, Option.filter_none]

theorem dropFinalBreak_of_not_mem (h : '\n' ∉ text) : dropFinalBreak text = text :=
  if_neg fun hlast => h (List.mem_of_getLast? hlast)

theorem not_mem_of_isPlainName (h : isPlainName text = true) : '\n' ∉ text := by
  unfold isPlainName at h
  simpa using (Bool.and_eq_true_iff.mp h).2

/-- The name in front of an ending of manager modules is the group. -/
theorem managerGroup?_append (hplain : isPlainName front = true)
    (hmem : ending ∈ ["-manager.ts", "-manager.js"]) :
    managerGroup? (front ++ ending.toList) = some front := by
  have hendings : ∀ ending ∈ ["-manager.ts", "-manager.js"], '\n' ∉ ending.toList ∧
      ∀ other ∈ ["-manager.ts", "-manager.js"], other ≠ ending →
        AreApart other.toList ending.toList := by decide +kernel
  obtain ⟨hbreak, hother⟩ := hendings ending hmem
  have hline : '\n' ∉ front ++ ending.toList :=
    List.not_mem_append (not_mem_of_isPlainName hplain) hbreak
  rw [managerGroup?, dropFinalBreak_of_not_mem hline, nameBefore?_append hmem hother hplain]

/-- Between the beginning and an ending of hooks stands the group, whatever letter is first. -/
theorem hookGroup?_append (hplain : isPlainName rest = true) (hmem : ending ∈ [".ts", ".tsx"]) :
    hookGroup? ("use".toList ++ (rest ++ ending.toList)) = some (uncapitalize rest) := by
  have hendings : ∀ ending ∈ [".ts", ".tsx"], '\n' ∉ ending.toList ∧
      ∀ other ∈ [".ts", ".tsx"], other ≠ ending → AreApart other.toList ending.toList := by
    decide +kernel
  obtain ⟨hbreak, hother⟩ := hendings ending hmem
  have hline : '\n' ∉ "use".toList ++ (rest ++ ending.toList) :=
    List.not_mem_append (by decide +kernel)
      (List.not_mem_append (not_mem_of_isPlainName hplain) hbreak)
  rw [hookGroup?, dropFinalBreak_of_not_mem hline, dropStart?_eq_some_iff.mpr rfl,
    Option.bind_some, nameBefore?_append hmem hother hplain, Option.map_some]

/-- What lacks the beginning of hooks, or their endings, is none. -/
theorem hookGroup?_eq_none (hline : '\n' ∉ text)
    (h : "use".toList <+: text → ∀ ending ∈ [".ts", ".tsx"], ¬ ending.toList <:+ text) :
    hookGroup? text = none := by
  rw [hookGroup?, dropFinalBreak_of_not_mem hline, Option.map_eq_none_iff]
  cases hstart : dropStart? "use".toList text with
  | none => rfl
  | some rest =>
      have htext := dropStart?_eq_some_iff.mp hstart
      have hsuffix : rest <:+ text := htext ▸ List.suffix_append _ _
      exact nameBefore?_eq_none fun ending hmem hending =>
        h (htext ▸ List.prefix_append _ _) ending hmem (hending.trans hsuffix)

theorem namingGroup?_eq (hfile : (Path.baseName path).toList = text) :
    namingGroup? path = ((hookGroup? text).or (managerGroup? text)).map String.ofList := by
  rw [Path.baseName, String.toList_ofList] at hfile
  unfold namingGroup?
  dsimp only
  rw [hfile]
  cases hookGroup? text <;> rfl

end FileNames

/-! ## Groups of modules and hooks -/

theorem hasStart_iff {text start : String} :
    hasStart text start = true ↔ start.toList <+: text.toList := by
  rw [hasStart, Option.isSome_iff_ne_none, ne_eq, dropStart?_eq_none_iff, not_not]

theorem namingGroup?_manager (hname : IsModuleName name) {ending : String}
    (hmem : ending ∈ ["-manager.ts", "-manager.js"]) (hpath : Path.baseName path = name ++ ending)
    (hlooks : ¬ LooksLikeHook name path) : namingGroup? path = some name := by
  have hfile : (Path.baseName path).toList = name.toList ++ ending.toList := by
    rw [hpath, String.toList_append]
  have hline := not_mem_of_isPlainName hname.isPlainName
  have hnone : hookGroup? (name.toList ++ ending.toList) = none := by
    rcases List.mem_pair.mp hmem with rfl | rfl
    · -- The hyphen is no part of the beginning of hooks, so the name would have to start with it.
      have hhyphen : "-manager.ts".toList = '-' :: "manager.ts".toList := by decide +kernel
      refine hookGroup?_eq_none (List.not_mem_append hline (by decide +kernel)) fun hstart => ?_
      rw [hhyphen, prefix_append_cons_iff (by decide +kernel)] at hstart
      exact absurd ⟨hpath, hasStart_iff.mpr hstart⟩ hlooks
    · have hapart : ∀ other ∈ [".ts", ".tsx"], AreApart other.toList "-manager.js".toList := by
        decide +kernel
      exact hookGroup?_eq_none (List.not_mem_append hline (by decide +kernel))
        fun _ other hother => (hapart other hother).not_suffix name.toList
  rw [namingGroup?_eq hfile, hnone, Option.none_or, managerGroup?_append hname.isPlainName hmem,
    Option.map_some, String.ofList_toList]

theorem namingGroup?_hook (hname : IsModuleName name) {ending : String}
    (hmem : ending ∈ [".ts", ".tsx"]) (hpath : Path.baseName path = hookName name ++ ending) :
    namingGroup? path = some name := by
  have hcapital : (String.ofList (capitalize name.toList)).toList =
      capitalize name.toList := String.toList_ofList
  have hfile : (Path.baseName path).toList =
      "use".toList ++ (capitalize name.toList ++ ending.toList) := by
    rw [hpath, hookName, String.toList_append, String.toList_append, hcapital, List.append_assoc]
  obtain ⟨hplain, hback⟩ := hname.capitalize_spec
  rw [namingGroup?_eq hfile, hookGroup?_append hplain hmem, Option.some_or, Option.map_some, hback,
    String.ofList_toList]

/-- The group of a module that is taken for a hook: the rest of its name and the ending of
managers. -/
def takenFor (name : String) : String :=
  String.ofList (uncapitalize (name.toList.drop 3 ++ "-manager".toList))

theorem namingGroup?_looksLikeHook (hname : IsModuleName name) (h : LooksLikeHook name path) :
    namingGroup? path = some (takenFor name) := by
  obtain ⟨rest, hrest⟩ := hasStart_iff.mp h.2
  have hdrop : name.toList.drop 3 = rest := by
    rw [← hrest]
    exact List.drop_left' (by decide +kernel)
  have hfile : (Path.baseName path).toList =
      "use".toList ++ (rest ++ "-manager".toList ++ ".ts".toList) := by
    have hending : "-manager.ts".toList = "-manager".toList ++ ".ts".toList := by decide +kernel
    rw [h.1, String.toList_append, ← hrest, hending, List.append_assoc, List.append_assoc]
  have hplain : isPlainName (rest ++ "-manager".toList) = true := by
    have hline := not_mem_of_isPlainName hname.isPlainName
    rw [← hrest] at hline
    have hbehind : '\n' ∉ rest := fun hmem => hline (List.mem_append_right _ hmem)
    unfold isPlainName
    simp [hbehind]
  rw [namingGroup?_eq hfile, hookGroup?_append hplain (by decide), Option.some_or, Option.map_some,
    takenFor, hdrop]

theorem takenFor_ne (hname : IsModuleName name) : takenFor name ≠ name := by
  have hhyphen : '-' ∈ uncapitalize (name.toList.drop 3 ++ "-manager".toList) := by
    cases name.toList.drop 3 with
    | nil => decide +kernel
    | cons c rest =>
        exact List.mem_append_right _ (List.mem_append_right _ (by decide +kernel))
  intro hsame
  rw [takenFor] at hsame
  have hnot := hname.not_mem (c := '-') (by decide +kernel)
  rw [← hsame, String.toList_ofList] at hnot
  exact hnot hhyphen

/-- Managers and hooks of a name form a group, but for the managers that look like hooks. -/
theorem namingGroup?_iff (hname : IsModuleName name) (h : IsFileOf name path) :
    namingGroup? path = some name ↔ ¬ LooksLikeHook name path := by
  constructor
  · intro hgroup hlooks
    rw [namingGroup?_looksLikeHook hname hlooks, Option.some.injEq] at hgroup
    exact takenFor_ne hname hgroup
  · intro hlooks
    unfold IsFileOf at h
    simp only [List.mem_cons, List.not_mem_nil, or_false] at h
    obtain hmanager | hmanager | hhook | hhook := h
    · exact namingGroup?_manager hname (by decide) hmanager hlooks
    · exact namingGroup?_manager hname (by decide) hmanager hlooks
    · exact namingGroup?_hook hname (by decide) hhook
    · exact namingGroup?_hook hname (by decide) hhook

/-! ## Domains of one group -/

/-- A domain whose files share a group has the title of the group under every share, unless the
double nearest to the number of its files is larger than this number. -/
theorem name_of_sharedGroup (hdomain : domain ∈ infer threshold .high files)
    (hshare : Settings.IsShare threshold)
    (hsize : (Binary64.ofNat domain.size).leInt domain.size = true)
    (hgroup : ∀ file ∈ domain.files, namingGroup? file.path = some group) :
    domain.name = titleCase group := by
  obtain ⟨file, hfile⟩ := exists_file_of_mem_infer hdomain
  have hall : ∀ path ∈ distinct domain.paths, namingGroup? path = some group := by
    intro path hpath
    obtain ⟨member, hmember, rfl⟩ := List.mem_map.mp (mem_distinct.mp hpath)
    exact hgroup member hmember
  have hoverlap : domain.overlap group = domain.size :=
    List.countP_eq_length.mpr fun path hpath => by simp [hall path hpath]
  have hother : ∀ other, domain.isCovered threshold other = true → other = group := by
    intro other hcovered
    unfold isCovered overlap at hcovered
    rw [Bool.and_eq_true, bne_iff_ne, ← Nat.pos_iff_ne_zero, List.countP_pos_iff] at hcovered
    obtain ⟨⟨path, hpath, hsame⟩, -⟩ := hcovered
    rw [hall path hpath] at hsame
    exact (Option.some.inj (eq_of_beq hsame)).symm
  have hcovered : domain.isCovered threshold group = true := by
    obtain ⟨m, e, rfl, -, hle⟩ := hshare
    have hpos : domain.size ≠ 0 := by
      have hmem : file.path ∈ distinct domain.paths :=
        mem_distinct.mpr (List.mem_map_of_mem hfile)
      exact Nat.ne_of_gt (List.length_pos_of_mem hmem)
    rw [isCovered, hoverlap, reaches, Binary64.leInt_mul_share hsize hle, Bool.and_true,
      bne_iff_ne]
    exact hpos
  have hmem : group ∈ namingGroups files :=
    mem_namingGroups.mpr ⟨file, (sublist_of_mem_infer hdomain).subset hfile, hgroup file hfile⟩
  have hfound : (namingGroups files).find? (domain.isCovered threshold) = some group := by
    obtain ⟨first, hfirst⟩ := Option.isSome_iff_exists.mp
      (List.find?_isSome.mpr ⟨group, hmem, hcovered⟩)
    rw [hfirst, hother first (List.find?_some hfirst)]
  rw [name_of_mem_infer_high hdomain hfile, hfound, Option.getD_some]

/-- A manager module and its hook fall in the group of their name, wherever they are, unless the
module is in TypeScript and its name starts as those of hooks do: then the rest of the name, with the
ending of managers, is the group. A domain of such files of one group has its title under every
share, and every number of files below `2 ^ 53` is a double. -/
theorem manager_and_hook_agree (hname : IsModuleName name) :
    (∀ path, IsFileOf name path →
      (namingGroup? path = some name ↔ ¬ LooksLikeHook name path)) ∧
    (∀ path, LooksLikeHook name path → namingGroup? path = some (takenFor name)) ∧
    (∀ (threshold : Binary64) (files : List SourceFile), Settings.isShare threshold = true →
      ∀ domain ∈ infer threshold .high files,
        (∀ file ∈ domain.files, IsFileOf name file.path ∧ ¬ LooksLikeHook name file.path) →
        (Binary64.ofNat domain.size).leInt domain.size = true → domain.name = titleCase name) ∧
    ∀ size < 2 ^ 53, (Binary64.ofNat size).leInt size = true := by
  refine ⟨fun _ hfile => namingGroup?_iff hname hfile,
    fun _ hlooks => namingGroup?_looksLikeHook hname hlooks, ?_, fun _ => Binary64.leInt_ofNat⟩
  intro threshold files hshare domain hdomain hfiles hsize
  refine name_of_sharedGroup hdomain ((Settings.isShare_iff threshold).mp hshare) hsize ?_
  exact fun file hfile => (namingGroup?_iff hname (hfiles file hfile).1).mpr (hfiles file hfile).2

/-- A manager of users in JavaScript, and the hook of users. -/
def userFiles : List SourceFile :=
  ["users/user-manager.js", "users/useUser.ts"].map fun path =>
    { path := path, location := "/p/" ++ path, language := .typescript, lineCount := 9,
      sizeBytes := 90 }

/-- The manager of users is taken for a hook in TypeScript, and not in JavaScript, where its domain
has the title of the group under the largest share. -/
theorem manager_and_hook_agree_user :
    IsModuleName "user" ∧ namingGroup? "src/main/user-manager.ts" = some "r-manager" ∧
      ∃ domain ∈ infer (.ofNat 1) .high userFiles, domain.files = userFiles ∧
        domain.name = "User" := by
  have hname : IsModuleName "user" := ⟨⟨'u', ['s', 'e', 'r'], by decide +kernel⟩, by decide +kernel⟩
  obtain ⟨-, hlooks, htitle, hcount⟩ := manager_and_hook_agree hname
  have hmodule : LooksLikeHook "user" "src/main/user-manager.ts" := by
    unfold LooksLikeHook
    decide +kernel
  have htaken : takenFor "user" = "r-manager" := by decide +kernel
  obtain ⟨domain, hdomain, haround⟩ := exists_domain_around (.ofNat 1) .high
    (List.head_mem (l := userFiles) (by decide))
  have hall : domain.files = userFiles := by
    rw [haround]
    decide +kernel
  have hmembers : ∀ file ∈ userFiles,
      IsFileOf "user" file.path ∧ ¬ LooksLikeHook "user" file.path := by
    unfold IsFileOf LooksLikeHook
    decide +kernel
  have hsize : domain.size < 2 ^ 53 := by
    rw [size, paths, hall]
    decide +kernel
  refine ⟨hname, htaken ▸ hlooks _ hmodule, domain, hdomain, hall, ?_⟩
  rw [htitle _ _ (by decide +kernel) domain hdomain (hall ▸ hmembers) (hcount _ hsize)]
  decide +kernel

end Domain

end SourceAtlas

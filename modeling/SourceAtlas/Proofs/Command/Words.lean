import Mathlib.Data.List.TakeWhile
import SourceAtlas.Command.Invocation
import SourceAtlas.Proofs.Number.Digits
import SourceAtlas.Settings

/-!
# Reading what a command line says

A command line is put together from a path and settings. It is read as the same path and settings,
except that an integer with too many digits is turned down.
-/

namespace SourceAtlas

namespace Command

variable {level : Level} {draft : Draft} {word : String} {rest : List String}

/-! ## Arguments -/

/-- A word that starts with no dash. -/
def IsArgument (word : String) : Prop := word.toList.head? ≠ some '-'

instance (word : String) : Decidable (IsArgument word) := inferInstanceAs (Decidable (_ ≠ _))

theorem Word.read_of_isArgument (h : IsArgument word) (level : Level) :
    Word.read level word = .argument := by
  unfold IsArgument at h
  unfold Word.read
  split
  · rfl
  · rfl
  · next rest _ hlist =>
      rw [hlist] at h
      exact absurd rfl h
  · rfl

theorem IsArgument.ne_dashes (h : IsArgument word) : word ≠ "--" := by
  rintro rfl
  exact h rfl

theorem IsArgument.isValue (h : IsArgument word) (level : Level) : isValue level word = true := by
  unfold Command.isValue
  rw [Word.read_of_isArgument h]
  simpa using h.ne_dashes

/-- No flag is written with a digit behind its dash. -/
theorem spelling_ne_digit {c : Char} (hc : c.isDigit = true) (more : List Char) :
    ∀ entry ∈ level.spellings, entry.1 ≠ String.ofList ('-' :: c :: more) := by
  have hall : ∀ level : Level, ∀ entry ∈ level.spellings,
      (entry.1.toList[1]?.map Char.isDigit) = some false := by
    intro level
    cases level <;> decide
  intro entry hentry hsame
  have hsecond := hall level entry hentry
  rw [hsame, String.toList_ofList] at hsecond
  simp [hc] at hsecond

theorem flagOf?_digit {c : Char} (hc : c.isDigit = true) (more : List Char) (level : Level) :
    level.flagOf? (.ofList ('-' :: c :: more)) = none := by
  unfold Level.flagOf?
  rw [List.lookup_eq_none_iff]
  intro entry hentry
  exact bne_iff_ne.mpr (spelling_ne_digit hc more entry hentry).symm

namespace Word

theorem isNegativeNumber_toDigits (n : Nat) :
    isNegativeNumber ('-' :: Nat.toDigits 10 n) = true := by
  have hdigits : ∀ c ∈ Nat.toDigits 10 n, (Text.digitValue? c).isSome = true := by
    intro c hc
    have hdigit : c.isDigit = true := Number.isDigit_toDigits c hc
    have hbounds := Number.toNat_of_isDigit hdigit
    unfold Text.digitValue?
    rw [if_pos (by omega), if_pos hdigit]
    rfl
  have hlast : ('-' :: Nat.toDigits 10 n).getLast? ≠ some '\n' := by
    intro hbreak
    rcases List.mem_cons.mp (List.mem_of_getLast? hbreak) with hminus | hmem
    · cases hminus
    · exact absurd (hdigits _ hmem) (by decide)
  have hdrop : (Nat.toDigits 10 n).dropWhile (fun c => (Text.digitValue? c).isSome) = [] :=
    List.dropWhile_eq_nil_iff.mpr hdigits
  unfold isNegativeNumber
  rw [if_neg hlast]
  simp [hdrop, Nat.toDigits_ne_nil]

theorem cutAtEquals_toString (n : Int) :
    cutAtEquals (toString n).toList = (toString n, none) := by
  have hother : ∀ c ∈ (toString n).toList, (c != '=') = true := by
    intro c hc
    have hbounds := (Number.isNumeric_of_mem_toString c hc).bounds
    refine bne_iff_ne.mpr ?_
    rintro rfl
    exact absurd hbounds (by decide)
  have htake : (toString n).toList.takeWhile (· != '=') = (toString n).toList :=
    List.takeWhile_eq_self_iff.mpr hother
  have hdrop : (toString n).toList.dropWhile (· != '=') = [] :=
    List.dropWhile_eq_nil_iff.mpr hother
  unfold cutAtEquals
  rw [htake, hdrop, String.ofList_toList]

theorem candidates_digit {c : Char} (hc : c.isDigit = true) (more : List Char) (level : Level) :
    candidates level ('-' :: c :: more) = [] := by
  unfold candidates
  split
  · next hlist =>
      cases hlist
      exact absurd hc (by decide)
  · next hlist =>
      cases hlist
      rw [List.filter_eq_nil_iff.mpr]
      · rfl
      · intro entry hentry
        simpa using spelling_ne_digit hc [] entry hentry
  · rfl

/-- A written integer is an argument at every level. -/
theorem read_toString (n : Int) (level : Level) : read level (toString n) = .argument := by
  rcases Int.lt_or_le n 0 with hneg | hpos
  · obtain ⟨c, more, hlist, hc⟩ := Number.toDigits_eq_cons n.natAbs
    have hword : toString n = .ofList ('-' :: c :: more) := by
      rw [← hlist, ← Number.toList_toString_of_neg hneg, String.ofList_toList]
    have hcut := cutAtEquals_toString n
    have hnumber := isNegativeNumber_toDigits n.natAbs
    rw [hword, String.toList_ofList] at hcut
    rw [hlist] at hnumber
    unfold read
    rw [hword, String.toList_ofList]
    simp only [flagOf?_digit hc, hcut]
    rw [readInexact, candidates_digit hc, hnumber]
    rfl
  · refine read_of_isArgument ?_ level
    intro hminus
    rw [Number.toList_toString_of_nonneg hpos] at hminus
    exact absurd (Number.isDigit_toDigits '-' (List.mem_of_mem_head? hminus)) (by decide)

end Word

theorem toString_ne_dashes (n : Int) : toString n ≠ "--" := by
  intro hsame
  have hread := Word.read_toString n .program
  rw [hsame] at hread
  exact absurd hread (by decide)

theorem isValue_toString (n : Int) (level : Level) : isValue level (toString n) = true := by
  unfold isValue
  rw [Word.read_toString]
  simpa using toString_ne_dashes n

/-! ## Flags -/

/-- No word in front of two dashes is the beginning of several flags. -/
theorem checkWords_eq_ok {words : List String}
    (h : ∀ word ∈ words, ∀ spellings, Word.read level word ≠ .ambiguous spellings) :
    checkWords level words = .ok () := by
  induction words with
  | nil => rfl
  | cons word rest ih =>
      have hrest := ih fun other hother => h other (List.mem_cons_of_mem word hother)
      rw [checkWords]
      split
      · rfl
      · split
        · next spellings hread => exact absurd hread (h word List.mem_cons_self spellings)
        · exact hrest

/-- The flag of a word, which is followed by its value. -/
structure IsOption (level : Level) (word : String) (flag : Flag) : Prop where
  ne_dashes : word ≠ "--"
  read : Word.read level word = .known flag none
  takesValue : flag.takesValue = true

instance (level : Level) (word : String) (flag : Flag) : Decidable (IsOption level word flag) :=
  decidable_of_iff (word ≠ "--" ∧ Word.read level word = .known flag none ∧ flag.takesValue = true)
    ⟨fun h => ⟨h.1, h.2.1, h.2.2⟩, fun h => ⟨h.ne_dashes, h.read, h.takesValue⟩⟩

/-- A flag with the value behind it is read in one step. -/
theorem readArguments_option {flag : Flag} {value : String} (h : IsOption level word flag)
    (hvalue : isValue level value = true) (draft : Draft) (rest : List String) :
    readArguments level draft (word :: value :: rest) =
      (draft.setValue level flag value).bind fun next => readArguments level next rest := by
  rw [readArguments, if_neg h.ne_dashes, h.read]
  dsimp only
  rw [readFlag, if_pos h.takesValue, readValue]
  · rw [if_pos hvalue]
    unfold behindFlag
    simp only [h.takesValue, Option.isNone_none, Bool.and_self, if_true, List.tail_cons]
    rfl
  · intro more hmore
    rw [(List.cons.inj hmore).1] at hvalue
    exact absurd hvalue Bool.false_ne_true

/-- A switch is read in one step. -/
theorem readArguments_switch {flag : Flag} {next : Draft} (hword : word ≠ "--")
    (hread : Word.read level word = .known flag none) (htakes : flag.takesValue = false)
    (hset : draft.setSwitch level flag = .ok next) (rest : List String) :
    readArguments level draft (word :: rest) = readArguments level next rest := by
  rw [readArguments.eq_def]
  dsimp only
  rw [if_neg hword, hread]
  dsimp only
  rw [readFlag, if_neg (by simp [htakes]), readSwitch, hset]
  unfold behindFlag
  simp only [htakes, Bool.false_and]
  rfl

/-- The path of a project is read in one step. -/
theorem readArguments_path (h : IsArgument word) (hpath : draft.path = none)
    (hrest : rest.head? ≠ some "--") :
    readArguments .generate draft (word :: rest) =
      readArguments .generate { draft with path := some word } rest := by
  rw [readArguments.eq_def]
  dsimp only
  rw [if_neg h.ne_dashes, Word.read_of_isArgument h]
  dsimp only
  split
  · exact absurd rfl hrest
  · unfold takeArgument
    rw [hpath]
    rfl

theorem readArguments_excludes {patterns : List String} (h : ∀ pattern ∈ patterns, IsArgument pattern)
    (draft : Draft) :
    readArguments .generate draft (patterns.flatMap fun pattern => ["--exclude", pattern]) =
      .ok { draft with excludes := draft.excludes ++ patterns } := by
  have hoption : IsOption .generate "--exclude" .exclude := by decide
  induction patterns generalizing draft with
  | nil => rw [List.flatMap_nil, readArguments, List.append_nil]
  | cons pattern patterns ih =>
      have hrest := ih fun other hother => h other (List.mem_cons_of_mem pattern hother)
      rw [List.flatMap_cons, List.cons_append, List.singleton_append,
        readArguments_option hoption ((h pattern List.mem_cons_self).isValue _)]
      refine (hrest _).trans ?_
      rw [List.append_assoc, List.singleton_append]

/-! ## A whole command line -/

/-- Settings that can be given on a command line. -/
structure IsTypable (overrides : Settings.Overrides) : Prop where
  sensitivity : ∀ name ∈ overrides.sensitivity, name ∈ Sensitivity.names
  excludes : ∀ pattern ∈ overrides.excludes, IsArgument pattern

/-- The words that give a value to a flag, if there is a value. -/
def optionWords {α : Type} (flag : String) (text : α → String) : Option α → List String
  | some value => [flag, text value]
  | none => []

/-- The words that tell settings. -/
def settingWords (overrides : Settings.Overrides) : List String :=
  optionWords "--max-tags" toString overrides.maxTags ++
    (optionWords "--sensitivity" id overrides.sensitivity ++
      overrides.excludes.flatMap fun pattern => ["--exclude", pattern])

/-- The command line that generates the documents of a project and writes them. -/
def writeWords (path : String) (overrides : Settings.Overrides) : List String :=
  "generate" :: path :: "--write" :: settingWords overrides

/-- What the command line says. -/
def writeOptions (path : String) (overrides : Settings.Overrides) : GenerateOptions where
  path := path
  sensitivity := overrides.sensitivity
  maxTags := overrides.maxTags
  excludes := overrides.excludes
  write := true

theorem mem_optionWords {α : Type} {flag : String} {text : α → String} {value : Option α}
    (h : word ∈ optionWords flag text value) : word = flag ∨ ∃ a ∈ value, word = text a := by
  cases value with
  | none => cases h
  | some a => simpa [optionWords] using h

theorem readArguments_optionWords {α : Type} {flag : Flag} {text : α → String} {value : Option α}
    {next : Draft} (hoption : IsOption level word flag)
    (hvalue : ∀ a ∈ value, isValue level (text a) = true)
    (hset : ∀ a ∈ value, draft.setValue level flag (text a) = .ok next)
    (hnone : value = none → draft = next) (rest : List String) :
    readArguments level draft (optionWords word text value ++ rest) =
      readArguments level next rest := by
  cases value with
  | none =>
      rw [hnone rfl]
      rfl
  | some a =>
      rw [optionWords, List.cons_append, List.singleton_append,
        readArguments_option hoption (hvalue a rfl), hset a rfl]
      rfl

theorem isArgument_of_mem_names : ∀ name ∈ Sensitivity.names, IsArgument name := by decide

theorem setValue_maxTags_of_short {n : Int} (hshort : ¬ Number.IsLong n) (draft : Draft) :
    draft.setValue level .maxTags (toString n) = .ok { draft with maxTags := some n } := by
  have hread := Number.readInteger_toString_of_short hshort
  simp only [Draft.setValue, Draft.integer, hread]
  rfl

theorem setValue_maxTags_of_long {n : Int} (hlong : Number.IsLong n) (draft : Draft) :
    draft.setValue level .maxTags (toString n) =
      .error (Draft.flagFault level .maxTags ("invalid int value: " ++ Text.quoted (toString n))) := by
  have hread := Number.readInteger_toString_of_long hlong
  simp only [Draft.setValue, Draft.integer, hread]
  rfl

theorem setValue_sensitivity {name : String} (hname : name ∈ Sensitivity.names) (draft : Draft) :
    draft.setValue level .sensitivity name = .ok { draft with sensitivity := some name } := by
  simp only [Draft.setValue, Draft.sensitivityName, if_pos hname]
  rfl

theorem readArguments_settingWords_of_long {overrides : Settings.Overrides} {path : String} {n : Int}
    (hn : overrides.maxTags = some n)
    (hlong : Number.IsLong n) :
    readArguments .generate { path := some path, write := true } (settingWords overrides) =
      .error (Draft.flagFault .generate .maxTags
        ("invalid int value: " ++ Text.quoted (toString n))) := by
  have hoption : IsOption .generate "--max-tags" .maxTags := by decide
  unfold settingWords
  rw [hn, optionWords, List.cons_append, List.singleton_append,
    readArguments_option hoption (isValue_toString n _), setValue_maxTags_of_long hlong]
  rfl

section Line

variable {path : String} {overrides : Settings.Overrides} (h : IsTypable overrides)

include h

/-- A word that tells settings is an argument or the spelling of a flag. -/
theorem read_of_mem_settingWords (level : Level) :
    ∀ word ∈ settingWords overrides, Word.read level word = .argument ∨
      word ∈ ["--max-tags", "--sensitivity", "--exclude"] := by
  intro word hword
  unfold settingWords at hword
  rcases List.mem_append.mp hword with hmaxTags | hword
  · rcases mem_optionWords hmaxTags with rfl | ⟨n, -, rfl⟩
    · exact .inr (by decide)
    · exact .inl (Word.read_toString n level)
  rcases List.mem_append.mp hword with hsensitivity | hword
  · rcases mem_optionWords hsensitivity with rfl | ⟨name, hname, hword⟩
    · exact .inr (by decide)
    · have hargument := isArgument_of_mem_names name (h.sensitivity name hname)
      rw [hword]
      exact .inl (Word.read_of_isArgument hargument level)
  · obtain ⟨pattern, hpattern, hword⟩ := List.mem_flatMap.mp hword
    rcases List.mem_cons.mp hword with rfl | hword
    · exact .inr (by decide)
    · rw [List.mem_singleton.mp hword]
      exact .inl (Word.read_of_isArgument (h.excludes pattern hpattern) level)

/-- No word of the command line is the beginning of several flags. -/
theorem checkWords_writeWords (hpath : IsArgument path)
    (hlevel : level = .program ∨ level = .generate) :
    ∀ words, words <:+ writeWords path overrides → checkWords level words = .ok () := by
  have hliteral : ∀ word ∈ ["generate", "--write", "--max-tags", "--sensitivity", "--exclude"],
      Word.read level word ∈ [.argument, .unknown, .known .write none, .known .maxTags none,
        .known .sensitivity none, .known .exclude none] := by
    rcases hlevel with rfl | rfl <;> decide
  have hsteady : ∀ word ∈ ["generate", "--write", "--max-tags", "--sensitivity", "--exclude"],
      ∀ spellings, Word.read level word ≠ .ambiguous spellings := by
    intro word hword spellings hread
    have hmem := hliteral word hword
    rw [hread] at hmem
    simp at hmem
  have hargument : ∀ word, Word.read level word = .argument →
      ∀ spellings, Word.read level word ≠ .ambiguous spellings := by
    intro word hread spellings
    rw [hread]
    exact Word.noConfusion
  have hsettings : ∀ word ∈ settingWords overrides, ∀ spellings,
      Word.read level word ≠ .ambiguous spellings := by
    intro word hword
    rcases read_of_mem_settingWords h level word hword with hread | hflag
    · exact hargument word hread
    · exact hsteady word (List.mem_cons_of_mem _ (List.mem_cons_of_mem _ hflag))
  have hall : ∀ word ∈ writeWords path overrides, ∀ spellings,
      Word.read level word ≠ .ambiguous spellings :=
    List.forall_mem_cons.mpr ⟨hsteady "generate" (by decide), List.forall_mem_cons.mpr
      ⟨hargument path (Word.read_of_isArgument hpath level), List.forall_mem_cons.mpr
        ⟨hsteady "--write" (by decide), hsettings⟩⟩⟩
  exact fun words hwords => checkWords_eq_ok fun word hword => hall word (hwords.subset hword)

theorem readArguments_settingWords (hshort : ∀ n ∈ overrides.maxTags, ¬ Number.IsLong n) :
    readArguments .generate { path := some path, write := true } (settingWords overrides) =
      .ok { path := some path, sensitivity := overrides.sensitivity, maxTags := overrides.maxTags,
            excludes := overrides.excludes, write := true } := by
  have hmaxTags : ∀ rest, readArguments .generate { path := some path, write := true }
      (optionWords "--max-tags" toString overrides.maxTags ++ rest) =
        readArguments .generate
          { path := some path, maxTags := overrides.maxTags, write := true } rest := by
    intro rest
    apply readArguments_optionWords (show IsOption .generate "--max-tags" .maxTags by decide)
    · intro n _
      exact isValue_toString n .generate
    · intro n hn
      rw [setValue_maxTags_of_short (hshort n hn), hn]
    · intro hnone
      rw [hnone]
  have hsensitivity : ∀ rest, readArguments .generate
      { path := some path, maxTags := overrides.maxTags, write := true }
      (optionWords "--sensitivity" id overrides.sensitivity ++ rest) =
        readArguments .generate { path := some path, sensitivity := overrides.sensitivity,
                                  maxTags := overrides.maxTags, write := true } rest := by
    intro rest
    apply readArguments_optionWords (show IsOption .generate "--sensitivity" .sensitivity by decide)
    · intro name hname
      exact (isArgument_of_mem_names name (h.sensitivity name hname)).isValue .generate
    · intro name hname
      rw [id, setValue_sensitivity (h.sensitivity name hname), hname]
    · intro hnone
      rw [hnone]
  unfold settingWords
  rw [hmaxTags, hsensitivity, readArguments_excludes h.excludes]
  rfl

/-- The command line is read by reading the words that tell settings. -/
theorem readCommandLine_eq (hpath : IsArgument path) :
    readCommandLine (writeWords path overrides) =
      (readArguments .generate { path := some path, write := true } (settingWords overrides)).bind
        fun draft => draft.invocation .generate := by
  have hprogram := checkWords_writeWords h hpath (.inl rfl) _ (List.suffix_refl _)
  have hgenerate := checkWords_writeWords h hpath (.inr rfl) _ (List.suffix_cons _ _)
  have hread : readProgram {} (writeWords path overrides) =
      .ok ({}, some ("generate", path :: "--write" :: settingWords overrides)) := by
    unfold writeWords
    rw [readProgram]
    · rfl
    · exact fun hsame _ => absurd hsame (by decide)
    · exact fun hsame => absurd hsame (by decide)
  have harguments : readArguments .generate {} (path :: "--write" :: settingWords overrides) =
      readArguments .generate { path := some path, write := true } (settingWords overrides) := by
    rw [readArguments_path hpath rfl (by simp),
      readArguments_switch (show "--write" ≠ "--" by decide)
        (show Word.read .generate "--write" = .known .write none by decide) rfl rfl]
  unfold readCommandLine
  rw [hprogram, hread]
  change (checkWords .generate (path :: "--write" :: settingWords overrides)).bind
    (fun _ => (readArguments .generate {} (path :: "--write" :: settingWords overrides)).bind
      fun draft => draft.invocation .generate) = _
  rw [hgenerate, harguments]
  rfl

/-- The command line is read as it was put together. -/
theorem readCommandLine_writeWords (hpath : IsArgument path)
    (hshort : ∀ n ∈ overrides.maxTags, ¬ Number.IsLong n) :
    readCommandLine (writeWords path overrides) =
      .ok ⟨false, none, .generate (writeOptions path overrides)⟩ := by
  rw [readCommandLine_eq h hpath, readArguments_settingWords h hshort]
  rfl

/-- An integer with too many digits is a fault in the use of its flag. -/
theorem readCommandLine_writeWords_of_long (hpath : IsArgument path) {n : Int}
    (hn : overrides.maxTags = some n) (hlong : Number.IsLong n) :
    ∃ message, readCommandLine (writeWords path overrides) = .error (.fault .generate message) := by
  rw [readCommandLine_eq h hpath, readArguments_settingWords_of_long hn hlong]
  exact ⟨_, rfl⟩

end Line

end Command

end SourceAtlas

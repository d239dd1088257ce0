import SourceAtlas.Proofs.Project.Delivery
import SourceAtlas.Proofs.Service.Framework

/-!
# A client of the service

A client asks for the documents of a project and sends them back to be written. The bodies that it
sends are read as what it says: the settings that it asks for, and the documents and tags that it was
given.
-/

namespace SourceAtlas.Service

variable {α : Type} {path : String} {overrides : Settings.Overrides}

/-! ## What the client sends -/

/-- The fields that tell settings. -/
def settingFields (overrides : Settings.Overrides) : List (String × Json) :=
  [("max_inline_tags", (overrides.maxTags.map Json.int).getD .null),
   ("domain_inference_sensitivity", .ofOption overrides.sensitivity),
   ("exclude_patterns", .strings overrides.excludes)]

/-- The body that asks for the documents of a project. -/
def generateBody (path : String) (overrides : Settings.Overrides) : Json :=
  .object [("path", .string path), ("settings", .object (settingFields overrides))]

/-- The body that sends the documents of an answer back to be written, if the answer has some. -/
def returnBody (path : String) (answer : Answer) : Option Json :=
  match answer.content with
  | .json value => do
      let content ← value.field? "generatedContent"
      some (.object
        [("path", .string path), ("claudeMd", ← content.field? "claudeMd"),
         ("repoIndex", ← content.field? "repoIndex"), ("inlineTags", ← content.field? "inlineTags")])
  | _ => none

/-- Post a body to an operation. -/
def post [Yaml.Reader] (around : Surroundings) (reference : String) (body : Json) : StateM Tree Answer :=
  answer around ⟨"POST", reference, body.write⟩

/-- Ask for the documents of a project, and send them back to be written if there are some. -/
def session [Yaml.Reader] (around : Surroundings) (path : String)
    (overrides : Settings.Overrides) : StateM Tree (Answer × Option Answer) := do
  let generated ← post around "/generate" (generateBody path overrides)
  match returnBody path generated with
  | none => return (generated, none)
  | some body => return (generated, some (← post around "/write" body))

/-! ## Texts of bodies -/

theorem isPortable_strings (depth : Nat) (texts : List String) :
    Json.IsPortable (depth + 1) (.strings texts) := by
  refine .array fun item hitem => ?_
  obtain ⟨text, -, rfl⟩ := List.mem_map.mp hitem
  exact .string depth text

theorem isPortable_ofOption (depth : Nat) (text : Option String) :
    Json.IsPortable depth (.ofOption text) := by
  cases text with
  | none => exact .null depth
  | some text => exact .string depth text

theorem isPortable_generateBody (h : ∀ n ∈ overrides.maxTags, ¬ Number.IsLong n) (path : String) :
    Json.IsPortable Json.maxDepth (generateBody path overrides) := by
  have hmaxTags : Json.IsPortable 898 ((overrides.maxTags.map Json.int).getD .null) := by
    cases hvalue : overrides.maxTags with
    | none => exact .null 898
    | some n => exact .int 898 (h n hvalue)
  have hsettings : Json.IsPortable 899 (.object (settingFields overrides)) := by
    refine .object (show List.Nodup ["max_inline_tags", "domain_inference_sensitivity",
      "exclude_patterns"] by decide) (List.forall_mem_cons.mpr ⟨hmaxTags, ?_⟩)
    refine List.forall_mem_cons.mpr ⟨isPortable_ofOption 898 _, List.forall_mem_singleton.mpr ?_⟩
    exact isPortable_strings 897 _
  refine .object (show List.Nodup ["path", "settings"] by decide) ?_
  exact List.forall_mem_cons.mpr ⟨.string 899 path, List.forall_mem_singleton.mpr hsettings⟩

theorem refuses_generateBody {n : Int} (hn : overrides.maxTags = some n) (hlong : Number.IsLong n)
    (path : String) : Json.Refuses Json.maxDepth (generateBody path overrides) .hugeInteger := by
  have hnone : ∀ field ∈ ([] : List (String × Json)), Json.Reads 898 field.2 := nofun
  have hpath : ∀ field ∈ [("path", Json.string path)], Json.Reads 899 field.2 :=
    List.forall_mem_singleton.mpr (Json.reads_string 899 path)
  have hsettings : Json.Refuses 899 (.object (settingFields overrides)) .hugeInteger := by
    unfold settingFields
    rw [hn]
    exact Json.refuses_object hnone (Json.refuses_int 898 hlong)
  exact Json.refuses_object hpath hsettings

/-! ## What the service reads -/

theorem listOf?_map {read : Json → Option α} {toJson : α → Json} {items : List α}
    (h : ∀ a ∈ items, read (toJson a) = some a) :
    listOf? read (.array (items.map toJson)) = some items := by
  change (items.map toJson).mapM read = some items
  induction items with
  | nil => rfl
  | cons a items ih =>
      have hrest := ih fun b hb => h b (List.mem_cons_of_mem a hb)
      rw [List.map_cons, List.mapM_cons, h a List.mem_cons_self, hrest]
      rfl

theorem listOf?_strings (texts : List String) : listOf? textOf? (.strings texts) = some texts :=
  listOf?_map fun _ _ => rfl

theorem nullableOf?_ofOption (value : Option String) :
    nullableOf? textOf? (.ofOption value) = some value := by
  cases value <;> rfl

theorem nullableOf?_integer (value : Option Int) :
    nullableOf? integerOf? ((value.map Json.int).getD .null) = some value := by
  cases value <;> rfl

theorem overridesOf?_settingFields (overrides : Settings.Overrides) :
    overridesOf? (.object (settingFields overrides)) = some overrides := by
  have hmaxTags : fieldOf? (.object (settingFields overrides)) "max_inline_tags"
      (nullableOf? integerOf?) = some overrides.maxTags := nullableOf?_integer _
  have hsensitivity : fieldOf? (.object (settingFields overrides)) "domain_inference_sensitivity"
      (nullableOf? textOf?) = some overrides.sensitivity := nullableOf?_ofOption _
  have hexcludes : fieldOf? (.object (settingFields overrides)) "exclude_patterns"
      (listOf? textOf?) = some overrides.excludes := listOf?_strings _
  unfold overridesOf?
  rw [hmaxTags, hsensitivity, hexcludes]
  rfl

theorem generateBodyOf?_generateBody (path : String) (overrides : Settings.Overrides) :
    generateBodyOf? (generateBody path overrides) = some ⟨path, some overrides⟩ := by
  have hsettings : fieldOf? (generateBody path overrides) "settings" (nullableOf? overridesOf?) =
      some (some overrides) := by
    change (overridesOf? (.object (settingFields overrides))).map some = _
    rw [overridesOf?_settingFields]
    rfl
  have hpath : fieldOf? (generateBody path overrides) "path" textOf? = some path := rfl
  unfold generateBodyOf?
  rw [hpath, hsettings]
  rfl

/-- A tag is read from its record if what it suggests is a text. -/
theorem tagOf?_toJson {tag : InlineTag} {suggested : String}
    (h : tag.suggested = .ofString suggested) : tagOf? tag.toJson = some tag := by
  have hcurrent : fieldOf? tag.toJson "currentTag" (nullableOf? textOf?) = some tag.current :=
    nullableOf?_ofOption _
  have hsuggested : fieldOf? tag.toJson "suggestedTag" textOf? = some suggested := by
    change textOf? (.ofDraft tag.suggested) = _
    rw [h, Json.ofDraft_ofString]
    rfl
  have hlocation : fieldOf? tag.toJson "filePath" textOf? = some tag.location := rfl
  have hpath : fieldOf? tag.toJson "relativePath" textOf? = some tag.path := rfl
  have hreason : fieldOf? tag.toJson "reason" textOf? = some tag.reason := rfl
  have hselected : fieldOf? tag.toJson "selected" truthOf? = some tag.selected := rfl
  unfold tagOf?
  rw [hlocation, hpath, hcurrent, hsuggested, hreason, hselected]
  change some { tag with suggested := .ofString suggested } = _
  rw [← h]

/-! ## What fits -/

theorem fits_ofOption (value : Option String) : (Shape.nullable .text).Fits (.ofOption value) := by
  cases value with
  | none => exact .null _
  | some text => exact .given (.text text)

theorem fits_strings (texts : List String) : (Shape.list .text).Fits (.strings texts) := by
  refine .list fun item hitem => ?_
  obtain ⟨text, -, rfl⟩ := List.mem_map.mp hitem
  exact .text text

theorem fits_settingFields (overrides : Settings.Overrides) :
    Shape.overrides.Fits (.object (settingFields overrides)) := by
  have hmaxTags : (Shape.nullable .integer).Fits ((overrides.maxTags.map Json.int).getD .null) := by
    cases overrides.maxTags with
    | none => exact .null _
    | some n => exact .given (.integer n)
  refine .record rfl (show List.Nodup ["max_inline_tags", "domain_inference_sensitivity",
    "exclude_patterns"] by decide) (List.forall_mem_cons.mpr ⟨hmaxTags, ?_⟩)
  exact List.forall_mem_cons.mpr
    ⟨fits_ofOption _, List.forall_mem_singleton.mpr (fits_strings overrides.excludes)⟩

theorem fits_generateBody (path : String) (overrides : Settings.Overrides) :
    Shape.generateBody.Fits (generateBody path overrides) := by
  refine .record rfl (show List.Nodup ["path", "settings"] by decide) ?_
  exact List.forall_mem_cons.mpr
    ⟨.text path, List.forall_mem_singleton.mpr (.given (fits_settingFields overrides))⟩

theorem fits_toJson {tag : InlineTag} {suggested : String}
    (h : tag.suggested = .ofString suggested) : Shape.tag.Fits tag.toJson := by
  have hsuggested : Shape.text.Fits (.ofDraft tag.suggested) := by
    rw [h, Json.ofDraft_ofString]
    exact .text suggested
  refine .record rfl (show List.Nodup ["filePath", "relativePath", "currentTag", "suggestedTag",
    "reason", "selected"] by decide) ?_
  refine List.forall_mem_cons.mpr ⟨.text _, List.forall_mem_cons.mpr ⟨.text _, ?_⟩⟩
  refine List.forall_mem_cons.mpr ⟨fits_ofOption _, List.forall_mem_cons.mpr ⟨hsuggested, ?_⟩⟩
  exact List.forall_mem_cons.mpr ⟨.text _, List.forall_mem_singleton.mpr (.truth tag.selected)⟩

/-! ## What is sent back -/

/-- The body that sends back what was generated. -/
def writeBody (path : String) (generation : Generation) : List (String × Json) :=
  [("path", .string path), ("claudeMd", .string generation.overview),
   ("repoIndex", .string generation.index),
   ("inlineTags", .array (generation.scan.tags.map InlineTag.toJson))]

theorem returnBody_record (around : Surroundings) (path : String) (generation : Generation) :
    returnBody path (.record (generationJson around generation)) =
      some (.object (writeBody path generation)) := rfl

theorem isPortable_toJson {tag : InlineTag} {suggested : String}
    (h : tag.suggested = .ofString suggested) (depth : Nat) :
    Json.IsPortable (depth + 1) tag.toJson := by
  refine .object (show List.Nodup ["filePath", "relativePath", "currentTag", "suggestedTag",
    "reason", "selected"] by decide) ?_
  refine List.forall_mem_cons.mpr ⟨.string depth _, List.forall_mem_cons.mpr ⟨.string depth _, ?_⟩⟩
  refine List.forall_mem_cons.mpr ⟨isPortable_ofOption depth _, List.forall_mem_cons.mpr ⟨?_, ?_⟩⟩
  · rw [h, Json.ofDraft_ofString]
    exact .string depth suggested
  · exact List.forall_mem_cons.mpr
      ⟨.string depth _, List.forall_mem_singleton.mpr (.bool depth tag.selected)⟩

theorem isPortable_writeBody {generation : Generation} (h : SuggestsTexts generation.scan.tags)
    (path : String) : Json.IsPortable Json.maxDepth (.object (writeBody path generation)) := by
  refine .object (show List.Nodup ["path", "claudeMd", "repoIndex", "inlineTags"] by decide) ?_
  refine List.forall_mem_cons.mpr ⟨.string 899 _, List.forall_mem_cons.mpr ⟨.string 899 _, ?_⟩⟩
  refine List.forall_mem_cons.mpr ⟨.string 899 _, List.forall_mem_singleton.mpr (.array ?_)⟩
  intro item hitem
  obtain ⟨tag, htag, rfl⟩ := List.mem_map.mp hitem
  obtain ⟨suggested, hsuggested⟩ := h tag htag
  exact isPortable_toJson hsuggested 897

theorem fits_writeBody {generation : Generation} (h : SuggestsTexts generation.scan.tags)
    (path : String) : Shape.writeBody.Fits (.object (writeBody path generation)) := by
  refine .record rfl (show List.Nodup ["path", "claudeMd", "repoIndex", "inlineTags"] by decide) ?_
  refine List.forall_mem_cons.mpr ⟨.text _, List.forall_mem_cons.mpr ⟨.text _, ?_⟩⟩
  refine List.forall_mem_cons.mpr ⟨.text _, List.forall_mem_singleton.mpr (.list ?_)⟩
  intro item hitem
  obtain ⟨tag, htag, rfl⟩ := List.mem_map.mp hitem
  obtain ⟨suggested, hsuggested⟩ := h tag htag
  exact fits_toJson hsuggested

/-- What was generated comes back as it was sent. -/
theorem writeBodyOf?_writeBody {generation : Generation} (h : SuggestsTexts generation.scan.tags)
    (path : String) :
    writeBodyOf? (.object (writeBody path generation)) =
      some ⟨path, generation.overview, generation.index, generation.scan.tags⟩ := by
  have htags : fieldOf? (.object (writeBody path generation)) "inlineTags" (listOf? tagOf?) =
      some generation.scan.tags := by
    refine listOf?_map fun tag htag => ?_
    obtain ⟨suggested, hsuggested⟩ := h tag htag
    exact tagOf?_toJson hsuggested
  have hpath : fieldOf? (.object (writeBody path generation)) "path" textOf? = some path := rfl
  have hoverview : fieldOf? (.object (writeBody path generation)) "claudeMd" textOf? =
      some generation.overview := rfl
  have hindex : fieldOf? (.object (writeBody path generation)) "repoIndex" textOf? =
      some generation.index := rfl
  unfold writeBodyOf?
  rw [hpath, hoverview, hindex, htags]
  rfl

/-! ## What the service answers -/

section Answers

variable [Yaml.Reader] {around : Surroundings} (hcarries : around.framework.Carries)
  {tree : Tree} {generation : Generation}

omit [Yaml.Reader] in
theorem withBody_of_ok {shape : Shape} {body : List Char} {value : Json} {read : Json → Option α}
    {told : α} (hreceive : around.framework.receive shape body = .ok value)
    (hread : read value = some told) (next : α → StateM Tree Answer) :
    withBody around shape read body next = next told := by
  unfold withBody
  rw [hreceive]
  dsimp only
  rw [hread]

omit [Yaml.Reader] in
theorem withBody_of_error {shape : Shape} {body : List Char} {answer : Answer}
    (hreceive : around.framework.receive shape body = .error answer) (read : Json → Option α)
    (next : α → StateM Tree Answer) :
    withBody around shape read body next = pure answer := by
  unfold withBody
  rw [hreceive]

/-- A posted body is handed to the operation. -/
theorem run_post {reference : String} {operation : Operation}
    (hroute : around.framework.route "POST" reference = .ok operation) (body : Json)
    (tree : Tree) :
    (post around reference body).run tree =
      (runOperation around body.write operation).run tree := by
  unfold post answer
  dsimp only
  rw [hroute]
  change StateT.run (runOperation around body.write operation >>=
    fun answer => return forMethod "POST" answer) tree = _
  generalize runOperation around body.write operation = run
  rfl

include hcarries

theorem run_generate (h : ∀ n ∈ overrides.maxTags, ¬ Number.IsLong n) (path : String)
    (tree : Tree) :
    (post around "/generate" (generateBody path overrides)).run tree =
      (answerOf (generationJson around)
        (Project.generateWith tree around.shell around.git.listing path overrides), tree) := by
  have hroute : around.framework.route "POST" "/generate" = .ok .generate :=
    hcarries.route .generate
  have hreceive := hcarries.receive (Json.read_write (isPortable_generateBody h path))
    (fits_generateBody path overrides)
  rw [run_post hroute, runOperation,
    withBody_of_ok hreceive (generateBodyOf?_generateBody path overrides)]
  rfl

/-- An integer with too many digits is no body that the service takes. -/
theorem run_generate_of_long {n : Int} (hn : overrides.maxTags = some n) (hlong : Number.IsLong n)
    (path : String) (tree : Tree) :
    (post around "/generate" (generateBody path overrides)).run tree =
      (.detail 400 "There was an error parsing the body", tree) := by
  have hroute : around.framework.route "POST" "/generate" = .ok .generate :=
    hcarries.route .generate
  obtain ⟨position, hread⟩ := Json.read_write_refused (refuses_generateBody hn hlong path)
  rw [run_post hroute, runOperation, withBody_of_error (hcarries.refuse hread)]
  rfl

theorem run_write (h : SuggestsTexts generation.scan.tags) (path : String) (tree : Tree) :
    (post around "/write" (.object (writeBody path generation))).run tree =
      let delivered := Project.deliver around.shell path generation tree
      (answerOf WriteReport.toJson delivered.1, delivered.2) := by
  have hroute : around.framework.route "POST" "/write" = .ok .write := hcarries.route .write
  have hreceive := hcarries.receive (Json.read_write (isPortable_writeBody h path))
    (fits_writeBody h path)
  rw [run_post hroute, runOperation, withBody_of_ok hreceive (writeBodyOf?_writeBody h path)]
  unfold write Project.deliver
  dsimp only
  generalize Project.write around.shell path (.ofString generation.overview)
    (.ofString generation.index) generation.scan.tags = run
  rw [StateT.run_bind]
  rcases StateT.run run tree with ⟨outcome, after⟩
  cases outcome with
  | error cause => rfl
  | ok report =>
      dsimp only [bind, Except.bind]
      unfold Project.settled
      cases report.stopped <;> rfl

omit [Yaml.Reader] hcarries in
/-- The client gets no documents if the service generates none. -/
theorem returnBody_ofFailure (path : String) (cause : Failure) :
    returnBody path (.ofFailure cause) = none := by
  unfold Answer.ofFailure
  cases cause.kind <;> rfl

theorem run_session_of_long {n : Int} (hn : overrides.maxTags = some n) (hlong : Number.IsLong n)
    (path : String) (tree : Tree) :
    (session around path overrides).run tree =
      ((.detail 400 "There was an error parsing the body", none), tree) := by
  have hgenerate := run_generate_of_long hcarries hn hlong path tree
  unfold session
  rw [StateT.run_bind, hgenerate]
  rfl

theorem run_session_of_error (h : ∀ n ∈ overrides.maxTags, ¬ Number.IsLong n) {cause : Failure}
    (herror : Project.generateWith tree around.shell around.git.listing path overrides =
      .error cause) :
    (session around path overrides).run tree = ((.ofFailure cause, none), tree) := by
  have hgenerate := run_generate hcarries h path tree
  rw [herror] at hgenerate
  unfold session
  rw [StateT.run_bind, hgenerate]
  change StateT.run (match returnBody path (.ofFailure cause) with
    | none => pure (.ofFailure cause, none)
    | some body => do
        return (.ofFailure cause, some (← post around "/write" body)) :
      StateM Tree (Answer × Option Answer)) tree = _
  rw [returnBody_ofFailure]
  rfl

/-- What the service generates is sent back to it and delivered. -/
theorem run_session_of_ok (h : ∀ n ∈ overrides.maxTags, ¬ Number.IsLong n)
    (hok : Project.generateWith tree around.shell around.git.listing path overrides =
      .ok generation) :
    (session around path overrides).run tree =
      let delivered := Project.deliver around.shell path generation tree
      ((.record (generationJson around generation),
        some (answerOf WriteReport.toJson delivered.1)), delivered.2) := by
  have hgenerate := run_generate hcarries h path tree
  have hwrite := run_write hcarries (Project.suggestsTexts_of_generateWith hok) path tree
  rw [hok] at hgenerate
  unfold session
  rw [StateT.run_bind, hgenerate]
  change StateT.run (match returnBody path (.record (generationJson around generation)) with
    | none => pure (.record (generationJson around generation), none)
    | some body => do
        return (.record (generationJson around generation), some (← post around "/write" body)) :
      StateM Tree (Answer × Option Answer)) tree = _
  rw [returnBody_record]
  dsimp only
  generalize post around "/write" (.object (writeBody path generation)) = run at hwrite ⊢
  rw [StateT.run_bind, hwrite]
  rfl

end Answers

end SourceAtlas.Service

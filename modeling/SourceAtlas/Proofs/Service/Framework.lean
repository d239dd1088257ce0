import SourceAtlas.Proofs.Json.Reading
import SourceAtlas.Proofs.Outcome
import SourceAtlas.Service.Framework

/-!
# What is relied on of the framework

A value fits a shape if it has this shape as it stands. Of a framework it is relied on that it leads
to the operations, that it hands on a body that fits as it was sent, and that it turns a body down
whose integers are too long. The framework of the service does all of it.
-/

namespace SourceAtlas.Service

/-- The value has the shape as it stands: texts, integers, truth values and lists where they are
expected, and every field of a record, in order. -/
inductive Shape.Fits : Shape → Json → Prop
  | text (text : String) : Fits .text (.string text)
  | integer (n : Int) : Fits .integer (.int n)
  | truth (b : Bool) : Fits .truth (.bool b)
  | null (shape : Shape) : Fits (.nullable shape) .null
  | given {shape : Shape} {value : Json} (h : Fits shape value) : Fits (.nullable shape) value
  | list {shape : Shape} {items : List Json} (h : ∀ item ∈ items, Fits shape item) :
      Fits (.list shape) (.array items)
  | record {fields : List (String × Shape × Option Json)} {given : List (String × Json)}
      (names : given.map Prod.fst = fields.map Prod.fst) (distinct : (given.map Prod.fst).Nodup)
      (h : ∀ pair ∈ fields.zip given, Fits pair.1.2.1 pair.2.2) :
      Fits (.record fields) (.object given)

/-- What is relied on of a framework. -/
structure Framework.Carries (framework : Framework) : Prop where
  /-- The path of an operation leads to it. -/
  route : ∀ operation : Operation,
    framework.route operation.method operation.path = .ok operation
  /-- A body that fits is handed on as it was sent. -/
  receive : ∀ {shape : Shape} {body : List Char} {value : Json}, Json.read body = .ok value →
    shape.Fits value → framework.receive shape body = .ok value
  /-- A body with an integer of too many digits is turned down. -/
  refuse : ∀ {shape : Shape} {body : List Char} {position : Nat},
    Json.read body = .error ⟨.hugeInteger, position⟩ →
    framework.receive shape body = .error (.detail 400 "There was an error parsing the body")

/-! ## Checking what fits -/

section Checking

open Checked

theorem itemsFrom_eq_ok {check : Json → Checked Json} {items : List Json}
    (h : ∀ item ∈ items, check item = .ok item) (index : Nat) :
    itemsFrom check index items = .ok items := by
  induction items generalizing index with
  | nil => rfl
  | cons item items ih =>
      have hrest := ih (fun other hother => h other (List.mem_cons_of_mem item hother)) (index + 1)
      rw [itemsFrom, h item List.mem_cons_self, hrest]
      rfl

/-- Fields that are all there are checked one after the other. -/
theorem checkFields_eq_ok {fields : List (String × Shape × Option Json)}
    {all given : List (String × Json)} (hnames : given.map Prod.fst = fields.map Prod.fst)
    (hlookup : ∀ field ∈ given, all.lookup field.1 = some field.2)
    (h : ∀ pair ∈ fields.zip given, pair.1.2.1.check pair.2.2 = .ok pair.2.2) :
    Shape.checkFields fields all = .ok given := by
  induction fields generalizing given with
  | nil =>
      obtain rfl := List.map_eq_nil_iff.mp hnames
      rfl
  | cons field fields ih =>
      cases given with
      | nil => cases hnames
      | cons first given =>
          obtain ⟨name, shape, default⟩ := field
          obtain ⟨other, value⟩ := first
          obtain ⟨hname, hrest⟩ := List.cons.inj hnames
          dsimp only at hname
          subst hname
          rw [List.zip_cons_cons, List.forall_mem_cons] at h
          have hvalue := hlookup (other, value) List.mem_cons_self
          have hrest := ih hrest (fun field hfield =>
            hlookup field (List.mem_cons_of_mem _ hfield)) h.2
          dsimp only at h hvalue
          unfold Shape.checkFields
          rw [hvalue, hrest]
          dsimp only
          rw [h.1]
          rfl

theorem lookup_of_mem {given : List (String × Json)} (h : (given.map Prod.fst).Nodup)
    {field : String × Json} (hmem : field ∈ given) : given.lookup field.1 = some field.2 := by
  obtain ⟨before, after, rfl⟩ := List.append_of_mem hmem
  refine List.lookup_eq_some_iff.mpr ⟨before, after, rfl, fun other hother => ?_⟩
  rw [List.map_append, List.map_cons] at h
  have hne := (List.nodup_append.mp h).2.2 other.1 (List.mem_map_of_mem hother) field.1
    List.mem_cons_self
  exact bne_iff_ne.mpr hne.symm

/-- A value that fits is checked to be itself. -/
theorem Shape.Fits.check_eq_ok {shape : Shape} {value : Json} (h : shape.Fits value) :
    shape.check value = .ok value := by
  induction h with
  | text text => rfl
  | integer n => rfl
  | truth b => rfl
  | null shape => rfl
  | @given shape value _ ih =>
      by_cases hnull : value = .null
      · subst hnull
        rfl
      · rw [Shape.check]
        · exact ih
        · exact hnull
  | list _ ih =>
      rw [Shape.check, itemsFrom_eq_ok ih]
      rfl
  | record names distinct _ ih =>
      rw [Shape.check, checkFields_eq_ok names (fun field => lookup_of_mem distinct) ih]
      rfl

end Checking

/-! ## The framework of the service -/

namespace Payload

/-- A text with the mark of byte order in front is no JSON. -/
theorem read_mark (rest : List Char) :
    Json.read (byteOrderMark :: rest) = .error ⟨.expectedValue, 0⟩ := by
  have hskip : Json.skipSpace (byteOrderMark :: rest) = byteOrderMark :: rest := rfl
  have hvalue : Json.readValue Json.maxDepth (byteOrderMark :: rest) =
      Json.stopAt .expectedValue (byteOrderMark :: rest) := rfl
  unfold Json.read
  rw [hskip, hvalue]
  simp only [Json.stopAt, bind, Except.bind, Outcome.mapError_error, Nat.sub_self]

/-- What is read as JSON, or stops at an integer, is not empty and has no mark in front. -/
theorem eq_of_read {body : List Char} {outcome : Except Json.ReadError Json}
    (h : Json.read body = outcome)
    (hstop : outcome ≠ .error ⟨.expectedValue, 0⟩) :
    body.isEmpty = false ∧ withoutMark body = body := by
  subst h
  cases body with
  | nil => exact absurd rfl hstop
  | cons c rest =>
      refine ⟨rfl, if_neg ?_⟩
      rintro rfl
      exact hstop (read_mark rest)

theorem ofText_of_read {body : List Char} {value : Json} (h : Json.read body = .ok value) :
    ofText body = .given value := by
  obtain ⟨hne, hmark⟩ := eq_of_read h nofun
  unfold ofText
  rw [hne, hmark, h]
  rfl

theorem ofText_of_hugeInteger {body : List Char} {position : Nat}
    (h : Json.read body = .error ⟨.hugeInteger, position⟩) : ofText body = .unreadable := by
  obtain ⟨hne, hmark⟩ := eq_of_read h nofun
  unfold ofText
  rw [hne, hmark, h]
  rfl

end Payload

/-- The path of an operation leads to it. -/
theorem Route.ofReference_path (operation : Operation) :
    ofReference operation.method operation.path = .found operation := by
  cases operation <;> decide +kernel

theorem Framework.carries_standard : Framework.standard.Carries where
  route operation := by
    unfold Framework.standard
    dsimp only
    rw [Route.ofReference_path]
  receive := by
    intro shape body value hread hfits
    unfold Framework.standard
    dsimp only
    rw [Payload.ofText_of_read hread]
    dsimp only
    rw [hfits.check_eq_ok]
    rfl
  refuse := by
    intro shape body position hread
    unfold Framework.standard
    dsimp only
    rw [Payload.ofText_of_hugeInteger hread]

end SourceAtlas.Service

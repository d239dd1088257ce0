import SourceAtlas.Proofs.Import.Reading
import SourceAtlas.Proofs.Text.Order
import SourceAtlas.Tag.Ranking

/-!
# Exports below a tag

The wording of the signs has no export in it, and no export goes through the hyphen in front of it.
So a tag on top of a text takes no export away, whatever the domain in the tag is called.
-/

namespace SourceAtlas

namespace ImportRule

variable {rule : ImportRule} {front back text : List Char}

/-- No match starts in the text, whatever follows it. -/
def Silent (rule : ImportRule) : List Char → Prop
  | [] => True
  | c :: front => (∀ back, rule.matchesAt (c :: (front ++ back)) = []) ∧ rule.Silent front

theorem Silent.quiet (h : rule.Silent front) (back : List Char) : rule.Quiet front back := by
  induction front with
  | nil => trivial
  | cons c front ih => exact ⟨h.1 back, ih h.2⟩

theorem Silent.append (hfront : rule.Silent front) (hback : rule.Silent back) :
    rule.Silent (front ++ back) := by
  induction front with
  | nil => exact hback
  | cons c front ih =>
      refine ⟨fun after => ?_, ih hfront.2⟩
      have hnone := hfront.1 (back ++ after)
      rwa [← List.append_assoc] at hnone

/-- The texts differ at some place that both of them have. -/
def clashes : List Char → List Char → Bool
  | d :: start, c :: text => c != d || clashes start text
  | _, _ => false

theorem ne_of_clashes {start : List Char} (h : clashes start text = true) (back more : List Char) :
    text ++ back ≠ start ++ more := by
  induction start generalizing text with
  | nil => simp [clashes] at h
  | cons d start ih =>
      cases text with
      | nil => simp [clashes] at h
      | cons c text =>
          intro hsame
          rw [List.cons_append, List.cons_append, List.cons.injEq] at hsame
          obtain ⟨rfl, hsame⟩ := hsame
          exact ih (by simpa [clashes] using h) hsame

theorem matchesAt_of_clashes (h : clashes rule.lead.leading text = true) (back : List Char) :
    rule.matchesAt (text ++ back) = [] := by
  refine List.eq_nil_iff_forall_not_mem.mpr fun found hfound => ?_
  obtain ⟨eaten, hsplit⟩ := leading_of_matchesAt hfound
  exact ne_of_clashes h _ _ hsplit

/-! ## The wording of signs -/

theorem isFree_export : exportDeclaration.IsFree := isFree_of_leading rfl (by decide)

/-- Behind the word in the wording of a sign, no keyword follows. -/
theorem matchesAt_exportCount (sep : Char) (back : List Char) :
    exportDeclaration.matchesAt (("export count".toList ++ [sep]) ++ back) = [] := rfl

/-- From every place on, the text clashes with the start of an export or goes on with a count. -/
def isSilent (sep : Char) : List Char → Bool
  | [] => true
  | c :: text =>
      (clashes exportDeclaration.lead.leading (c :: text) ||
        c :: text == "export count".toList ++ [sep]) && isSilent sep text

theorem silent_of_isSilent {sep : Char} (h : isSilent sep front = true) :
    exportDeclaration.Silent front := by
  induction front with
  | nil => trivial
  | cons c front ih =>
      rw [isSilent, Bool.and_eq_true, Bool.or_eq_true, beq_iff_eq] at h
      refine ⟨fun back => ?_, ih h.2⟩
      rw [← List.cons_append]
      rcases h.1 with hclash | hcount
      · exact matchesAt_of_clashes hclash back
      · rw [hcount, matchesAt_exportCount]

theorem silent_sign (sign : Sign) {sep : Char} (hsep : sep = ',' ∨ sep = '\n') :
    exportDeclaration.Silent (sign.name.toList ++ [sep]) := by
  have hsilent : isSilent sep (sign.name.toList ++ [sep]) = true := by
    rcases hsep with rfl | rfl <;> cases sign <;> decide
  exact silent_of_isSilent hsilent

theorem silent_signs (signs : List Sign) :
    exportDeclaration.Silent ((", ".intercalate (signs.map Sign.name)).toList ++ ['\n']) := by
  rw [String.toList_intercalate]
  induction signs with
  | nil => exact silent_of_isSilent (show isSilent '\n' _ = true by decide)
  | cons sign signs ih =>
      cases signs with
      | nil => simpa [List.intercalate] using silent_sign sign (.inr rfl)
      | cons next signs =>
          have hspace : exportDeclaration.Silent [' '] :=
            silent_of_isSilent (show isSilent ' ' _ = true by decide)
          have hall := ((silent_sign sign (.inl rfl)).append hspace).append ih
          simpa [List.intercalate] using hall

end ImportRule

/-! ## Growing lists of exports -/

open ImportRule

/-- The exports behind a hyphen and the wording of signs are all found. -/
theorem exists_scan_below (front text : List Char) (signs : List Sign) :
    ∃ found, exportDeclaration.scan (front ++ '-' :: ' ' ::
        ((", ".intercalate (signs.map Sign.name)).toList ++ '\n' :: text)) =
      found ++ exportDeclaration.scan text := by
  obtain ⟨found, hfound⟩ := isFree_export.reads_to (c := '-') (by decide) front
    (' ' :: ((", ".intercalate (signs.map Sign.name)).toList ++ '\n' :: text))
  have hgap : exportDeclaration.Silent ['-', ' '] :=
    silent_of_isSilent (show isSilent ' ' _ = true by decide)
  have hbelow := ((hgap.append (silent_signs signs)).quiet text).reads
  simp only [List.append_assoc, List.cons_append, List.nil_append] at hbelow
  have hall := (hfound.trans hbelow).scan isFree_export
  exact ⟨found, by rw [hall, List.append_nil]⟩

theorem length_exportsOf_le (language : Language) (front text : List Char) (signs : List Sign) :
    (language.exportsOf text).length ≤ (language.exportsOf (front ++ '-' :: ' ' ::
      ((", ".intercalate (signs.map Sign.name)).toList ++ '\n' :: text))).length := by
  refine Text.length_sortDistinct_le fun name hname => ?_
  have hrules : language.exportRules = [] ∨ language.exportRules = [exportDeclaration] := by
    cases language <;> simp [Language.exportRules]
  rcases hrules with hnone | hexport
  · rw [hnone] at hname
    exact absurd hname List.not_mem_nil
  · obtain ⟨found, hscan⟩ := exists_scan_below front text signs
    rw [hexport] at hname ⊢
    simp only [List.flatMap_cons, List.flatMap_nil, List.append_nil] at hname ⊢
    rw [hscan, List.map_append]
    exact List.mem_append_right _ hname

end SourceAtlas

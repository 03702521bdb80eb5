import Metrology.Proofs.Parse.Numbers
import Metrology.Proofs.Registry.Exponents

/-!
# Quantities that read back from their own texts

A quantity is written as its value and its unit, and read back as the very same quantity, with one
exception: negative infinity is written in a way that is read as no number.
-/
namespace Metrology.Registry

open Composite Decimal

variable {r : Registry} {q : Quantity} {text : String}

theorem parseQuantity_eq_ok_iff :
    r.parseQuantity text = .ok q ↔
      ∃ e, Parse.quantity text = .ok (q.value, e) ∧ r.resolve e = .ok q.unit := by
  constructor
  · intro read
    obtain ⟨⟨value, e⟩, quantity, rest⟩ := bind_eq_ok.mp read
    obtain ⟨u, resolved, whole⟩ := bind_eq_ok.mp rest
    cases whole
    exact ⟨e, quantity, resolved⟩
  · rintro ⟨e, quantity, resolved⟩
    rw [parseQuantity, quantity, bind_ok]
    simp only [resolved]
    rfl

theorem parseQuantity_eq_error {error : UnitError} (refused : Parse.quantity text = .error error) :
    r.parseQuantity text = .error error := by
  rw [parseQuantity, refused]
  rfl

/-! ### The text of a quantity -/

theorem quantityText_of_none (none : q.unit.composite = 1) :
    r.quantityText q = Layout.plain.text q.value := by
  have isNone : q.unit.isNone = true := isEmpty_eq_true_iff.mpr none
  rw [quantityText, isNone]
  rfl

theorem quantityText_of_unit (plain : r.Plain q.unit) (some : q.unit.composite ≠ 1) :
    r.quantityText q =
      Layout.plain.text q.value ++ " " ++ q.unit.composite.text r.unitSymbol := by
  have isSome : q.unit.isNone = false :=
    Bool.eq_false_iff.mpr fun isNone => some (isEmpty_eq_true_iff.mp isNone)
  rw [quantityText, isSome, unitText_eq plain]
  rfl

/-! ### Reading back -/

/-- A quantity is read back from its text if its value is not negative infinity. -/
theorem parseQuantity_quantityText (wf : r.WellFormed) (legible : r.Legible)
    (plain : r.Plain q.unit) (expressible : r.Expressible q.unit)
    (other : q.value ≠ negativeInfinity) : r.parseQuantity (r.quantityText q) = .ok q := by
  -- Without a unit nothing follows the value, not even a space.
  by_cases none : q.unit.composite = 1
  · refine parseQuantity_eq_ok_iff.mpr ⟨.noUnit, ?_, congrArg (Except.ok ∘ Unit.mk) none.symm⟩
    rw [quantityText_of_none none]
    exact Parse.quantity_text other
  · have readable := expressible.readable legible
    refine parseQuantity_eq_ok_iff.mpr
      ⟨_, ?_, resolve_tree wf plain fun entry member => (expressible entry member).1⟩
    rw [quantityText_of_unit plain none]
    exact Parse.quantity_text_unit other
      (Parse.text_ne_nil (fun entry member => .inl (readable entry member)) none)
      (Parse.dense_text readable none) (Parse.unit_text_eq_ok readable none)

/-- A quantity whose value is negative infinity is refused. -/
theorem parseQuantity_negativeInfinity (legible : r.Legible) (plain : r.Plain q.unit)
    (expressible : r.Expressible q.unit) (infinite : q.value = negativeInfinity) :
    r.parseQuantity (r.quantityText q) = .error (Parse.noNumber (r.quantityText q)) := by
  refine parseQuantity_eq_error ?_
  by_cases none : q.unit.composite = 1
  · rw [quantityText_of_none none, infinite]
    exact Parse.quantity_negativeInfinity
      (Parse.trimBlanks_eq_self (Parse.dense_text_number _)) (List.append_nil _).symm
  · have readable := expressible.readable legible
    have some := Parse.text_ne_nil (fun entry member => .inl (readable entry member)) none
    rw [quantityText_of_unit plain none, infinite]
    exact Parse.quantity_negativeInfinity
      (Parse.trimBlanks_text _ some (Parse.dense_text readable none)) (Parse.toList_spaced _ _)

/-- What is read from a text is read back from its own text, whatever its value, unless this is
negative infinity: then no number is found where the value should be. -/
theorem quantity_reads_back (reachable : r.Reachable) (legible : r.Legible)
    (read : r.parseQuantity text = .ok q) (within : q.unit.composite.WithinLimit) :
    (q.value ≠ negativeInfinity → r.parseQuantity (r.quantityText q) = .ok q) ∧
      (q.value = negativeInfinity →
        r.parseQuantity (r.quantityText q) = .error (Parse.noNumber (r.quantityText q))) := by
  have wf := reachable.wellFormed
  obtain ⟨e, -, resolved⟩ := parseQuantity_eq_ok_iff.mp read
  have elementary := elementary_resolve wf resolved
  have expressible := elementary.expressible_iff.mpr within
  exact ⟨parseQuantity_quantityText wf legible elementary.plain expressible,
    parseQuantity_negativeInfinity legible elementary.plain expressible⟩

/-- How the standard catalog reads and writes metres and kilometres per hour. -/
theorem standard_texts :
    ((Catalog.standard 0).resolve (.atom "m") = .ok ⟨single ⟨0, 5⟩⟩ ∧
      (Catalog.standard 0).unitText ⟨single ⟨0, 5⟩⟩ = "m") ∧
    (Catalog.standard 0).resolve (.frac (.atom "km") (.atom "h")) =
        .ok ⟨.ofList [(⟨0, 8⟩, 1), (⟨0, 24⟩, -1)]⟩ ∧
      (Catalog.standard 0).unitText ⟨.ofList [(⟨0, 8⟩, 1), (⟨0, 24⟩, -1)]⟩ = "km/h" := by
  decide +kernel

theorem parseQuantity_large_negative :
    (Catalog.standard 0).parseQuantity "-1e400 m" = .ok ⟨negativeInfinity, ⟨single ⟨0, 5⟩⟩⟩ :=
  parseQuantity_eq_ok_iff.mpr ⟨.atom "m", by decide +kernel, standard_texts.1.1⟩

/-- A speed of the standard catalog is read back. A length is not if it is negative and too large
for a double. -/
theorem speed_is_read_back :
    (∃ q, (Catalog.standard 0).parseQuantity "-2.5e-1 km/h" = .ok q ∧
      (Catalog.standard 0).quantityText q = "-0.25 km/h" ∧
      (Catalog.standard 0).parseQuantity "-0.25 km/h" = .ok q) ∧
    ∃ q, (Catalog.standard 0).parseQuantity "-1e400 m" = .ok q ∧
      (Catalog.standard 0).parseQuantity ((Catalog.standard 0).quantityText q) =
        .error (Parse.noNumber ((Catalog.standard 0).quantityText q)) := by
  have reachable := Catalog.reachable_standard 0
  have legible := Catalog.legible_standard 0
  obtain ⟨-, resolved, written⟩ := standard_texts
  have read : (Catalog.standard 0).parseQuantity "-2.5e-1 km/h" =
      .ok ⟨.ofBits 0xBFD0000000000000, ⟨.ofList [(⟨0, 8⟩, 1), (⟨0, 24⟩, -1)]⟩⟩ :=
    parseQuantity_eq_ok_iff.mpr ⟨_, by decide +kernel, resolved⟩
  have text : (Catalog.standard 0).quantityText
      ⟨.ofBits 0xBFD0000000000000, ⟨.ofList [(⟨0, 8⟩, 1), (⟨0, 24⟩, -1)]⟩⟩ = "-0.25 km/h" := by
    rw [quantityText, written]
    decide +kernel
  obtain ⟨back, -⟩ := quantity_reads_back reachable legible read (by decide +kernel)
  obtain ⟨-, refused⟩ :=
    quantity_reads_back reachable legible parseQuantity_large_negative (by decide +kernel)
  exact ⟨⟨_, read, text, text ▸ back (by decide +kernel)⟩, _, parseQuantity_large_negative,
    refused rfl⟩

/-- A text with a negative value that is too large for a double is accepted, but the text of what
was read is refused. -/
theorem negative_infinity_is_not_read_back :
    ∃ q, (Catalog.standard 0).parseQuantity "-1e400 m" = .ok q ∧ q.unit.composite.WithinLimit ∧
      (Catalog.standard 0).quantityText q = "-inf m" ∧
      (Catalog.standard 0).parseQuantity "-inf m" = .error (Parse.noNumber "-inf m") := by
  refine ⟨_, parseQuantity_large_negative, by decide +kernel, ?_,
    parseQuantity_eq_error (by decide +kernel)⟩
  rw [quantityText, standard_texts.1.2]
  decide +kernel

end Metrology.Registry

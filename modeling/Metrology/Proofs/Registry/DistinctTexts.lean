import Metrology.Proofs.Parse.Unambiguous
import Metrology.Proofs.Registry.Permanence
import Metrology.Proofs.Registry.ReadingBack
import Metrology.Proofs.Registry.Tags

/-!
# Different units and dimensions have different texts

Units are told apart by the symbols of their parts, of which a registry has each only once. Of the
symbols of scales nothing is checked, and in the standard catalog the symbol of areas is the text of
a squared distance. Dimensions are told apart nonetheless, since they are over base scales.
-/
namespace Metrology

namespace Registry

open Composite

variable {r : Registry} {k : Nat}

/-! ### Units -/

theorem eq_of_unitSymbol_eq (wf : r.WellFormed) {id other : UnitId} (known : r.HasUnit id)
    (knownToo : r.HasUnit other) (same : r.unitSymbol id = r.unitSymbol other) : id = other := by
  have found := findUnit_unitSymbol wf known
  rw [same, findUnit_unitSymbol wf knownToo] at found
  exact (Except.ok.inj found).symm

theorem Elementary.named (legible : r.Legible) {u : Unit} (elementary : r.Elementary u) :
    Parse.Named r.unitSymbol u.composite.entries := fun _ member =>
  isSymbol_of_hasUnit legible (issued_of_mem elementary.issued member)

theorem eq_of_unitText_eq (wf : r.WellFormed) (legible : r.Legible) {u w : Unit}
    (left : r.Elementary u) (right : r.Elementary w) (same : r.unitText u = r.unitText w) :
    u = w := by
  -- Neither unit has parts that stand for others, so that both are written as they are.
  rw [unitText_eq left.plain, unitText_eq right.plain] at same
  have composites : u.composite = w.composite :=
    Parse.eq_of_text_eq (left.named legible) (right.named legible)
      (fun _ here _ there => eq_of_unitSymbol_eq wf (issued_of_mem left.issued here)
        (issued_of_mem right.issued there)) same
  exact congrArg Unit.mk composites

/-! ### Dimensions -/

/-- The symbols of base scales are made of symbol characters, and no two of them are the same. -/
structure TellsScalesApart (r : Registry) : Prop where
  symbolic : ∀ scale ∈ r.scales, scale.isBase = true → Parse.IsSymbol scale.symbol.toList
  distinct : r.scales.Pairwise fun scale other =>
    scale.isBase = true → other.isBase = true → scale.symbol ≠ other.symbol

theorem tellsScalesApart_iff : r.TellsScalesApart ↔
    (∀ scale ∈ r.scales, scale.isBase = true → Parse.IsSymbol scale.symbol.toList) ∧
      r.scales.Pairwise fun scale other =>
        scale.isBase = true → other.isBase = true → scale.symbol ≠ other.symbol :=
  ⟨fun ⟨symbolic, distinct⟩ => ⟨symbolic, distinct⟩, fun ⟨symbolic, distinct⟩ => ⟨symbolic, distinct⟩⟩

instance : Decidable r.TellsScalesApart := decidable_of_iff _ tellsScalesApart_iff.symm

theorem TellsScalesApart.shift (apart : r.TellsScalesApart) : (r.shift k).TellsScalesApart where
  symbolic := List.forall_mem_map.mpr fun scale member base =>
    apart.symbolic scale member (by simpa [Scale.isBase, Scale.shift] using base)
  distinct := List.pairwise_map.mpr <| apart.distinct.imp fun differ base baseToo =>
    differ (by simpa [Scale.isBase, Scale.shift] using base)
      (by simpa [Scale.isBase, Scale.shift] using baseToo)

theorem IsBaseScale.exists_getElem {id : ScaleId} (base : r.IsBaseScale id) :
    id.registry = r.tag ∧ ∃ bound : id.index < r.scales.length,
      r.scales[id.index].isBase = true ∧ r.scaleSymbol id = r.scales[id.index].symbol := by
  obtain ⟨scale, found, underived⟩ := base
  obtain ⟨own, place⟩ := scale?_eq_some_iff.mp found
  obtain ⟨bound, rfl⟩ := List.getElem?_eq_some_iff.mp place
  refine ⟨own, bound, ?_, ?_⟩
  · rw [Scale.isBase, underived]
    rfl
  · rw [scaleSymbol, found]

theorem TellsScalesApart.isSymbol (apart : r.TellsScalesApart) {id : ScaleId}
    (base : r.IsBaseScale id) : Parse.IsSymbol (r.scaleSymbol id).toList := by
  obtain ⟨-, bound, elementary, symbol⟩ := base.exists_getElem
  rw [symbol]
  exact apart.symbolic _ (List.getElem_mem bound) elementary

theorem TellsScalesApart.not_lt (apart : r.TellsScalesApart) {id other : ScaleId}
    (base : r.IsBaseScale id) (baseToo : r.IsBaseScale other)
    (same : r.scaleSymbol id = r.scaleSymbol other) : ¬ id.index < other.index := by
  obtain ⟨-, bound, elementary, symbol⟩ := base.exists_getElem
  obtain ⟨-, boundToo, elementaryToo, symbolToo⟩ := baseToo.exists_getElem
  intro earlier
  have differ := List.pairwise_iff_getElem.mp apart.distinct _ _ bound boundToo earlier
  exact differ elementary elementaryToo (symbol.symm.trans (same.trans symbolToo))

theorem TellsScalesApart.eq_of_scaleSymbol_eq (apart : r.TellsScalesApart) {id other : ScaleId}
    (base : r.IsBaseScale id) (baseToo : r.IsBaseScale other)
    (same : r.scaleSymbol id = r.scaleSymbol other) : id = other := by
  have registry : id.registry = other.registry :=
    base.exists_getElem.1.trans baseToo.exists_getElem.1.symm
  -- The symbols of two scales differ if one was declared before the other.
  have index : id.index = other.index :=
    Nat.le_antisymm (Nat.le_of_not_lt (apart.not_lt baseToo base same.symm))
      (Nat.le_of_not_lt (apart.not_lt base baseToo same))
  exact congrArg₂ Ident.mk registry index

theorem TellsScalesApart.eq_of_dimensionText_eq (apart : r.TellsScalesApart) {d e : Dimension}
    (left : d.composite.AllAtoms r.IsBaseScale) (right : e.composite.AllAtoms r.IsBaseScale)
    (same : r.dimensionText d = r.dimensionText e) : d = e := by
  have composites : d.composite = e.composite :=
    Parse.eq_of_text_eq (fun _ member => apart.isSymbol (left.of_mem member))
      (fun _ member => apart.isSymbol (right.of_mem member))
      (fun _ here _ there => apart.eq_of_scaleSymbol_eq (left.of_mem here) (right.of_mem there)) same
  exact congrArg Dimension.mk composites

end Registry

/-! ### The standard catalog -/

namespace Catalog

open Registry Std

theorem tellsScalesApart_standard (tag : Nat) : (standard tag).TellsScalesApart := by
  have computed : (standard 0).TellsScalesApart := by decide +kernel
  rw [standard_eq_shift]
  exact computed.shift

-- The symbols of derived scales do not count: that of areas is what a squared distance prints as.
example : (standard 0).scaleSymbol ⟨0, 8⟩ =
    (standard 0).dimensionText ⟨.ofList [(⟨0, 0⟩, 2)]⟩ := by
  decide +kernel

/-! ### Main result -/

/-- Whatever names are given to atoms, as long as they are different and made of symbol characters,
different composites have different texts. So have different units of a registry with legible
symbols, such as the standard catalog, and different dimensions of units of the latter. -/
theorem texts_are_injective :
    (∀ {α : Type} [Ord α] [TransOrd α] [LawfulEqOrd α] (name : α → String),
      Function.Injective name → (∀ a, Parse.IsSymbol (name a).toList) →
      ∀ c d : Composite α, c ≠ d → c.text name ≠ d.text name) ∧
    (∀ {r : Registry} {a b : Unit}, r.Legible → Built r a → Built r b →
      a ≠ b → r.unitText a ≠ r.unitText b) ∧
    ∀ {tag : Nat} {a b : Unit}, Built (standard tag) a → Built (standard tag) b →
      (a ≠ b → (standard tag).unitText a ≠ (standard tag).unitText b) ∧
      ∃ da db, (standard tag).dimension a = .ok da ∧ (standard tag).dimension b = .ok db ∧
        (da ≠ db → (standard tag).dimensionText da ≠ (standard tag).dimensionText db) := by
  have units : ∀ {r : Registry} {a b : Unit}, r.Legible → Built r a → Built r b →
      a ≠ b → r.unitText a ≠ r.unitText b := fun legible left right =>
    mt (eq_of_unitText_eq left.reachable.wellFormed legible left.elementary right.elementary)
  refine ⟨?composites, units, fun {tag a b} left right =>
    ⟨units (legible_standard tag) left right, ?dimensions⟩⟩
  case composites =>
    intro α _ _ _ name injective symbolic c d differ same
    refine differ (Parse.eq_of_text_eq (fun _ _ => symbolic _) (fun _ _ => symbolic _) ?_ same)
    exact fun _ _ _ _ alike => injective alike
  case dimensions =>
    have wf := (reachable_standard tag).wellFormed
    have first := left.elementary
    have second := right.elementary
    refine ⟨_, _, first.dimension_eq, second.dimension_eq, ?_⟩
    -- Derived scales have been expanded, so that their symbols are not written.
    exact mt ((tellsScalesApart_standard tag).eq_of_dimensionText_eq (first.allAtoms_dimension wf)
      (second.allAtoms_dimension wf))

/-- A large power of metres is no fraction; square metres are no newtons, neither as units nor as
dimensions. -/
theorem square_metres_are_no_newtons :
    (Composite.ofList [(true, 1001)]).text (fun b => cond b "m" "s") ≠
      (Composite.ofList [(true, -1001)]).text (fun b => cond b "m" "s") ∧
    ∃ a b da db, (standard 0).parseUnit "m²" = .ok a ∧ (standard 0).parseUnit "N" = .ok b ∧
      (standard 0).unitText a ≠ (standard 0).unitText b ∧
      (standard 0).dimension a = .ok da ∧ (standard 0).dimension b = .ok db ∧
      (standard 0).dimensionText da ≠ (standard 0).dimensionText db := by
  obtain ⟨composites, inRegistry, inCatalog⟩ := texts_are_injective
  constructor
  · have injective : Function.Injective fun b => cond b "m" "s" := by
      intro b other same
      cases b <;> cases other <;> simp at same ⊢
    exact composites _ injective (by decide) _ _ (by decide +kernel)
  · have computed : (standard 0).parseUnit "m²" = .ok ⟨.ofList [(⟨0, 5⟩, 2)]⟩ ∧
        (standard 0).parseUnit "N" = .ok ⟨.single ⟨0, 84⟩⟩ ∧
        (standard 0).dimension ⟨.ofList [(⟨0, 5⟩, 2)]⟩ ≠
          (standard 0).dimension ⟨.single ⟨0, 84⟩⟩ := by
      decide +kernel
    obtain ⟨area, force, differ⟩ := computed
    have left := Built.parsed (reachable_standard 0) area
    have right := Built.parsed (reachable_standard 0) force
    have units := inRegistry (legible_standard 0) left right (by decide +kernel)
    obtain ⟨-, da, db, ofArea, ofForce, dimensions⟩ := inCatalog left right
    refine ⟨_, _, da, db, area, force, units, ofArea, ofForce, dimensions ?_⟩
    rintro rfl
    exact differ (ofArea.trans ofForce.symm)

end Catalog

end Metrology

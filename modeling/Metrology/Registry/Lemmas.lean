import Metrology.Registry.Declare

/-!
# Lookup and declaration

What lookups find. A declaration that succeeds adds one entry and its
name, which was free, with the next number; all other lookups stay as they are.
-/
namespace Metrology.Registry

variable {r : Registry}

/-! ### Identifiers -/

theorem scale?_eq_some_iff {id : ScaleId} {scale : Scale} :
    r.scale? id = some scale ↔ id.registry = r.tag ∧ r.scales[id.index]? = some scale := by
  simp [scale?]

theorem unit?_eq_some_iff {id : UnitId} {unit : NamedUnit} :
    r.unit? id = some unit ↔ id.registry = r.tag ∧ r.units[id.index]? = some unit := by
  simp [unit?]

/-! ### Names -/

theorem findScale_eq_ok_iff {name : String} {id : ScaleId} :
    r.findScale name = .ok id ↔ r.scaleNames.lookup name = some id := by
  unfold findScale
  cases r.scaleNames.lookup name <;> simp

theorem findUnit_eq_ok_iff {symbol : String} {id : UnitId} :
    r.findUnit symbol = .ok id ↔ r.unitSymbols.lookup symbol = some id := by
  unfold findUnit
  cases r.unitSymbols.lookup symbol <;> simp

/-! ### Declarations that succeed -/

theorem appendScale_eq_ok_iff {scale : Scale} {id : ScaleId} {after : Registry} :
    r.appendScale scale = .ok (id, after) ↔
      r.scaleNames.lookup scale.name = none ∧ id = ⟨r.tag, r.scales.length⟩ ∧
        after = r.withScale scale := by
  unfold appendScale
  split
  next taken =>
    simp only [reduceCtorEq, false_iff]
    rintro ⟨free, -⟩
    simp [free] at taken
  next free =>
    have absent : r.scaleNames.lookup scale.name = none := Option.not_isSome_iff_eq_none.mp free
    simp only [Except.ok.injEq, Prod.mk.injEq, eq_comm (b := id), eq_comm (b := after)]
    exact ⟨fun same => ⟨absent, same⟩, And.right⟩

theorem appendUnit_eq_ok_iff {unit : NamedUnit} {id : UnitId} {after : Registry} :
    r.appendUnit unit = .ok (id, after) ↔
      r.unitSymbols.lookup unit.symbol = none ∧ id = ⟨r.tag, r.units.length⟩ ∧
        after = r.withUnit unit := by
  unfold appendUnit
  split
  next taken =>
    simp only [reduceCtorEq, false_iff]
    rintro ⟨free, -⟩
    simp [free] at taken
  next free =>
    have absent : r.unitSymbols.lookup unit.symbol = none := Option.not_isSome_iff_eq_none.mp free
    simp only [Except.ok.injEq, Prod.mk.injEq, eq_comm (b := id), eq_comm (b := after)]
    exact ⟨fun same => ⟨absent, same⟩, And.right⟩

/-! ### Lookup after an addition -/

theorem scale?_next : r.scale? ⟨r.tag, r.scales.length⟩ = none := by
  simp [scale?]

theorem unit?_next : r.unit? ⟨r.tag, r.units.length⟩ = none := by
  simp [unit?]

theorem getElem?_concat {β : Type} (items : List β) (item : β) (index : Nat) :
    (items ++ [item])[index]? = if index = items.length then some item else items[index]? := by
  by_cases next : index = items.length
  · simp [next]
  · rw [if_neg next]
    rcases Nat.lt_or_gt_of_ne next with before | beyond
    · exact List.getElem?_append_left before
    · rw [List.getElem?_eq_none (by simp; omega), List.getElem?_eq_none (by omega)]

theorem scale?_withScale (scale : Scale) (id : ScaleId) :
    (r.withScale scale).scale? id
      = if id = ⟨r.tag, r.scales.length⟩ then some scale else r.scale? id := by
  obtain ⟨registry, index⟩ := id
  simp only [scale?, withScale, Ident.mk.injEq, getElem?_concat]
  by_cases own : registry = r.tag <;> simp [own]

theorem unit?_withUnit (unit : NamedUnit) (id : UnitId) :
    (r.withUnit unit).unit? id
      = if id = ⟨r.tag, r.units.length⟩ then some unit else r.unit? id := by
  obtain ⟨registry, index⟩ := id
  simp only [unit?, withUnit, Ident.mk.injEq, getElem?_concat]
  by_cases own : registry = r.tag <;> simp [own]

theorem derivation?_withScale (scale : Scale) (id : ScaleId) :
    (r.withScale scale).derivation? id
      = if id = ⟨r.tag, r.scales.length⟩ then scale.derivation else r.derivation? id := by
  rw [derivation?, scale?_withScale]
  split <;> rfl

/-- The names found in a table after an entry has been put in front. -/
theorem lookup_cons {β : Type} {table : List (String × β)} {first name : String} {id : β} :
    ((first, id) :: table).lookup name = if name = first then some id else table.lookup name := by
  by_cases same : name = first
  · simp [same]
  · simp [List.lookup_cons, same, beq_false_of_ne same]

end Metrology.Registry

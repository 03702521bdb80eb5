import Metrology.Proofs.Registry.Worth

/-!
# Exact factors

What a named unit is worth has been said when it was declared: a ratio of two words, times a power
of ten if it has a metric prefix (`DeclaredWorth`). The factor of a unit, when there is one, is the
product of the powers of what its parts were declared to be worth, in lowest terms, and it is
missing only because some number on the way to it does not fit.

Worths make a homomorphism from units to positive rationals, so factors of products, quotients and
powers are products, quotients and powers of factors, as long as they are all there.
-/
namespace Metrology

theorem Factor.eq_of_ofWords? {num den : UInt64} {f : Factor} (made : ofWords? num den = some f) :
    f = (num.toNat : Rat) / den.toNat := by
  unfold ofWords? at made
  split at made
  · cases made
  · rw [← Option.some.inj made, Rat.mkRat_eq_div, Int.cast_natCast]

namespace Registry

variable {r before next : Registry} {id : UnitId} {factor : Factor}

/-! ### What units were declared to be worth -/

/-- Some declaration that led to the registry has given out the identifier for a unit that is worth
this number of base units of its scale. -/
inductive DeclaredWorth (r : Registry) (id : UnitId) : Rat → Prop
  | unit {before next : Registry} {symbol : String} {scale : ScaleId} {num den : UInt64}
      (accepted : before.addUnit symbol scale num den = .ok (id, next)) (path : next.Extends r) :
      DeclaredWorth r id ((num.toNat : Rat) / den.toNat)
  | prefixed {before next : Registry} {symbol : String} {scale : ScaleId} {num den : UInt64}
      {base : Factor} {metric : MetricPrefix} (made : Factor.ofWords? num den = some base)
      (accepted : before.addPrefixedUnit symbol scale base metric = .ok (id, next))
      (path : next.Extends r) :
      DeclaredWorth r id (10 ^ metric.power * ((num.toNat : Rat) / den.toNat))

theorem DeclaredWorth.extends {worth : Rat} (declared : before.DeclaredWorth id worth)
    (path : before.Extends r) : r.DeclaredWorth id worth := by
  cases declared with
  | unit accepted first => exact .unit accepted (trans_of Extends first path)
  | prefixed made accepted first => exact .prefixed made accepted (trans_of Extends first path)

/-- The unit that has been added is found under the identifier that was given out. -/
theorem unit?_of_addScaledUnit {symbol : String} {scale : ScaleId}
    (accepted : before.addScaledUnit symbol scale factor = .ok (id, next)) :
    next.unit? id = some ⟨symbol, .scaled scale factor⟩ := by
  obtain ⟨name, -, appended⟩ := bind_eq_ok.mp accepted
  obtain ⟨-, rfl, rfl⟩ := appendUnit_eq_ok_iff.mp appended
  rw [unit?_withUnit, if_pos rfl]

theorem factorOf_of_addScaledUnit {symbol : String} {scale : ScaleId}
    (accepted : before.addScaledUnit symbol scale factor = .ok (id, next)) (path : next.Extends r) :
    r.factorOf id = .ok factor :=
  factorOf_eq_ok (path.grows.unit? (unit?_of_addScaledUnit accepted))

/-- The registry keeps the worth that was declared. -/
theorem DeclaredWorth.factorOf_eq {worth : Rat} (declared : r.DeclaredWorth id worth) :
    r.factorOf id = .ok worth := by
  cases declared with
  | unit accepted path =>
    unfold addUnit at accepted
    split at accepted
    next made =>
      rw [← Factor.eq_of_ofWords? made]
      exact factorOf_of_addScaledUnit accepted path
    · cases accepted
  | prefixed made accepted path =>
    unfold addPrefixedUnit at accepted
    dsimp only at accepted
    split at accepted
    next multiplied =>
      obtain ⟨power, raised, product⟩ := Option.bind_eq_some_iff.mp multiplied
      rw [← Factor.eq_of_ofWords? made, ← Factor.eq_zpow_of_powi? raised,
        ← (Factor.mul?_eq_some_iff.mp product).1]
      exact factorOf_of_addScaledUnit accepted path
    · cases accepted

/-- Every scaled unit that the later registry has and the earlier one has not was declared to be
worth something. -/
structure Accounts (before later : Registry) : Prop where
  path : before.Extends later
  declared : ∀ id, later.IsScaledUnit id → before.IsScaledUnit id ∨
    ∃ worth, later.DeclaredWorth id worth

instance : IsPreorder Registry Accounts where
  refl r := ⟨refl_of Extends r, fun _ => .inl⟩
  trans _ _ _ first second := by
    refine ⟨trans_of Extends first.path second.path, fun id scaled => ?_⟩
    rcases second.declared id scaled with earlier | late
    · exact (first.declared id earlier).imp_right fun ⟨worth, known⟩ =>
        ⟨worth, known.extends second.path⟩
    · exact .inr late

/-- An addition that brings in no scaled unit has none to account for. -/
theorem accounts_of_imp (added : Addition before next)
    (old : ∀ id, next.IsScaledUnit id → before.IsScaledUnit id) : before.Accounts next :=
  ⟨.single added, fun id scaled => .inl (old id scaled)⟩

theorem accounts_addScaledUnit {symbol : String} {scale : ScaleId}
    (positive : 0 < factor) (fits : factor.fits = true)
    (accepted : before.addScaledUnit symbol scale factor = .ok (id, next))
    (declared : ∃ worth, next.DeclaredWorth id worth) : before.Accounts next := by
  refine ⟨.single (addition_of_addScaledUnit positive fits accepted), fun other scaled => ?_⟩
  obtain ⟨name, -, appended⟩ := bind_eq_ok.mp accepted
  obtain ⟨-, rfl, rfl⟩ := appendUnit_eq_ok_iff.mp appended
  obtain ⟨symbol, scale, factor, found⟩ := scaled
  rw [unit?_withUnit] at found
  split at found
  next here => exact .inr (here ▸ declared)
  · exact .inl ⟨symbol, scale, factor, found⟩

end Registry

namespace Declaring

open Registry

theorem accounts_prefixedUnits (symbol : String) (scale : ScaleId) (num den : UInt64)
    (prefixes : List MetricPrefix) :
    Respects Accounts (prefixedUnits symbol scale num den prefixes) := by
  unfold prefixedUnits
  split
  next base made =>
    refine respects_mapM fun metric => respects_step fun r id later accepted => ?_
    obtain ⟨factor, positive, fits, scaled⟩ :=
      addPrefixedUnit_eq_ok (Factor.ofWords?_eq_some made).1 accepted
    exact accounts_addScaledUnit positive fits scaled
      ⟨_, .prefixed made accepted (refl_of Extends later)⟩
  · exact respects_throw _

/-- Whatever is declared, scaled units come in with a worth. -/
theorem accounts_declare (d : Declaration) : Respects Accounts (declare d) := by
  cases d with
  | scale name symbol =>
    refine Respects.discard (respects_step fun r id later accepted => ?_)
    refine accounts_of_imp (addition_of_addScale accepted) fun _ scaled => ?_
    obtain ⟨-, -, rfl⟩ := appendScale_eq_ok_iff.mp accepted
    exact scaled
  | derivedScale name symbol derivation =>
    refine Respects.discard (respects_step fun r id later accepted => ?_)
    refine accounts_of_imp (addition_of_addDerivedScale accepted) fun _ scaled => ?_
    obtain ⟨-, -, rfl⟩ := addDerivedScale_eq_ok accepted
    exact scaled
  | unit symbol scale num den =>
    refine Respects.discard (respects_step fun r id later accepted => ?_)
    obtain ⟨factor, positive, fits, scaled⟩ := addUnit_eq_ok accepted
    exact accounts_addScaledUnit positive fits scaled ⟨_, .unit accepted (refl_of Extends later)⟩
  | prefixedUnits symbol scale num den prefixes =>
    exact (accounts_prefixedUnits symbol scale num den prefixes).discard
  | metricUnits symbol scale num den =>
    exact (accounts_prefixedUnits symbol scale num den MetricPrefix.all).discard
  | alternative symbol e =>
    refine Respects.discard (respects_step fun r id later accepted => ?_)
    refine accounts_of_imp (addition_of_addAlternative accepted) fun other scaled => ?_
    obtain ⟨-, -, rfl⟩ := addAlternative_eq_ok accepted
    obtain ⟨name, scale, factor, found⟩ := scaled
    rw [unit?_withUnit] at found
    split at found
    · -- An alternative name is no scaled unit.
      cases found
    · exact ⟨name, scale, factor, found⟩
  | conversion source target forward backward =>
    refine respects_step fun r result later accepted => ?_
    cases outcome : r.addConversion source target forward backward with
    | error error => rw [outcome] at accepted; cases accepted
    | ok declared =>
      rw [outcome] at accepted
      cases accepted
      refine accounts_of_imp (addition_of_addConversion outcome) fun _ scaled => ?_
      obtain ⟨-, rfl⟩ := addConversion_eq_ok outcome
      exact scaled

end Declaring

namespace Registry

open Composite

variable {r : Registry} {id : UnitId} {u a b w : Unit} {factor : Factor}

theorem Reachable.exists_declaredWorth (reachable : r.Reachable) (scaled : r.IsScaledUnit id) :
    ∃ worth, r.DeclaredWorth id worth := by
  induction reachable generalizing id with
  | empty tag =>
    obtain ⟨symbol, scale, factor, found⟩ := scaled
    simp [Registry.empty, unit?] at found
  | @declared before _ d ih =>
    have accounts := Declaring.accounts_declare d before
    rcases accounts.declared id scaled with earlier | new
    · obtain ⟨worth, known⟩ := ih earlier
      exact ⟨worth, known.extends accounts.path⟩
    · exact new

/-! ### Factors that fit -/

theorem fits_of_timesPart {product following : Factor} {part : UnitId × Int}
    (done : r.timesPart u product part = .ok following) : following.fits = true := by
  obtain ⟨known, -, rest⟩ := bind_eq_ok.mp done
  split at rest
  next result found =>
    obtain rfl := Except.ok.inj rest
    obtain ⟨power, -, multiplied⟩ := Option.bind_eq_some_iff.mp found
    obtain ⟨rfl, fits⟩ := Factor.mul?_eq_some_iff.mp multiplied
    exact fits
  · cases rest

theorem fits_of_factor (exact : r.factor u = .ok factor) : factor.fits = true := by
  obtain ⟨-, -, done⟩ := bind_eq_ok.mp exact
  exact keeps_foldlM (P := fun product => product.fits = true)
    (fun _ _ _ _ step => fits_of_timesPart step) (by decide +kernel) done

/-! ### Factors of products, quotients and powers -/

theorem worth_mul (r : Registry) (a b : Unit) : r.worth (a * b) = r.worth a * r.worth b :=
  map_mul (eval r.worthAt) a.composite b.composite

theorem worth_div (r : Registry) (a b : Unit) : r.worth (a / b) = r.worth a / r.worth b :=
  map_div (eval r.worthAt) a.composite b.composite

theorem worth_powi {n : Int} (raised : a.powi n = .ok w) : r.worth w = r.worth a ^ n := by
  rw [eq_zpow_of_powi raised]
  exact map_zpow (eval r.worthAt) a.composite n

/-! ### Main result -/

/-- A factor is the product of the powers of what the parts of the unit were declared to be worth, it
is in lowest terms and positive, and it is missing only if some number does not fit. Factors of
products, quotients and powers of units are products, quotients and powers of factors. -/
theorem exact_factors_multiply (reachable : r.Reachable) (left : Built r a) (right : Built r b) :
    (∃ declared : UnitId → Rat,
      (∀ part ∈ a.composite.entries, r.DeclaredWorth part.1 (declared part.1)) ∧
      ∀ f, r.factor a = .ok f →
        f = (a.composite.entries.map fun part => declared part.1 ^ part.2).prod) ∧
    (∀ f, r.factor a = .ok f →
      0 < f.num ∧ 0 < f.den ∧ f.num.natAbs.Coprime f.den ∧ f.fits = true) ∧
    (∀ error, r.factor a = .error error → error = .factorOverflow (r.unitText a)) ∧
    (∀ f g, r.factor a = .ok f → r.factor b = .ok g →
      (∀ h, r.factor (a * b) = .ok h → h = f * g) ∧
        ∀ h, r.factor (a / b) = .ok h → h = f / g) ∧
    ∀ f n w h, r.factor a = .ok f → a.powi n = .ok w → r.factor w = .ok h → h = f ^ n := by
  have wf := reachable.wellFormed
  have first := left.elementary
  have second := right.elementary
  refine ⟨⟨fun id => (r.worthAt id).val, ?declared, ?product⟩, ?lowest, ?missing, ?combined, ?power⟩
  case declared =>
    intro part member
    obtain ⟨worth, known⟩ := reachable.exists_declaredWorth (first.of_mem member)
    -- The registry keeps one number for each unit, and this is the one.
    have kept := (first.of_mem member).factorOf_eq wf
    rwa [Except.ok.inj (known.factorOf_eq.symm.trans kept)] at known
  case product =>
    intro f exact
    rw [first.factor_eq_worth wf exact, worth_eq_prod]
  case lowest =>
    intro f exact
    have positive : 0 < f := first.factor_eq_worth wf exact ▸ (r.worth a).property
    exact ⟨Rat.num_pos.mpr positive, f.den_pos, f.reduced, fits_of_factor exact⟩
  case missing =>
    intro error failed
    rcases first.factor_cases with ⟨f, exact⟩ | tooLarge
    · rw [exact] at failed
      cases failed
    · exact Except.error.inj (failed.symm.trans tooLarge)
  case combined =>
    intro f g atFirst atSecond
    rw [first.factor_eq_worth wf atFirst, second.factor_eq_worth wf atSecond]
    constructor
    · intro h exact
      rw [Elementary.factor_eq_worth (u := a * b) wf (first.mul second) exact, worth_mul,
        Positive.val_mul]
    · intro h exact
      rw [Elementary.factor_eq_worth (u := a / b) wf (first.div second) exact, worth_div,
        div_eq_mul_inv, Positive.val_mul, Positive.coe_inv, div_eq_mul_inv]
  case power =>
    intro f n w h atBase raised exact
    rw [first.factor_eq_worth wf atBase,
      (elementary_powi first raised).factor_eq_worth wf exact, worth_powi raised,
      Positive.coe_zpow]

/-- Distances and times, in metres, kilometres and hours. -/
def travelling : Registry :=
  let scales := ((empty 0).declared (.scale "distance" "L")).declared (.scale "time" "T")
  let lengths := scales.declared (.prefixedUnits "m" ⟨0, 0⟩ 1 1 [.unit, .kilo])
  lengths.declared (.unit "h" ⟨0, 1⟩ 3600 1)

/-- Kilometres per hour are worth 5/18, which is a kilometre by an hour as they were declared, and
an hour takes them to kilometres. -/
theorem factor_kilometre_per_hour :
    Built travelling ⟨.ofList [(⟨0, 1⟩, 1), (⟨0, 2⟩, -1)]⟩ ∧
      Built travelling ⟨.single ⟨0, 2⟩⟩ ∧
      travelling.factor ⟨.ofList [(⟨0, 1⟩, 1), (⟨0, 2⟩, -1)]⟩ = .ok (5 / 18) ∧
      (∃ declared : UnitId → Rat, travelling.DeclaredWorth ⟨0, 1⟩ (declared ⟨0, 1⟩) ∧
        travelling.DeclaredWorth ⟨0, 2⟩ (declared ⟨0, 2⟩) ∧
        5 / 18 = declared ⟨0, 1⟩ ^ (1 : Int) * (declared ⟨0, 2⟩ ^ (-1 : Int) * 1)) ∧
      travelling.factor (⟨.ofList [(⟨0, 1⟩, 1), (⟨0, 2⟩, -1)]⟩ * ⟨.single ⟨0, 2⟩⟩) = .ok 1000 ∧
      (1000 : Rat) = 5 / 18 * 3600 := by
  have reachable : travelling.Reachable := .declared (.declared (.declared (.declared (.empty 0) _) _) _) _
  have speed : Built travelling ⟨.ofList [(⟨0, 1⟩, 1), (⟨0, 2⟩, -1)]⟩ :=
    .parsed reachable (show travelling.parseUnit "km/h" = _ by decide +kernel)
  have hour : Built travelling ⟨.single ⟨0, 2⟩⟩ :=
    .parsed reachable (show travelling.parseUnit "h" = _ by decide +kernel)
  have ofSpeed : travelling.factor ⟨.ofList [(⟨0, 1⟩, 1), (⟨0, 2⟩, -1)]⟩ = .ok (5 / 18) := by
    decide +kernel
  have ofHour : travelling.factor ⟨.single ⟨0, 2⟩⟩ = .ok 3600 := by decide +kernel
  have ofBoth : travelling.factor (⟨.ofList [(⟨0, 1⟩, 1), (⟨0, 2⟩, -1)]⟩ * ⟨.single ⟨0, 2⟩⟩)
      = .ok 1000 := by decide +kernel
  obtain ⟨⟨declared, known, product⟩, -, -, combined, -⟩ :=
    exact_factors_multiply reachable speed hour
  exact ⟨speed, hour, ofSpeed,
    ⟨declared, known (⟨0, 1⟩, 1) (by decide +kernel), known (⟨0, 2⟩, -1) (by decide +kernel),
      product _ ofSpeed⟩,
    ofBoth, (combined _ _ ofSpeed ofHour).1 _ ofBoth⟩

end Registry

end Metrology

import Metrology.Expr.Lemmas
import Metrology.Expr.Text
import Metrology.Json.Error
import Metrology.Main
import Metrology.Registry.History
import Metrology.Registry.Lemmas
import Metrology.Proofs.Composite.Group
import Metrology.Proofs.Expr.Equality
import Metrology.Proofs.Composite.Atoms
import Metrology.Proofs.Factor
import Metrology.Proofs.Registry.Additions
import Metrology.Proofs.Registry.WellFormed
import Metrology.Proofs.Registry.OwnUnits
import Metrology.Proofs.Registry.Measuring
import Metrology.Proofs.Parse.Terms
import Metrology.Proofs.Parse.Chains
import Metrology.Proofs.Parse.Layout
import Metrology.Proofs.Registry.ReadingBack
import Metrology.Proofs.Registry.Convertibility
import Metrology.Proofs.Parse.Grammar
import Metrology.Proofs.Parse.Powers
import Metrology.Proofs.Parse.Derivations
import Metrology.Proofs.Expr.Unfolding
import Metrology.Proofs.Registry.Histories
import Metrology.Proofs.Registry.Dimensions
import Metrology.Proofs.Registry.AlternativeNames
import Metrology.Proofs.Registry.SeveralRegistries
import Metrology.Proofs.Registry.Growth
import Metrology.Proofs.Registry.Permanence
import Metrology.Proofs.Registry.Series
import Metrology.Proofs.Registry.Refusals
import Metrology.Proofs.Registry.Isolation
import Metrology.Proofs.Scalar
import Metrology.Proofs.Registry.Transforms
import Metrology.Proofs.Registry.Worth
import Metrology.Proofs.Registry.ExactConversion
import Metrology.Proofs.Parse.Symbols
import Metrology.Proofs.Parse.Trees
import Metrology.Proofs.Registry.ConversionOrder
import Metrology.Proofs.Registry.Resolving
import Metrology.Proofs.Registry.Symbols
import Metrology.Proofs.Registry.ExactFactors
import Metrology.Proofs.Registry.ConversionUse
import Metrology.Proofs.Registry.NewDimensions
import Metrology.Proofs.Composite.Powers
import Metrology.Proofs.Parse.Exponents
import Metrology.Proofs.Registry.Exponents
import Metrology.Proofs.Registry.CoherentUnits
import Metrology.Proofs.Registry.Overflow
import Metrology.Proofs.Parse.Composition
import Metrology.Proofs.Registry.TextAlgebra
import Metrology.Proofs.Decimal.Intervals
import Metrology.Proofs.Decimal.Rounding
import Metrology.Proofs.Decimal.Doubles
import Metrology.Proofs.Decimal.Reading
import Metrology.Proofs.Decimal.Shortest
import Metrology.Proofs.Decimal.ReadingBack
import Metrology.Proofs.Parse.Numbers
import Metrology.Proofs.Registry.Quantities
import Metrology.Proofs.Expr.CanonicalForms
import Metrology.Proofs.Expr.Powers
import Metrology.Proofs.Parse.Spacing
import Metrology.Proofs.Composite.Renaming
import Metrology.Proofs.Registry.Tags
import Metrology.Proofs.Registry.StandardUnits
import Metrology.Proofs.Composite.Construction
import Metrology.Proofs.Composite.Bounded
import Metrology.Proofs.Expr.Bounded
import Metrology.Proofs.Expr.Substitution
import Metrology.Proofs.Registry.Making
import Metrology.Proofs.Parse.Unambiguous
import Metrology.Proofs.Registry.DistinctTexts

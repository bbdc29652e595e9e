import Mathlib.Data.List.Induction
import PocketCalculator.Converter.Session
import PocketCalculator.Proofs.ConversionText
import PocketCalculator.Proofs.FloatSpecials

namespace PocketCalculator.Proofs.ConverterRuns

open PocketCalculator.Binary64 (ofRatio)
open PocketCalculator.Converter
open PocketCalculator.Converter.Session
open PocketCalculator.Decimal
open PocketCalculator.Measure
open PocketCalculator.Proofs.ConversionText
open PocketCalculator.Proofs.FloatSpecials
open PocketCalculator.Proofs.LexicalGrammar
open PocketCalculator.Proofs.NearestMagnitude

theorem exists_rate {unit : MeasureUnit} (h : unit.category ≠ .temperature) :
    ∃ rate, unit.rate? = some rate := by
  cases unit with
  | celsius | fahrenheit | kelvin => exact absurd rfl h
  | _ => exact ⟨_, rfl⟩

section

variable {category : Category} {source target : MeasureUnit}
  (hsource : source.category = category) (htarget : target.category = category)
include hsource htarget

theorem convert_of_rates (h : category ≠ .temperature) {sourceRate targetRate : Float}
    (hsourceRate : source.rate? = some sourceRate) (htargetRate : target.rate? = some targetRate)
    (value : Float) :
    convert value source target category = value * sourceRate / targetRate := by
  cases category with
  | temperature => exact absurd rfl h
  | _ => simp [convert, Category.contains, hsource, htarget, hsourceRate, htargetRate]

end

theorem setUnits_cases (session : Session) (source target : MeasureUnit) :
    source.category = session.category ∧ target.category = session.category ∧
        session.setUnits source target = .ok { session with source, target } ∨
      ∃ unit, [source, target].find? (fun unit => unit.category ≠ session.category) = some unit ∧
        session.setUnits source target = .error (.wrongCategory unit session.category) := by
  by_cases hsource : source.category = session.category
  · by_cases htarget : target.category = session.category
    · left
      exact ⟨hsource, htarget, by simp [setUnits, Category.contains, hsource, htarget]⟩
    · right
      exact ⟨target, by simp [hsource, htarget],
        by simp [setUnits, Category.contains, hsource, htarget]⟩
  · right
    exact ⟨source, by simp [hsource], by simp [setUnits, Category.contains, hsource]⟩

end PocketCalculator.Proofs.ConverterRuns

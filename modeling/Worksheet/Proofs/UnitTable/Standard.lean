import Worksheet.Proofs.Rendering.Closed
import Worksheet.Proofs.UnitTable.Entries
import Worksheet.Proofs.UnitTable.Integrity
import Worksheet.UnitTable.Standard
/-!
# The standard units

What holds of the table of the standard units, without looking into it.
-/

namespace Worksheet.UnitTable

open Rendering

/-- What holds of every table that the standard definitions can make holds of the standard table. -/
theorem standard_induction {motive : UnitTable → Prop}
    (built : ∀ t, build UnitDefinition.standard = .ok t → motive t) (empty : motive {}) :
    motive standard := by
  have hcases : ∀ result : Except (List (String × SourceError)) UnitTable,
      (∀ t, result = .ok t → motive t) → motive (result.toOption.getD {}) := by
    intro result h
    cases result with
    | ok t => exact h t rfl
    | error faults => exact empty
  unfold standard
  exact hcases (build UnitDefinition.standard) built

abbrev StandardBase : String → Prop := BaseName UnitDefinition.standard

theorem standard_integrity : standard.Integrity StandardBase :=
  standard_induction (fun _ => build_integrity) .empty

theorem standard_offsets :
    standard.All fun entry => StandardBase entry.symbol → entry.offset = 0 := by
  have hdefinitions : ∀ definition ∈ UnitDefinition.standard, ∀ base ∈ UnitDefinition.standard,
      base.equation = none → base.name = definition.name → definition.offset = 0 := by
    decide
  refine standard_induction (fun t hbuild => ?_) fun e he => absurd he List.not_mem_nil
  refine build_all (fun _ _ _ _ _ => rfl) (fun definition hmem _ _ hbase => ?_) hbuild
  obtain ⟨base, hbase, hequation, hname⟩ := hbase
  exact hdefinitions definition hmem base hbase hequation hname

theorem standard_offset_of_isBase {symbol : String} {entry : UnitEntry}
    (hbase : standard.IsBase StandardBase symbol) (h : standard.lookup symbol = some entry) :
    entry.offset = 0 := by
  obtain ⟨hname, base, hbase, -⟩ := hbase
  have hlookup := standard_integrity.lookup_of_entry hbase
  obtain rfl : base = entry := Option.some_inj.1 (hlookup.symm.trans h)
  refine standard_offsets.lookup hlookup ?_
  rwa [standard_integrity.symbol symbol base hbase]

theorem passesOn_isBare : PassesOn fun entry => IsBare entry.display := by
  have hprefixes : ∀ p ∈ UnitPrefix.all, IsBare p.symbol := by decide
  intro p hp base hbase
  exact (hprefixes p hp).append hbase

theorem standard_isBare : standard.All fun entry => IsBare entry.display := by
  have hdefinitions : ∀ definition ∈ UnitDefinition.standard,
      IsBare (definition.display.getD definition.name) := by decide
  refine standard_induction (fun t hbuild => ?_) fun e he => absurd he List.not_mem_nil
  exact build_all passesOn_isBare (fun definition hmem _ _ => hdefinitions definition hmem) hbuild

end Worksheet.UnitTable

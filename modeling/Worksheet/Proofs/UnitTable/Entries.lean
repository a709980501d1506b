import Worksheet.UnitTable.Build
/-!
# The units of a table

Every unit of a table is one of the definitions, or comes of one by a prefix.
-/

namespace Worksheet.UnitTable

variable {P : UnitEntry → Prop} {t : UnitTable}

/-- The property holds of every unit, however it is looked up. -/
def All (P : UnitEntry → Prop) (t : UnitTable) : Prop := ∀ e ∈ t.entries, P e.2

theorem All.lookup (ht : t.All P) {name : String} {entry : UnitEntry}
    (h : t.lookup name = some entry) : P entry := by
  obtain ⟨before, after, heq, -⟩ := List.lookup_eq_some_iff.1 h
  exact ht _ (by rw [heq]; exact List.mem_append_right _ List.mem_cons_self)

theorem All.addEntry (ht : t.All P) {entry : UnitEntry} (h : P entry) : (t.addEntry entry).All P := by
  intro e he
  rcases List.mem_cons.1 he with rfl | he
  · exact h
  · exact ht e he

/-- What every single prefix keeps all prefixes keep, if it has nothing to do with families. -/
theorem addPrefixes_induction {motive : UnitTable → Prop} {base : UnitEntry}
    (step : ∀ p ∈ UnitPrefix.all, ∀ t family, motive t → motive (addPrefixed base p t family).1)
    (same : ∀ t families stems, motive t → motive ⟨t.aliases, t.entries, families, stems⟩)
    (ht : motive t) (prefixes : Prefixes) : motive (t.addPrefixes base prefixes) := by
  have hfold := List.foldlRecOn
    (UnitPrefix.all.filter fun p => !p.metricOnly || prefixes = .metric)
    (fun (state : UnitTable × List String) p => addPrefixed base p state.1 state.2)
    (b := (t, [base.symbol])) (motive := fun state => motive state.1) ht
    fun state h p hp => step p (List.mem_filter.1 hp).1 state.1 state.2 h
  exact same _ _ _ hfold

/-- A unit with a prefix. -/
def UnitEntry.prefixed (p : UnitPrefix) (base : UnitEntry) : UnitEntry :=
  ⟨p.symbol ++ base.symbol, p.symbol ++ base.display, base.dimension, base.scale * p.factor, 0⟩

/-- The property passes on to units with a prefix. -/
def PassesOn (P : UnitEntry → Prop) : Prop :=
  ∀ p ∈ UnitPrefix.all, ∀ base, P base → P (UnitEntry.prefixed p base)

theorem All.addPrefixes (hP : PassesOn P) (ht : t.All P) {base : UnitEntry} (hbase : P base)
    (prefixes : Prefixes) : (t.addPrefixes base prefixes).All P := by
  refine addPrefixes_induction (fun p hp t family ht => ?_) (fun t _ _ ht => ht) ht prefixes
  unfold addPrefixed
  dsimp only
  split
  · split <;> exact ht
  · exact ht.addEntry (hP p hp base hbase)

theorem Draft.addAlias_foldl_entries (name : String) (others : List String) (d : Draft) :
    (others.foldl (addAlias name) d).table.entries = d.table.entries := by
  induction others generalizing d with
  | nil => rfl
  | cons other others ih =>
      rw [List.foldl_cons, ih]
      unfold addAlias
      split <;> rfl

/-- The property holds of the unit that a definition makes, whatever it measures. -/
def Defines (P : UnitEntry → Prop) (definition : UnitDefinition) : Prop :=
  ∀ dimension scale, P ⟨definition.name, definition.display.getD definition.name, dimension, scale,
    definition.offset⟩

theorem Draft.add_all (hP : PassesOn P) {d : Draft} (hd : d.table.All P)
    {definition : UnitDefinition} {dimension : UnitProduct} {scale : Float}
    (h : P ⟨definition.name, definition.display.getD definition.name, dimension, scale,
      definition.offset⟩) : (d.add definition dimension scale).table.All P := by
  unfold add
  split
  · exact hd
  · have haliases : (definition.aliases.foldl (addAlias definition.name) d).table.All P := by
      unfold All
      rw [addAlias_foldl_entries]
      exact hd
    have hentry := haliases.addEntry h
    dsimp only
    split
    · exact hentry
    · exact hentry.addPrefixes hP h _

/-- What every single definition keeps holds of the table of all definitions. -/
theorem build_induction {motive : UnitTable → Prop} {definitions : List UnitDefinition}
    (empty : motive {})
    (base : ∀ definition ∈ definitions, ∀ d : Draft,
      motive d.table → motive (d.addBase definition).table)
    (derived : ∀ definition ∈ definitions, ∀ d : Draft,
      motive d.table → motive (d.addDerived definition).table)
    (h : build definitions = .ok t) : motive t := by
  have hbases := List.foldlRecOn definitions Draft.addBase (b := ({} : Draft))
    (motive := fun d => motive d.table) empty
    fun d hd definition hmem => base definition hmem d hd
  have hall := List.foldlRecOn definitions Draft.addDerived (motive := fun d => motive d.table)
    hbases fun d hd definition hmem => derived definition hmem d hd
  unfold build at h
  dsimp only at h
  split at h
  · cases h
    exact hall
  · cases h

/-- What holds of the units that the definitions make, and passes on to prefixes, holds of all units
of the table. -/
theorem build_all (hP : PassesOn P) {definitions : List UnitDefinition}
    (hdefines : ∀ definition ∈ definitions, Defines P definition)
    (h : build definitions = .ok t) : t.All P := by
  refine build_induction (fun e he => absurd he List.not_mem_nil)
    (fun definition hmem d hd => ?_) (fun definition hmem d hd => ?_) h
  · unfold Draft.addBase
    split
    · exact Draft.add_all hP hd (hdefines definition hmem _ _)
    · exact hd
  · unfold Draft.addDerived
    split
    · exact hd
    · split
      · exact hd
      · split
        · exact Draft.add_all hP hd (hdefines definition hmem _ _)
        · exact hd

end Worksheet.UnitTable

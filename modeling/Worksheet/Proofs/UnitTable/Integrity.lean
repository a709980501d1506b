import Worksheet.Proofs.Quantity.Arithmetic
import Worksheet.Proofs.UnitTable.Entries
import Worksheet.Proofs.UnitTable.Measure
/-!
# Integrity of unit tables

What holds of the symbols, the other names and the dimensions of a table while it is being built,
whether or not a definition is at fault.
-/

namespace Worksheet

namespace UnitTable

variable {t : UnitTable} {bases : String → Prop} {name symbol : String} {entry : UnitEntry}

/-- A base unit of the table: it measures itself. -/
def IsBase (bases : String → Prop) (t : UnitTable) (symbol : String) : Prop :=
  bases symbol ∧ ∃ entry, t.entries.lookup symbol = some entry ∧ entry.dimension = .unit symbol

/-- A unit stands under its symbol, every other name stands for a unit, and dimensions are products
of base units. -/
structure Integrity (bases : String → Prop) (t : UnitTable) : Prop where
  symbol : ∀ s entry, t.entries.lookup s = some entry → entry.symbol = s
  apart : ∀ name s, t.aliases.lookup name = some s → t.entries.lookup name = none
  target : ∀ name s, t.aliases.lookup name = some s → (t.entries.lookup s).isSome
  dimension : ∀ s entry, t.entries.lookup s = some entry → entry.dimension.Over (t.IsBase bases)

namespace Integrity

theorem empty : Integrity bases {} where
  symbol _ _ h := by cases h
  apart _ _ h := by cases h
  target _ _ h := by cases h
  dimension _ _ h := by cases h

/-- A symbol is no other name of another unit. -/
theorem lookup_of_entry (ht : t.Integrity bases) (h : t.entries.lookup symbol = some entry) :
    t.lookup symbol = some entry := by
  unfold UnitTable.lookup
  cases halias : t.aliases.lookup symbol with
  | none => exact h
  | some s =>
      rw [ht.apart symbol s halias] at h
      cases h

theorem entry_of_lookup (ht : t.Integrity bases) (h : t.lookup name = some entry) :
    t.entries.lookup entry.symbol = some entry := by
  have hsymbol := ht.symbol _ _ h
  rw [hsymbol]
  exact h

/-- A name that is looked up gives a symbol that gives the same unit. -/
theorem lookup_symbol (ht : t.Integrity bases) (h : t.lookup name = some entry) :
    t.lookup entry.symbol = some entry :=
  ht.lookup_of_entry (ht.entry_of_lookup h)

theorem isUnit_of_isBase (ht : t.Integrity bases) (h : t.IsBase bases symbol) :
    t.isUnit symbol := by
  obtain ⟨-, entry, hentry, -⟩ := h
  simp [isUnit, ht.lookup_of_entry hentry]

theorem lookup_dimension (ht : t.Integrity bases) (h : t.lookup name = some entry) :
    entry.dimension.Over (t.IsBase bases) :=
  ht.dimension _ _ h

/-- A name that is not looked up stands nowhere. -/
theorem none_of_lookup (ht : t.Integrity bases) (h : t.lookup name = none) :
    t.aliases.lookup name = none ∧ t.entries.lookup name = none := by
  unfold UnitTable.lookup at h
  cases halias : t.aliases.lookup name with
  | none =>
      rw [halias] at h
      exact ⟨rfl, h⟩
  | some s =>
      have htarget := ht.target name s halias
      rw [halias] at h
      change t.entries.lookup s = none at h
      rw [h] at htarget
      cases htarget

/-- Only the names and the units count. -/
theorem congr {t' : UnitTable} (ht : t.Integrity bases) (haliases : t'.aliases = t.aliases)
    (hentries : t'.entries = t.entries) : t'.Integrity bases := by
  obtain ⟨aliases, entries, families, stems⟩ := t
  obtain ⟨aliases', entries', families', stems'⟩ := t'
  cases haliases
  cases hentries
  exact ⟨ht.symbol, ht.apart, ht.target, ht.dimension⟩

end Integrity

/-! ## A new unit -/

/-- The table with a new unit under a name and other names. -/
def extend (t : UnitTable) (others : List (String × String)) (entry : UnitEntry) : UnitTable :=
  { t with aliases := others ++ t.aliases, entries := (entry.symbol, entry) :: t.entries }

/-- Other names that are free, all for one unit. -/
def Free (t : UnitTable) (name : String) (others : List (String × String)) : Prop :=
  ∀ other ∈ others, other.2 = name ∧ other.1 ≠ name ∧ t.lookup other.1 = none

theorem free_nil (t : UnitTable) (name : String) : t.Free name [] := fun _ h => by cases h

theorem lookup_cons_entry (s : String) (entry : UnitEntry) (entries : List (String × UnitEntry)) :
    ((entry.symbol, entry) :: entries).lookup s =
      if s = entry.symbol then some entry else entries.lookup s := by
  by_cases h : s = entry.symbol
  · simp [h]
  · have hne : (s == entry.symbol) = false := by simpa using h
    simp [List.lookup_cons, hne, h]

theorem Free.lookup {others : List (String × String)} (hfree : t.Free name others) {s : String}
    {other : String} (h : others.lookup other = some s) :
    s = name ∧ other ≠ name ∧ t.lookup other = none := by
  obtain ⟨before, after, rfl, -⟩ := List.lookup_eq_some_iff.1 h
  exact hfree (other, s) (by simp)

/-- A base unit stays one when a unit is added under a new name. -/
theorem IsBase.extend (others : List (String × String)) (hnew : t.entries.lookup entry.symbol = none)
    (h : t.IsBase bases symbol) : (t.extend others entry).IsBase bases symbol := by
  obtain ⟨hbase, old, hold, hdimension⟩ := h
  refine ⟨hbase, old, ?_, hdimension⟩
  have hne : symbol ≠ entry.symbol := by
    intro heq
    rw [← heq, hold] at hnew
    cases hnew
  change ((entry.symbol, entry) :: t.entries).lookup symbol = _
  rw [lookup_cons_entry, if_neg hne, hold]

/-- A unit may be added under a new name if its dimension is a product of base units, itself
perhaps among them. -/
theorem Integrity.extend (others : List (String × String)) (ht : t.Integrity bases)
    (hnew : t.lookup entry.symbol = none) (hfree : t.Free entry.symbol others)
    (hdimension : entry.dimension.Over (t.IsBase bases) ∨
      bases entry.symbol ∧ entry.dimension = .unit entry.symbol) :
    (t.extend others entry).Integrity bases := by
  obtain ⟨hnoAlias, hnoEntry⟩ := ht.none_of_lookup hnew
  have hentries : ∀ s, (t.extend others entry).entries.lookup s =
      if s = entry.symbol then some entry else t.entries.lookup s :=
    fun s => lookup_cons_entry s entry t.entries
  have haliases : ∀ s, (t.extend others entry).aliases.lookup s =
      (others.lookup s).or (t.aliases.lookup s) := fun s => List.lookup_append
  refine { symbol := ?symbol, apart := ?apart, target := ?target, dimension := ?dimension }
  case symbol =>
    intro s e he
    rw [hentries] at he
    by_cases hs : s = entry.symbol
    · rw [if_pos hs] at he
      cases he
      exact hs.symm
    · rw [if_neg hs] at he
      exact ht.symbol s e he
  case apart =>
    intro other s hs
    rw [haliases] at hs
    rw [hentries]
    rcases Option.or_eq_some_iff.1 hs with hs | ⟨-, hs⟩
    · obtain ⟨-, hne, hnone⟩ := hfree.lookup hs
      rw [if_neg hne]
      exact (ht.none_of_lookup hnone).2
    · have hne : other ≠ entry.symbol := by
        intro heq
        rw [heq, hnoAlias] at hs
        cases hs
      rw [if_neg hne]
      exact ht.apart other s hs
  case target =>
    intro other s hs
    rw [haliases] at hs
    rw [hentries]
    rcases Option.or_eq_some_iff.1 hs with hs | ⟨-, hs⟩
    · rw [if_pos (hfree.lookup hs).1]
      rfl
    · by_cases heq : s = entry.symbol
      · rw [if_pos heq]
        rfl
      · rw [if_neg heq]
        exact ht.target other s hs
  case dimension =>
    intro s e he
    rw [hentries] at he
    by_cases hs : s = entry.symbol
    · rw [if_pos hs] at he
      cases he
      rcases hdimension with hover | ⟨hbase, hunit⟩
      · exact hover.mono fun b hb => IsBase.extend others hnoEntry hb
      · rw [hunit]
        refine UnitProduct.over_unit ⟨hbase, entry, ?_, hunit⟩
        rw [hentries, if_pos rfl]
    · rw [if_neg hs] at he
      exact (ht.dimension s e he).mono fun b hb => IsBase.extend others hnoEntry hb

/-! ## Prefixes -/

theorem Integrity.addPrefixed (ht : t.Integrity bases)
    (hdimension : entry.dimension.Over (t.IsBase bases)) (p : UnitPrefix) (family : List String) :
    (addPrefixed entry p t family).1.Integrity bases ∧
      entry.dimension.Over ((addPrefixed entry p t family).1.IsBase bases) := by
  unfold UnitTable.addPrefixed
  dsimp only
  split
  · split <;> exact ⟨ht, hdimension⟩
  · rename_i hnew
    have hnoEntry := (ht.none_of_lookup hnew).2
    exact ⟨Integrity.extend [] ht hnew (free_nil _ _) (.inl hdimension),
      hdimension.mono fun b hb => IsBase.extend [] hnoEntry hb⟩

theorem Integrity.addPrefixes (ht : t.Integrity bases)
    (hdimension : entry.dimension.Over (t.IsBase bases)) (prefixes : Prefixes) :
    (t.addPrefixes entry prefixes).Integrity bases := by
  have hboth : (t.addPrefixes entry prefixes).Integrity bases ∧
      entry.dimension.Over ((t.addPrefixes entry prefixes).IsBase bases) :=
    addPrefixes_induction
      (motive := fun t => t.Integrity bases ∧ entry.dimension.Over (t.IsBase bases))
      (fun p _ _ family h => h.1.addPrefixed h.2 p family)
      (fun _ _ _ h => ⟨h.1.congr rfl rfl, h.2⟩) ⟨ht, hdimension⟩ prefixes
  exact hboth.1

/-! ## Definitions -/

namespace Draft

/-- Adding other names changes nothing but the names, and takes only free ones. -/
theorem addAlias_foldl (d : Draft) (name : String) (others : List String) :
    ∃ taken, d.table.Free name taken ∧ (others.foldl (addAlias name) d).table =
      { d.table with aliases := taken ++ d.table.aliases } := by
  have hfold : ∀ (others : List String) (c : Draft) (taken : List (String × String)),
      d.table.Free name taken → c.table = { d.table with aliases := taken ++ d.table.aliases } →
      ∃ taken, d.table.Free name taken ∧ (others.foldl (addAlias name) c).table =
        { d.table with aliases := taken ++ d.table.aliases } := by
    intro others
    induction others with
    | nil => exact fun c taken hfree hc => ⟨taken, hfree, hc⟩
    | cons other others ih =>
        intro c taken hfree hc
        rw [List.foldl_cons]
        unfold addAlias
        split
        · exact ih _ taken hfree hc
        · rename_i hguard
          rw [Bool.or_eq_true, decide_eq_true_eq] at hguard
          obtain ⟨hunit, hne⟩ := not_or.1 hguard
          refine ih _ ((other, name) :: taken) ?_ (by rw [hc]; rfl)
          intro new hnew
          rcases List.mem_cons.1 hnew with rfl | hnew
          · refine ⟨rfl, hne, ?_⟩
            have hlookup : c.table.lookup other = none := by
              simpa [UnitTable.isUnit] using hunit
            unfold UnitTable.lookup at hlookup ⊢
            rw [hc] at hlookup
            dsimp only at hlookup
            rw [List.lookup_append] at hlookup
            cases htaken : taken.lookup other with
            | none =>
                rw [htaken, Option.none_or] at hlookup
                exact hlookup
            | some s => exact (hfree.lookup htaken).2.2
          · exact hfree new hnew
  exact hfold others d [] (free_nil _ _) rfl

theorem add_integrity {d : Draft} (hd : d.table.Integrity bases) {definition : UnitDefinition}
    {dimension : UnitProduct} {scale : Float}
    (hdimension : dimension.Over (d.table.IsBase bases) ∨
      bases definition.name ∧ dimension = .unit definition.name) :
    (d.add definition dimension scale).table.Integrity bases := by
  unfold add
  split
  · exact hd
  · rename_i hunit
    have hnew : d.table.lookup definition.name = none := by
      simpa [UnitTable.isUnit] using hunit
    obtain ⟨taken, hfree, htable⟩ :=
      d.addAlias_foldl definition.name definition.aliases
    dsimp only
    rw [htable]
    have hextended : (d.table.extend taken ⟨definition.name,
        definition.display.getD definition.name, dimension, scale, definition.offset⟩).Integrity
        bases := Integrity.extend taken hd hnew hfree hdimension
    split
    · exact hextended
    · refine Integrity.addPrefixes hextended ?_ _
      exact hextended.dimension definition.name _ (by simp [UnitTable.extend])

end Draft

/-- What a table measures is a product of base units. -/
theorem Integrity.measure? (ht : t.Integrity bases) {units dimension : UnitProduct} {scale : Float}
    (h : t.measure? units = some (dimension, scale)) : dimension.Over (t.IsBase bases) := by
  refine measure?_over h fun f hf => ?_
  obtain ⟨entry, hentry⟩ := Option.isSome_iff_exists.1 (measure?_isUnit h f hf)
  rw [dimensionOf_eq hentry]
  exact ht.lookup_dimension hentry

/-- The names of the definitions without an equation. -/
def BaseName (definitions : List UnitDefinition) (name : String) : Prop :=
  ∃ definition ∈ definitions, definition.equation = none ∧ definition.name = name

theorem Draft.addBase_integrity {d : Draft} (hd : d.table.Integrity bases)
    {definition : UnitDefinition} (h : definition.equation = none → bases definition.name) :
    (d.addBase definition).table.Integrity bases := by
  unfold addBase
  split
  · rename_i hequation
    exact add_integrity hd (.inr ⟨h hequation, rfl⟩)
  · exact hd

theorem Draft.addDerived_integrity {d : Draft} (hd : d.table.Integrity bases)
    (definition : UnitDefinition) : (d.addDerived definition).table.Integrity bases := by
  unfold addDerived
  split
  · exact hd
  · split
    · exact hd
    · split
      · rename_i base hbase
        exact add_integrity hd (.inl (hd.measure? (quantity?_eq_some hbase).1))
      · exact hd

/-- A table that could be built has integrity. -/
theorem build_integrity {definitions : List UnitDefinition} (h : build definitions = .ok t) :
    t.Integrity (BaseName definitions) := by
  refine build_induction .empty (fun definition hmem d hd => ?_)
    (fun definition _ d hd => Draft.addDerived_integrity hd definition) h
  exact Draft.addBase_integrity hd fun hequation => ⟨definition, hmem, hequation, rfl⟩

end UnitTable

end Worksheet

import Worksheet.Proofs.UnitTable.Integrity
/-!
# Growth of unit tables

A table that is being built only grows: whatever a name stands for, it stands for in the end.
-/

namespace Worksheet

/-- The unit that a definition makes, given what its equation comes to. -/
def UnitDefinition.entry (definition : UnitDefinition) (dimension : UnitProduct) (scale : Float) :
    UnitEntry :=
  ⟨definition.name, definition.display.getD definition.name, dimension, scale, definition.offset⟩

namespace UnitTable

variable {t t' : UnitTable} {bases : String → Prop} {entry : UnitEntry}

/-- A prefix leaves the table as it is if the name is taken, and otherwise makes a new unit. Only a
unit that measures the same joins the family. -/
theorem addPrefixed_cases (base : UnitEntry) (p : UnitPrefix) (t : UnitTable)
    (family : List String) :
    (∃ existing, t.lookup (p.symbol ++ base.symbol) = some existing ∧
      (addPrefixed base p t family = (t, family) ∨
        existing.dimension = base.dimension ∧
          addPrefixed base p t family = (t, family ++ [existing.symbol]))) ∨
    t.lookup (p.symbol ++ base.symbol) = none ∧
      (addPrefixed base p t family).1 = t.extend [] (UnitEntry.prefixed p base) ∧
      ((addPrefixed base p t family).2 = family ∨
        (addPrefixed base p t family).2 = family ++ [p.symbol ++ base.symbol]) := by
  unfold addPrefixed
  dsimp only
  split
  · rename_i existing hexisting
    refine .inl ⟨existing, hexisting, ?_⟩
    split
    · rename_i hsame
      simp only [Bool.and_eq_true, decide_eq_true_eq] at hsame
      exact .inr ⟨hsame.1.2, rfl⟩
    · exact .inl rfl
  · rename_i hnew
    refine .inr ⟨hnew, rfl, ?_⟩
    dsimp only
    split
    · exact .inr rfl
    · exact .inl rfl

/-- Every name that is known stays known, for the same unit. -/
def Grows (t t' : UnitTable) : Prop :=
  ∀ name entry, t.lookup name = some entry → t'.lookup name = some entry

namespace Grows

theorem refl (t : UnitTable) : t.Grows t := fun _ _ h => h

theorem trans {t'' : UnitTable} (h : t.Grows t') (h' : t'.Grows t'') : t.Grows t'' :=
  fun name entry hentry => h' name entry (h name entry hentry)

/-- Only the names and the units count. -/
theorem congr (haliases : t'.aliases = t.aliases) (hentries : t'.entries = t.entries) :
    t.Grows t' := by
  intro name entry h
  unfold UnitTable.lookup
  rw [haliases, hentries]
  exact h

/-- A new unit hides no other one. -/
theorem extend (ht : t.Integrity bases) (entry : UnitEntry) {others : List (String × String)}
    (hnew : t.lookup entry.symbol = none) (hfree : t.Free entry.symbol others) :
    t.Grows (t.extend others entry) := by
  intro name old hold
  have hothers : others.lookup name = none := by
    cases hother : others.lookup name with
    | none => rfl
    | some s =>
        rw [(hfree.lookup hother).2.2] at hold
        cases hold
  have hne : (t.aliases.lookup name).getD name ≠ entry.symbol := by
    intro heq
    unfold UnitTable.lookup at hold
    rw [heq, (ht.none_of_lookup hnew).2] at hold
    cases hold
  have htarget : (t.extend others entry).aliases.lookup name = t.aliases.lookup name := by
    change (others ++ t.aliases).lookup name = _
    rw [List.lookup_append, hothers, Option.none_or]
  unfold UnitTable.lookup
  rw [htarget]
  change ((entry.symbol, entry) :: t.entries).lookup _ = _
  rw [lookup_cons_entry, if_neg hne]
  exact hold

theorem addPrefixed (ht : t.Integrity bases) (p : UnitPrefix) (family : List String) :
    t.Grows (addPrefixed entry p t family).1 := by
  obtain ⟨existing, -, heq | ⟨-, heq⟩⟩ | ⟨hnew, htable, -⟩ := addPrefixed_cases entry p t family
  · rw [heq]
    exact refl t
  · rw [heq]
    exact refl t
  · rw [htable]
    exact extend ht (UnitEntry.prefixed p entry) hnew (free_nil _ _)

theorem addPrefixes (ht : t.Integrity bases) (hdimension : entry.dimension.Over (t.IsBase bases))
    (prefixes : Prefixes) : t.Grows (t.addPrefixes entry prefixes) := by
  have hall : ((t.addPrefixes entry prefixes).Integrity bases ∧
      entry.dimension.Over ((t.addPrefixes entry prefixes).IsBase bases)) ∧
      t.Grows (t.addPrefixes entry prefixes) :=
    addPrefixes_induction
      (motive := fun t' => (t'.Integrity bases ∧ entry.dimension.Over (t'.IsBase bases)) ∧
        t.Grows t')
      (fun p _ _ family h =>
        ⟨h.1.1.addPrefixed h.1.2 p family, h.2.trans (addPrefixed h.1.1 p family)⟩)
      (fun _ _ _ h => ⟨⟨h.1.1.congr rfl rfl, h.1.2⟩, h.2.trans (congr rfl rfl)⟩)
      ⟨⟨ht, hdimension⟩, refl t⟩ prefixes
  exact hall.2

end Grows

/-- A new unit is found under its symbol. -/
theorem lookup_extend (ht : t.Integrity bases) (entry : UnitEntry)
    {others : List (String × String)}
    (hnew : t.lookup entry.symbol = none) (hfree : t.Free entry.symbol others) :
    (t.extend others entry).lookup entry.symbol = some entry := by
  have halias : (others ++ t.aliases).lookup entry.symbol = none := by
    rw [List.lookup_append, (ht.none_of_lookup hnew).1, Option.or_none]
    cases hother : others.lookup entry.symbol with
    | none => rfl
    | some s => exact absurd rfl (hfree.lookup hother).2.1
  change ((entry.symbol, entry) :: t.entries).lookup
    (((others ++ t.aliases).lookup entry.symbol).getD entry.symbol) = _
  rw [halias, Option.getD_none, lookup_cons_entry, if_pos rfl]

/-- The table with all prefixes that a definition asks for. -/
def prefixed (t : UnitTable) (entry : UnitEntry) (prefixes : Prefixes) : UnitTable :=
  if prefixes = .none then t else t.addPrefixes entry prefixes

theorem Grows.prefixed (ht : t.Integrity bases) (hdimension : entry.dimension.Over (t.IsBase bases))
    (prefixes : Prefixes) : t.Grows (t.prefixed entry prefixes) := by
  unfold UnitTable.prefixed
  split
  · exact Grows.refl t
  · exact Grows.addPrefixes ht hdimension prefixes

namespace Draft

variable {d : Draft} {definition : UnitDefinition} {dimension : UnitProduct} {scale : Float}

theorem add_of_isUnit (h : d.table.isUnit definition.name) :
    d.add definition dimension scale = d.duplicate definition.name := if_pos h

/-- A definition with a free name makes a unit under that and its free other names, and prefixes. -/
theorem add_of_free (h : d.table.lookup definition.name = none) (dimension : UnitProduct)
    (scale : Float) :
    ∃ taken, d.table.Free definition.name taken ∧
      (d.add definition dimension scale).table =
        (d.table.extend taken (definition.entry dimension scale)).prefixed
          (definition.entry dimension scale) definition.prefixes ∧
      (definition.aliases.foldl (addAlias definition.name) d).table.aliases =
        taken ++ d.table.aliases ∧
      (d.add definition dimension scale).faults =
        (definition.aliases.foldl (addAlias definition.name) d).faults := by
  obtain ⟨taken, hfree, htable⟩ := d.addAlias_foldl definition.name definition.aliases
  have hunit : ¬ d.table.isUnit definition.name := by simp [UnitTable.isUnit, h]
  refine ⟨taken, hfree, ?_, by rw [htable], ?_⟩
  · unfold add
    rw [if_neg hunit]
    dsimp only
    rw [htable]
    rfl
  · unfold add
    rw [if_neg hunit]

/-- The dimension of a new unit is a product of base units, itself perhaps among them. -/
def Allowed (bases : String → Prop) (d : Draft) (name : String) (dimension : UnitProduct) : Prop :=
  dimension.Over (d.table.IsBase bases) ∨ bases name ∧ dimension = .unit name

theorem extend_integrity {taken : List (String × String)} (hd : d.table.Integrity bases)
    (hdimension : d.Allowed bases definition.name dimension)
    (h : d.table.lookup definition.name = none) (hfree : d.table.Free definition.name taken) :
    (d.table.extend taken (definition.entry dimension scale)).Integrity bases :=
  Integrity.extend taken hd h hfree hdimension

/-- Prefixes can be added to a new unit. -/
theorem extend_over {taken : List (String × String)} (hd : d.table.Integrity bases)
    (hdimension : d.Allowed bases definition.name dimension)
    (h : d.table.lookup definition.name = none) (hfree : d.table.Free definition.name taken) :
    dimension.Over
      ((d.table.extend taken (definition.entry dimension scale)).IsBase bases) :=
  (extend_integrity hd hdimension h hfree).lookup_dimension
    (lookup_extend hd (definition.entry dimension scale) h hfree)

theorem extend_grows_add {taken : List (String × String)} (hd : d.table.Integrity bases)
    (hdimension : d.Allowed bases definition.name dimension)
    (h : d.table.lookup definition.name = none) (hfree : d.table.Free definition.name taken) :
    (d.table.extend taken (definition.entry dimension scale)).Grows
      ((d.table.extend taken (definition.entry dimension scale)).prefixed
        (definition.entry dimension scale) definition.prefixes) :=
  Grows.prefixed (extend_integrity hd hdimension h hfree) (extend_over hd hdimension h hfree) _

theorem grows_add (hd : d.table.Integrity bases)
    (hdimension : d.Allowed bases definition.name dimension) :
    d.table.Grows (d.add definition dimension scale).table := by
  cases h : d.table.lookup definition.name with
  | some entry =>
      rw [add_of_isUnit (by simp [UnitTable.isUnit, h])]
      exact Grows.refl _
  | none =>
      obtain ⟨taken, hfree, htable, -⟩ := add_of_free h dimension scale
      rw [htable]
      exact (Grows.extend hd (definition.entry dimension scale) h hfree).trans
        (extend_grows_add hd hdimension h hfree)

theorem grows_addBase (hd : d.table.Integrity bases)
    (h : definition.equation = none → bases definition.name) :
    d.table.Grows (d.addBase definition).table := by
  unfold addBase
  split
  · rename_i hequation
    exact grows_add hd (.inr ⟨h hequation, rfl⟩)
  · exact Grows.refl _

theorem grows_addDerived (hd : d.table.Integrity bases) (definition : UnitDefinition) :
    d.table.Grows (d.addDerived definition).table := by
  unfold addDerived
  split
  · exact Grows.refl _
  · split
    · exact Grows.refl _
    · split
      · rename_i base hbase
        exact grows_add hd (.inl (hd.measure? (quantity?_eq_some hbase).1))
      · exact Grows.refl _

end Draft

end UnitTable

end Worksheet

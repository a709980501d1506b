import Worksheet.Proofs.UnitTable.Growth
/-!
# Families of units

A family holds the unit that it is named after and units of the same dimension. A unit may join a
second family, which then counts for it; its first family still holds it.
-/

namespace Worksheet

namespace UnitTable

variable {t t' : UnitTable} {bases : String → Prop} {entry : UnitEntry}

/-- The table has a unit with this symbol and this dimension. -/
def Measures (t : UnitTable) (dimension : UnitProduct) (symbol : String) : Prop :=
  ∃ entry, t.lookup symbol = some entry ∧ entry.symbol = symbol ∧ entry.dimension = dimension

theorem Measures.grow {dimension : UnitProduct} {symbol : String} (hgrows : t.Grows t')
    (h : t.Measures dimension symbol) : t'.Measures dimension symbol := by
  obtain ⟨entry, hentry, hsymbol, hdimension⟩ := h
  exact ⟨entry, hgrows _ _ hentry, hsymbol, hdimension⟩

/-- Every symbol with a stem is in the family of the stem, and a family is one of units that measure
the same as the stem. -/
structure Families (t : UnitTable) : Prop where
  stem : ∀ symbol stem, t.stems.lookup symbol = some stem →
    ∃ family, t.families.lookup stem = some family ∧ symbol ∈ family
  member : ∀ stem family, t.families.lookup stem = some family →
    ∃ dimension, t.Measures dimension stem ∧ ∀ symbol ∈ family, t.Measures dimension symbol

namespace Families

theorem empty : Families {} where
  stem _ _ h := by cases h
  member _ _ h := by cases h

/-- New units change no family. -/
theorem grow (h : t.Families) (hgrows : t.Grows t') (hfamilies : t'.families = t.families)
    (hstems : t'.stems = t.stems) : t'.Families where
  stem symbol stem hstem := by
    rw [hfamilies]
    exact h.stem symbol stem (hstems ▸ hstem)
  member stem family hfamily := by
    obtain ⟨dimension, hstem, hmembers⟩ := h.member stem family (hfamilies ▸ hfamily)
    exact ⟨dimension, hstem.grow hgrows, fun symbol hmem => (hmembers symbol hmem).grow hgrows⟩

/-- A name that is not known has no family. -/
theorem none_of_lookup (h : t.Families) {name : String} (hname : t.lookup name = none) :
    t.families.lookup name = none := by
  cases hfamily : t.families.lookup name with
  | none => rfl
  | some family =>
      obtain ⟨-, ⟨entry, hentry, -⟩, -⟩ := h.member name family hfamily
      rw [hname] at hentry
      cases hentry

/-- A new family of units that measure the same. -/
theorem insert (h : t.Families) {name : String} {family : List String} {dimension : UnitProduct}
    (hnew : t.families.lookup name = none) (hname : t.Measures dimension name)
    (hfamily : ∀ symbol ∈ family, t.Measures dimension symbol) :
    Families { t with
      stems := family.reverse.map (·, name) ++ t.stems
      families := (name, family) :: t.families } := by
  have hlookup : ∀ stem, ((name, family) :: t.families).lookup stem =
      if stem = name then some family else t.families.lookup stem := by
    intro stem
    by_cases heq : stem = name
    · simp [heq]
    · have hne : (stem == name) = false := by simpa using heq
      simp [List.lookup_cons, hne, heq]
  constructor
  · intro symbol stem hstem
    change ∃ found, ((name, family) :: t.families).lookup stem = some found ∧ symbol ∈ found
    rw [hlookup]
    change (family.reverse.map (·, name) ++ t.stems).lookup symbol = some stem at hstem
    rw [List.lookup_append] at hstem
    rcases Option.or_eq_some_iff.1 hstem with hjoined | ⟨-, hold⟩
    · obtain ⟨before, after, heq, -⟩ := List.lookup_eq_some_iff.1 hjoined
      have hmem : (symbol, stem) ∈ family.reverse.map (·, name) := by simp [heq]
      obtain ⟨member, hmember, hpair⟩ := List.mem_map.1 hmem
      cases hpair
      exact ⟨family, if_pos rfl, List.mem_reverse.1 hmember⟩
    · obtain ⟨found, hfound, hsymbol⟩ := h.stem symbol stem hold
      have hne : stem ≠ name := by
        rintro rfl
        rw [hnew] at hfound
        cases hfound
      exact ⟨found, by rw [if_neg hne, hfound], hsymbol⟩
  · intro stem found hfound
    change ((name, family) :: t.families).lookup stem = some found at hfound
    rw [hlookup] at hfound
    by_cases heq : stem = name
    · rw [if_pos heq] at hfound
      cases hfound
      exact ⟨dimension, heq ▸ hname, hfamily⟩
    · rw [if_neg heq] at hfound
      exact h.member stem found hfound

end Families

/-! ## Prefixes -/

/-- What the prefixes that are done have led to, from the table before: no family yet, and only
units of the one dimension for the new one. -/
structure Prefixing (bases : String → Prop) (t : UnitTable) (base : UnitEntry)
    (state : UnitTable × List String) : Prop where
  integrity : state.1.Integrity bases
  based : base.dimension.Over (state.1.IsBase bases)
  grows : t.Grows state.1
  families : state.1.families = t.families
  stems : state.1.stems = t.stems
  members : ∀ symbol ∈ state.2, state.1.Measures base.dimension symbol

theorem Prefixing.step {base : UnitEntry} {state : UnitTable × List String}
    (h : Prefixing bases t base state) (p : UnitPrefix) :
    Prefixing bases t base (addPrefixed base p state.1 state.2) := by
  obtain ⟨hintegrity, hover⟩ := h.integrity.addPrefixed h.based p state.2
  have hgrows : state.1.Grows (addPrefixed base p state.1 state.2).1 :=
    Grows.addPrefixed h.integrity p state.2
  obtain ⟨existing, hexisting, heq | ⟨hdimension, heq⟩⟩ | ⟨hnew, htable, hfamily⟩ :=
    addPrefixed_cases base p state.1 state.2
  · rw [heq]
    exact h
  · rw [heq]
    refine ⟨h.integrity, h.based, h.grows, h.families, h.stems, fun symbol hmem => ?_⟩
    rcases List.mem_append.1 hmem with hmem | hmem
    · exact h.members symbol hmem
    · rw [List.mem_singleton.1 hmem]
      exact ⟨existing, h.integrity.lookup_symbol hexisting, rfl, hdimension⟩
  · have hold : ∀ symbol ∈ state.2,
        (addPrefixed base p state.1 state.2).1.Measures base.dimension symbol :=
      fun symbol hmem => (h.members symbol hmem).grow hgrows
    have hadded : (addPrefixed base p state.1 state.2).1.Measures base.dimension
        (p.symbol ++ base.symbol) := by
      rw [htable]
      exact ⟨_, lookup_extend h.integrity (UnitEntry.prefixed p base) hnew (free_nil _ _), rfl, rfl⟩
    refine ⟨hintegrity, hover, h.grows.trans hgrows, ?_, ?_, fun symbol hmem => ?_⟩
    · rw [htable]
      exact h.families
    · rw [htable]
      exact h.stems
    · rcases hfamily with hfamily | hfamily
      · exact hold symbol (hfamily ▸ hmem)
      · rw [hfamily] at hmem
        rcases List.mem_append.1 hmem with hmem | hmem
        · exact hold symbol hmem
        · rw [List.mem_singleton.1 hmem]
          exact hadded

/-- A unit without a family gets one. -/
theorem Families.addPrefixes (h : t.Families) (ht : t.Integrity bases)
    (hover : entry.dimension.Over (t.IsBase bases)) (hentry : t.lookup entry.symbol = some entry)
    (hnew : t.families.lookup entry.symbol = none) (prefixes : Prefixes) :
    (t.addPrefixes entry prefixes).Families := by
  have hself : t.Measures entry.dimension entry.symbol := ⟨entry, hentry, rfl, rfl⟩
  have hstart : Prefixing bases t entry (t, [entry.symbol]) :=
    ⟨ht, hover, Grows.refl t, rfl, rfl, fun symbol hmem => List.mem_singleton.1 hmem ▸ hself⟩
  have hdone := List.foldlRecOn
    (UnitPrefix.all.filter fun p => !p.metricOnly || prefixes = .metric)
    (fun (state : UnitTable × List String) p => addPrefixed entry p state.1 state.2)
    (motive := Prefixing bases t entry) hstart fun state hstate p _ => hstate.step p
  exact (h.grow hdone.grows hdone.families hdone.stems).insert (hdone.families ▸ hnew)
    (hself.grow hdone.grows) hdone.members

/-! ## Definitions -/

namespace Draft

variable {d : Draft} {definition : UnitDefinition} {dimension : UnitProduct} {scale : Float}

theorem add_families (h : d.table.Families) (hd : d.table.Integrity bases)
    (hdimension : d.Allowed bases definition.name dimension) :
    (d.add definition dimension scale).table.Families := by
  cases hname : d.table.lookup definition.name with
  | some entry =>
      rw [add_of_isUnit (by simp [UnitTable.isUnit, hname])]
      exact h
  | none =>
      obtain ⟨taken, hfree, htable, -⟩ := add_of_free hname dimension scale
      rw [htable]
      have hextended : (d.table.extend taken (definition.entry dimension scale)).Families :=
        h.grow (Grows.extend hd (definition.entry dimension scale) hname hfree) rfl rfl
      unfold prefixed
      split
      · exact hextended
      · exact hextended.addPrefixes (extend_integrity hd hdimension hname hfree)
          (extend_over hd hdimension hname hfree)
          (lookup_extend hd (definition.entry dimension scale) hname hfree)
          (h.none_of_lookup hname) _

theorem addBase_families (h : d.table.Families) (hd : d.table.Integrity bases)
    (hbase : definition.equation = none → bases definition.name) :
    (d.addBase definition).table.Families := by
  unfold addBase
  split
  · rename_i hequation
    exact add_families h hd (.inr ⟨hbase hequation, rfl⟩)
  · exact h

theorem addDerived_families (h : d.table.Families) (hd : d.table.Integrity bases)
    (definition : UnitDefinition) : (d.addDerived definition).table.Families := by
  unfold addDerived
  split
  · exact h
  · split
    · exact h
    · split
      · rename_i base hbase
        exact add_families h hd (.inl (hd.measure? (quantity?_eq_some hbase).1))
      · exact h

end Draft

theorem build_families {definitions : List UnitDefinition} (h : build definitions = .ok t) :
    t.Families := by
  have hboth : t.Integrity (BaseName definitions) ∧ t.Families := by
    refine build_induction
      (motive := fun t => t.Integrity (BaseName definitions) ∧ t.Families) ⟨.empty, .empty⟩
      (fun definition hmem d hd => ?_) (fun definition _ d hd =>
        ⟨Draft.addDerived_integrity hd.1 definition,
          Draft.addDerived_families hd.2 hd.1 definition⟩) h
    have hbase : definition.equation = none → BaseName definitions definition.name :=
      fun hequation => ⟨definition, hmem, hequation, rfl⟩
    exact ⟨Draft.addBase_integrity hd.1 hbase, Draft.addBase_families hd.2 hd.1 hbase⟩
  exact hboth.2

/-! ## What a table can be relied on for -/

/-- What parsing, measuring and the choice of a prefix take for granted of the table of some
definitions. -/
structure WellFormed (definitions : List UnitDefinition) (t : UnitTable) : Prop where
  /-- No name is both another name and a symbol. -/
  apart : ∀ name symbol, t.aliases.lookup name = some symbol → t.entries.lookup name = none
  target : ∀ name symbol, t.aliases.lookup name = some symbol →
    ∃ entry, t.entries.lookup symbol = some entry
  canonical : ∀ name entry, t.lookup name = some entry → t.lookup entry.symbol = some entry
  /-- Dimensions are over base units, each of which measures itself. -/
  dimension : ∀ symbol entry, t.entries.lookup symbol = some entry →
    entry.dimension.Over fun base => BaseName definitions base ∧
      ∃ unit, t.lookup base = some unit ∧ unit.dimension = .unit base
  family : ∀ symbol, t.family symbol ≠ [] → symbol ∈ t.family symbol ∧
    ∃ entry, t.lookup symbol = some entry ∧ ∀ member ∈ t.family symbol,
      ∃ other, t.lookup member = some other ∧ other.symbol = member ∧
        other.dimension = entry.dimension

theorem Families.family (h : t.Families) {symbol : String} (hfamily : t.family symbol ≠ []) :
    symbol ∈ t.family symbol ∧ ∃ dimension, t.Measures dimension symbol ∧
      ∀ member ∈ t.family symbol, t.Measures dimension member := by
  cases hstem : t.stems.lookup symbol with
  | none => exact absurd (by simp [UnitTable.family, hstem]) hfamily
  | some stem =>
      obtain ⟨family, hlookup, hmem⟩ := h.stem symbol stem hstem
      have heq : t.family symbol = family := by simp [UnitTable.family, hstem, hlookup]
      obtain ⟨dimension, -, hmembers⟩ := h.member stem family hlookup
      rw [heq]
      exact ⟨hmem, dimension, hmembers symbol hmem, hmembers⟩

/-- The table of definitions without a fault is well-formed. -/
theorem wellFormed_of_build {definitions : List UnitDefinition} (h : build definitions = .ok t) :
    t.WellFormed definitions := by
  have ht := build_integrity h
  refine ⟨ht.apart, fun name symbol halias => ?_, fun name entry => ht.lookup_symbol,
    fun symbol entry hentry => ?_, fun symbol hfamily => ?_⟩
  · exact Option.isSome_iff_exists.1 (ht.target name symbol halias)
  · refine (ht.dimension symbol entry hentry).mono fun base hbase => ?_
    obtain ⟨hname, unit, hunit, hdimension⟩ := hbase
    exact ⟨hname, unit, ht.lookup_of_entry hunit, hdimension⟩
  · obtain ⟨hmem, dimension, ⟨entry, hentry, -, rfl⟩, hmembers⟩ :=
      (build_families h).family hfamily
    exact ⟨hmem, entry, hentry, hmembers⟩

/-- Grams, with the kilogram for the base unit. -/
def masses : List UnitDefinition :=
  [{ name := "kg", aliases := ["kilo"] },
    { name := "g", equation := some "kilo", scale := 1e-3, prefixes := .metric }]

/-- The kilogram, which was there before, is in the family of the gram. -/
theorem wellFormed_masses : ∃ t, build masses = .ok t ∧ "kg" ∈ t.family "g" ∧
    t.WellFormed masses := by
  have hfamily : (build masses).toOption.map (fun t => decide ("kg" ∈ t.family "g")) =
      some true := by decide +kernel
  cases h : build masses with
  | error faults =>
      rw [h] at hfamily
      cases hfamily
  | ok t =>
      rw [h] at hfamily
      refine ⟨t, rfl, ?_, wellFormed_of_build h⟩
      simpa [Except.toOption] using hfamily

end UnitTable

end Worksheet

import Worksheet.Proofs.UnitTable.Growth
import Worksheet.Proofs.UnitTable.Symbols
/-!
# Accounting for definitions

A definition is added under its name and all its other names, or it is reported, unless it is left
out because its dimension has an exponent out of range.
-/

namespace Worksheet

namespace UnitTable

variable {t t' : UnitTable} {bases : String → Prop} {definition : UnitDefinition}

/-- The definition has made a unit, which all its names stand for. -/
def Knows (t : UnitTable) (definition : UnitDefinition) : Prop :=
  ∃ entry, t.lookup definition.name = some entry ∧ entry.symbol = definition.name ∧
    ∀ other ∈ definition.aliases, t.lookup other = some entry

theorem Knows.grow (hgrows : t.Grows t') (h : t.Knows definition) : t'.Knows definition := by
  obtain ⟨entry, hentry, hsymbol, hothers⟩ := h
  exact ⟨entry, hgrows _ _ hentry, hsymbol, fun other hmem => hgrows _ _ (hothers other hmem)⟩

/-! ## The order of the definitions -/

/-- The definitions in the order in which they are taken, those of base units first. -/
def inOrder (definitions : List UnitDefinition) : List UnitDefinition :=
  definitions.filter (fun definition => definition.equation.isNone) ++
    definitions.filter fun definition => definition.equation.isSome

theorem mem_inOrder {definitions : List UnitDefinition} :
    definition ∈ inOrder definitions ↔ definition ∈ definitions := by
  unfold inOrder
  cases h : definition.equation <;> simp [h]

namespace Draft

variable {d : Draft}

/-- Takes one definition in its turn. -/
def take (d : Draft) (definition : UnitDefinition) : Draft :=
  if definition.equation.isNone then d.addBase definition else d.addDerived definition

theorem addBase_eq (d : Draft) (definition : UnitDefinition) :
    d.addBase definition = if definition.equation.isNone then d.take definition else d := by
  cases h : definition.equation <;> simp [take, addBase, h]

theorem addDerived_eq (d : Draft) (definition : UnitDefinition) :
    d.addDerived definition = if definition.equation.isSome then d.take definition else d := by
  cases h : definition.equation <;> simp [take, addDerived, h]

end Draft

/-- What some definitions, taken one after the other, have led to. -/
def draftAfter (before : List UnitDefinition) : Draft := before.foldl Draft.take {}

theorem draftAfter_append (before after : List UnitDefinition) :
    draftAfter (before ++ after) = after.foldl Draft.take (draftAfter before) :=
  List.foldl_append

theorem foldl_inOrder (definitions : List UnitDefinition) :
    definitions.foldl Draft.addDerived (definitions.foldl Draft.addBase {}) =
      draftAfter (inOrder definitions) := by
  rw [inOrder, draftAfter_append, draftAfter, List.foldl_filter, List.foldl_filter]
  simp only [← Draft.addBase_eq, ← Draft.addDerived_eq]

theorem build_eq (definitions : List UnitDefinition) :
    build definitions =
      if (draftAfter (inOrder definitions)).faults.isEmpty
      then .ok (draftAfter (inOrder definitions)).table
      else .error (draftAfter (inOrder definitions)).faults := by
  rw [← foldl_inOrder]
  rfl

/-! ## One definition -/

namespace Draft

variable {d : Draft}

/-- The equation says a product of units, and its dimension has an exponent out of range. -/
def Overflows (d : Draft) (definition : UnitDefinition) : Prop :=
  ∃ equation units, definition.equation = some equation ∧
    d.table.parse equation = .ok units ∧ d.table.measure? units = none

/-- It is not that a unit is not known. -/
theorem Overflows.isUnit (hd : d.table.Integrity bases) (h : d.Overflows definition) :
    ∃ equation units, definition.equation = some equation ∧ d.table.parse equation = .ok units ∧
      units.Over (fun symbol => d.table.isUnit symbol) ∧ d.table.measure? units = none := by
  obtain ⟨equation, units, hequation, hparse, hmeasure⟩ := h
  have hclosed : d.table.ClosedUnder (UnitProduct.Over fun symbol => d.table.isUnit symbol) :=
    closed_over fun name entry hentry => by simp [UnitTable.isUnit, hd.lookup_symbol hentry]
  exact ⟨equation, units, hequation, hparse, hclosed.parse hparse, hmeasure⟩

/-- The definition is added without a fault, or there is a fault under its name. -/
def Settles (d : Draft) (definition : UnitDefinition) (next : Draft) : Prop :=
  (d.table.lookup definition.name = none ∧ next.table.Knows definition ∧
    next.faults = d.faults) ∨
  ∃ fault more, next.faults = d.faults ++ (definition.name, fault) :: more

theorem addAlias_keeps {name other : String} (others : List String) {d : Draft}
    (h : d.table.aliases.lookup other = some name) :
    (others.foldl (addAlias name) d).table.aliases.lookup other = some name := by
  induction others generalizing d with
  | nil => exact h
  | cons next others ih =>
      refine ih ?_
      unfold addAlias
      split
      · exact h
      · change ((next, name) :: d.table.aliases).lookup other = some name
        rw [List.lookup_cons]
        split
        · rfl
        · exact h

/-- Each other name is taken or reported. -/
theorem addAlias_faults (name : String) (others : List String) (d : Draft) :
    (∃ fault more, (others.foldl (addAlias name) d).faults = d.faults ++ (name, fault) :: more) ∨
    (others.foldl (addAlias name) d).faults = d.faults ∧ ∀ other ∈ others,
      (others.foldl (addAlias name) d).table.aliases.lookup other = some name := by
  induction others generalizing d with
  | nil => exact .inr ⟨rfl, fun _ h => by cases h⟩
  | cons other others ih =>
      rw [List.foldl_cons]
      by_cases hguard : (d.table.isUnit other || other = name) = true
      · have hstep : addAlias name d other = d.duplicate name := if_pos hguard
        rw [hstep]
        rcases ih (d.duplicate name) with ⟨fault, more, hfaults⟩ | ⟨hfaults, -⟩
        · refine .inl ⟨⟨.duplicateUnit, ⟨0, 0⟩⟩, (name, fault) :: more, ?_⟩
          rw [hfaults]
          exact List.append_assoc _ _ _
        · exact .inl ⟨_, [], hfaults⟩
      · have hstep : addAlias name d other =
            { d with table := { d.table with aliases := (other, name) :: d.table.aliases } } :=
          if_neg hguard
        rw [hstep]
        rcases ih _ with hreported | ⟨hfaults, htaken⟩
        · exact .inl hreported
        · refine .inr ⟨hfaults, fun any hmem => ?_⟩
          rcases List.mem_cons.1 hmem with rfl | hmem
          · exact addAlias_keeps others (by simp)
          · exact htaken any hmem

theorem add_settles (hd : d.table.Integrity bases) {dimension : UnitProduct}
    (hdimension : d.Allowed bases definition.name dimension) (scale : Float) :
    d.Settles definition (d.add definition dimension scale) := by
  cases hname : d.table.lookup definition.name with
  | some entry =>
      rw [add_of_isUnit (by simp [UnitTable.isUnit, hname])]
      exact .inr ⟨_, [], rfl⟩
  | none =>
      obtain ⟨taken, hfree, htable, haliases, hfaults⟩ := add_of_free hname dimension scale
      unfold Settles
      rw [hfaults, htable]
      rcases addAlias_faults definition.name definition.aliases d with
        hreported | ⟨hnone, hothers⟩
      · exact .inr hreported
      · refine .inl ⟨hname, Knows.grow (extend_grows_add hd hdimension hname hfree) ?_, hnone⟩
        have hadded := lookup_extend hd (definition.entry dimension scale) hname hfree
        refine ⟨_, hadded, rfl, fun other hmem => ?_⟩
        -- another name is looked up as the symbol is
        have halias : (taken ++ d.table.aliases).lookup other = some definition.name :=
          haliases ▸ hothers other hmem
        change ((definition.name, definition.entry dimension scale) :: d.table.entries).lookup
          (((taken ++ d.table.aliases).lookup other).getD other) = _
        rw [halias]
        exact List.lookup_cons_self

theorem take_of_overflows (h : d.Overflows definition) : d.take definition = d := by
  obtain ⟨equation, units, hequation, hparse, hmeasure⟩ := h
  simp [take, addDerived, hequation, hparse, UnitTable.quantity?, hmeasure]

/-- Every base is allowed. -/
abbrev Sound (d : Draft) : Prop := d.table.Integrity fun _ => True

theorem take_settles (hd : d.Sound) (h : ¬d.Overflows definition) :
    d.Settles definition (d.take definition) := by
  unfold take
  cases hequation : definition.equation with
  | none =>
      simp only [Option.isNone_none, if_true, addBase, hequation]
      exact add_settles hd (.inr ⟨trivial, rfl⟩) _
  | some equation =>
      simp only [Option.isNone_some, addDerived, hequation]
      cases hparse : d.table.parse equation with
      | error fault => exact .inr ⟨fault, [], rfl⟩
      | ok units =>
          cases hmeasure : d.table.measure? units with
          | none => exact absurd ⟨equation, units, hequation, hparse, hmeasure⟩ h
          | some measured =>
              simp only [UnitTable.quantity?, hmeasure, Option.bind_eq_bind, Option.bind_some]
              exact add_settles hd (.inl (hd.measure? hmeasure)) _

theorem take_sound (hd : d.Sound) (definition : UnitDefinition) : (d.take definition).Sound := by
  unfold take
  split
  · exact addBase_integrity hd fun _ => trivial
  · exact addDerived_integrity hd definition

theorem take_grows (hd : d.Sound) (definition : UnitDefinition) :
    d.table.Grows (d.take definition).table := by
  unfold take
  split
  · exact grows_addBase hd fun _ => trivial
  · exact grows_addDerived hd definition

/-- No fault is forgotten. -/
theorem take_faults (hd : d.Sound) (definition : UnitDefinition) :
    d.faults <+: (d.take definition).faults := by
  by_cases h : d.Overflows definition
  · exact ⟨[], by rw [take_of_overflows h, List.append_nil]⟩
  · rcases take_settles hd h with ⟨-, -, heq⟩ | ⟨fault, more, heq⟩
    · exact ⟨[], by rw [heq, List.append_nil]⟩
    · rw [heq]
      exact List.prefix_append _ _

/-- What definitions that come later keep. -/
theorem foldl_take (hd : d.Sound) (definitions : List UnitDefinition) :
    (definitions.foldl take d).Sound ∧ d.table.Grows (definitions.foldl take d).table ∧
      d.faults <+: (definitions.foldl take d).faults := by
  induction definitions generalizing d with
  | nil => exact ⟨hd, Grows.refl _, List.prefix_rfl⟩
  | cons definition definitions ih =>
      obtain ⟨hsound, hgrows, hfaults⟩ := ih (take_sound hd definition)
      exact ⟨hsound, (take_grows hd definition).trans hgrows,
        (take_faults hd definition).trans hfaults⟩

end Draft

/-! ## All definitions -/

/-- Every definition of a table is known under all its names, and every definition that is not added
in its turn is reported there and then, for good. -/
structure Accounts (definitions : List UnitDefinition) : Prop where
  known : ∀ t, build definitions = .ok t → ∀ definition ∈ definitions, t.Knows definition
  reported : ∀ before definition after,
    inOrder definitions = before ++ definition :: after →
    (draftAfter before).table.lookup definition.name = none ∧
      (draftAfter (before ++ [definition])).table.Knows definition ∨
    ∃ fault more faults, (draftAfter (before ++ [definition])).faults =
        (draftAfter before).faults ++ (definition.name, fault) :: more ∧
      build definitions = .error faults ∧
      (draftAfter (before ++ [definition])).faults <+: faults

theorem draftAfter_sound (before : List UnitDefinition) : (draftAfter before).Sound :=
  (Draft.foldl_take .empty before).1

theorem draftAfter_concat (before : List UnitDefinition) (definition : UnitDefinition) :
    draftAfter (before ++ [definition]) = (draftAfter before).take definition :=
  draftAfter_append before [definition]

/-- What holds in the end of a definition in its turn. -/
theorem draftAfter_turn {definitions before after : List UnitDefinition}
    (h : inOrder definitions = before ++ definition :: after) :
    (draftAfter (before ++ [definition])).table.Grows (draftAfter (inOrder definitions)).table ∧
      (draftAfter (before ++ [definition])).faults <+:
        (draftAfter (inOrder definitions)).faults := by
  have hrun := Draft.foldl_take (draftAfter_sound (before ++ [definition])) after
  rw [← draftAfter_append, ← List.append_cons, ← h] at hrun
  exact hrun.2

/-- There is no table if a definition is reported in its turn. -/
theorem build_of_fault {definitions before after : List UnitDefinition} {fault : SourceError}
    {more : List (String × SourceError)} (h : inOrder definitions = before ++ definition :: after)
    (hfaults : (draftAfter (before ++ [definition])).faults =
      (draftAfter before).faults ++ (definition.name, fault) :: more) :
    build definitions = .error (draftAfter (inOrder definitions)).faults := by
  obtain ⟨rest, hrest⟩ := (draftAfter_turn h).2
  rw [build_eq, if_neg (by rw [← hrest, hfaults]; simp)]

/-- All definitions are accounted for exactly if none has a dimension out of range in its turn. -/
theorem accounts_iff_not_overflows (definitions : List UnitDefinition) :
    Accounts definitions ↔ ∀ before definition after,
      inOrder definitions = before ++ definition :: after →
      ¬(draftAfter before).Overflows definition := by
  constructor
  · intro haccounts before definition after hturn hoverflows
    have hreported := haccounts.reported before definition after hturn
    rw [draftAfter_concat, Draft.take_of_overflows hoverflows] at hreported
    rcases hreported with ⟨hfree, entry, hentry, -⟩ | ⟨fault, more, faults, hfaults, -⟩
    · rw [hfree] at hentry
      cases hentry
    · simp at hfaults
  · intro hnone
    have hsettles : ∀ before definition after,
        inOrder definitions = before ++ definition :: after →
        (draftAfter before).Settles definition (draftAfter (before ++ [definition])) := by
      intro before definition after hturn
      rw [draftAfter_concat]
      exact Draft.take_settles (draftAfter_sound before) (hnone before definition after hturn)
    refine ⟨fun t hbuild definition hmem => ?_, fun before definition after hturn => ?_⟩
    · obtain ⟨before, after, hturn⟩ := List.append_of_mem (mem_inOrder.2 hmem)
      rcases hsettles before definition after hturn with ⟨-, hknows, -⟩ | ⟨fault, more, hfaults⟩
      · have htable : (draftAfter (inOrder definitions)).table = t := by
          rw [build_eq] at hbuild
          split at hbuild
          · exact Except.ok.inj hbuild
          · cases hbuild
        rw [← htable]
        exact hknows.grow (draftAfter_turn hturn).1
      · rw [build_of_fault hturn hfaults] at hbuild
        cases hbuild
    · rcases hsettles before definition after hturn with
        ⟨hfree, hknows, -⟩ | ⟨fault, more, hfaults⟩
      · exact .inl ⟨hfree, hknows⟩
      · exact .inr ⟨fault, more, _, hfaults, build_of_fault hturn hfaults,
          (draftAfter_turn hturn).2⟩

/-- A unit, its highest power, and the square of that. -/
def powers : List UnitDefinition :=
  [{ name := "a" }, { name := "b", equation := some "a^{2147483647}" },
    { name := "c", equation := some "b^2" }]

/-- The table of the powers has no fault, and the square is not in it. -/
theorem not_accounts_powers :
    (∃ t, build powers = .ok t ∧ t.lookup "b" ≠ none ∧ t.lookup "c" = none) ∧
      ¬Accounts powers := by
  have hlookup : (build powers).toOption.map (fun t => (t.isUnit "b", t.isUnit "c")) =
      some (true, false) := by decide +kernel
  cases h : build powers with
  | error faults =>
      rw [h] at hlookup
      cases hlookup
  | ok t =>
      rw [h] at hlookup
      obtain ⟨hb, hc⟩ : t.isUnit "b" = true ∧ t.isUnit "c" = false := by
        simpa [Except.toOption] using hlookup
      have hnone : t.lookup "c" = none := by simpa [isUnit] using hc
      refine ⟨⟨t, rfl, fun heq => by simp [isUnit, heq] at hb, hnone⟩, fun haccounts => ?_⟩
      obtain ⟨entry, hentry, -⟩ := haccounts.known t h
        { name := "c", equation := some "b^2" } (by simp [powers])
      rw [hnone] at hentry
      cases hentry

end UnitTable

end Worksheet

import Worksheet.Proofs.UnitTable.Turns
/-!
# Units as they are shown

A definition may be shown under one of its other names. Its units with a prefix are then shown with
the prefix before that name, which is no name of theirs.
-/

namespace Worksheet

/-- The name that results show. -/
def UnitDefinition.shown (definition : UnitDefinition) : String :=
  definition.display.getD definition.name

/-- Results show the name of the unit or one of its other names. -/
def UnitDefinition.ShowsOwnName (definition : UnitDefinition) : Prop :=
  definition.shown = definition.name ∨ definition.shown ∈ definition.aliases

instance (definition : UnitDefinition) : Decidable definition.ShowsOwnName :=
  inferInstanceAs (Decidable (_ ∨ _))

/-- What results may show for the unit of a definition and its units with prefixes. -/
def UnitDefinition.displays (definition : UnitDefinition) : List String :=
  definition.shown ::
    if definition.prefixes = .none then []
    else definition.prefixes.taken.map (·.symbol ++ definition.shown)

namespace UnitTable

variable {t : UnitTable} {definitions before after : List UnitDefinition} {d : Draft}
  {definition : UnitDefinition} {symbol : String} {entry : UnitEntry}

/-- Every symbol is looked up as itself under the name that results show for it. -/
def FindsDisplays (t : UnitTable) : Prop :=
  ∀ symbol entry, t.entries.lookup symbol = some entry →
    t.lookup (t.displaySymbol symbol) = t.lookup symbol

/-- The unit has no other names. -/
def Alone (t : UnitTable) (symbol : String) : Prop :=
  ∀ name entry, t.lookup name = some entry → entry.symbol = symbol → name = symbol

theorem displaySymbol_eq (h : t.lookup symbol = some entry) :
    t.displaySymbol symbol = entry.display := by
  simp [displaySymbol, h]

/-! ## Units with a prefix -/

theorem Draft.Turn.alone {next : Draft} (hturn : d.Turn definition next)
    (hunit : d.table.isUnit symbol) (h : d.table.Alone symbol) : next.table.Alone symbol := by
  intro name e hlookup hsymbol
  rcases hturn.adds name e hlookup with hold | hadds
  · exact h name e hold hsymbol
  · cases hadds with
    | named dimension scale hname =>
        have hfree := hturn.free
        obtain rfl : definition.name = symbol := hsymbol
        simp [isUnit, hfree] at hunit
    | prefixed dimension scale p hmakes hname => exact hname.trans hsymbol

/-- A unit that has no other names gets none. -/
theorem alone_of_build (hbuild : build definitions = .ok t)
    (hrun : inOrder definitions = before ++ after)
    (hunit : (draftAfter before).table.isUnit symbol)
    (h : (draftAfter before).table.Alone symbol) : t.Alone symbol := by
  induction after generalizing before with
  | nil =>
      rw [List.append_nil] at hrun
      rwa [← hrun, (table_of_build hbuild).1] at h
  | cons definition after ih =>
      have hnext : inOrder definitions = (before ++ [definition]) ++ after := by
        rw [hrun, List.append_assoc, List.singleton_append]
      by_cases hfits : (draftAfter before).Overflows definition
      · refine ih hnext ?_ ?_ <;> rwa [draftAfter_concat, Draft.take_of_overflows hfits]
      · have hturn := (turn_of_build hbuild hrun hfits).1
        exact ih hnext (hturn.grows.isUnit hunit) (hturn.alone hunit h)

/-- A new unit with a prefix has no other names, and is shown with the prefix before what the
definition shows. -/
theorem Draft.Makes.made {next : Draft} {p : UnitPrefix} (hd : d.Sound)
    (hturn : d.Turn definition next) (h : d.Makes definition p) :
    next.table.Alone (p.symbol ++ definition.name) ∧
      ∃ entry, next.table.lookup (p.symbol ++ definition.name) = some entry ∧
        entry.symbol = p.symbol ++ definition.name ∧
        (entry.display = p.symbol ++ definition.name →
          definition.shown = definition.name) := by
  constructor
  · intro name e hlookup hsymbol
    rcases hturn.adds name e hlookup with hold | hadds
    · have hfree := h.free
      rw [← hsymbol, hd.lookup_symbol hold] at hfree
      cases hfree
    · cases hadds with
      | named dimension scale hname =>
          exact absurd hsymbol.symm (append_ne h.taken definition.name)
      | prefixed dimension scale q hmakes hname => exact hname.trans hsymbol
  · obtain ⟨entry, hentry⟩ := Option.isSome_iff_exists.1 (hturn.makes p h)
    refine ⟨entry, hentry, ?_⟩
    rcases hturn.adds _ _ hentry with hold | hadds
    · rw [h.free] at hold
      cases hold
    · cases hadds with
      | named dimension scale hname =>
          rcases hname with hname | hname
          · exact absurd hname (append_ne h.taken definition.name)
          · exact absurd hname h.other
      | prefixed dimension scale q hmakes hname =>
          refine ⟨hname.symm, fun hdisplay => ?_⟩
          rw [hname] at hdisplay
          exact String.append_right_inj _ |>.1 hdisplay

/-! ## The whole table -/

/-- A definition that is shown under one of its names is found there. -/
theorem lookup_shown (hknows : t.Knows definition) (hshows : definition.ShowsOwnName) :
    t.lookup definition.shown = t.lookup definition.name := by
  obtain ⟨entry, hentry, -, hothers⟩ := hknows
  rw [hentry]
  rcases hshows with hname | hother
  · rw [hname, hentry]
  · exact hothers _ hother

/-- All that results show comes of the definitions. -/
theorem display_of_build (hbuild : build definitions = .ok t) (h : t.lookup symbol = some entry) :
    ∃ definition ∈ definitions, entry.display ∈ definition.displays := by
  obtain ⟨before, definition, after, hturn, -, hadds⟩ := adds_of_lookup hbuild h
  refine ⟨definition, mem_inOrder.1 (by simp [hturn]), ?_⟩
  unfold UnitDefinition.displays
  cases hadds with
  | named dimension scale hname => exact List.mem_cons_self
  | prefixed dimension scale p hmakes hname =>
      rw [if_neg hmakes.asked]
      exact List.mem_cons_of_mem _ (List.mem_map.2 ⟨p, hmakes.taken, rfl⟩)

/-- If the definitions that make units with prefixes are shown under their first names, every unit
is found under the name it is shown with. -/
theorem findsDisplays_of_shown (hbuild : build definitions = .ok t)
    (hshows : ∀ definition ∈ definitions, definition.ShowsOwnName)
    (h : ∀ before definition after p, inOrder definitions = before ++ definition :: after →
      (draftAfter before).Makes definition p → definition.shown = definition.name) :
    t.FindsDisplays := by
  have ht := build_integrity hbuild
  intro symbol entry hentry
  have hlookup := ht.lookup_of_entry hentry
  rw [displaySymbol_eq hlookup, hlookup]
  obtain ⟨before, definition, after, hturn, hfits, hadds⟩ := adds_of_lookup hbuild hlookup
  obtain ⟨hdone, hgrows⟩ := turn_of_build hbuild hturn hfits
  have hsymbol := ht.symbol _ _ hentry
  cases hadds with
  | named dimension scale hname =>
      have hmem : definition ∈ definitions := mem_inOrder.1 (by simp [hturn])
      obtain rfl : definition.name = symbol := hsymbol
      exact (lookup_shown (hdone.knows.grow hgrows) (hshows definition hmem)).trans hlookup
  | prefixed dimension scale p hmakes hname =>
      have hshown := h before definition after p hturn hmakes
      have hdisplay : p.symbol ++ definition.shown = symbol := by rw [hshown, hname]
      exact (congrArg t.lookup hdisplay).trans hlookup

/-- If all definitions are shown under names of their own, every unit is found under the name it is
shown with, exactly if the definitions that make units with prefixes are shown under their first
names. -/
theorem findsDisplays_iff (hbuild : build definitions = .ok t)
    (hshows : ∀ definition ∈ definitions, definition.ShowsOwnName) :
    t.FindsDisplays ↔ ∀ before definition after p,
      inOrder definitions = before ++ definition :: after →
      (draftAfter before).Makes definition p → definition.shown = definition.name := by
  have ht := build_integrity hbuild
  refine ⟨fun h before definition after p hturn hmakes => ?_,
    findsDisplays_of_shown hbuild hshows⟩
  obtain ⟨hdone, hgrows⟩ := turn_of_build hbuild hturn hmakes.fits
  obtain ⟨halone, entry, hentry, hsymbol, hdisplay⟩ :=
    hmakes.made (draftAfter_sound before) hdone
  have hnext : inOrder definitions = (before ++ [definition]) ++ after := by
    rw [hturn, List.append_assoc, List.singleton_append]
  have halone' := alone_of_build hbuild hnext (hdone.makes p hmakes) halone
  have hlookup := hgrows _ _ hentry
  have hfound := h _ entry (hsymbol ▸ ht.entry_of_lookup hlookup)
  rw [displaySymbol_eq hlookup, hlookup] at hfound
  exact hdisplay (halone' _ entry hfound hsymbol)

/-- A length that takes prefixes, and a resistance that is shown as a sign and takes none. -/
def signs : List UnitDefinition :=
  [{ name := "m", prefixes := .metric },
    { name := "ohm", aliases := ["Ω"], display := some "Ω" }]

theorem findsDisplays_signs : ∃ t, build signs = .ok t ∧ t.displaySymbol "ohm" = "Ω" ∧
    t.displaySymbol "km" = "km" ∧ t.FindsDisplays := by
  have hdisplays : (build signs).toOption.map
      (fun t => (t.displaySymbol "ohm", t.displaySymbol "km")) = some ("Ω", "km") := by
    decide +kernel
  cases h : build signs with
  | error faults =>
      rw [h] at hdisplays
      cases hdisplays
  | ok t =>
      rw [h] at hdisplays
      obtain ⟨hohm, hkm⟩ := Prod.mk.inj (Option.some.inj hdisplays)
      refine ⟨t, rfl, hohm, hkm, (findsDisplays_iff h (by decide)).2 ?_⟩
      intro before definition after p hturn hmakes
      have hmem : definition ∈ signs := mem_inOrder.1 (by simp [hturn])
      have hnames : ∀ definition ∈ signs, definition.prefixes ≠ .none →
          definition.shown = definition.name := by decide
      exact hnames definition hmem hmakes.asked

/-- A resistance that is shown as a sign and takes prefixes. -/
def prefixedSign : List UnitDefinition :=
  [{ name := "ohm", aliases := ["Ω"], prefixes := .engineering, display := some "Ω" }]

/-- The unit with a prefix is not found where it is shown. -/
theorem not_findsDisplays_prefixedSign : ∃ t, build prefixedSign = .ok t ∧
    (∀ definition ∈ prefixedSign, definition.ShowsOwnName) ∧ t.isUnit "kohm" ∧
    t.displaySymbol "kohm" = "kΩ" ∧ t.lookup "kΩ" = none ∧ ¬t.FindsDisplays := by
  have hlookups : (build prefixedSign).toOption.map (fun t =>
      ((t.entries.lookup "kohm").isSome, t.isUnit "kohm", t.displaySymbol "kohm",
        t.isUnit "kΩ")) = some (true, true, "kΩ", false) := by decide +kernel
  cases h : build prefixedSign with
  | error faults =>
      rw [h] at hlookups
      cases hlookups
  | ok t =>
      rw [h] at hlookups
      obtain ⟨hentry, hunit, hdisplay, hsign⟩ : (t.entries.lookup "kohm").isSome = true ∧
          t.isUnit "kohm" = true ∧ t.displaySymbol "kohm" = "kΩ" ∧ t.isUnit "kΩ" = false := by
        simpa only [Except.toOption, Option.map_some, Option.some.injEq, Prod.mk.injEq]
          using hlookups
      have hnone : t.lookup "kΩ" = none := by simpa [isUnit] using hsign
      refine ⟨t, rfl, by decide, hunit, hdisplay, hnone, fun hfinds => ?_⟩
      obtain ⟨entry, hentry⟩ := Option.isSome_iff_exists.1 hentry
      have hfound := hfinds _ entry hentry
      rw [hdisplay, hnone] at hfound
      simp [isUnit, ← hfound] at hunit

end UnitTable

end Worksheet

import Worksheet.Proofs.UnitTable.Accounts
import Worksheet.Proofs.UnitTable.Families
/-!
# What a definition adds in its turn

In the table of definitions without a fault, every name was added by one of them in its turn: as its
name, as one of its other names, or with a prefix.
-/

namespace Worksheet

/-- The prefixes that a unit takes. -/
def Prefixes.taken (prefixes : Prefixes) : List UnitPrefix :=
  UnitPrefix.all.filter fun p => !p.metricOnly || prefixes = .metric

namespace UnitTable

variable {t : UnitTable} {bases : String → Prop} {name : String} {entry e : UnitEntry}

/-! ## New units -/

/-- A new unit stands under its symbol and its other names. -/
theorem lookup_of_extend (ht : t.Integrity bases) {others : List (String × String)}
    (hnew : t.lookup entry.symbol = none) (hfree : t.Free entry.symbol others)
    (h : (t.extend others entry).lookup name = some e) :
    t.lookup name = some e ∨
      e = entry ∧ (name = entry.symbol ∨ others.lookup name = some entry.symbol) := by
  have hlookup : (if ((others ++ t.aliases).lookup name).getD name = entry.symbol then some entry
      else t.entries.lookup (((others ++ t.aliases).lookup name).getD name)) = some e := by
    rw [← lookup_cons_entry]
    exact h
  rw [List.lookup_append] at hlookup
  cases hother : others.lookup name with
  | some s =>
      obtain rfl : s = entry.symbol := (hfree.lookup hother).1
      rw [hother, Option.some_or, Option.getD_some, if_pos rfl] at hlookup
      exact .inr ⟨(Option.some.inj hlookup).symm, .inr rfl⟩
  | none =>
      rw [hother, Option.none_or] at hlookup
      by_cases hs : (t.aliases.lookup name).getD name = entry.symbol
      · rw [if_pos hs] at hlookup
        refine .inr ⟨(Option.some.inj hlookup).symm, .inl ?_⟩
        cases halias : t.aliases.lookup name with
        | none => simpa [halias] using hs
        | some s =>
            have htarget := ht.target name s halias
            rw [halias, Option.getD_some] at hs
            rw [hs, (ht.none_of_lookup hnew).2] at htarget
            cases htarget
      · rw [if_neg hs] at hlookup
        exact .inl hlookup

/-- The unit comes of a base by one of some prefixes. -/
def IsPrefixed (ps : List UnitPrefix) (base : UnitEntry) (name : String) (e : UnitEntry) : Prop :=
  ∃ p ∈ ps, name = p.symbol ++ base.symbol ∧ e = UnitEntry.prefixed p base

/-- The second table has units with all of some prefixes, which are all that is new. -/
structure Introduces (ps : List UnitPrefix) (base : UnitEntry) (t t' : UnitTable) : Prop where
  grows : t.Grows t'
  known : ∀ p ∈ ps, t'.isUnit (p.symbol ++ base.symbol)
  new : ∀ name e, t'.lookup name = some e → t.lookup name = some e ∨ IsPrefixed ps base name e

theorem Grows.isUnit {t' : UnitTable} (h : t.Grows t') (hname : t.isUnit name) :
    t'.isUnit name := by
  obtain ⟨entry, hentry⟩ := Option.isSome_iff_exists.1 hname
  exact Option.isSome_iff_exists.2 ⟨entry, h name entry hentry⟩

theorem introduces_addPrefixed (ht : t.Integrity bases) (base : UnitEntry) (p : UnitPrefix)
    (family : List String) : Introduces [p] base t (addPrefixed base p t family).1 := by
  have hgrows : t.Grows (addPrefixed base p t family).1 := Grows.addPrefixed ht p family
  obtain ⟨existing, hexisting, hsame⟩ | ⟨hnew, htable, -⟩ := addPrefixed_cases base p t family
  · have htable : (addPrefixed base p t family).1 = t := by
      rcases hsame with heq | ⟨-, heq⟩ <;> rw [heq]
    rw [htable] at hgrows ⊢
    refine ⟨hgrows, fun q hq => ?_, fun name e h => .inl h⟩
    rw [List.mem_singleton.1 hq]
    exact Option.isSome_iff_exists.2 ⟨existing, hexisting⟩
  · rw [htable] at hgrows ⊢
    have hfree := free_nil t (UnitEntry.prefixed p base).symbol
    refine ⟨hgrows, fun q hq => ?_, fun name e h => ?_⟩
    · rw [List.mem_singleton.1 hq]
      exact Option.isSome_iff_exists.2 ⟨_, lookup_extend ht (UnitEntry.prefixed p base) hnew hfree⟩
    · refine (lookup_of_extend ht hnew hfree h).imp id fun ⟨he, hname⟩ => ?_
      exact ⟨p, List.mem_singleton_self p, hname.resolve_right nofun, he⟩

theorem Introduces.trans {p : UnitPrefix} {ps : List UnitPrefix} {base : UnitEntry}
    {t' t'' : UnitTable} (h : Introduces [p] base t t') (h' : Introduces ps base t' t'') :
    Introduces (p :: ps) base t t'' := by
  refine ⟨h.grows.trans h'.grows, fun q hq => ?_, fun name e he => ?_⟩
  · rcases List.mem_cons.1 hq with rfl | hq
    · exact h'.grows.isUnit (h.known q (List.mem_singleton_self q))
    · exact h'.known q hq
  · rcases h'.new name e he with hmiddle | ⟨q, hq, hname, heq⟩
    · refine (h.new name e hmiddle).imp id fun ⟨q, hq, hname, heq⟩ => ?_
      exact ⟨q, List.mem_cons.2 (.inl (List.mem_singleton.1 hq)), hname, heq⟩
    · exact .inr ⟨q, List.mem_cons_of_mem p hq, hname, heq⟩

theorem introduces_foldl (ps : List UnitPrefix) {base : UnitEntry}
    {state : UnitTable × List String} (h : Prefixing bases t base state) :
    Introduces ps base state.1
      (ps.foldl (fun (s : UnitTable × List String) p => addPrefixed base p s.1 s.2) state).1 := by
  induction ps generalizing state with
  | nil => exact ⟨Grows.refl _, nofun, fun name e he => .inl he⟩
  | cons p ps ih =>
      exact (introduces_addPrefixed h.integrity base p state.2).trans (ih (h.step p))

theorem introduces_addPrefixes (ht : t.Integrity bases) (hentry : t.lookup entry.symbol = some entry)
    (prefixes : Prefixes) :
    Introduces prefixes.taken entry t (t.addPrefixes entry prefixes) := by
  have hstart : Prefixing bases t entry (t, [entry.symbol]) :=
    ⟨ht, ht.lookup_dimension hentry, Grows.refl t, rfl, rfl, fun symbol hmem => by
      rw [List.mem_singleton.1 hmem]
      exact ⟨entry, hentry, rfl, rfl⟩⟩
  have hfold := introduces_foldl prefixes.taken hstart
  exact ⟨hfold.grows, hfold.known, hfold.new⟩

/-! ## One definition -/

namespace Draft

variable {d : Draft} {definition : UnitDefinition} {dimension : UnitProduct} {scale : Float}

/-- The definition makes a new unit with a prefix in its turn. -/
structure Makes (d : Draft) (definition : UnitDefinition) (p : UnitPrefix) : Prop where
  fits : ¬d.Overflows definition
  asked : definition.prefixes ≠ .none
  taken : p ∈ definition.prefixes.taken
  free : d.table.lookup (p.symbol ++ definition.name) = none
  other : p.symbol ++ definition.name ∉ definition.aliases

/-- The definition gives a name to a new unit in its turn. -/
inductive Adds (d : Draft) (definition : UnitDefinition) (name : String) : UnitEntry → Prop
  | named (dimension : UnitProduct) (scale : Float)
    (h : name = definition.name ∨ name ∈ definition.aliases) :
    Adds d definition name (definition.entry dimension scale)
  | prefixed (dimension : UnitProduct) (scale : Float) (p : UnitPrefix)
    (h : d.Makes definition p) (hname : name = p.symbol ++ definition.name) :
    Adds d definition name (UnitEntry.prefixed p (definition.entry dimension scale))

/-- What is true after a definition has been taken without a fault. -/
structure Turn (d : Draft) (definition : UnitDefinition) (next : Draft) : Prop where
  free : d.table.lookup definition.name = none
  knows : next.table.Knows definition
  grows : d.table.Grows next.table
  makes : ∀ p, d.Makes definition p → next.table.isUnit (p.symbol ++ definition.name)
  adds : ∀ name e, next.table.lookup name = some e →
    d.table.lookup name = some e ∨ d.Adds definition name e
  base : definition.equation = none → next.table.lookup definition.name =
    some (definition.entry (.unit definition.name) definition.scale)

/-- Nothing but the other names of a definition is added for them. -/
theorem mem_of_addAlias (others : List String) (d : Draft) (given : String × String)
    (h : given ∈ (others.foldl (addAlias name) d).table.aliases) :
    given ∈ d.table.aliases ∨ given.1 ∈ others := by
  induction others generalizing d with
  | nil => exact .inl h
  | cons other others ih =>
      rcases ih _ h with hstep | hmem
      · unfold addAlias at hstep
        split at hstep
        · exact .inl hstep
        · rcases List.mem_cons.1 hstep with rfl | hold
          · exact .inr List.mem_cons_self
          · exact .inl hold
      · exact .inr (List.mem_cons_of_mem other hmem)

theorem append_ne {p : UnitPrefix} {prefixes : Prefixes} (hp : p ∈ prefixes.taken) (name : String) :
    p.symbol ++ name ≠ name := by
  have hall : ∀ p ∈ UnitPrefix.all, p.symbol.length ≠ 0 := by decide
  intro heq
  have hlength := congrArg String.length heq
  rw [String.length_append] at hlength
  exact hall p (List.mem_filter.1 hp).1 (by omega)

/-- A definition that is taken without a fault is added as a unit of some dimension. -/
theorem take_eq_add (hd : d.Sound) (hfits : ¬d.Overflows definition)
    (hfaults : (d.take definition).faults = d.faults) :
    ∃ dimension scale, d.Allowed (fun _ => True) definition.name dimension ∧
      d.take definition = d.add definition dimension scale ∧
      (definition.equation = none → dimension = .unit definition.name ∧
        scale = definition.scale) := by
  unfold take at hfaults ⊢
  cases hequation : definition.equation with
  | none =>
      simp only [Option.isNone_none, if_true, addBase, hequation]
      exact ⟨_, _, .inr ⟨trivial, rfl⟩, rfl, fun _ => ⟨rfl, rfl⟩⟩
  | some equation =>
      simp only [hequation, Option.isNone_some, Bool.false_eq_true, if_false, addDerived] at hfaults ⊢
      cases hparse : d.table.parse equation with
      | error fault => simp [hparse] at hfaults
      | ok units =>
          cases hmeasure : d.table.measure? units with
          | none => exact absurd ⟨equation, units, hequation, hparse, hmeasure⟩ hfits
          | some measured =>
              simp only [UnitTable.quantity?, hmeasure, Option.bind_eq_bind, Option.bind_some]
              exact ⟨_, _, .inl (hd.measure? hmeasure), rfl, fun h => by cases h⟩

/-- A new unit is added under the names of its definition. -/
theorem extend_adds {taken : List (String × String)} (hd : d.Sound)
    (hname : d.table.lookup definition.name = none) (hfree : d.table.Free definition.name taken)
    (haliases : (definition.aliases.foldl (addAlias definition.name) d).table.aliases =
      taken ++ d.table.aliases)
    (h : (d.table.extend taken (definition.entry dimension scale)).lookup name = some e) :
    d.table.lookup name = some e ∨ d.Adds definition name e := by
  refine (lookup_of_extend hd hname hfree h).imp id fun ⟨he, hnamed⟩ => ?_
  rw [he]
  refine .named dimension scale (hnamed.imp id fun hother => ?_)
  obtain ⟨before, after, htaken, -⟩ := List.lookup_eq_some_iff.1 hother
  have hmem : (name, definition.name) ∈
      (definition.aliases.foldl (addAlias definition.name) d).table.aliases := by
    simp [haliases, htaken, UnitDefinition.entry]
  -- the name was free, so it was no other name before
  refine (mem_of_addAlias definition.aliases d _ hmem).resolve_left fun hold => ?_
  have hnone := (hd.none_of_lookup (hfree.lookup hother).2.2).1
  simpa using List.lookup_eq_none_iff.1 hnone _ hold

/-- A unit with a prefix is added if its name is free and no other name of the definition. -/
theorem prefixed_adds (hfits : ¬d.Overflows definition) (hasked : definition.prefixes ≠ .none)
    {next : Draft} (hgrows : d.table.Grows next.table) (hknows : next.table.Knows definition)
    (h : IsPrefixed definition.prefixes.taken (definition.entry dimension scale) name e)
    (hlookup : next.table.lookup name = some e) :
    d.table.lookup name = some e ∨ d.Adds definition name e := by
  obtain ⟨p, hp, rfl, rfl⟩ := h
  cases hold : d.table.lookup (p.symbol ++ definition.name) with
  | some old =>
      have hsame := (hgrows _ _ hold).symm.trans hlookup
      exact .inl (hold.trans hsame)
  | none =>
      refine .inr (.prefixed dimension scale p ⟨hfits, hasked, hp, hold, fun hmem => ?_⟩ rfl)
      obtain ⟨entry, -, hentry, hothers⟩ := hknows
      have heq := Option.some.inj ((hothers _ hmem).symm.trans hlookup)
      rw [heq] at hentry
      exact append_ne hp definition.name hentry

theorem take_turn (hd : d.Sound) (hfits : ¬d.Overflows definition)
    (hfaults : (d.take definition).faults = d.faults) : d.Turn definition (d.take definition) := by
  obtain ⟨hname, hknows, -⟩ | ⟨fault, more, hreported⟩ := take_settles hd hfits
  · obtain ⟨dimension, scale, hallowed, htake, hbase⟩ := take_eq_add hd hfits hfaults
    have hgrows := take_grows hd definition
    obtain ⟨taken, hfree, htable, haliases, -⟩ := add_of_free hname dimension scale
    rw [← htake] at htable
    have hextended : (d.table.extend taken (definition.entry dimension scale)).Integrity
        fun _ => True := extend_integrity hd hallowed hname hfree
    have hself := lookup_extend hd (definition.entry dimension scale) hname hfree
    have hkept : (d.take definition).table.lookup definition.name =
        some (definition.entry dimension scale) := by
      rw [htable]
      exact extend_grows_add hd hallowed hname hfree _ _ hself
    refine ⟨hname, hknows, hgrows, fun p hp => ?_, fun name e h => ?_, fun hequation => ?_⟩
    · rw [htable, prefixed, if_neg hp.asked]
      exact (introduces_addPrefixes hextended hself _).known p hp.taken
    · by_cases hasked : definition.prefixes = .none
      · rw [prefixed, if_pos hasked] at htable
        exact extend_adds hd hname hfree haliases (htable ▸ h)
      · rw [prefixed, if_neg hasked] at htable
        have hintroduces := introduces_addPrefixes hextended hself definition.prefixes
        rcases hintroduces.new name e (htable ▸ h) with hold | hprefixed
        · exact extend_adds hd hname hfree haliases hold
        · exact prefixed_adds hfits hasked hgrows hknows hprefixed h
    · obtain ⟨rfl, rfl⟩ := hbase hequation
      exact hkept
  · rw [hfaults] at hreported
    simp at hreported

end Draft

/-! ## All definitions -/

variable {definitions before after : List UnitDefinition} {definition : UnitDefinition}

theorem table_of_build (h : build definitions = .ok t) :
    (draftAfter (inOrder definitions)).table = t ∧
      (draftAfter (inOrder definitions)).faults = [] := by
  rw [build_eq] at h
  split at h
  · rename_i hfaults
    exact ⟨Except.ok.inj h, List.isEmpty_iff.1 hfaults⟩
  · cases h

/-- If there is a table, no definition before its end was at fault. -/
theorem run_of_build (h : build definitions = .ok t) (hrun : inOrder definitions = before ++ after) :
    (draftAfter before).faults = [] ∧ (draftAfter before).table.Grows t := by
  obtain ⟨htable, hfaults⟩ := table_of_build h
  have hrest := Draft.foldl_take (draftAfter_sound before) after
  rw [← draftAfter_append, ← hrun, htable, hfaults] at hrest
  exact ⟨List.prefix_nil.1 hrest.2.2, hrest.2.1⟩

/-- A definition whose dimension is in range has had its turn, and the table keeps what it has. -/
theorem turn_of_build (h : build definitions = .ok t)
    (hturn : inOrder definitions = before ++ definition :: after)
    (hfits : ¬(draftAfter before).Overflows definition) :
    (draftAfter before).Turn definition (draftAfter (before ++ [definition])) ∧
      (draftAfter (before ++ [definition])).table.Grows t := by
  have hnext : inOrder definitions = (before ++ [definition]) ++ after := by
    rw [hturn, List.append_assoc, List.singleton_append]
  obtain ⟨hfaults, hgrows⟩ := run_of_build h hnext
  refine ⟨?_, hgrows⟩
  rw [draftAfter_concat] at hfaults ⊢
  refine Draft.take_turn (draftAfter_sound before) hfits ?_
  rw [hfaults, (run_of_build h hturn).1]

/-- Every name of the table was added by a definition in its turn. -/
theorem adds_of_lookup (h : build definitions = .ok t) (hlookup : t.lookup name = some e) :
    ∃ before definition after, inOrder definitions = before ++ definition :: after ∧
      ¬(draftAfter before).Overflows definition ∧ (draftAfter before).Adds definition name e := by
  have hrun : ∀ done rest, inOrder definitions = done ++ rest →
      (draftAfter done).table.lookup name = some e →
      ∃ before definition after, inOrder definitions = before ++ definition :: after ∧
        ¬(draftAfter before).Overflows definition ∧
        (draftAfter before).Adds definition name e := by
    intro done
    induction done using List.reverseRecOn with
    | nil => exact fun rest _ hnone => by cases hnone
    | append_singleton before definition ih =>
        intro rest hdone hfound
        have hturn : inOrder definitions = before ++ definition :: rest := by
          rw [hdone, List.append_assoc, List.singleton_append]
        by_cases hfits : (draftAfter before).Overflows definition
        · rw [draftAfter_concat, Draft.take_of_overflows hfits] at hfound
          exact ih _ hturn hfound
        · rcases (turn_of_build h hturn hfits).1.adds name e hfound with hold | hadds
          · exact ih _ hturn hold
          · exact ⟨before, definition, rest, hturn, hfits, hadds⟩
  refine hrun (inOrder definitions) [] (List.append_nil _).symm ?_
  rw [(table_of_build h).1]
  exact hlookup

/-- A base unit is in the table as it is defined. -/
theorem lookup_base (h : build definitions = .ok t) (hmem : definition ∈ definitions)
    (hequation : definition.equation = none) :
    t.lookup definition.name =
      some (definition.entry (.unit definition.name) definition.scale) := by
  obtain ⟨before, after, hturn⟩ := List.append_of_mem (mem_inOrder.2 hmem)
  have hfits : ¬(draftAfter before).Overflows definition := by
    rintro ⟨equation, units, heq, -⟩
    rw [hequation] at heq
    cases heq
  obtain ⟨hdone, hgrows⟩ := turn_of_build h hturn hfits
  exact hgrows _ _ (hdone.base hequation)

end UnitTable

end Worksheet

import Worksheet.Proofs.Rendering.Units
import Worksheet.Proofs.Token.Decorations
import Worksheet.Proofs.UnitTable.Displays
import Worksheet.Proofs.UnitTable.Standard
/-!
# Units survive being written

Which tables read every product that they write back: those whose symbols keep their spelling when
they are written. A word without commands always does. A Greek letter does if the unit is also
found under what the letter becomes in plain spelling.
-/

namespace Worksheet

open Scan

/-! ## Names of words -/

theorem ofSpelling_of_isWord {w : List Char} (h : IsWord w ∨ w = ['%']) :
    (Name.ofSpelling (String.ofList w)).text = String.ofList w := by
  have hkept : ∀ c ∈ w, Name.isLayout c = false := by
    intro c hc
    rcases h with h | rfl
    · have hbrace : c ≠ '{' := fun heq => h.not_mem (show '{' ∈ nameBreaks by decide) (heq ▸ hc)
      have hbrace' : c ≠ '}' := fun heq => h.not_mem (show '}' ∈ nameBreaks by decide) (heq ▸ hc)
      have hblank : Text.isBlank c = false := by
        cases w with
        | nil => cases hc
        | cons d w =>
          rw [Bool.eq_false_iff]
          intro hblank
          rcases List.mem_cons.1 hc with rfl | hc
          · have hstart := h.1
            rw [startsName_of_isBlank hblank] at hstart
            cases hstart
          · have hcontinue := h.2 c hc
            rw [continuesName_of_isBlank hblank] at hcontinue
            cases hcontinue
      simp [Name.isLayout, hbrace, hbrace', hblank]
    · rw [List.mem_singleton.1 hc]
      decide
  have hcommand : '\\' ∉ w := by
    rcases h with h | rfl
    · exact h.not_mem (by decide)
    · decide
  have hfilter : w.filter (fun c => !Name.isLayout c) = w :=
    List.filter_eq_self.2 fun c hc => by simp [hkept c hc]
  simp only [Name.ofSpelling, Name.spell, String.toList_ofList, hfilter]
  rw [Text.replace_eq_self (show '\\' ∈ "^\\prime".toList by decide) _ hcommand,
    Text.replace_eq_self (show '\\' ∈ "\\prime".toList by decide) _ hcommand]

theorem ofSpelling_greekName {letter : String} (h : letter ∈ greekLetters) :
    (Name.ofSpelling (greekName letter)).text = greekName letter := by
  have hletters : ∀ l ∈ greekLetters, (Name.ofSpelling (greekName l)).text = greekName l := by
    decide
  exact hletters letter h

theorem greekName_ne {letter : String} (h : letter ∈ greekLetters) :
    greekName letter ≠ "dimensionless" ∧ greekName letter ≠ "dmnl" := by
  have hletters : ∀ l ∈ greekLetters, greekName l ≠ "dimensionless" ∧ greekName l ≠ "dmnl" := by
    decide
  exact hletters letter h

namespace UnitTable

variable {t : UnitTable} {symbol : String}

/-- A name leads to a unit. -/
def Finds (t : UnitTable) (name symbol : String) : Prop :=
  ∃ entry, t.lookup name = some entry ∧ entry.symbol = symbol

/-- The symbol of a unit, and not another name for it. -/
def IsCanonical (t : UnitTable) (symbol : String) : Prop := t.Finds symbol symbol

/-- The unit is shown as one word, which is no name for the number one and leads to the unit. -/
structure ShowsWord (t : UnitTable) (symbol : String) : Prop where
  tokens : ∃ ts, Worksheet.tokens { mode := .units } (t.displaySymbol symbol) = .ok ts ∧
    ts.map Token.kind = [.ident (t.displaySymbol symbol)]
  not_dimensionless : t.displaySymbol symbol ≠ "dimensionless"
  not_dmnl : t.displaySymbol symbol ≠ "dmnl"
  finds : t.Finds (t.displaySymbol symbol) symbol

instance (t : UnitTable) (name symbol : String) : Decidable (t.Finds name symbol) :=
  decidable_of_iff ((t.lookup name).map UnitEntry.symbol = some symbol) (by simp [Finds])

instance (t : UnitTable) : DecidablePred t.IsCanonical :=
  fun symbol => inferInstanceAs (Decidable (t.Finds symbol symbol))

instance (text : String) (ks : List Token.Kind) :
    Decidable (∃ ts, Worksheet.tokens { mode := .units } text = .ok ts ∧ ts.map Token.kind = ks) :=
  match h : Worksheet.tokens { mode := .units } text with
  | .ok ts => decidable_of_iff (ts.map Token.kind = ks) (by simp)
  | .error _ => .isFalse (by simp)

theorem showsWord_iff : t.ShowsWord symbol ↔
    (∃ ts, Worksheet.tokens { mode := .units } (t.displaySymbol symbol) = .ok ts ∧
      ts.map Token.kind = [.ident (t.displaySymbol symbol)]) ∧
    t.displaySymbol symbol ≠ "dimensionless" ∧ t.displaySymbol symbol ≠ "dmnl" ∧
    t.Finds (t.displaySymbol symbol) symbol :=
  ⟨fun ⟨h1, h2, h3, h4⟩ => ⟨h1, h2, h3, h4⟩, fun ⟨h1, h2, h3, h4⟩ => ⟨h1, h2, h3, h4⟩⟩

instance (t : UnitTable) (symbol : String) : Decidable (t.ShowsWord symbol) :=
  decidable_of_iff _ showsWord_iff.symm

def ShowsWords (t : UnitTable) : Prop := ∀ symbol, t.IsCanonical symbol → t.ShowsWord symbol

/-- If a command is in what shows the unit, then it is a Greek letter and nothing else, and what the
letter becomes in plain spelling leads to the unit. -/
def KeepsSpelling (t : UnitTable) (symbol : String) : Prop :=
  '\\' ∈ (t.displaySymbol symbol).toList →
    ∃ letter ∈ greekLetters, t.displaySymbol symbol = "\\" ++ letter ∧
      t.Finds (greekName letter) symbol

/-- Every product of units with exponents that have an opposite is read back from each of the ways
to write it. -/
def RoundTrips (t : UnitTable) : Prop :=
  ∀ (settings : Settings) (p : UnitProduct), p.Over t.IsCanonical →
    (∀ f ∈ p.factors, IsExponent f.2) → t.parse (Rendering.units ⟨t, settings⟩ p) = .ok p

theorem ShowsWord.scans (h : t.ShowsWord symbol) :
    Scans { mode := .units } 0 (t.displaySymbol symbol).toList
      [.ident (t.displaySymbol symbol)] :=
  scans_iff.2 h.tokens

theorem ShowsWord.isIdent (h : t.ShowsWord symbol) : IsIdent (t.displaySymbol symbol).toList :=
  ident_of_scans rfl h.scans List.mem_cons_self

/-- Without a command it is a word. -/
theorem ShowsWord.isWord (h : t.ShowsWord symbol) (hcommand : '\\' ∉ (t.displaySymbol symbol).toList) :
    IsWord (t.displaySymbol symbol).toList ∨ (t.displaySymbol symbol).toList = ['%'] := by
  have hident := h.isIdent
  generalize (t.displaySymbol symbol).toList = w at hident hcommand
  cases hident with
  | word hword => exact hword
  | greek => exact absurd List.mem_cons_self hcommand

theorem readsBack {settings : Settings} (hshows : t.ShowsWord symbol)
    (hkeeps : t.KeepsSpelling symbol) : Rendering.ReadsBack ⟨t, settings⟩ symbol := by
  change t.Writes (Rendering.symbolText (t.displaySymbol symbol)).toList symbol
  by_cases hcommand : '\\' ∈ (t.displaySymbol symbol).toList
  · obtain ⟨letter, hletter, hdisplay, hfinds⟩ := hkeeps hcommand
    obtain ⟨bare, hspelled⟩ := spelled_greek hletter
    have hname := ofSpelling_greekName hletter
    rw [hdisplay]
    exact ⟨bare, greekName letter, hspelled, hname.symm ▸ (greekName_ne hletter).1,
      hname.symm ▸ (greekName_ne hletter).2, hname.symm ▸ hfinds⟩
  · have hword := hshows.isWord hcommand
    have hspelled := spelled_word hword
    have hname := ofSpelling_of_isWord hword
    rw [String.ofList_toList] at hspelled hname
    exact ⟨_, _, hspelled, hname.symm ▸ hshows.not_dimensionless,
      hname.symm ▸ hshows.not_dmnl, hname.symm ▸ hshows.finds⟩

/-- The lone unit is written as what shows it. -/
theorem units_unit (t : UnitTable) (symbol : String) :
    Rendering.units ⟨t, {}⟩ (.unit symbol) = Rendering.symbolText (t.displaySymbol symbol) := by
  have hnumerator : (UnitProduct.unit symbol).numerator = [(symbol, 1)] := rfl
  have hdenominator : (UnitProduct.unit symbol).denominator = [] := rfl
  unfold Rendering.units
  rw [hnumerator, hdenominator]
  apply String.toList_inj.1
  simp [Rendering.factor]

/-- What is read has been cut into tokens. -/
theorem scannable_of_parse {text : String} {p : UnitProduct} (h : t.parse text = .ok p) :
    Scannable { mode := .units } 0 (UnitText.plain text.toList) := by
  obtain ⟨e, hparse, -⟩ := bind_eq_ok.1 h
  obtain ⟨ts, hts, -⟩ := bind_eq_ok.1 hparse
  have hscans := scans_iff.2 ⟨ts, hts, rfl⟩
  rw [String.toList_ofList] at hscans
  exact ⟨_, hscans⟩

/-- Units are found under what becomes of a Greek letter, if the letter is read back. -/
theorem finds_of_parse {letter : String} (hletter : letter ∈ greekLetters)
    (h : t.parse (Rendering.symbolText ("\\" ++ letter)) = .ok (.unit symbol)) :
    t.Finds (greekName letter) symbol := by
  obtain ⟨bare, hspelled⟩ := spelled_greek hletter
  have hfactor : FactorText (Rendering.symbolText ("\\" ++ letter)).toList
      fun e => ∃ span, e = .var span (Name.ofSpelling (greekName letter)) .unresolved :=
    .word hspelled fun span => ⟨span, rfl⟩
  obtain ⟨e, ⟨span, rfl⟩, hparse, -⟩ := hfactor.product.parse_units t
  rw [String.ofList_toList, h] at hparse
  obtain ⟨hdimensionless, hdmnl⟩ := greekName_ne hletter
  rw [UnitTable.product, ofSpelling_greekName hletter, if_neg (not_or.2 ⟨hdimensionless, hdmnl⟩),
    single] at hparse
  cases hlookup : t.lookup (greekName letter) with
  | none =>
    rw [hlookup] at hparse
    cases hparse
  | some entry =>
    rw [hlookup] at hparse
    have hunit : UnitProduct.unit symbol = .unit entry.symbol := Except.ok.inj hparse
    have hfactors := congrArg UnitProduct.factors hunit
    exact ⟨entry, hlookup, (Prod.mk.inj (List.cons.inj hfactors).1).1.symm⟩

theorem keepsSpelling_of_parse (hshows : t.ShowsWord symbol)
    (h : t.parse (Rendering.symbolText (t.displaySymbol symbol)) = .ok (.unit symbol)) :
    t.KeepsSpelling symbol := by
  intro hcommand
  have hscannable : Scannable { mode := .units } 0
      (UnitText.plain ((t.displaySymbol symbol).toList.flatMap written)) := by
    rw [← toList_symbolText]
    exact scannable_of_parse h
  obtain ⟨letter, hletter, htext⟩ := hshows.isIdent.eq_greek rfl hcommand hscannable
  have hdisplay : t.displaySymbol symbol = "\\" ++ letter := by
    apply String.toList_inj.1
    rw [htext, String.toList_append]
    rfl
  exact ⟨letter, hletter, hdisplay, finds_of_parse hletter (hdisplay ▸ h)⟩

/-- Units survive being written in a table whose units are shown as words, exactly if all words keep
their spelling. -/
theorem roundTrips_iff (ht : t.ShowsWords) :
    t.RoundTrips ↔ ∀ symbol, t.IsCanonical symbol → t.KeepsSpelling symbol := by
  constructor
  · intro h symbol hsymbol
    have hparse := h {} (.unit symbol) (UnitProduct.over_unit hsymbol) (by
      intro f hf
      obtain rfl : f = (symbol, 1) := List.mem_singleton.1 hf
      exact isExponent_one)
    rw [units_unit] at hparse
    exact keepsSpelling_of_parse (ht symbol hsymbol) hparse
  · intro h settings p hp hexponents
    have hreads : p.Over (Rendering.ReadsBack ⟨t, settings⟩) :=
      hp.mono fun symbol hsymbol => readsBack (ht symbol hsymbol) (h symbol hsymbol)
    exact (Rendering.parse_units hreads hexponents).1

theorem showsWords_of_all (h : t.All fun entry => t.ShowsWord entry.symbol) : t.ShowsWords := by
  rintro symbol ⟨entry, hentry, rfl⟩
  exact h.lookup hentry

/-! ## The standard table -/

/-- One word without commands, which is no name for the number one. -/
def IsUnitWord (text : String) : Prop :=
  (∃ ts, Worksheet.tokens { mode := .units } text = .ok ts ∧ ts.map Token.kind = [.ident text]) ∧
    text ≠ "dimensionless" ∧ text ≠ "dmnl" ∧ '\\' ∉ text.toList

instance (text : String) : Decidable (IsUnitWord text) := inferInstanceAs (Decidable (_ ∧ _))

theorem standard_isUnitWord {entry : UnitEntry} (h : standard.lookup symbol = some entry) :
    IsUnitWord entry.display := by
  have hdefinitions : ∀ definition ∈ UnitDefinition.standard,
      ∀ text ∈ definition.displays, IsUnitWord text := by decide +kernel
  refine standard_induction (motive := fun t => t.lookup symbol = some entry → _)
    (fun t hbuild hlookup => ?_) (fun hlookup => by cases hlookup) h
  obtain ⟨definition, hmem, htext⟩ := display_of_build hbuild hlookup
  exact hdefinitions definition hmem _ htext

theorem standard_findsDisplays : standard.FindsDisplays := by
  have hshows : ∀ definition ∈ UnitDefinition.standard, definition.ShowsOwnName ∧
      (definition.prefixes ≠ .none → definition.shown = definition.name) := by decide
  refine standard_induction (fun t hbuild => ?_) fun symbol entry h => by cases h
  refine findsDisplays_of_shown hbuild (fun definition hmem => (hshows definition hmem).1) ?_
  intro before definition after p hturn hmakes
  have hmem : definition ∈ UnitDefinition.standard := mem_inOrder.1 (by simp [hturn])
  exact (hshows definition hmem).2 hmakes.asked

/-- The standard table shows its units as words. -/
theorem standard_showsWords : standard.ShowsWords := by
  rintro symbol ⟨entry, hlookup, rfl⟩
  obtain ⟨htokens, hdimensionless, hdmnl, -⟩ := standard_isUnitWord hlookup
  have hfound := standard_findsDisplays _ entry (standard_integrity.entry_of_lookup hlookup)
  rw [hlookup] at hfound
  rw [← displaySymbol_eq hlookup] at htokens hdimensionless hdmnl
  exact ⟨htokens, hdimensionless, hdmnl, entry, hfound, rfl⟩

theorem standard_keepsSpelling (h : standard.IsCanonical symbol) : standard.KeepsSpelling symbol := by
  obtain ⟨entry, hlookup, rfl⟩ := h
  intro hcommand
  rw [displaySymbol_eq hlookup] at hcommand
  exact absurd hcommand (standard_isUnitWord hlookup).2.2.2

/-- The standard table reads every product back. -/
theorem standard_roundTrips : standard.ShowsWords ∧ standard.RoundTrips :=
  ⟨standard_showsWords, (roundTrips_iff standard_showsWords).2 fun _ => standard_keepsSpelling⟩

/-- A unit that is shown as a command which stands for a sign of units. -/
def muTable : UnitTable :=
  { entries := [("\\mu", ⟨"\\mu", "\\mu", .unit "\\mu", 1, 0⟩)] }

/-- It is written as the command, which is read as the sign, and that is no unit. -/
theorem not_roundTrips_mu :
    build [{ name := "\\mu" }] = .ok muTable ∧ muTable.ShowsWords ∧ ¬muTable.RoundTrips := by
  have hall : ∀ e ∈ muTable.entries, muTable.ShowsWord e.2.symbol := by decide
  have hcanonical : muTable.Finds "\\mu" "\\mu" := by decide
  refine ⟨rfl, showsWords_of_all hall, fun h => ?_⟩
  have hparse := h {} (.unit "\\mu") (UnitProduct.over_unit hcanonical) (by
    intro f hf
    obtain rfl : f = ("\\mu", 1) := List.mem_singleton.1 hf
    exact isExponent_one)
  have hfails : muTable.parse (Rendering.units ⟨muTable, {}⟩ (.unit "\\mu")) ≠
      .ok (.unit "\\mu") := by
    decide +kernel
  exact hfails hparse

end UnitTable

end Worksheet

import Worksheet.Proofs.Document.Run
import Worksheet.Proofs.Expr.Calls
import Worksheet.Proofs.Expr.Roots
import Worksheet.Proofs.Statement.Names
/-!
# Names in use

What a statement has bound is found by its name, if the name is one identifier with nothing around
it. Layout around the identifier goes unnoticed when the name is bound, and is in its canonical
spelling; where the name is read it is not, and the name is not found.
-/

namespace Worksheet

open Text

/-! ## Bare words -/

/-- A bare word is its own canonical spelling. -/
theorem Scan.IsBareWord.ofSpelling {v : String} (h : IsBareWord v.toList) :
    Name.ofSpelling v = ⟨v⟩ := by
  have hslash : '\\' ∉ v.toList := h.not_mem (by decide) (by decide)
  have hkept : v.toList.filter (fun c => !Name.isLayout c) = v.toList := by
    refine List.filter_eq_self.2 fun c hc => ?_
    have hbraces := h.not_mem_braces c hc
    have hblank : isBlank c = false := by
      rw [Bool.eq_false_iff]
      intro hblank
      refine h.not_mem ?_ ?_ hc
      · exact isWordStart_of_isBlank hblank
      · simp [continuesName, isWordContinue_of_isBlank hblank]
    simp only [List.mem_cons, List.not_mem_nil, or_false, not_or] at hbraces
    simp [Name.isLayout, hbraces, hblank]
  rw [Name.ofSpelling, Name.spell, hkept, replace_eq_self (by decide) _ hslash,
    replace_eq_self (by decide) _ hslash, String.ofList_toList]

theorem Scan.IsBareWord.isDecorated {v : String} (h : IsBareWord v.toList) :
    (⟨v⟩ : Name).isDecorated = false := by
  have hsubscript : '_' ∉ v.toList := h.not_mem (by decide) (by decide)
  have hprime : '\'' ∉ v.toList := h.not_mem (by decide) (by decide)
  refine List.any_eq_false.2 fun c hc => ?_
  simp only [Bool.or_eq_true, decide_eq_true_eq, not_or]
  exact ⟨fun heq => hsubscript (heq ▸ hc), fun heq => hprime (heq ▸ hc)⟩

/-- Where a value may have the name, it is not read as a unit. -/
theorem UnitTable.not_readsAsUnit {t : UnitTable} {v : String}
    (h : t.isReserved (.ofSpelling v) = false) :
    ¬(Scan.IsBareWord v.toList ∧ t.readsAsUnit v) := by
  rintro ⟨hbare, hunit⟩
  rw [hbare.ofSpelling, isReserved, hbare.isDecorated] at h
  rw [readsAsUnit, Bool.and_eq_true] at hunit
  simp [hunit.2] at h

namespace Document

open Worksheet.Expr Token.Kind

/-! ## What is bound -/

/-- The name, read on its own, refers to its entry, and has a value. -/
def RefersTo (d : Document) (name : String) (v : Value) : Prop :=
  ∃ entry span, d.registry.lookup (.ofSpelling name) = some entry ∧
    Expr.parse (d.registry.scope d.table []) name =
      .ok (some (.var span (.ofSpelling name) (.symbol entry.id))) ∧
    ((Expr.var span (.ofSpelling name) (.symbol entry.id)).eval d.environment).result =
      (.ok v, [])

/-- The name, with as many arguments behind it, calls its entry. -/
def Calls (d : Document) (name : String) (count : Nat) : Prop :=
  ∃ entry, d.registry.lookup (.ofSpelling name) = some entry ∧
    ∀ args es, args.length = count → ReadAs (d.registry.scope d.table []) args es →
      ∃ span es', SameTrees es es' ∧
        Expr.parse (d.registry.scope d.table []) (name ++ "(" ++ ",".intercalate args ++ ")") =
          .ok (some (.call span (.ofSpelling name) (.user entry.id) es'))

section

variable {d : Document} {v source : String} {x : Value} {f : FunctionDefinition} {entry : Entry}
  {count : Nat}

theorem eval_symbol {env : Environment} {id : SymbolId} (hentry : env.registry.get? id = some entry)
    (hbinder : entry.binder = .value x source) (span : Span) (name : Name) :
    ((Expr.var span name (.symbol id)).eval env).result = (.ok x, []) := by
  have hnamed : Evaluation.named env [] span name (.symbol id) = pure x := by
    simp only [Evaluation.named, hentry, Evaluation.named.valueOf, hbinder]
  rw [Expr.eval]
  cases env.settings.maxCallDepth <;>
    · rw [Evaluation.valueAt, Evaluation.value, hnamed]
      rfl

theorem refersTo_of_isName (hv : Scan.IsName v)
    (hlookup : d.registry.lookup (.ofSpelling v) = some entry)
    (hentry : d.registry.get? entry.id = some entry) (hbinder : entry.binder = .value x source)
    (hfree : d.table.isReserved (.ofSpelling v) = false) : d.RefersTo v x := by
  have hresolve : d.registry.resolve (.ofSpelling v) = some (.value entry.id) := by
    simp only [Registry.resolve, hlookup, Option.map_some, hbinder]
  have hvalue : (d.registry.scope d.table []).Values (.ofSpelling v) (.symbol entry.id) :=
    .bound rfl hresolve
  obtain ⟨e, hsame, hparse⟩ :=
    (standsAs_value rfl hv hvalue (UnitTable.not_readsAsUnit hfree)).parse
  obtain ⟨span, rfl⟩ : ∃ span, e = .var span (.ofSpelling v) (.symbol entry.id) := by
    cases e <;> cases hsame
    exact ⟨_, rfl⟩
  exact ⟨entry, span, hlookup, hparse, eval_symbol hentry hbinder span _⟩

theorem calls_of_isName (hv : Scan.IsName v)
    (hlookup : d.registry.lookup (.ofSpelling v) = some entry)
    (hbinder : entry.binder = .function f) (hpos : 0 < f.arity) : d.Calls v f.arity := by
  have hresolve : d.registry.resolve (.ofSpelling v) = some (.function entry.id f.arity) := by
    simp only [Registry.resolve, hlookup, Option.map_some, hbinder]
  have huse : ∀ span, useOf (d.registry.scope d.table []) v span true =
      .call (.user entry.id) (some f.arity) := by
    intro span
    have hresolve' : (d.registry.scope d.table []).resolve (.ofSpelling v) =
        some (.function entry.id f.arity) := hresolve
    simp only [useOf, hresolve']
    rfl
  refine ⟨entry, hlookup, fun args es hlength hread => ?_⟩
  have hne : args ≠ [] := List.length_pos_iff.1 (hlength ▸ hpos)
  obtain ⟨es', hsame, hlists⟩ := hread.listsArguments hne
  have hcount : es'.length = f.arity := by
    rw [← length_eq_of_bares hsame, ← hread.length_eq, hlength]
  have haccepts : acceptsCount (.user entry.id) (some f.arity) es'.length := by
    simp [acceptsCount, hcount]
  obtain ⟨span, es'', hsame', hparse⟩ := ((textCalls_name rfl hv huse).reads hlists).result haccepts
  exact ⟨span, es'', hsame.trans hsame', hparse⟩

/-- An argument that every document reads. -/
theorem exists_readAs (d : Document) (count : Nat) :
    ∃ e, ReadAs (d.registry.scope d.table []) (List.replicate count "1")
      (List.replicate count e) := by
  obtain ⟨x, hx⟩ := (Number.Numeral.IsPlain.whole (by decide) (by decide) :
    Number.Numeral.IsPlain "1".toList).value?
  have hscan : tokens (rules (d.registry.scope d.table [])) "1" = .ok [⟨.num "1", 0, 1⟩] := rfl
  have hread : ∀ last, Understands (sum (d.registry.scope d.table []) last) adds [.num "1"]
      (fun _ => True) := fun last =>
    sum_of_signedTerm (signedTerm_of_power rfl (power_of_operand (operand_num hx fun _ => trivial)))
  obtain ⟨e, -, hparse⟩ := parse_of_scans (scans_iff.2 ⟨_, hscan, rfl⟩) hread
  have hpieces : Scan.pieces (rules (d.registry.scope d.table [])) "1".toList =
      [.token ['1'] (.num "1")] := rfl
  have hfree : Scan.MatrixFree (rules (d.registry.scope d.table [])) "1" := by
    unfold Scan.MatrixFree
    rw [hpieces]
    decide
  refine ⟨e, ?_⟩
  induction count with
  | zero => exact .nil
  | succ count ih => exact .cons ⟨hparse, hfree⟩ ih

/-- A name that is read as a reference or a call has nothing around its identifier. -/
theorem isName_of_parse {cs r : List Char} {e : Expr} {text : String}
    (hname : Statement.isName (trim cs)) (hr : Scan.Apart r)
    (htext : text.toList = trim cs ++ r)
    (hroot : e.name? = some (.ofSpelling (String.ofList (trim cs))))
    (hparse : Expr.parse (d.registry.scope d.table []) text = .ok (some e)) :
    Scan.IsName (String.ofList (trim cs)) := by
  obtain ⟨v, a, b, hscan⟩ := Statement.tokens_of_isName hname
  have hspelling := eq_of_parse rfl hscan hr (by rw [htext, String.toList_ofList]) hroot hparse
  exact Scan.isName_of_ofSpelling hscan String.toList_ofList.symm hspelling

theorem RefersTo.isName {name : Fragment} (hname : Statement.isName (trim name.text.toList))
    (h : d.RefersTo name.trimmed x) : Scan.IsName name.trimmed := by
  obtain ⟨entry, span, -, hparse, -⟩ := h
  exact isName_of_parse hname Scan.apart_nil (by simp [Fragment.trimmed]) rfl hparse

theorem Calls.isName {name : Fragment} (hname : Statement.isName (trim name.text.toList))
    (h : d.Calls name.trimmed count) : Scan.IsName name.trimmed := by
  obtain ⟨entry, -, hcalls⟩ := h
  obtain ⟨e, hread⟩ := exists_readAs d count
  obtain ⟨span, es', -, hparse⟩ := hcalls _ _ List.length_replicate hread
  have htext := toList_parentheses name.trimmed (",".intercalate (List.replicate count "1"))
  rw [Fragment.trimmed, String.toList_ofList] at htext
  exact isName_of_parse hname (Scan.apart_left _).1 htext rfl hparse

end

/-! ## Runs -/

theorem run_indexed {d : Document} (hd : d.registry.Indexed) {st : Statement}
    {hint : Option String} {effect : Effect} (h : d.run st hint = .ok effect) :
    effect.registry.Indexed := by
  cases run_eq_ok_iff.1 h with
  | definition => exact hd.bind _ _
  | binding _ hbound | shownBinding _ _ hbound =>
    obtain ⟨-, rfl⟩ := Registry.bindValue_eq_ok hbound
    exact hd.bind _ _
  | display => exact hd

theorem processEach_indexed {d : Document} (hd : d.registry.Indexed)
    (steps : List (String × Option String)) : (d.processEach steps).2.registry.Indexed :=
  @processEach_keeps (fun d => d.registry.Indexed)
    (fun _ _ _ hd => process_registry hd fun _ _ _ _ hrun => run_indexed hd hrun) d hd steps

/-! ## Names of statements -/

/-- What the statement has bound can be used by its name: a function is called by it, and a value
is what it refers to. -/
def Uses (d next : Document) : Statement → Prop
  | .definition name params _ _ => next.Calls name.trimmed params.length
  | .assignment name expr _ =>
    ∃ v ws, d.evaluate expr = .ok (v, ws) ∧ next.RefersTo name.trimmed v
  | .display .. => True

section

variable {d next : Document} {name : Fragment}

theorem refersTo_of_bindValue (hd : d.registry.Indexed) {x : Value} {source : String} {span : Span}
    {r : Registry} (hbound : d.registry.bindValue d.table name.trimmed x source span = .ok r)
    (htable : next.table = d.table) (hregistry : next.registry = r)
    (hv : Scan.IsName name.trimmed) : next.RefersTo name.trimmed x := by
  obtain ⟨hfree, hr⟩ := Registry.bindValue_eq_ok hbound
  obtain ⟨entry, hlookup, hentry, hbinder⟩ :=
    hd.lookup_bind name.trimmed (.value x (Registry.trimmed source))
  rw [← hr, ← hregistry] at hlookup hentry
  rw [← htable] at hfree
  exact refersTo_of_isName hv hlookup hentry hbinder hfree

theorem calls_of_defineFunction (hd : d.registry.Indexed) {params : List Name} {body : Expr}
    {source : String} (hparams : params ≠ [])
    (hbound : next.registry = d.registry.defineFunction name.trimmed params body source)
    (hv : Scan.IsName name.trimmed) : next.Calls name.trimmed params.length := by
  obtain ⟨entry, hlookup, -, hbinder⟩ := hd.lookup_bind name.trimmed
    (.function ⟨.ofSpelling name.trimmed, params, body, Registry.trimmed source⟩)
  rw [Registry.defineFunction] at hbound
  rw [← hbound] at hlookup
  exact calls_of_isName hv hlookup hbinder (List.length_pos_iff.2 hparams)

theorem uses_iff_of_run (hd : d.registry.Indexed) {st : Statement} {hint : Option String}
    {effect : Effect} (hnamed : st.Named) (hrun : d.run st hint = .ok effect)
    (htable : next.table = d.table) (hregistry : next.registry = effect.registry)
    (hname : name ∈ st.name?) : d.Uses next st ↔ Scan.IsName name.trimmed := by
  cases run_eq_ok_iff.1 hrun with
  | definition =>
    cases hname
    exact ⟨Calls.isName hnamed.1, calls_of_defineFunction hd hnamed.2 hregistry⟩
  | binding heval hbound | shownBinding heval _ hbound =>
    cases hname
    constructor
    · rintro ⟨v, ws, -, h⟩
      exact h.isName hnamed
    · intro hv
      exact ⟨_, _, heval, refersTo_of_bindValue hd hbound htable hregistry hv⟩
  | display => cases hname

/-- What a statement has bound can be used exactly if its name has nothing around its identifier. -/
theorem uses_iff_of_process (hd : d.registry.Indexed) {text : String} {hint : Option String}
    {parsed : ParsedStatement} (hparsed : Statement.parse text = .ok parsed)
    (hdone : (d.process text hint).1.hasErrors = false) (hname : name ∈ parsed.statement.name?) :
    d.Uses (d.process text hint).2 parsed.statement ↔ Scan.IsName name.trimmed := by
  have hends := process_ends d text hint
  generalize d.process text hint = result at hends hdone ⊢
  cases hends with
  | failed => cases hdone
  | succeeded hparsed' hrun =>
    cases hparsed.symm.trans hparsed'
    exact uses_iff_of_run hd ((Statement.parse_named text).result hparsed) hrun rfl rfl hname

end

/-- After any statements, what a statement that does not fail binds can be used by its name, exactly
if the name has nothing around its identifier: a value is what the name refers to, and a function
is called by the name with its number of arguments, whichever expressions without matrices they
are. -/
theorem uses_iff_isName (t : UnitTable) (settings : Settings)
    (steps : List (String × Option String)) (text : String) (hint : Option String)
    {parsed : ParsedStatement} {name : Fragment} (hparsed : Statement.parse text = .ok parsed)
    (hname : name ∈ parsed.statement.name?) :
    let d := (({ table := t, settings } : Document).processEach steps).2
    (d.process text hint).1.hasErrors = false →
      (d.Uses (d.process text hint).2 parsed.statement ↔ Scan.IsName name.trimmed) := by
  intro d hdone
  have hempty : ({ table := t, settings } : Document).registry.Indexed := Registry.indexed_empty
  exact uses_iff_of_process (processEach_indexed hempty steps) hparsed hdone hname

/-- A function whose name is a bare word. -/
theorem uses_bare_word :
    let text := "f(u) := u"
    ∃ parsed name, Statement.parse text = .ok parsed ∧ name ∈ parsed.statement.name? ∧
      ((fresh {}).process text none).1.hasErrors = false ∧ Scan.IsName name.trimmed ∧
      (fresh {}).Uses ((fresh {}).process text none).2 parsed.statement := by
  intro text
  let name : Fragment := ⟨"f", 0⟩
  let parsed : ParsedStatement := ⟨.definition name [⟨"u"⟩] [Span.ofBytes 2 3] ⟨" u", 7⟩, text⟩
  have hparsed : Statement.parse text = .ok parsed := by decide +kernel
  have hdone : ((fresh {}).process text none).1.hasErrors = false := by
    rw [fresh_eq_listed]
    decide +kernel
  have hv : Scan.IsName name.trimmed := by
    unfold Scan.IsName
    decide +kernel
  exact ⟨parsed, name, hparsed, rfl, hdone, hv,
    (uses_iff_isName .standard {} [] text none hparsed rfl hdone).2 hv⟩

/-- A value whose name has a narrow space behind it. -/
theorem not_uses_narrow_space :
    ∃ parsed, Statement.parse "x\\, := 5" = .ok parsed ∧
      ((fresh {}).process "x\\, := 5" none).1.hasErrors = false ∧
      ¬(fresh {}).Uses ((fresh {}).process "x\\, := 5" none).2 parsed.statement := by
  refine ⟨⟨.assignment ⟨"x\\, ", 0⟩ ⟨" 5", 6⟩ none, "x\\, := 5"⟩, ?_⟩
  have hparsed : Statement.parse "x\\, := 5" =
      .ok ⟨.assignment ⟨"x\\, ", 0⟩ ⟨" 5", 6⟩ none, "x\\, := 5"⟩ := by decide +kernel
  have hdone : ((fresh {}).process "x\\, := 5" none).1.hasErrors = false := by
    rw [fresh_eq_listed]
    decide +kernel
  refine ⟨hparsed, hdone, fun h => ?_⟩
  have hv := (uses_iff_of_process Registry.indexed_empty hparsed hdone rfl).1 h
  exact absurd hv (by unfold Scan.IsName; decide +kernel)

end Document

end Worksheet

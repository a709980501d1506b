import Worksheet.Proofs.Expr.Alike
import Worksheet.Proofs.Token.Named
import Worksheet.Registry.Basic
/-!
# Values before parentheses

A name that stands for a value multiplies the parentheses behind it, as if there were a sign for the
product between them. The builtin constant is called instead, and takes no arguments.
-/

namespace Worksheet

open Text

namespace Expr

open Token.Kind

section

variable {scope : Scope} {last : Nat} {v : String} {e inner : Expr} {ks : List Token.Kind}

/-- A value goes on with a subscript or an exponent; parentheses make no call of it. -/
def goesOnValue (k : Token.Kind) : Bool := k = .lbracket || k = .exp

theorem goesOnValue_of_raises (k : Token.Kind) (h : raises k = false) : goesOnValue k = false := by
  simp only [raises, opens, Bool.or_eq_false_iff] at h
  rw [goesOnValue, h.1.2, h.2]
  rfl

theorem Ends.ne_of_goesOnValue {rest : List Token} (h : Ends goesOnValue rest) :
    ∀ t ∈ rest.head?, t.kind ≠ .lbracket ∧ t.kind ≠ .exp := by
  intro t ht
  have hvalue := h t ht
  simpa only [goesOnValue, Bool.or_eq_false_iff, decide_eq_false_iff_not] using hvalue

theorem signedTerm_value
    (huse : ∀ span called, ∃ e', useOf scope v span called = .operand e' ∧ SameTree e e') :
    Understands (signedTerm scope last) goesOnValue [.ident v] (SameTree e) := by
  intro front rest hfront hrest
  obtain ⟨⟨kind, start, stop⟩, rfl, hkind⟩ := List.map_eq_singleton_iff.1 hfront
  cases hkind
  obtain ⟨e', he', hsame⟩ := huse (Span.ofBytes start stop) (isOpen rest)
  refine ⟨e', hsame, by simp, ?_⟩
  have hoperand : operand scope last (⟨.ident v, start, stop⟩ :: rest) =
      .ok ⟨e', rest, by simp⟩ := by
    rw [operand.eq_def]
    simp [he']
  have hsubscripted : subscripted scope last (⟨.ident v, start, stop⟩ :: rest) =
      .ok ⟨e', rest, by simp⟩ := by
    rw [subscripted, hoperand, ok_bind]
    exact subscriptedFrom_of_ne (fun t ht => (hrest.ne_of_goesOnValue t ht).1) _
  change signedTerm scope last (⟨.ident v, start, stop⟩ :: rest) = _
  rw [signedTerm]
  change power scope last (⟨.ident v, start, stop⟩ :: rest) = _
  rw [power, hsubscripted, ok_bind]
  cases rest with
  | nil => rfl
  | cons t rest => exact if_neg (hrest.ne_of_goesOnValue t rfl).2

end

/-! ## What stands before the parentheses -/

end Expr

/-- A parameter, or a name that is bound to a value. -/
inductive Scope.Values (scope : Scope) (name : Name) : Binding → Prop where
  | parameter {i : Nat} (h : scope.parameter? name = some i) : Values scope name (.parameter i)
  | bound {id : SymbolId} (hfree : scope.parameter? name = none)
      (h : scope.resolve name = some (.value id)) : Values scope name (.symbol id)

/-- The name of the builtin constant, with nothing bound to it. -/
structure Scope.FreeConstant (scope : Scope) (name : Name) (constant : Builtin) : Prop where
  parameter : scope.parameter? name = none
  resolve : scope.resolve name = none
  builtin : Builtin.ofName? name.text = some constant
  isConstant : constant.isConstant

def Scope.StandsForValue (scope : Scope) (name : Name) : Prop :=
  (∃ binding, scope.Values name binding) ∨ ∃ constant, scope.FreeConstant name constant

namespace Expr

open Token.Kind

section

variable {scope : Scope} {v q : String} {inner node : Expr} {k : Token.Kind} {binding : Binding}
  {constant : Builtin}

theorem useOf_value (hmode : scope.mode = .equation)
    (h : scope.Values (Name.ofSpelling v) binding) (span : Span) (called : Bool) :
    useOf scope v span called = .operand (var span (Name.ofSpelling v) binding) := by
  cases h with
  | parameter h => simp [useOf, hmode, h]
  | bound hfree h => simp [useOf, hmode, hfree, h]

theorem useOf_constant (hmode : scope.mode = .equation)
    (h : scope.FreeConstant (Name.ofSpelling v) constant) (span : Span) :
    useOf scope v span true = .call (.builtin constant) none := by
  simp [useOf, hmode, h.parameter, h.resolve, h.builtin]

/-- The rules by which the texts of a scope are cut into tokens. -/
abbrev rules (scope : Scope) : ScanRules := ⟨scope.mode, scope.isUnitWord⟩

/-- With no parenthesis behind it, the text is one token that is read as this operand. -/
structure StandsAs (scope : Scope) (v : String) (k : Token.Kind) (node : Expr) : Prop where
  scans : ∀ {r ks}, Scan.Apart r → Scan.isCalled r = false → Scan.Scans (rules scope) 0 r ks →
    Scan.Scans (rules scope) 0 (v.toList ++ r) (k :: ks)
  reads : ∀ last, Understands (signedTerm scope last) raises [k] (SameTree node)

theorem standsAs_value (hmode : scope.mode = .equation) (hv : Scan.IsName v)
    (h : scope.Values (Name.ofSpelling v) binding)
    (hword : ¬(Scan.IsBareWord v.toList ∧ scope.isUnitWord v)) :
    StandsAs scope v (.ident v) (var default (Name.ofSpelling v) binding) where
  scans hr _ hscans := by
    rw [rules, hmode] at hscans ⊢
    exact hv.scans_ident hr (fun hbare hunit => absurd ⟨hbare, hunit⟩ hword) hscans
  reads last := (signedTerm_value fun span called => ⟨_, useOf_value hmode h span called, rfl⟩).mono
    goesOnValue_of_raises

theorem standsAs_unit (hmode : scope.mode = .equation) (hv : Scan.IsName v)
    (hbare : Scan.IsBareWord v.toList) (hunit : scope.isUnitWord v) :
    StandsAs scope v (.unit v) (unit default v) where
  scans hr hcalled hscans := by
    rw [rules, hmode] at hscans ⊢
    exact hv.scans_unit hbare hunit hr hcalled hscans
  reads last := signedTerm_of_power rfl (power_of_operand (operand_unit fun _ => rfl))

theorem StandsAs.parse (h : StandsAs scope v k node) :
    ∃ e, SameTree node e ∧ Expr.parse scope v = .ok (some e) := by
  have hscans := h.scans Scan.apart_nil rfl (Scan.Scans.done : Scan.Scans (rules scope) 0 [] [])
  rw [List.append_nil] at hscans
  exact parse_of_scans hscans fun last => sum_of_signedTerm (h.reads last)

theorem sum_of_operand_error {last : Nat} {t : Token} {ts : List Token} {e : SourceError}
    (hsign : sign? t.kind = none) (h : operand scope last (t :: ts) = .error e) :
    sum scope last (t :: ts) = .error e := by
  rw [sum, product, juxtaposed, signedTerm, hsign, power, subscripted, h]
  rfl

/-- The tokens of an expression, which are read as the same wherever they stand. -/
theorem exists_scans_of_parse (h : Expr.parse scope q = .ok (some inner)) :
    ∃ k ks, Scan.Scans (rules scope) 0 q.toList (k :: ks) ∧ k ≠ .rparen ∧
      ∀ last, Understands (sum scope last) adds (k :: ks) (SameTree inner) := by
  obtain ⟨ts, hts, hparse⟩ := bind_eq_ok.1 h
  cases ts with
  | nil => cases hparse
  | cons t ts =>
    rw [ofTokens, if_neg (by simp)] at hparse
    obtain ⟨⟨e, rest, shorter⟩, hsum, hrest⟩ := bind_eq_ok.1 hparse
    cases rest with
    | cons u rest => cases hrest
    | nil =>
      cases hrest
      refine ⟨t.kind, ts.map Token.kind, scans_iff.2 ⟨_, hts, rfl⟩, fun hclose => ?_,
        understands_of_sum ⟨shorter, hsum⟩⟩
      have hoperand : operand scope (((t :: ts).getLast?.map Token.stop).getD 0) (t :: ts) =
          .error ⟨.unmatchedBracket, Span.ofBytes t.start t.stop⟩ := by
        rw [operand.eq_def]
        simp [hclose]
      rw [sum_of_operand_error (by rw [hclose]; rfl) hoperand] at hsum
      cases hsum

/-! ## The product -/

theorem toList_parentheses (v q : String) :
    (v ++ "(" ++ q ++ ")").toList = v.toList ++ '(' :: (q.toList ++ [')']) := by simp

theorem toList_cdot (v q : String) :
    (v ++ " \\cdot (" ++ q ++ ")").toList =
      v.toList ++ (" \\cdot ".toList ++ '(' :: (q.toList ++ [')'])) := by simp

theorem power_parentheses {last : Nat} {ks : List Token.Kind}
    (h : Understands (sum scope last) adds ks (SameTree inner)) :
    Understands (power scope last) raises (.lparen :: (ks ++ [.rparen]))
      (SameTree (group default inner)) :=
  power_of_operand (operand_group (.inl ⟨rfl, rfl⟩) h fun span e he => by
    rw [SameTree, bare, bare, he])

theorem sameTree_product {left left' right right' : Expr} (hleft : SameTree left left')
    (hright : SameTree right right') :
    SameTree (join .mul left right) (join .mul left' right') := by
  rw [SameTree, bare_join, bare_join, hleft, hright]

/-- A value before parentheses is a factor. -/
theorem parse_value_parentheses (hmode : scope.mode = .equation) (hv : Scan.IsName v)
    (h : scope.Values (Name.ofSpelling v) binding) (hq : Expr.parse scope q = .ok (some inner)) :
    ∃ e, SameTree (join .mul (var default (Name.ofSpelling v) binding) (group default inner)) e ∧
      Expr.parse scope (v ++ "(" ++ q ++ ")") = .ok (some e) := by
  obtain ⟨k, ks, hscans, -, hinner⟩ := exists_scans_of_parse hq
  have hparentheses := hscans.parentheses
  rw [rules, hmode] at hparentheses
  have htext := hv.scans_ident (Scan.apart_left (q.toList ++ [')'])).1 (fun _ _ => rfl) hparentheses
  rw [← toList_parentheses] at htext
  refine parse_of_scans (by rw [hmode]; exact htext) fun last => ?_
  have hvalue : Understands (signedTerm scope last) goesOnValue [.ident v]
      (SameTree (var default (Name.ofSpelling v) binding)) :=
    signedTerm_value fun span called => ⟨_, useOf_value hmode h span called, rfl⟩
  exact sum_of_product (product_of_juxtaposed (juxtaposed_pair hvalue rfl rfl
    (power_parentheses (hinner last)) fun _ _ => sameTree_product))

theorem StandsAs.parse_cdot (h : StandsAs scope v k node)
    (hq : Expr.parse scope q = .ok (some inner)) :
    ∃ e, SameTree (join .mul node (group default inner)) e ∧
      Expr.parse scope (v ++ " \\cdot (" ++ q ++ ")") = .ok (some e) := by
  obtain ⟨k', ks, hscans, -, hinner⟩ := exists_scans_of_parse hq
  have hapart : Scan.Apart (" \\cdot ".toList ++ '(' :: (q.toList ++ [')'])) :=
    Scan.apart_cons (show ' ' ∈ Scan.separators by decide) (by decide) _
  have htext := h.scans hapart rfl hscans.parentheses.cdot
  rw [← toList_cdot] at htext
  refine parse_of_scans htext fun last => ?_
  have hfactor := juxtaposed_of_signedTerm
    (signedTerm_of_power rfl (power_parentheses (hinner last)))
  have htail : Tail scope last (.mul :: (.lparen :: (k' :: ks ++ [.rparen]) ++ []))
      (SameTree node) (SameTree (join .mul node (group default inner))) :=
    .cons rfl hfactor (fun _ _ => sameTree_product) .nil
  have hproduct := product_of_tail (juxtaposed_of_signedTerm (h.reads last)) htail
  rw [List.append_nil] at hproduct
  exact sum_of_product hproduct

/-- The tokens of arguments in parentheses, read as the arguments of a call. -/
theorem arguments_parentheses {last : Nat} {k : Token.Kind} {ks : List Token.Kind}
    {Qs : List (Expr → Prop)} (hk : k ≠ .rparen) (h : Listed scope last (k :: ks) Qs) :
    Understands (arguments scope last) (fun _ => false) (.lparen :: (k :: ks ++ [.rparen]))
      fun args => Elementwise Qs args.1 := by
  intro front rest hkinds _
  obtain ⟨opener, others, rfl, -, hothers⟩ := List.map_eq_cons_iff.1 hkinds
  obtain ⟨front, closing, rfl, hfront, hclosing⟩ := List.map_eq_append_iff.1 hothers
  obtain ⟨closer, rfl, hcloser⟩ := List.map_eq_singleton_iff.1 hclosing
  obtain ⟨args, hargs, hreads⟩ := h.understands front (closer :: rest) hfront
    (ends_cons (by rw [hcloser]; rfl))
  obtain ⟨first, front, rfl, hfirst, -⟩ := List.map_eq_cons_iff.1 hfront
  rw [List.cons_append] at hreads
  obtain ⟨shorter, hlisted⟩ := hreads
  obtain ⟨shorter', hclose⟩ := reads_close opener hcloser rest
  have happend : first :: front ++ [closer] ++ rest = first :: (front ++ closer :: rest) := by simp
  refine ⟨(args, closer.stop), hargs, ?_⟩
  rw [List.cons_append, happend]
  refine ⟨by simp; omega, ?_⟩
  rw [arguments, if_neg (by simp [hfirst, hk]), hlisted, ok_bind]
  dsimp only
  rw [hclose]
  rfl

/-- The builtin constant is called, and takes no argument. -/
theorem parse_constant_parentheses (hmode : scope.mode = .equation) (hv : Scan.IsName v)
    (h : scope.FreeConstant (Name.ofSpelling v) constant)
    (hq : Expr.parse scope q = .ok (some inner)) :
    ∃ span, Expr.parse scope (v ++ "(" ++ q ++ ")") = .error ⟨.badArity, span⟩ := by
  obtain ⟨k, ks, hscans, hk, hinner⟩ := exists_scans_of_parse hq
  have hparentheses := hscans.parentheses
  rw [rules, hmode] at hparentheses
  have htext := hv.scans_ident (Scan.apart_left (q.toList ++ [')'])).1 (fun _ _ => rfl) hparentheses
  rw [← toList_parentheses] at htext
  obtain ⟨ts, hts, hkinds⟩ := scans_iff.1 htext
  obtain ⟨⟨kind, start, stop⟩, more, rfl, hkind, hmore⟩ := List.map_eq_cons_iff.1 hkinds
  cases hkind
  have hopen : isOpen more = true := by
    obtain ⟨opener, others, rfl, hopener, -⟩ := List.map_eq_cons_iff.1 hmore
    simp [isOpen, hopener]
  have haccepts : acceptsCount (.builtin constant) none 1 = false := by
    have hconstants : ∀ b : Builtin, b.isConstant → acceptsCount (.builtin b) none 1 = false := by
      rintro ⟨⟩ <;> decide
    exact hconstants constant h.isConstant
  have hoperand : ∀ last, ∃ span,
      operand scope last (⟨.ident v, start, stop⟩ :: more) = .error ⟨.badArity, span⟩ := by
    intro last
    obtain ⟨⟨args, argsStop⟩, hargs, hreads⟩ :=
      arguments_parentheses hk (.single (hinner last)) more [] hmore nofun
    rw [List.append_nil] at hreads
    obtain ⟨shorter, harguments⟩ := hreads
    have hone : args.length = 1 := (List.Forall₂.length_eq hargs).symm
    refine ⟨Span.ofBytes start argsStop, ?_⟩
    rw [operand.eq_def]
    dsimp only
    rw [hopen, useOf_constant hmode h]
    dsimp only
    rw [harguments, ok_bind]
    simp [callOf, hone, haccepts]
  obtain ⟨span, hspan⟩ := hoperand
    (((⟨.ident v, start, stop⟩ :: more : List Token).getLast?.map Token.stop).getD 0)
  refine ⟨span, ?_⟩
  rw [Expr.parse, hmode, hts, ok_bind, ofTokens, if_neg (by simp)]
  dsimp only
  rw [sum_of_operand_error rfl hspan]
  rfl

/-- The name multiplies the parentheses behind it, as it does with a sign. -/
def Multiplies (scope : Scope) (v q : String) (inner : Expr) : Prop :=
  ∃ node e e', Expr.parse scope v = .ok (some node) ∧
    Expr.parse scope (v ++ "(" ++ q ++ ")") = .ok (some e) ∧
    Expr.parse scope (v ++ " \\cdot (" ++ q ++ ")") = .ok (some e') ∧
    SameTree e (join .mul node (group default inner)) ∧ SameTree e e'

theorem multiplies_of_value (hmode : scope.mode = .equation) (hv : Scan.IsName v)
    (h : scope.Values (Name.ofSpelling v) binding)
    (hword : ¬(Scan.IsBareWord v.toList ∧ scope.isUnitWord v))
    (hq : Expr.parse scope q = .ok (some inner)) : Multiplies scope v q inner := by
  have hstands := standsAs_value hmode hv h hword
  obtain ⟨node, hnode, hparse⟩ := hstands.parse
  obtain ⟨e, he, hproduct⟩ := parse_value_parentheses hmode hv h hq
  obtain ⟨e', he', hcdot⟩ := hstands.parse_cdot hq
  refine ⟨node, e, e', hparse, hproduct, hcdot, ?_, he.symm.trans he'⟩
  exact he.symm.trans (sameTree_product hnode rfl)

/-- The word is a unit before the sign, and the value before the parentheses. -/
theorem not_multiplies_of_unit (hmode : scope.mode = .equation) (hv : Scan.IsName v)
    (h : scope.Values (Name.ofSpelling v) binding) (hbare : Scan.IsBareWord v.toList)
    (hunit : scope.isUnitWord v) (hq : Expr.parse scope q = .ok (some inner)) :
    ¬Multiplies scope v q inner := by
  rintro ⟨node, e, e', -, hproduct, hcdot, -, hsame⟩
  obtain ⟨f, hf, hproduct'⟩ := parse_value_parentheses hmode hv h hq
  obtain ⟨f', hf', hcdot'⟩ := (standsAs_unit hmode hv hbare hunit).parse_cdot hq
  rw [hproduct] at hproduct'
  rw [hcdot] at hcdot'
  cases hproduct'
  cases hcdot'
  have hjoin := hf.trans (hsame.trans hf'.symm)
  rw [bare_join, bare_join] at hjoin
  injection hjoin with _ _ hleft
  cases hleft

theorem not_multiplies_of_constant (hmode : scope.mode = .equation) (hv : Scan.IsName v)
    (h : scope.FreeConstant (Name.ofSpelling v) constant)
    (hq : Expr.parse scope q = .ok (some inner)) : ¬Multiplies scope v q inner := by
  rintro ⟨node, e, e', -, hproduct, -⟩
  obtain ⟨span, hfault⟩ := parse_constant_parentheses hmode hv h hq
  rw [hfault] at hproduct
  cases hproduct

end

/-- A name that stands for a value multiplies the parentheses behind it, exactly if it is not the
builtin constant with nothing bound to it, and not a bare word that stands for a unit. -/
theorem multiplies_iff (registry : Registry) (t : UnitTable) (parameters : List Name) {v q : String}
    {inner : Expr} (hv : Scan.IsName v)
    (hvalue : (registry.scope t parameters).StandsForValue (Name.ofSpelling v))
    (hq : Expr.parse (registry.scope t parameters) q = .ok (some inner)) :
    Multiplies (registry.scope t parameters) v q inner ↔
      (¬∃ constant, (registry.scope t parameters).FreeConstant (Name.ofSpelling v) constant) ∧
        ¬(Scan.IsBareWord v.toList ∧ t.readsAsUnit v) := by
  constructor
  · intro h
    refine ⟨fun ⟨_, hconstant⟩ => not_multiplies_of_constant rfl hv hconstant hq h, ?_⟩
    rintro ⟨hbare, hunit⟩
    rcases hvalue with ⟨binding, hbinding⟩ | ⟨constant, hconstant⟩
    · exact not_multiplies_of_unit rfl hv hbinding hbare hunit hq h
    · exact not_multiplies_of_constant rfl hv hconstant hq h
  · rintro ⟨hconstant, hword⟩
    rcases hvalue with ⟨binding, hbinding⟩ | hfree
    · exact multiplies_of_value rfl hv hbinding hword hq
    · exact absurd hfree hconstant

/-- The parameter of a function, squared. -/
theorem multiplies_parameter :
    let scope := ({} : Registry).scope {} [⟨"x"⟩]
    Scan.IsName "x" ∧ scope.StandsForValue (Name.ofSpelling "x") ∧
      ∃ inner, Expr.parse scope "x" = .ok (some inner) ∧ Multiplies scope "x" "x" inner := by
  intro scope
  have hv : Scan.IsName "x" := by
    unfold Scan.IsName
    decide +kernel
  have hbinding : scope.Values (Name.ofSpelling "x") (.parameter 0) :=
    .parameter (by decide +kernel)
  have hword : ¬(Scan.IsBareWord "x".toList ∧ ({} : UnitTable).readsAsUnit "x") := fun h =>
    absurd h.2 (by decide)
  have hnot : ¬∃ constant, scope.FreeConstant (Name.ofSpelling "x") constant := by
    rintro ⟨constant, h⟩
    exact absurd h.parameter (by decide +kernel)
  obtain ⟨inner, -, hq⟩ := (standsAs_value rfl hv hbinding hword).parse
  have hvalue : scope.StandsForValue (Name.ofSpelling "x") := .inl ⟨_, hbinding⟩
  exact ⟨hv, hvalue, inner, hq, (multiplies_iff {} {} [⟨"x"⟩] hv hvalue hq).2 ⟨hnot, hword⟩⟩

/-- Twice the constant is a call with an argument too many. -/
theorem not_multiplies_pi :
    let scope := ({} : Registry).scope {} []
    Scan.IsName "\\pi" ∧ scope.StandsForValue (Name.ofSpelling "\\pi") ∧
      ∃ inner, Expr.parse scope "2" = .ok (some inner) ∧
        (∃ span, Expr.parse scope ("\\pi" ++ "(" ++ "2" ++ ")") = .error ⟨.badArity, span⟩) ∧
        ¬Multiplies scope "\\pi" "2" inner := by
  intro scope
  have hv : Scan.IsName "\\pi" := by
    unfold Scan.IsName
    decide +kernel
  have hconstant : scope.FreeConstant (Name.ofSpelling "\\pi") .pi :=
    ⟨by decide +kernel, by decide +kernel, by decide +kernel, rfl⟩
  have htwo : tokens (rules scope) "2" = .ok [⟨.num "2", 0, 1⟩] := by decide +kernel
  obtain ⟨x, hx⟩ := (Number.Numeral.IsPlain.whole (by decide) (by decide) :
    Number.Numeral.IsPlain "2".toList).value?
  have hread : ∀ last, Understands (sum scope last) adds [.num "2"] (fun _ => True) := fun last =>
    sum_of_signedTerm (signedTerm_of_power rfl (power_of_operand
      (operand_num hx fun _ => trivial)))
  obtain ⟨inner, -, hq⟩ := parse_of_scans (scans_iff.2 ⟨_, htwo, rfl⟩) hread
  exact ⟨hv, .inr ⟨_, hconstant⟩, inner, hq, parse_constant_parentheses rfl hv hconstant hq,
    not_multiplies_of_constant rfl hv hconstant hq⟩

end Expr

end Worksheet

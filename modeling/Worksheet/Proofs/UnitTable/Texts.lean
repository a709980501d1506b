import Worksheet.Proofs.Expr.Grammar
import Worksheet.Proofs.Token.Spelling
import Worksheet.Proofs.UnitTable.Says
/-!
# Texts of units

How unit texts are put together so that they read as trees with a property: factors, signs with a
factor behind them, and the products that these make.
-/

namespace Worksheet.UnitTable

open Worksheet.Expr Scan Token.Kind Text

/-- Unit texts know nothing but units. -/
def unitScope : Scope := Scope.empty .units

/-- A text is spelled with these tokens wherever a name may end behind it. -/
def Opens (text bare : List Char) (ks : List Token.Kind) : Prop :=
  ∀ {rest bareRest : List Char} {ks' : List Token.Kind}, Fenced rest → Fenced bareRest →
    Spells rest bareRest ks' → Spells (text ++ rest) (bare ++ bareRest) (ks ++ ks')

/-- A text that reads as one factor with a property. -/
def FactorText (text : List Char) (Q : Expr → Prop) : Prop :=
  ∃ bare k ks, Opens text bare (k :: ks) ∧ Stops (· = ' ') text ∧ text ≠ [] ∧
    ∀ last, Understands (juxtaposed unitScope last) multiplies (k :: ks) Q

/-- A text that goes on with a product: if that has a property, the whole has another one. -/
def TailText (text : List Char) (Q Q' : Expr → Prop) : Prop :=
  ∃ bare ks, Opens text bare ks ∧ (∀ {rest : List Char}, Fenced rest → Fenced (text ++ rest)) ∧
    (∀ {rest : List Char}, Fenced rest → Fenced (bare ++ rest)) ∧
    ∀ last, Tail unitScope last ks Q Q'

/-- A text that reads as a product with a property. -/
def ProductText (text : List Char) (Q : Expr → Prop) : Prop :=
  ∃ first tail R, text = first ++ tail ∧ FactorText first R ∧ TailText tail R Q

variable {text text' : List Char} {Q Q' Q'' R : Expr → Prop}

theorem stops_append {p : Char → Bool} (h : Stops p text) (hne : text ≠ []) (rest : List Char) :
    Stops p (text ++ rest) := by
  obtain ⟨c, cs, rfl⟩ := List.exists_cons_of_ne_nil hne
  exact h

/-! ## Products -/

theorem TailText.nil : TailText [] Q Q :=
  ⟨[], [], fun _ _ h => h, fun h => h, fun h => h, fun _ => .nil⟩

theorem TailText.append (h : TailText text Q Q') (h' : TailText text' Q' Q'') :
    TailText (text ++ text') Q Q'' := by
  obtain ⟨bare, ks, hopens, hfenced, hbare, hfactors⟩ := h
  obtain ⟨bare', ks', hopens', hfenced', hbare', hfactors'⟩ := h'
  refine ⟨bare ++ bare', ks ++ ks', fun {rest bareRest others} hrest hbareRest hothers => ?_,
    fun {rest} hrest => ?_, fun {rest} hrest => ?_, fun last => (hfactors last).append (hfactors' last)⟩
  · have htail := hopens' hrest hbareRest hothers
    have hwhole := hopens (hfenced' hrest) (hbare' hbareRest) htail
    simpa only [List.append_assoc] using hwhole
  · rw [List.append_assoc]
    exact hfenced (hfenced' hrest)
  · rw [List.append_assoc]
    exact hbare (hbare' hrest)

theorem FactorText.product (h : FactorText text Q) : ProductText text Q :=
  ⟨text, [], Q, (List.append_nil text).symm, h, .nil⟩

theorem ProductText.append (h : ProductText text Q) (h' : TailText text' Q Q') :
    ProductText (text ++ text') Q' := by
  obtain ⟨first, tail, R, rfl, hfirst, htail⟩ := h
  exact ⟨first, tail ++ text', R, List.append_assoc first tail text', hfirst, htail.append h'⟩

/-- What a product is spelled with and what it reads as. -/
theorem ProductText.opens (h : ProductText text Q) :
    ∃ bare k ks, Opens text bare (k :: ks) ∧ Stops (· = ' ') text ∧ text ≠ [] ∧
      ∀ last, Understands (Expr.product unitScope last) operates (k :: ks) Q := by
  obtain ⟨first, tail, R, rfl, hfirst, htail⟩ := h
  obtain ⟨bare, k, ks, hopens, hstops, hne, hfactor⟩ := hfirst
  obtain ⟨bare', ks', hopens', hfenced, hbare, hfactors⟩ := htail
  refine ⟨bare ++ bare', k, ks ++ ks', fun {rest bareRest others} hrest hbareRest hothers => ?_,
    stops_append hstops hne tail, by simp [hne],
    fun last => product_of_tail (hfactor last) (hfactors last)⟩
  have hwhole := hopens (hfenced hrest) (hbare hbareRest) (hopens' hrest hbareRest hothers)
  simpa only [List.append_assoc, List.cons_append] using hwhole

/-- The tree of a text, whose plain spelling has the same tree. -/
theorem ProductText.parse (h : ProductText text Q) :
    UnitText.plain (UnitText.plain text) = UnitText.plain text ∧
      ∃ e, Q e ∧ Expr.parse unitScope (String.ofList (UnitText.plain text)) = .ok (some e) := by
  obtain ⟨bare, k, ks, hopens, -, -, hproduct⟩ := h.opens
  have hspells : Spells text bare (k :: ks) := by
    simpa using hopens fenced_nil fenced_nil .nil
  have hscans : Scans ⟨unitScope.mode, unitScope.isUnitWord⟩ 0 bare (k :: ks) :=
    hspells.scans rfl 0
  rw [hspells.plain_text, hspells.plain_bare]
  refine ⟨rfl, parse_of_scans ?_ fun last => sum_of_product (hproduct last)⟩
  rwa [String.toList_ofList]

/-- A blank at the end of a product does not count. -/
theorem ProductText.plain_trimEnd (h : ProductText text Q) :
    UnitText.plain (trimEnd text) = UnitText.plain text := by
  obtain ⟨bare, k, ks, hopens, -⟩ := h.opens
  have hspells : Spells text bare (k :: ks) := by
    simpa using hopens fenced_nil fenced_nil .nil
  rw [hspells.plain_trimEnd, hspells.plain_text]

/-- What units read from a text is the product of its tree, for the plain spelling too. -/
theorem ProductText.parse_units (h : ProductText text Q) (t : UnitTable) :
    ∃ e, Q e ∧ t.parse (String.ofList text) = t.product e ∧
      t.parse (String.ofList (UnitText.plain text)) = t.product e := by
  obtain ⟨hplain, e, he, hparse⟩ := h.parse
  have hresult : ∀ text' : List Char, UnitText.plain text' = UnitText.plain text →
      t.parse (String.ofList text') = t.product e := by
    intro text' htext'
    rw [UnitTable.parse, String.toList_ofList, htext']
    change (Expr.parse unitScope _ >>= _) = _
    rw [hparse, ok_bind]
  exact ⟨e, he, hresult text rfl, hresult _ hplain⟩

/-! ## Signs -/

theorem TailText.times (h : FactorText text R)
    (hjoin : ∀ left right, Q left → R right → Q' (join .mul left right)) :
    TailText ("\\cdot ".toList ++ text) Q Q' := by
  obtain ⟨bare, k, ks, hopens, hstops, hne, hfactor⟩ := h
  refine ⟨'*' :: bare, .mul :: (k :: ks), fun {rest bareRest others} hrest hbareRest hothers => ?_,
    fun _ => fenced_cons (by decide), fun _ => fenced_cons (by decide), fun last => ?_⟩
  · rw [List.append_assoc]
    exact .times (stops_append hstops hne rest) (hopens hrest hbareRest hothers)
  · simpa using Tail.cons (show productOp? .mul = some .mul from rfl) (hfactor last) hjoin .nil

theorem TailText.over (h : FactorText text R)
    (hjoin : ∀ left right, Q left → R right → Q' (join .div left right)) :
    TailText ('/' :: text) Q Q' := by
  obtain ⟨bare, k, ks, hopens, hstops, hne, hfactor⟩ := h
  refine ⟨'/' :: bare, .div :: (k :: ks), fun {rest bareRest others} hrest hbareRest hothers => ?_,
    fun _ => fenced_cons (by decide), fun _ => fenced_cons (by decide), fun last => ?_⟩
  · exact .sign (by decide) rfl (hopens hrest hbareRest hothers)
  · simpa using Tail.cons (show productOp? .div = some .div from rfl) (hfactor last) hjoin .nil

/-! ## Factors -/

theorem FactorText.group (h : ProductText text Q) (hgroup : ∀ span e, Q e → Q' (.group span e)) :
    FactorText ('(' :: (text ++ [')'])) Q' := by
  obtain ⟨bare, k, ks, hopens, -, -, hproduct⟩ := h.opens
  refine ⟨'(' :: (bare ++ [')']), .lparen, k :: ks ++ [.rparen],
    fun {rest bareRest others} hrest hbareRest hothers => ?_, stops_cons.2 (by decide),
    List.cons_ne_nil _ _, fun last => ?_⟩
  · have hclosed := Spells.sign (show ')' ∈ ['/', '(', ')'] by decide)
      (show Scan.sign? ')' = some .rparen from rfl) hothers
    have hinner := hopens (fenced_cons (by decide)) (fenced_cons (by decide)) hclosed
    have hopened := Spells.sign (show '(' ∈ ['/', '(', ')'] by decide)
      (show Scan.sign? '(' = some .lparen from rfl) hinner
    simpa only [List.cons_append, List.append_assoc, List.nil_append] using hopened
  · refine juxtaposed_of_signedTerm (signedTerm_of_power rfl (power_of_operand ?_))
    exact operand_group (.inl ⟨rfl, rfl⟩) (sum_of_product (hproduct last)) hgroup

theorem FactorText.one (t : UnitTable) : FactorText ['1'] t.SaysOne := by
  refine ⟨['1'], .num "1", [], fun hrest hbare hothers => .one hrest hbare hothers,
    stops_cons.2 (by decide), List.cons_ne_nil _ _, fun last => ?_⟩
  refine juxtaposed_of_signedTerm (signedTerm_of_power rfl (power_of_operand ?_))
  have hvalue : Number.Numeral.value? "1".toList = some (Float.ofNat 1) := by
    have hone : toString 1 = "1" := rfl
    rw [← hone]
    exact Number.Numeral.value?_toString (by decide) (by decide)
  have hinteger : ∀ span, (Expr.const span "1" (Float.ofNat 1)).integer = .ok 1 := fun span => by
    rw [Expr.integer, literalInteger_ofNat span (by decide) (by decide)]
    rfl
  refine operand_num hvalue fun span => ⟨?_, hinteger span⟩
  rw [UnitTable.product, hinteger span]
  rfl

/-- A text that units of a table read as a symbol. -/
def Writes (t : UnitTable) (text : List Char) (symbol : String) : Prop :=
  ∃ bare name, Spelled text bare name ∧ t.Names name symbol

variable {t : UnitTable} {symbol : String} {n : Int}

/-- The exponent behind a symbol, which one has none. -/
def raised (n : Int) : List Char := if n = 1 then [] else exponentText n

/-- A name by itself. -/
theorem FactorText.word {bare : List Char} {name : String} (h : Spelled text bare name)
    (hQ : ∀ span, Q (.var span (Name.ofSpelling name) .unresolved)) : FactorText text Q := by
  refine ⟨bare, .ident name, [], fun hrest hbare hothers => .unit h hrest hbare hothers,
    stops_space h.stops.1, h.stops.2, fun last => ?_⟩
  exact juxtaposed_of_signedTerm (signedTerm_of_power rfl (power_of_operand (operand_ident rfl hQ)))

theorem FactorText.unit (h : t.Writes text symbol) (hn : IsExponent n) :
    FactorText (text ++ raised n) (t.Says (Factors.amount [(symbol, n)])) := by
  obtain ⟨bare, name, hspelled, hnames⟩ := h
  unfold raised
  by_cases hone : n = 1
  · subst hone
    rw [if_pos rfl, List.append_nil]
    exact .word hspelled hnames.says
  · have hoperand : ∀ last, Understands (operand unitScope last) opens [.ident name]
        (t.Says (Factors.amount [(symbol, 1)])) := fun last => operand_ident rfl hnames.says
    obtain ⟨hblank, hne⟩ := hspelled.stops
    rw [if_neg hone]
    refine ⟨bare ++ exponentText n, .ident name, exponentKinds n,
      fun {rest bareRest others} hrest hbare hothers => ?_,
      stops_append (stops_space hblank) hne _, List.append_ne_nil_of_left_ne_nil hne _,
      fun last => ?_⟩
    · rw [List.append_assoc, List.append_assoc]
      exact .unit hspelled (fenced_cons (by decide)) (fenced_cons (by decide)) (.exponent n hothers)
    · have hamount : ∀ s, Factors.amount [(symbol, 1)] s * n = Factors.amount [(symbol, n)] s := by
        intro s
        rw [Factors.amount_single, Factors.amount_single]
        split_ifs <;> simp
      have hfitting : Factors.Fitting [(symbol, n)] := ⟨by simp, by simpa using hn⟩
      refine juxtaposed_of_signedTerm (signedTerm_of_power rfl ?_)
      refine power_exponent hn (hoperand last) fun base exponent hbase hexponent => ?_
      refine (hbase.exp hexponent hn.1 fun s => ?_).congr hamount
      rw [hamount]
      exact hfitting.fits s

end Worksheet.UnitTable

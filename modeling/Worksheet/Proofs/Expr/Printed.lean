import Worksheet.Expr.Print
import Worksheet.Proofs.Expr.Factor
import Worksheet.Proofs.Expr.Nodes
import Worksheet.Proofs.Name
/-!
# Printed expressions

The line that an expression is printed as is cut into the tokens that stand for its nodes, from left
to right, if every name in it is an identifier.
-/

namespace Worksheet

open Text

def Sign.kind : Sign → Token.Kind
  | .positive => .plus
  | .negative => .minus

def BinaryOp.kind : BinaryOp → Token.Kind
  | .add => .plus
  | .sub => .minus
  | .exp => .exp
  | .mul => .mul
  | .div => .div

namespace Expr

mutual

/-- The tokens of the printed expression. A product of units is none of its own. -/
def kinds : Expr → List Token.Kind
  | const _ literal _ => [.num literal]
  | var _ name _ => [.ident name.text]
  | unit .. => []
  | call _ name _ args => .ident name.text :: .lparen :: (kindsList args ++ [.rparen])
  | array _ elements => .lbracket :: (kindsList elements ++ [.rbracket])
  | index _ base position => base.kinds ++ .lbracket :: (position.kinds ++ [.rbracket])
  | signed _ sign operand => sign.kind :: operand.kinds
  | binary _ op left right => left.kinds ++ op.kind :: right.kinds
  | group _ inner => .lparen :: (inner.kinds ++ [.rparen])

def kindsList : List Expr → List Token.Kind
  | [] => []
  | [e] => e.kinds
  | e :: es => e.kinds ++ .comma :: kindsList es

end

/-- What is called, where no name is bound. -/
def calleeOf (name : Name) : Callee := (commandCallee (.empty .equation) name).1

theorem useOf_empty (v : String) (span : Span) (called : Bool) :
    useOf (.empty .equation) v span called =
      if called then .call (calleeOf (.ofSpelling v)) none
      else match (Builtin.ofName? (Name.ofSpelling v).text).filter Builtin.isConstant with
        | some f => .operand (call span (.ofSpelling v) (.builtin f) [])
        | none => .operand (var span (.ofSpelling v) .unresolved) := by
  have hparameter : (Scope.empty .equation).parameter? (Name.ofSpelling v) = none := rfl
  have hresolve : (Scope.empty .equation).resolve (Name.ofSpelling v) = none := rfl
  have hunit : (Scope.empty .equation).isUnitSymbol (Name.ofSpelling v) = false := rfl
  rw [useOf]
  simp only [hparameter, hresolve, hunit, show (Scope.empty .equation).mode = .equation from rfl]
  cases called with
  | true =>
    rw [calleeOf, commandCallee, hresolve]
    cases Builtin.ofName? (Name.ofSpelling v).text <;> rfl
  | false => rfl

/-- What the parser makes sure of, where no name is bound. -/
def Sound : Expr → Prop
  | const _ literal value => Number.Numeral.value? literal.toList = some value
  | var _ name binding =>
    binding = .unresolved ∧ Scan.IsName name.text ∧ Name.ofSpelling name.text = name ∧
      (Builtin.ofName? name.text).filter Builtin.isConstant = none
  | unit .. => False
  | call _ name callee args =>
    callee = calleeOf name ∧ Name.ofSpelling name.text = name ∧
      acceptsCount callee none args.length
  | array _ elements => elements ≠ []
  | index _ base _ => base.isIndexable
  | signed .. | binary .. | group .. => True

/-- If something is called, its name is an identifier. -/
def CallsName : Expr → Prop
  | call _ name _ _ => Scan.IsName name.text
  | _ => True

instance decidableCallsName : DecidablePred CallsName
  | call _ name _ _ => inferInstanceAs (Decidable (tokens _ name.text = .ok _))
  | const .. | var .. | unit .. | array .. | index .. | signed .. | binary .. | group .. =>
    inferInstanceAs (Decidable True)

section

open Scan

/-- What may stand behind a printed expression. -/
def followers : List Char := [' ', '(', ')', '[', ']', ',']

def Delimited (rest : List Char) : Prop := ∀ c ∈ rest.head?, c ∈ followers

variable {rest : List Char} {ks : List Token.Kind}

theorem delimited_cons {c : Char} (h : c ∈ followers) (rest : List Char) :
    Delimited (c :: rest) := by
  rintro d ⟨⟩
  exact h

theorem Delimited.apart (h : Delimited rest) : Apart rest where
  begins c hc := by
    have hall : ∀ c ∈ followers, c ∈ separators := by decide
    exact hall c (h c hc)
  prime hbegins := by
    obtain ⟨more, rfl⟩ := hbegins
    exact absurd (h '\\' rfl) (by decide)

theorem Delimited.stops (h : Delimited rest) : Stops Number.Numeral.goesOn rest := by
  have hall : ∀ c ∈ followers, Number.Numeral.goesOn c = false := by decide
  exact fun c hc => hall c (h c hc)

theorem exists_symbol (op : BinaryOp) :
    ∃ c, op.symbol.toList = [c] ∧ Scan.sign? c = some op.kind := by
  cases op <;> exact ⟨_, rfl, rfl⟩

theorem exists_sign (sign : Sign) :
    ∃ c, sign.symbol.toList = [c] ∧ Scan.sign? c = some sign.kind := by
  cases sign <;> exact ⟨_, rfl, rfl⟩

/-- The name of something printed. -/
theorem scans_name {name : Name} (h : IsName name.text) (hrest : Delimited rest)
    (others : Scans (rules (.empty .equation)) 0 rest ks) :
    Scans (rules (.empty .equation)) 0 (name.text.toList ++ rest) (.ident name.text :: ks) :=
  h.scans_ident hrest.apart (fun _ hunit => by cases hunit) others

/-- Something printed between parentheses or brackets. -/
theorem scans_enclosed {o c : Char} {opener closer : Token.Kind} {text : List Char}
    {inner : List Token.Kind} (hopener : Scan.sign? o = some opener)
    (hcloser : Scan.sign? c = some closer) (hmem : c ∈ followers)
    (hinner : ∀ {rest ks}, Delimited rest → Scans (rules (.empty .equation)) 0 rest ks →
      Scans (rules (.empty .equation)) 0 (text ++ rest) (inner ++ ks))
    (others : Scans (rules (.empty .equation)) 0 rest ks) :
    Scans (rules (.empty .equation)) 0 (o :: (text ++ c :: rest))
      (opener :: (inner ++ closer :: ks)) :=
  .sign hopener (hinner (delimited_cons hmem rest) (.sign hcloser others))

mutual

theorem scans_print : ∀ e : Expr, e.Everywhere Sound → e.Everywhere CallsName →
    ∀ {rest ks}, Delimited rest → Scans (rules (.empty .equation)) 0 rest ks →
      Scans (rules (.empty .equation)) 0 (e.print.toList ++ rest) (e.kinds ++ ks)
  | const _ literal _, hsound, _, rest, ks, hrest, others => by
    have hnumber := Scans.numeral hsound.self hrest.stops others
    rwa [String.ofList_toList] at hnumber
  | var _ name _, hsound, _, rest, ks, hrest, others => scans_name hsound.self.2.1 hrest others
  | unit .., hsound, _, _, _, _, _ => hsound.self.elim
  | call _ name _ args, hsound, hcalls, rest, ks, hrest, others => by
    have hargs := @scans_printList args hsound.children hcalls.children
    have hparens := scans_enclosed (o := '(') (c := ')') rfl rfl (by decide) hargs others
    have hcall := scans_name hcalls.self (delimited_cons (by decide) _) hparens
    simpa [print, kinds] using hcall
  | array _ elements, hsound, hcalls, rest, ks, hrest, others => by
    have helements := @scans_printList elements hsound.children hcalls.children
    have harray := scans_enclosed (o := '[') (c := ']') rfl rfl (by decide) helements others
    simpa [print, kinds] using harray
  | index _ base position, hsound, hcalls, rest, ks, hrest, others => by
    have hposition := @scans_print position (hsound.pair rfl).2 (hcalls.pair rfl).2
    have hbrackets := scans_enclosed (o := '[') (c := ']') rfl rfl (by decide) hposition others
    have hbase := scans_print base (hsound.pair rfl).1 (hcalls.pair rfl).1
      (delimited_cons (by decide) _) hbrackets
    simpa [print, kinds] using hbase
  | signed _ sign operand, hsound, hcalls, rest, ks, hrest, others => by
    obtain ⟨c, hc, hkind⟩ := exists_sign sign
    have hoperand := scans_print operand (hsound.only rfl) (hcalls.only rfl) hrest others
    have hsigned := Scans.sign hkind hoperand
    simpa [print, kinds, hc] using hsigned
  | binary _ op left right, hsound, hcalls, rest, ks, hrest, others => by
    obtain ⟨c, hc, hkind⟩ := exists_symbol op
    have hright := scans_print right (hsound.pair rfl).2 (hcalls.pair rfl).2 hrest others
    have hleft := scans_print left (hsound.pair rfl).1 (hcalls.pair rfl).1
      (delimited_cons (by decide) _) (Scans.sign hkind hright.space).space
    simpa [print, kinds, hc] using hleft
  | group _ inner, hsound, hcalls, rest, ks, hrest, others => by
    have hinner := @scans_print inner (hsound.only rfl) (hcalls.only rfl)
    have hgroup := scans_enclosed (o := '(') (c := ')') rfl rfl (by decide) hinner others
    simpa [print, kinds] using hgroup

theorem scans_printList : ∀ es : List Expr, (∀ e ∈ es, e.Everywhere Sound) →
    (∀ e ∈ es, e.Everywhere CallsName) →
    ∀ {rest ks}, Delimited rest → Scans (rules (.empty .equation)) 0 rest ks →
      Scans (rules (.empty .equation)) 0 ((", ".intercalate (printList es)).toList ++ rest)
        (kindsList es ++ ks)
  | [], _, _, rest, ks, _, others => by simpa [printList, kindsList] using others
  | [e], hsound, hcalls, rest, ks, hrest, others => by
    have helement := scans_print e (hsound e (by simp)) (hcalls e (by simp)) hrest others
    simpa [printList, kindsList] using helement
  | e :: e' :: es, hsound, hcalls, rest, ks, hrest, others => by
    have hmore := scans_printList (e' :: es) (fun c hc => hsound c (List.mem_cons_of_mem e hc))
      (fun c hc => hcalls c (List.mem_cons_of_mem e hc)) hrest others
    have hcomma : Scan.sign? ',' = some .comma := rfl
    have helement := scans_print e (hsound e (by simp)) (hcalls e (by simp))
      (delimited_cons (by decide) _) (Scans.sign hcomma hmore.space)
    simpa [printList, kindsList, String.intercalate_cons_cons] using helement

end

/-! ## What is never printed -/

/-- Without groups, and without the command that writes a prime. -/
structure Clean (cs : List Char) : Prop where
  brace : '\x7b' ∉ cs
  prime : ¬"\\prime".toList <:+: cs

variable {cs ds : List Char} {c : Char} {name : Name}

theorem clean_nil : Clean [] := ⟨by decide, by decide⟩

theorem Clean.append_cons (h : Clean cs) (h' : Clean ds) (hc : c ∉ '\x7b' :: "\\prime".toList) :
    Clean (cs ++ c :: ds) where
  brace hmem := by
    rcases List.mem_append.1 hmem with hmem | hmem
    · exact h.brace hmem
    · rcases List.mem_cons.1 hmem with rfl | hmem
      · exact hc List.mem_cons_self
      · exact h'.brace hmem
  prime := not_infix_append_cons h.prime h'.prime (mt (List.mem_cons_of_mem _) hc)

theorem Clean.cons (h : Clean cs) (hc : c ∉ '\x7b' :: "\\prime".toList) : Clean (c :: cs) :=
  clean_nil.append_cons h hc

theorem clean_literal {literal : String} {x : Float}
    (h : Number.Numeral.value? literal.toList = some x) : Clean literal.toList := by
  have hall : ∀ c ∈ literal.toList, c ≠ '\x7b' ∧ c ≠ '\\' := fun c hc => by
    rcases Number.Numeral.mem_of_value? h c hc with hdigit | hmark
    · constructor <;> rintro rfl <;> cases hdigit
    · have hmarks : ∀ c ∈ ['.', 'e', 'E', '+', '-'], c ≠ '\x7b' ∧ c ≠ '\\' := by decide
      exact hmarks c hmark
  exact ⟨fun hmem => (hall _ hmem).1 rfl,
    fun hinside => (hall _ (hinside.subset (by decide))).2 rfl⟩

theorem clean_name (h : Name.ofSpelling name.text = name) : Clean name.text.toList := by
  have hspell : name.text.toList = Name.spell name.text.toList := by
    conv_lhs => rw [← h, Name.ofSpelling, String.toList_ofList]
  rw [hspell]
  refine ⟨fun hmem => ?_, Name.not_prime_infix_spell _⟩
  cases Name.isLayout_of_mem_spell hmem

mutual

theorem clean_print : ∀ e : Expr, e.Everywhere Sound → Clean e.print.toList
  | const .., hsound => clean_literal hsound.self
  | var .., hsound => clean_name hsound.self.2.2.1
  | unit .., hsound => hsound.self.elim
  | call _ _ _ args, hsound => by
    have hargs := clean_printList args hsound.children
    have hcall := (clean_name hsound.self.2.1).append_cons
      (hargs.append_cons clean_nil (by decide : ')' ∉ _)) (by decide : '(' ∉ _)
    simpa [print] using hcall
  | array _ elements, hsound => by
    have helements := clean_printList elements hsound.children
    have harray := (helements.append_cons clean_nil (by decide : ']' ∉ _)).cons
      (by decide : '[' ∉ _)
    simpa [print] using harray
  | index _ base position, hsound => by
    have hbase := clean_print base (hsound.pair rfl).1
    have hposition := clean_print position (hsound.pair rfl).2
    have hindex := hbase.append_cons
      (hposition.append_cons clean_nil (by decide : ']' ∉ _)) (by decide : '[' ∉ _)
    simpa [print] using hindex
  | signed _ sign operand, hsound => by
    have hoperand := clean_print operand (hsound.only rfl)
    obtain ⟨c, hc, hclean⟩ : ∃ c, sign.symbol.toList = [c] ∧ c ∉ '\x7b' :: "\\prime".toList := by
      cases sign <;> exact ⟨_, rfl, by decide⟩
    simpa [print, hc] using hoperand.cons hclean
  | binary _ op left right, hsound => by
    have hleft := clean_print left (hsound.pair rfl).1
    have hright := clean_print right (hsound.pair rfl).2
    obtain ⟨c, hc, hclean⟩ : ∃ c, op.symbol.toList = [c] ∧ c ∉ '\x7b' :: "\\prime".toList := by
      cases op <;> exact ⟨_, rfl, by decide⟩
    have hbinary := hleft.append_cons
      ((hright.cons (by decide : ' ' ∉ _)).cons hclean) (by decide : ' ' ∉ _)
    simpa [print, hc] using hbinary
  | group _ inner, hsound => by
    have hinner := clean_print inner (hsound.only rfl)
    have hgroup := (hinner.append_cons clean_nil (by decide : ')' ∉ _)).cons (by decide : '(' ∉ _)
    simpa [print] using hgroup

theorem clean_printList : ∀ es : List Expr, (∀ e ∈ es, e.Everywhere Sound) →
    Clean (", ".intercalate (printList es)).toList
  | [], _ => by simpa [printList] using clean_nil
  | [e], hsound => by simpa [printList] using clean_print e (hsound e (by simp))
  | e :: e' :: es, hsound => by
    have hmore := clean_printList (e' :: es) fun c hc => hsound c (List.mem_cons_of_mem e hc)
    have helement := (clean_print e (hsound e (by simp))).append_cons
      (hmore.cons (by decide : ' ' ∉ _)) (by decide : ',' ∉ _)
    simpa [printList, String.intercalate_cons_cons] using helement

end

end

end Expr

end Worksheet

import Worksheet.Proofs.Expr.Arguments
import Worksheet.Proofs.Token.Operator
/-!
# Calls in two spellings

A function is called by its name before parentheses, or by the command for functions with the name
in its group. Both find the same function, unless the name is that of a builtin and of a bound
function at once.
-/

namespace Worksheet

open Text

/-- Is the name of a builtin, and bound to a function of the document. -/
def Scope.Doubles (scope : Scope) (name : Name) : Prop :=
  (Builtin.ofName? name.text).isSome ∧
    ∃ id arity, scope.resolve name = some (.function id arity)

theorem Scope.not_values_of_function {scope : Scope} {name : Name} {id : SymbolId} {arity : Nat}
    (hparameter : scope.parameter? name = none)
    (hresolve : scope.resolve name = some (.function id arity)) :
    ¬∃ binding, scope.Values name binding := by
  rintro ⟨_, ⟨h⟩ | ⟨-, h⟩⟩
  · cases hparameter.symm.trans h
  · cases hresolve.symm.trans h

namespace Expr

open Scan

variable {scope : Scope} {last : Nat} {v spelling args : String} {callee : Callee}
  {arity : Option Nat} {es : List Expr} {t t' : Token} {more : List Token}

/-! ## The call of an operand -/

/-- What is read from an operand depends on its first token no further than the operand does. -/
theorem sum_of_operand_eq (ht : sign? t.kind = none) (ht' : sign? t'.kind = none)
    (h : operand scope last (t :: more) = operand scope last (t' :: more)) :
    sum scope last (t :: more) = sum scope last (t' :: more) := by
  have hsubscripted : subscripted scope last (t :: more) = subscripted scope last (t' :: more) := by
    rw [subscripted, subscripted, h]
    rfl
  have hpower : power scope last (t :: more) = power scope last (t' :: more) := by
    rw [power, power, hsubscripted]
    rcases subscripted scope last (t' :: more) with _ | ⟨base, rest, shorter⟩
    · rfl
    · cases rest <;> rfl
  have hterm : signedTerm scope last (t :: more) = signedTerm scope last (t' :: more) := by
    rw [signedTerm, signedTerm, ht, ht', hpower]
  have hjuxtaposed : juxtaposed scope last (t :: more) = juxtaposed scope last (t' :: more) := by
    rw [juxtaposed, juxtaposed, hterm]
    rfl
  have hproduct : product scope last (t :: more) = product scope last (t' :: more) := by
    rw [product, product, hjuxtaposed]
    rfl
  rw [sum, sum, hproduct]
  rfl

theorem reads_sum_of_operand {e : Expr} (ht : sign? t.kind = none)
    (h : Reads (operand scope last (t :: more)) e []) :
    Reads (sum scope last (t :: more)) e [] := by
  obtain ⟨shorter, h⟩ := h
  refine ⟨shorter, ?_⟩
  rw [sum, product, juxtaposed, signedTerm, ht]
  dsimp only
  rw [power, subscripted, h, ok_bind]
  dsimp only
  rw [subscriptedFrom, ok_bind]
  dsimp only
  rw [ok_bind]
  dsimp only
  rw [juxtaposedFrom, ok_bind]
  dsimp only
  rw [productFrom, ok_bind]
  dsimp only
  rw [sumFrom]

/-! ## What is called -/

/-- A name before parentheses that stands for no value calls what the command for functions calls,
unless it is the name of a builtin and bound to a function at once. -/
theorem useOf_called (hmode : scope.mode = .equation)
    (hvalue : ¬∃ binding, scope.Values (Name.ofSpelling v) binding)
    (hdouble : ¬scope.Doubles (Name.ofSpelling v)) (span : Span) :
    useOf scope v span true = .call (commandCallee scope (Name.ofSpelling v)).1
      (commandCallee scope (Name.ofSpelling v)).2 := by
  have hparameter : scope.parameter? (Name.ofSpelling v) = none := by
    rw [Option.eq_none_iff_forall_ne_some]
    exact fun i hi => hvalue ⟨_, .parameter hi⟩
  rw [useOf, hmode]
  dsimp only
  rw [hparameter, commandCallee]
  cases hbuiltin : Builtin.ofName? (Name.ofSpelling v).text <;>
    rcases hresolve : scope.resolve (Name.ofSpelling v) with _ | ⟨id | ⟨id, arity⟩⟩
  case none.some.value | some.some.value => exact absurd ⟨_, .bound hparameter hresolve⟩ hvalue
  case some.some.function => exact absurd ⟨by rw [hbuiltin]; rfl, id, arity, hresolve⟩ hdouble
  all_goals rfl

/-- Before parentheses the token calls a function by a name. -/
structure TokenCalls (scope : Scope) (t : Token) (name : Name) (callee : Callee)
    (arity : Option Nat) : Prop where
  sign : sign? t.kind = none
  operand : ∀ last more, isOpen more → operand scope last (t :: more) = (do
    let ⟨(args, stop), rest, h⟩ ← arguments scope last more
    let e ← callOf name callee arity args (Span.ofBytes t.start stop)
    .ok ⟨e, rest, Nat.lt_succ_of_lt h⟩)

theorem tokenCalls_ident {start stop : Nat}
    (h : ∀ span, useOf scope v span true = .call callee arity) :
    TokenCalls scope ⟨.ident v, start, stop⟩ (Name.ofSpelling v) callee arity where
  sign := rfl
  operand last more hopen := by
    rw [operand.eq_def]
    dsimp only
    rw [hopen, h]

theorem tokenCalls_function (scope : Scope) (spelling : String) (start stop : Nat) :
    TokenCalls scope ⟨.function spelling, start, stop⟩ (Name.ofSpelling spelling)
      (commandCallee scope (Name.ofSpelling spelling)).1
      (commandCallee scope (Name.ofSpelling spelling)).2 where
  sign := rfl
  operand last more hopen := by
    rw [operand.eq_def]
    dsimp only
    rw [if_pos hopen]

theorem ofTokens_calls {name : Name} (h : TokenCalls scope t name callee arity)
    (h' : TokenCalls scope t' name callee arity) (hstart : t.start = t'.start)
    (hopen : isOpen more) : ofTokens scope (t :: more) = ofTokens scope (t' :: more) := by
  have hoperand : ∀ last, operand scope last (t :: more) = operand scope last (t' :: more) := by
    intro last
    rw [h.operand last more hopen, h'.operand last more hopen, hstart]
  obtain ⟨u, others, rfl⟩ : ∃ u others, more = u :: others := by
    cases more with
    | nil => cases hopen
    | cons u others => exact ⟨u, others, rfl⟩
  rw [ofTokens, ofTokens, if_neg (by simp), if_neg (by simp), List.getLast?_cons_cons,
    List.getLast?_cons_cons]
  dsimp only
  rw [sum_of_operand_eq h.sign h'.sign (hoperand _)]
  rfl

/-! ## The call of a text -/

/-- The text is read as a call with these arguments, if the function takes as many. -/
structure ReadsCall (scope : Scope) (text : String) (name : Name) (callee : Callee)
    (arity : Option Nat) (es : List Expr) : Prop where
  result : acceptsCount callee arity es.length → ∃ span es', SameTrees es es' ∧
    parse scope text = .ok (some (.call span name callee es'))
  fault : acceptsCount callee arity es.length = false →
    ∃ span, parse scope text = .error ⟨.badArity, span⟩

/-- Before parentheses the text is one token, which calls a function by a name. -/
def TextCalls (scope : Scope) (text : String) (name : Name) (callee : Callee)
    (arity : Option Nat) : Prop :=
  ∃ kind, (∀ start stop, TokenCalls scope ⟨kind, start, stop⟩ name callee arity) ∧
    ∀ rest, ∃ c cs, text.toList = c :: cs ∧
      nextPiece (rules scope) 0 c (cs ++ '(' :: rest) = (.token (c :: cs) kind, 0)

section

variable {text text' : String} {name : Name}

theorem TextCalls.tokens (h : TextCalls scope text name callee arity) (args : String) :
    ∃ t, TokenCalls scope t name callee arity ∧ t.start = 0 ∧
      Worksheet.tokens (rules scope) (text ++ "(" ++ args ++ ")") =
        (tokensFrom (rules scope) (byteSize text.toList) 0 ('(' :: (args.toList ++ [')'])) >>=
          fun ts => .ok (t :: ts)) := by
  obtain ⟨kind, hcalls, hnext⟩ := h
  obtain ⟨c, cs, htext, next⟩ := hnext (args.toList ++ [')'])
  refine ⟨⟨kind, 0, byteSize text.toList⟩, hcalls _ _, rfl, ?_⟩
  have htokens := tokensFrom_token next 0
  rw [Nat.zero_add, ← htext] at htokens
  rw [← htokens]
  change tokensFrom (rules scope) 0 0 (text ++ "(" ++ args ++ ")").toList = _
  rw [toList_parentheses, htext]
  rfl

theorem isOpen_of_tokensFrom {start : Nat} {cs : List Char}
    (h : tokensFrom (rules scope) start 0 ('(' :: cs) = .ok more) : isOpen more := by
  obtain ⟨text, meaning, depth', others, next, -, -, rfl⟩ := tokensFrom_eq_ok.1 h
  cases next
  rfl

/-- Two texts that call the same are read as the same before any parentheses. -/
theorem TextCalls.same (h : TextCalls scope text name callee arity)
    (h' : TextCalls scope text' name callee arity) (args : String) :
    SameResult (fun e? e?' => e?.map bare = e?'.map bare)
      (parse scope (text ++ "(" ++ args ++ ")")) (parse scope (text' ++ "(" ++ args ++ ")")) := by
  obtain ⟨t, ht, hstart, htokens⟩ := h.tokens args
  obtain ⟨t', ht', hstart', htokens'⟩ := h'.tokens args
  have hrest := sameKinds_tokensFrom (rules scope) (byteSize text.toList)
    (byteSize text'.toList) 0 ('(' :: (args.toList ++ [')']))
  rw [parse, parse, htokens, htokens']
  cases hmore : tokensFrom (rules scope) (byteSize text.toList) 0 ('(' :: (args.toList ++ [')'])) with
  | error e =>
    rw [hmore] at hrest
    obtain ⟨e', hmore', hcode⟩ := hrest.of_error
    rw [hmore']
    exact .error hcode
  | ok more =>
    have hopen := isOpen_of_tokensFrom hmore
    rw [hmore] at hrest
    obtain ⟨more', hmore', hkinds⟩ := hrest.of_ok
    rw [hmore']
    change SameResult _ (ofTokens scope (t :: more)) (ofTokens scope (t' :: more'))
    rw [ofTokens_calls ht ht' (hstart.trans hstart'.symm) hopen]
    exact ofTokens_same (.cons (.refl _) hkinds)

/-- The text with its arguments is a call, or has the wrong number of them. -/
theorem TextCalls.reads (h : TextCalls scope text name callee arity)
    (hargs : ListsArguments scope args es) :
    ReadsCall scope (text ++ "(" ++ args ++ ")") name callee arity es := by
  obtain ⟨t, ht, -, htokens⟩ := h.tokens args
  obtain ⟨ts, last, stop, hts, shorter, harguments⟩ := hargs
  have hparentheses : tokensFrom (rules scope) 0 0 ('(' :: (args.toList ++ [')'])) = .ok ts := by
    rw [← hts]
    change _ = tokensFrom (rules scope) 0 0 ("(" ++ args ++ ")").toList
    simp
  have hrest := sameKinds_tokensFrom (rules scope) 0 (byteSize text.toList) 0
    ('(' :: (args.toList ++ [')']))
  rw [hparentheses] at hrest
  obtain ⟨more, hmore, hkinds⟩ := hrest.of_ok
  have hopen := isOpen_of_tokensFrom hmore
  rw [hmore, ok_bind] at htokens
  have hread : ∀ last', ∃ es' stop', SameTrees es es' ∧
      Reads (arguments scope last' more) (es', stop') [] := by
    intro last'
    obtain ⟨⟨es', stop'⟩, rest', hsame, hnil, hreads⟩ :=
      (@arguments_agrees scope last last' [] ts more hkinds).result _ [] shorter harguments
        fun _ => ends_nil
    obtain rfl := List.forall₂_nil_left_iff.1 hnil
    rw [List.append_nil] at hreads
    exact ⟨es', stop', hsame, hreads⟩
  obtain ⟨es', stop', hsame, shorter', hread⟩ :=
    hread (((t :: more).getLast?.map Token.stop).getD 0)
  have hoperand := ht.operand (((t :: more).getLast?.map Token.stop).getD 0) more hopen
  rw [hread, ok_bind] at hoperand
  dsimp only at hoperand
  rw [callOf, ← length_eq_of_bares hsame] at hoperand
  have hparse : parse scope (text ++ "(" ++ args ++ ")") = ofTokens scope (t :: more) := by
    rw [parse, htokens, ok_bind]
  rw [ofTokens, if_neg (by simp)] at hparse
  constructor
  · intro haccepts
    rw [if_pos haccepts, ok_bind] at hoperand
    obtain ⟨_, hsum⟩ := reads_sum_of_operand ht.sign ⟨_, hoperand⟩
    refine ⟨Span.ofBytes t.start stop', es', hsame, ?_⟩
    rw [hparse]
    dsimp only
    rw [hsum]
    rfl
  · intro haccepts
    rw [if_neg (by rw [haccepts]; decide), error_bind] at hoperand
    refine ⟨Span.ofBytes t.start stop', ?_⟩
    rw [hparse]
    dsimp only
    rw [sum_of_operand_error ht.sign hoperand]
    rfl

/-! ## The two spellings -/

theorem textCalls_name (hmode : scope.mode = .equation) (hv : IsName v)
    (h : ∀ span, useOf scope v span true = .call callee arity) :
    TextCalls scope v (Name.ofSpelling v) callee arity := by
  refine ⟨.ident v, fun _ _ => tokenCalls_ident h, fun rest => ?_⟩
  rw [rules, hmode]
  exact hv.next_ident (apart_left rest).1 fun _ _ => rfl

theorem ofSpelling_trim (v : String) :
    Name.ofSpelling (String.ofList (trim v.toList)) = Name.ofSpelling v := by
  have hblank : ∀ c, isBlank c → (!Name.isLayout c) = false := fun c hc => by
    simp [Name.isLayout, hc]
  rw [Name.ofSpelling, Name.ofSpelling, String.toList_ofList, Name.spell, Name.spell,
    filter_trim hblank]

theorem textCalls_command (scope : Scope) (hv : Balanced v.toList) :
    TextCalls scope ("\\operatorname\x7b" ++ v ++ "\x7d") (Name.ofSpelling v)
      (commandCallee scope (Name.ofSpelling v)).1 (commandCallee scope (Name.ofSpelling v)).2 := by
  refine ⟨.function (String.ofList (trim v.toList)), fun start stop => ?_, fun rest => ?_⟩
  · have hcalls := tokenCalls_function scope (String.ofList (trim v.toList)) start stop
    rwa [ofSpelling_trim] at hcalls
  · have next := @nextPiece_operator (rules scope) 0 v hv ('(' :: rest)
    refine ⟨'\\', "operatorname\x7b".toList ++ v.toList ++ ['\x7d'], by simp, ?_⟩
    simpa using next

end

/-- A name that stands for no value, and the command with the name in its group, are read as the same
before any parentheses. Where a list of arguments stands in these, both are calls of the same
function, or both have the wrong number of arguments. -/
theorem operator_same (registry : Registry) (t : UnitTable) (parameters : List Name) {v : String}
    (hv : IsName v)
    (hvalue : ¬∃ binding, (registry.scope t parameters).Values (Name.ofSpelling v) binding)
    (hdouble : ¬(registry.scope t parameters).Doubles (Name.ofSpelling v)) (args : String) :
    SameResult (fun e? e?' => e?.map bare = e?'.map bare)
        (parse (registry.scope t parameters) (v ++ "(" ++ args ++ ")"))
        (parse (registry.scope t parameters)
          ("\\operatorname\x7b" ++ v ++ "\x7d" ++ "(" ++ args ++ ")")) ∧
      ∀ es, ListsArguments (registry.scope t parameters) args es → ∃ callee arity,
        ReadsCall (registry.scope t parameters) (v ++ "(" ++ args ++ ")") (Name.ofSpelling v) callee
            arity es ∧
          ReadsCall (registry.scope t parameters)
            ("\\operatorname\x7b" ++ v ++ "\x7d" ++ "(" ++ args ++ ")") (Name.ofSpelling v) callee
            arity es := by
  have hname := textCalls_name rfl hv (useOf_called rfl hvalue hdouble)
  have hcommand := textCalls_command (registry.scope t parameters) hv.equationIdent.balanced
  exact ⟨hname.same hcommand args, fun es hes => ⟨_, _, hname.reads hes, hcommand.reads hes⟩⟩

/-- A document with a function of one parameter, which gives its argument back. -/
def identityOf (name : String) : Registry :=
  ({} : Registry).defineFunction name [⟨"x"⟩] (.var default ⟨"x"⟩ (.parameter 0)) "x"

theorem listsArguments_parameter (registry : Registry) :
    ∃ arg, ListsArguments (registry.scope {} [⟨"x"⟩]) "x" [arg] := by
  have hx : IsName "x" := by
    unfold IsName
    decide +kernel
  have hparameter : (registry.scope {} [⟨"x"⟩]).Values (Name.ofSpelling "x") (.parameter 0) :=
    .parameter (by decide +kernel : List.idxOf? (Name.ofSpelling "x") [⟨"x"⟩] = some 0)
  have hunit : ¬({} : UnitTable).readsAsUnit "x" := by decide
  obtain ⟨e, -, hparse⟩ := (standsAs_value rfl hx hparameter fun h => hunit h.2).parse
  have hfree : MatrixFree ⟨.equation, ({} : UnitTable).readsAsUnit⟩ "x" := by
    unfold MatrixFree
    decide +kernel
  have hread : ReadAs (registry.scope {} [⟨"x"⟩]) ["x"] [e] := .cons ⟨hparse, hfree⟩ .nil
  obtain ⟨args, hargs, hlists⟩ := hread.listsArguments (by simp)
  obtain ⟨arg, rfl⟩ := List.length_eq_one_iff.1 (length_eq_of_bares hargs).symm
  exact ⟨arg, hlists⟩

/-- A function of the document is called either way. -/
theorem operator_same_identity :
    let scope := (identityOf "f").scope {} [⟨"x"⟩]
    IsName "f" ∧ (¬∃ binding, scope.Values (Name.ofSpelling "f") binding) ∧
      ¬scope.Doubles (Name.ofSpelling "f") ∧ ∃ arg callee arity,
        ListsArguments scope "x" [arg] ∧
          ReadsCall scope ("f" ++ "(" ++ "x" ++ ")") (Name.ofSpelling "f") callee arity [arg] ∧
          ReadsCall scope ("\\operatorname\x7b" ++ "f" ++ "\x7d" ++ "(" ++ "x" ++ ")")
            (Name.ofSpelling "f") callee arity [arg] := by
  intro scope
  have hv : IsName "f" := by
    unfold IsName
    decide +kernel
  have hresolve : scope.resolve (Name.ofSpelling "f") = some (.function ⟨0⟩ 1) := by
    decide +kernel
  have hvalue := Scope.not_values_of_function (by decide +kernel) hresolve
  have hdouble : ¬scope.Doubles (Name.ofSpelling "f") := fun h => absurd h.1 (by decide +kernel)
  obtain ⟨arg, hlists⟩ := listsArguments_parameter (identityOf "f")
  obtain ⟨callee, arity, hname, hcommand⟩ :=
    (operator_same (identityOf "f") {} [⟨"x"⟩] hv hvalue hdouble "x").2 [arg] hlists
  exact ⟨hv, hvalue, hdouble, arg, callee, arity, hlists, hname, hcommand⟩

/-- A function with the name of a builtin is called by its name, and the builtin by the command. -/
theorem operator_same_size_ne :
    let scope := (identityOf "size").scope {} [⟨"x"⟩]
    IsName "size" ∧ (¬∃ binding, scope.Values (Name.ofSpelling "size") binding) ∧
      ¬SameResult (fun e? e?' => e?.map bare = e?'.map bare)
        (parse scope ("size" ++ "(" ++ "x" ++ ")"))
        (parse scope ("\\operatorname\x7b" ++ "size" ++ "\x7d" ++ "(" ++ "x" ++ ")")) := by
  intro scope
  have hv : IsName "size" := by
    unfold IsName
    decide +kernel
  have hparameter : scope.parameter? (Name.ofSpelling "size") = none := by decide +kernel
  have hresolve : scope.resolve (Name.ofSpelling "size") = some (.function ⟨0⟩ 1) := by
    decide +kernel
  have hcallee : commandCallee scope (Name.ofSpelling "size") = (.builtin .size, none) := by
    decide +kernel
  obtain ⟨arg, hlists⟩ := listsArguments_parameter (identityOf "size")
  have huse : ∀ span, useOf scope "size" span true = .call (.user ⟨0⟩) (some 1) := fun span => by
    simp [useOf, hparameter, hresolve, show scope.mode = .equation from rfl]
  obtain ⟨span, args, -, hname⟩ := ((textCalls_name rfl hv huse).reads hlists).result rfl
  have hcommand := (textCalls_command scope hv.equationIdent.balanced).reads hlists
  rw [hcallee] at hcommand
  obtain ⟨span', args', -, hcommand⟩ := hcommand.result rfl
  refine ⟨hv, Scope.not_values_of_function hparameter hresolve, ?_⟩
  rw [hname, hcommand]
  rintro (h | -)
  cases h

end Expr

end Worksheet

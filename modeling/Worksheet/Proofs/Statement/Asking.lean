import Worksheet.Proofs.Except
import Worksheet.Proofs.Statement.Divide
/-!
# The unit that a statement asks for

What follows the operator that shows a value has a say in one thing only: the unit that the
statement asks for.
-/

namespace Worksheet

/-- Asks for another unit, if it asks for one at all. -/
def Display.asking (hint : Option String) : Display → Display
  | .convert _ => .convert hint
  | .raw => .raw

/-- The statement with its value shown in another unit. -/
def Statement.asking (hint : Option String) : Statement → Statement
  | .definition name params spans body => .definition name params spans body
  | .assignment name expr shown => .assignment name expr (shown.map (Display.asking hint))
  | .display expr shown => .display expr (shown.asking hint)

def ParsedStatement.asking (p : ParsedStatement) (hint : Option String) : ParsedStatement :=
  ⟨p.statement.asking hint, p.lead⟩

theorem Statement.display?_asking (hint : Option String) (st : Statement) :
    (st.asking hint).display? = st.display?.map (Display.asking hint) := by
  cases st <;> rfl

/-- A statement asks for what it asks for. -/
theorem ParsedStatement.asking_self {p : ParsedStatement} {own : Option String}
    (h : p.statement.display? = some (.convert own)) : p.asking own = p := by
  obtain ⟨st, lead⟩ := p
  cases st with
  | definition => rfl
  | assignment name expr display =>
      cases h
      rfl
  | display expr display =>
      cases h
      rfl

/-- A statement that does not show its value in a unit asks for none. -/
theorem ParsedStatement.asking_of_silent {p : ParsedStatement}
    (h : ∀ own, p.statement.display? ≠ some (.convert own)) (hint : Option String) :
    p.asking hint = p := by
  obtain ⟨st, lead⟩ := p
  cases st with
  | definition => rfl
  | assignment name expr display =>
      match display with
      | none => rfl
      | some .raw => rfl
      | some (.convert own) => exact absurd rfl (h own)
  | display expr display =>
      match display with
      | .raw => rfl
      | .convert own => exact absurd rfl (h own)

namespace Statement

/-- Two readings of a text that fail in the same way, or differ in the unit asked for at most. -/
inductive Alike : Except Error ParsedStatement → Except Error ParsedStatement → Prop where
  | error (e : Error) : Alike (.error e) (.error e)
  | ok (p : ParsedStatement) (hint : Option String) : Alike (.ok p) (.ok (p.asking hint))

theorem displayOf_asking (operator : Operator) (tail : List Char) (markup : Option (List Char))
    (tail' : List Char) (markup' : Option (List Char)) :
    ∃ hint, displayOf operator tail' markup' =
      (displayOf operator tail markup).asking hint := by
  cases operator with
  | raw => exact ⟨none, rfl⟩
  | assign => exact ⟨Result.hint? tail' markup', rfl⟩
  | convert => exact ⟨Result.hint? tail' markup', rfl⟩

/-- Whether a name can be bound to a value that is shown does not depend on how it is shown. -/
theorem assigned_some (name : Fragment) (displayAt : Nat) :
    ∃ check : Except Error Unit, ∀ lead expr display,
      assigned lead name expr (some display) displayAt =
        check.map fun _ => ⟨.assignment name expr (some display), lead⟩ := by
  cases hhead : functionHead? name with
  | error e =>
      refine ⟨.error e, fun lead expr display => ?_⟩
      simp [assigned, hhead, Except.map]
  | ok head =>
      cases head with
      | some head =>
          refine ⟨.error (badStatement displayAt (displayAt + 2)
            "a function definition has no value to display"), fun lead expr display => ?_⟩
          simp [assigned, hhead, Except.map]
      | none =>
          by_cases hname : isName (Text.trim name.text.toList)
          · refine ⟨.ok (), fun lead expr display => ?_⟩
            simp [assigned, hhead, hname, Except.map]
          · refine ⟨.error ⟨.expectedIdent, name.span, some name.trimmed⟩,
              fun lead expr display => ?_⟩
            simp [assigned, hhead, hname, Except.map]

theorem assigned_none {lead : String} {name expr : Fragment} {displayAt : Nat}
    {p : ParsedStatement} (h : assigned lead name expr none displayAt = .ok p) :
    p.lead = lead ∧ p.statement.display? = none := by
  unfold assigned at h
  obtain ⟨head, -, h⟩ := bind_eq_ok.1 h
  cases head with
  | some head =>
      cases h
      exact ⟨rfl, rfl⟩
  | none =>
      by_cases hname : isName (Text.trim name.text.toList)
      · simp only [hname, Bool.not_true, Bool.false_eq_true, if_false, pure_eq_ok] at h
        cases h
        exact ⟨rfl, rfl⟩
      · simp [hname] at h

theorem Alike.refl (reading : Except Error ParsedStatement) : Alike reading reading := by
  cases reading with
  | error e => exact .error e
  | ok p =>
      by_cases h : ∃ own, p.statement.display? = some (.convert own)
      · obtain ⟨own, hown⟩ := h
        have hself := Alike.ok p own
        rwa [ParsedStatement.asking_self hown] at hself
      · have hself := Alike.ok p none
        rwa [ParsedStatement.asking_of_silent (fun own hown => h ⟨own, hown⟩)] at hself

/-- The markup behind a statement may only name the unit that it asks for. -/
theorem parseBody_alike (body : List Char) (markup markup' : Option (List Char)) :
    Alike (parseBody body markup) (parseBody body markup') := by
  unfold parseBody
  match divide 0 body with
  | (_, []) => exact .error _
  | (_, [(.assign, _)]) => exact .refl _
  | (_, [(.convert, tail)]) => exact .ok _ (Result.hint? tail markup')
  | (_, [(.raw, _)]) => exact .ok _ none
  | (_, [(.assign, _), (.assign, _)]) => exact .error _
  | (first, [(.assign, expr), (.convert, tail)]) =>
      obtain ⟨check, hcheck⟩ := assigned_some ⟨String.ofList first, 0⟩
        (Text.byteSize first + 2 + Text.byteSize expr)
      simp only [ofParts, reduceCtorEq, if_false, hcheck]
      cases check with
      | error e => exact .error e
      | ok _ => exact .ok _ (Result.hint? tail markup')
  | (_, [(.assign, _), (.raw, _)]) => exact .refl _
  | (_, (.convert, _) :: _ :: _) => exact .error _
  | (_, (.raw, _) :: _ :: _) => exact .error _
  | (_, (.assign, _) :: _ :: _ :: _) => exact .error _

/-- A statement that shows its value, read from the parts up to the operator that shows it. What
stands behind has a say in the unit only, if it can be read at all. -/
structure Shows (p : ParsedStatement) (first : List Char) (others : List (Operator × List Char))
    (operator : Operator) : Prop where
  shown : p.statement.display? ≠ none
  showing : operator ≠ .assign
  lead : p.lead.toList = joined first others ++ operator.text.toList
  again : ∀ body markup rest,
    ∃ hint, ofParts body markup (first, others ++ [(operator, rest)]) = .ok (p.asking hint)
  further : ∀ body markup rest other more,
    ∃ e, ofParts body markup (first, others ++ (operator, rest) :: other :: more) = .error e

theorem shows_display {first tail : List Char} {operator : Operator}
    (hoperator : operator ≠ .assign) (markup : Option (List Char)) :
    Shows ⟨.display ⟨String.ofList first, 0⟩ (displayOf operator tail markup),
      String.ofList first ++ operator.text⟩ first [] operator where
  shown := by simp [display?]
  showing := hoperator
  lead := by simp
  again body markup' rest := by
    obtain ⟨hint, hhint⟩ := displayOf_asking operator tail markup rest markup'
    refine ⟨hint, ?_⟩
    cases operator with
    | assign => exact absurd rfl hoperator
    | convert => simp [ofParts, hhint, ParsedStatement.asking, asking]
    | raw => simp [ofParts, hhint, ParsedStatement.asking, asking]
  further body markup' rest other more := by
    cases operator with
    | assign => exact absurd rfl hoperator
    | convert => exact ⟨_, rfl⟩
    | raw => exact ⟨_, rfl⟩

theorem shows_assignment {first expr tail : List Char} {operator : Operator}
    (hoperator : operator ≠ .assign) {markup : Option (List Char)} {p : ParsedStatement}
    {body : List Char}
    (h : ofParts body markup (first, [(.assign, expr), (operator, tail)]) = .ok p) :
    Shows p first [(.assign, expr)] operator := by
  obtain ⟨check, hcheck⟩ := assigned_some ⟨String.ofList first, 0⟩
    (Text.byteSize first + 2 + Text.byteSize expr)
  have hparts : ∀ body markup rest, ofParts body markup (first, [(.assign, expr), (operator, rest)]) =
      check.map fun _ => ⟨.assignment ⟨String.ofList first, 0⟩
        ⟨String.ofList expr, Text.byteSize first + 2⟩ (some (displayOf operator rest markup)),
        String.ofList first ++ ":=" ++ String.ofList expr ++ operator.text⟩ := by
    intro body markup rest
    unfold ofParts
    dsimp only
    rw [if_neg hoperator, hcheck]
  rw [hparts] at h
  cases check with
  | error e => cases h
  | ok _ =>
      cases h
      refine ⟨by simp [display?], hoperator, ?_, fun body' markup' rest => ?_, ?_⟩
      · simp [joined, Operator.text]
      · obtain ⟨hint, hhint⟩ := displayOf_asking operator tail markup rest markup'
        refine ⟨hint, ?_⟩
        rw [List.singleton_append, hparts, hhint]
        rfl
      · intro body' markup' rest other more
        exact ⟨_, rfl⟩

/-- A statement that can be read shows no value, and is its own lead, or shows one behind its last
operator. -/
theorem ofParts_eq_ok {body : List Char} {markup : Option (List Char)}
    {parts : List Char × List (Operator × List Char)} {p : ParsedStatement}
    (h : ofParts body markup parts = .ok p) :
    p.statement.display? = none ∧ p.lead = String.ofList body ∨
      ∃ first others operator tail, parts = (first, others ++ [(operator, tail)]) ∧
        Shows p first others operator := by
  match parts with
  | (_, []) => cases h
  | (_, [(.assign, _)]) => exact .inl (assigned_none h).symm
  | (first, [(.convert, tail)]) =>
      cases h
      exact .inr ⟨first, [], .convert, tail, rfl, shows_display (by decide) markup⟩
  | (first, [(.raw, tail)]) =>
      cases h
      exact .inr ⟨first, [], .raw, tail, rfl, shows_display (by decide) markup⟩
  | (_, [(.assign, _), (.assign, _)]) => cases h
  | (first, [(.assign, expr), (.convert, tail)]) =>
      exact .inr ⟨first, [(.assign, expr)], .convert, tail, rfl, shows_assignment (by decide) h⟩
  | (first, [(.assign, expr), (.raw, tail)]) =>
      exact .inr ⟨first, [(.assign, expr)], .raw, tail, rfl, shows_assignment (by decide) h⟩
  | (_, (.convert, _) :: _ :: _) => cases h
  | (_, (.raw, _) :: _ :: _) => cases h
  | (_, (.assign, _) :: _ :: _ :: _) => cases h

variable {body : List Char} {markup : Option (List Char)} {p : ParsedStatement}

theorem parseBody_silent (h : parseBody body markup = .ok p)
    (hsilent : p.statement.display? = none) : p.lead.toList = body := by
  rcases ofParts_eq_ok h with ⟨-, hlead⟩ | ⟨first, others, operator, tail, -, hshows⟩
  · rw [hlead, String.toList_ofList]
  · exact absurd hsilent hshows.shown

/-- The lead of a statement that shows its value ends in an operator, and anything may follow it
that has none. -/
theorem parseBody_shown (h : parseBody body markup = .ok p)
    (hshown : p.statement.display? ≠ none) :
    (∃ front c, p.lead.toList = front ++ [c] ∧ (c = '=' ∨ c = '>')) ∧
    p.lead.toList <+: body ∧
    ∀ rest markup', ((divide 0 rest).2 = [] ∧
        ∃ hint, parseBody (p.lead.toList ++ rest) markup' = .ok (p.asking hint)) ∨
      (divide 0 rest).2 ≠ [] ∧ ∃ e, parseBody (p.lead.toList ++ rest) markup' = .error e := by
  rcases ofParts_eq_ok h with ⟨hnone, -⟩ | ⟨first, others, operator, tail, hparts, hshows⟩
  · exact absurd hnone hshown
  · refine ⟨?_, ?_, fun rest markup' => ?_⟩
    · rw [hshows.lead]
      cases operator with
      | assign => exact absurd rfl hshows.showing
      | convert => exact ⟨joined first others ++ ['='], '=', by simp [Operator.text], .inl rfl⟩
      | raw => exact ⟨joined first others ++ ['='], '>', by simp [Operator.text], .inr rfl⟩
    · have hjoined := joined_divide 0 body
      rw [hparts, joined_append, joined_cons, joined_nil, ← hshows.lead] at hjoined
      exact ⟨tail, hjoined⟩
    · unfold parseBody
      rw [hshows.lead, divide_behind hparts]
      cases hmore : (divide 0 rest).2 with
      | nil => exact .inl ⟨rfl, hshows.again _ _ _⟩
      | cons other more =>
          exact .inr ⟨List.cons_ne_nil other more, hshows.further _ _ _ _ _⟩

end Statement

end Worksheet

import Worksheet.Proofs.Rendering.Closed
import Worksheet.Proofs.Statement.Clear
/-!
# The unit that a rendered statement asks for

A statement with its result behind it asks for the unit that is recovered from the result, as long
as no markup keeps another one.
-/

namespace Worksheet

open Text

namespace Markup

variable {cs : List Char}

/-- No escaped space begins in the text, nor does one run out of it. -/
def Spaceless (cs : List Char) : Prop :=
  ∀ rest, ['\\', ' '] <:+: cs ++ rest → ['\\', ' '] <:+: rest

theorem composes_spaceless : Rendering.Composes Spaceless where
  nil _ h := h
  append h h' rest hinside := h' rest (h _ (by rwa [List.append_assoc] at hinside))

theorem spaceless_word (h : '\\' ∉ cs) : Spaceless cs := by
  intro rest hinside
  induction cs with
  | nil => exact hinside
  | cons c cs ih =>
      rw [List.mem_cons, not_or] at h
      exact ih h.2 (infix_of_ne (Ne.symm h.1) hinside)

theorem spaceless_command {c : Char} (hc : c ∉ ['\\', ' ']) (h : '\\' ∉ cs) :
    Spaceless ('\\' :: c :: cs) := by
  simp only [List.mem_cons, List.not_mem_nil, or_false, not_or] at hc
  have hword : Spaceless (c :: cs) := spaceless_word (by simp [Ne.symm hc.1, h])
  intro rest hinside
  rcases List.infix_cons_iff.1 hinside with hbegins | hinside
  · exact absurd (List.cons_prefix_cons.1 (List.cons_prefix_cons.1 hbegins).2).1.symm hc.2
  · exact hword rest hinside

theorem spaceless_escape (c : Char) : Spaceless (escape c) := by
  unfold escape
  split_ifs with hslash hcaret htilde hsign
  · exact spaceless_command (c := 't') (by decide) (by decide)
  · exact spaceless_command (c := '^') (by decide) (by decide)
  · exact spaceless_command (c := '~') (by decide) (by decide)
  · refine spaceless_command ?_ List.not_mem_nil
    have hall : ∀ d ∈ ['\\', ' '], ¬(d = '_' || d = '%' || d = '&' || d = '#' || d = '$' ||
        d = '\x7b' || d = '\x7d') := by decide
    exact fun hmem => hall c hmem hsign
  · exact spaceless_word (by simpa using Ne.symm hslash)

theorem hint?_nil : hint? [] = none := by decide

/-- The beginning of a markup, with its message, up to the unit that it keeps. -/
def opening (severity : Severity) (message : String) : List Char :=
  start ++ ((colour severity).toList ++ ("\x7d\x7b\\text\x7b".toList ++
    (message.toList.flatMap escape ++ ['\x7d'])))

theorem render_eq_opening (severity : Severity) (message : String) (hint : Option String) :
    (render severity message hint).toList =
      opening severity message ++ ((request hint).toList ++ ['\x7d']) := by
  simp [render_toList, opening]

/-- No message brings an escaped space into a markup. -/
theorem spaceless_opening (severity : Severity) (message : String) :
    Spaceless (opening severity message) := by
  have hstart : Spaceless start :=
    composes_spaceless.append (spaceless_command (c := 'q') (by decide) (by decide) : Spaceless
      "\\quad ".toList) (spaceless_command (c := 'c') (by decide) (by decide))
  have hcolour : Spaceless (colour severity).toList := by
    cases severity <;> exact spaceless_word (by decide)
  have hopen : Spaceless "\x7d\x7b\\text\x7b".toList :=
    composes_spaceless.append (spaceless_word (by decide) : Spaceless ['\x7d', '\x7b'])
      (spaceless_command (c := 't') (by decide) (by decide))
  have hmessage : Spaceless (message.toList.flatMap escape) :=
    composes_spaceless.flatMap fun c _ => spaceless_escape c
  have hclose : Spaceless ['\x7d'] := spaceless_word (by decide)
  exact composes_spaceless.append hstart (composes_spaceless.append hcolour
    (composes_spaceless.append hopen (composes_spaceless.append hmessage hclose)))

theorem requested_ne_nil : requested ≠ [] := by decide

/-- Where no escaped space begins, no unit that was asked for is announced. -/
theorem Spaceless.not_requested (h : Spaceless cs) : ¬requested <:+: cs := by
  intro hinside
  have hspace : ['\\', ' '] <:+: requested := List.IsPrefix.isInfix (by decide)
  have hnever := h [] (by rw [List.append_nil]; exact hspace.trans hinside)
  exact absurd hnever (by decide)

theorem not_requested_render_none (severity : Severity) (message : String) :
    ¬requested <:+: (render severity message none).toList := by
  rw [render_eq_opening]
  exact (composes_spaceless.append (spaceless_opening severity message)
    (spaceless_word (by decide) : Spaceless ((request none).toList ++ ['\x7d']))).not_requested

/-- A markup without a unit in it keeps none. -/
theorem hint?_render_none (severity : Severity) (message : String) :
    hint? (render severity message none).toList = none := by
  have hnone := (splitAt?_eq_none_iff requested_ne_nil).2 (not_requested_render_none severity message)
  unfold hint?
  rw [hnone]
  rfl

end Markup

namespace Statement

variable {text : String} {p : ParsedStatement} {result markup : List Char} {own : Option String}

/-- A statement that shows its value asks for what stands behind its last operator. -/
theorem display?_ofParts {body first tail : List Char} {others : List (Operator × List Char)}
    {operator : Operator} {markup : Option (List Char)} (hoperator : operator ≠ .assign)
    (h : ofParts body markup (first, others ++ [(operator, tail)]) = .ok p) :
    p.statement.display? = some (displayOf operator tail markup) := by
  match others with
  | [] =>
      cases operator with
      | assign => exact absurd rfl hoperator
      | convert =>
          cases h
          rfl
      | raw =>
          cases h
          rfl
  | [(.assign, expr)] =>
      obtain ⟨check, hcheck⟩ := assigned_some ⟨String.ofList first, 0⟩
        (Text.byteSize first + 2 + Text.byteSize expr)
      rw [List.singleton_append] at h
      unfold ofParts at h
      dsimp only at h
      rw [if_neg hoperator, hcheck] at h
      cases check with
      | error e => cases h
      | ok _ =>
          cases h
          rfl
  | [(.convert, _)] => cases h
  | [(.raw, _)] => cases h
  | (.assign, _) :: _ :: more => cases more <;> cases h
  | (.convert, _) :: _ :: _ => cases h
  | (.raw, _) :: _ :: _ => cases h

/-- A statement that shows its value in a unit is the same with anything behind its lead that has no
operator, asking for what is recovered from it. -/
theorem parseBody_convert (hparse : Statement.parse text = .ok p)
    (hown : p.statement.display? = some (.convert own)) {rest : List Char}
    (hrest : (divide 0 rest).2 = []) (markup : Option (List Char)) :
    Statement.parseBody (leadOf text ++ rest) markup =
      .ok (p.asking (Result.hint? rest markup)) := by
  rcases ofParts_eq_ok hparse with
    ⟨hnone, -⟩ | ⟨first, others, operator, tail, hparts, hshows⟩
  · rw [hown] at hnone
    cases hnone
  · have hundivided : divide 0 rest = (rest, []) := by
      have hjoined := joined_divide 0 rest
      rw [hrest, joined_nil] at hjoined
      exact Prod.ext hjoined hrest
    have hdivide : divide 0 (leadOf text ++ rest) = (first, others ++ [(operator, rest)]) := by
      rw [leadOf_ok hparse, hshows.lead, divide_behind hparts, hundivided]
    obtain ⟨hint, hread⟩ := hshows.again (leadOf text ++ rest) markup rest
    have hdisplay : (p.asking hint).statement.display? = some (.convert hint) := by
      rw [ParsedStatement.asking, display?_asking, hown]
      rfl
    have hasked := display?_ofParts hshows.showing hread
    rw [hdisplay, Option.some.injEq] at hasked
    rw [Statement.parseBody, hdivide, hread]
    cases operator with
    | assign => exact absurd rfl hshows.showing
    | raw => cases hasked
    | convert => rw [Display.convert.inj hasked]

theorem IsResult.split_markup (h : IsResult text result) (hmarkup : IsMarkup markup) :
    (Markup.split (leadOf text ++ result ++ markup)).2 = none ∨
      (Markup.split (leadOf text ++ result ++ markup)).2 = some markup := by
  rcases hmarkup with rfl | ⟨after, rfl⟩
  · rw [List.append_nil, h.free.split]
    exact .inl rfl
  · rw [← List.append_assoc, h.free.split_append]
    exact .inr rfl

/-- A statement with its result behind it is the statement, asking for what is recovered. -/
theorem IsResult.parse_convert (h : IsResult text result) (hmarkup : IsMarkup markup)
    (hparse : Statement.parse text = .ok p) (hown : p.statement.display? = some (.convert own)) :
    Statement.parse (String.ofList (leadOf text ++ result ++ markup)) = .ok (p.asking
      (Result.hint? (trimEnd result) (Markup.split (leadOf text ++ result ++ markup)).2)) := by
  have hundivided : (divide 0 (trimEnd result)).2 = [] := by rw [h.divide_trimEnd]
  rw [parse_eq, String.toList_ofList, h.split hmarkup,
    trimEnd_append_of_trimmed (trimEnd_leadOf text)]
  exact parseBody_convert hparse hown hundivided _

end Statement

end Worksheet

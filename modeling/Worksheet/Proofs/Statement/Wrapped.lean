import Worksheet.Proofs.Statement.Carried
import Worksheet.Proofs.Statement.Result
/-!
# What clearing keeps

A cleared statement has the unit that its result was shown in, in a wrapper behind its operator. It
is recovered from there exactly if it reads as itself inside of the wrapper: the wrapper ends where
it should, and neither a markup nor an operator begins in it.
-/

namespace Worksheet

open Text

namespace Text

variable {cs body rest : List Char}

theorem length_of_untilClosed {depth : Nat} (h : untilClosed depth cs = some (body, rest)) :
    body.length < cs.length := by
  rw [← append_of_untilClosed h, List.length_append, List.length_cons]
  omega

theorem append_of_group? (h : group? cs = some (body, rest)) :
    '\x7b' :: (body ++ '\x7d' :: rest) = cs := by
  unfold group? at h
  split at h
  · rw [append_of_untilClosed h]
  · cases h

theorem length_trim_le (cs : List Char) : (trim cs).length ≤ cs.length :=
  (trimEnd_isPrefix _).length_le.trans (List.dropWhile_suffix _).length_le

/-- A text that is found in a wrapper is all that is in it, if it is as long. -/
theorem grouped_of_trim (h : untilClosed 0 (cs ++ ['\x7d']) = some (body, rest))
    (htrim : trim body = cs) : Grouped cs ∧ trim cs = cs := by
  have hsplit := append_of_untilClosed h
  have hlength := congrArg List.length hsplit
  have hle := length_trim_le body
  simp only [List.length_append, List.length_cons, List.length_nil] at hlength
  rw [htrim] at hle
  obtain rfl : rest = [] := List.length_eq_zero_iff.1 (by omega)
  obtain rfl : body = cs := List.append_cancel_right hsplit
  exact ⟨h, htrim⟩

end Text

namespace Result

variable {cs : List Char}

/-- No value stands before a wrapper. -/
theorem afterValue_mathrm (cs : List Char) :
    afterValue (' ' :: ("\\mathrm".toList ++ '\x7b' :: cs)) =
      "\\mathrm".toList ++ '\x7b' :: cs := rfl

theorem shownUnit?_eq_some {tail : List Char} {unit : String} (h : shownUnit? tail = some unit) :
    unit.toList = unitContent (afterValue tail) ∧ unit.toList ≠ [] := by
  unfold shownUnit? at h
  split at h
  · cases h
  · rename_i hcontent
    cases h
    rw [String.toList_ofList]
    exact ⟨rfl, hcontent⟩

/-- What is found in a wrapper is shorter than the wrapper, unless all of the text is found. -/
theorem length_unitContent_mathrm (cs : List Char) :
    (unitContent ("\\mathrm".toList ++ '\x7b' :: cs)).length ≤ cs.length + 8 := by
  rw [unitContent_mathrm]
  split
  · rename_i body rest hclosed
    have hbody := length_of_untilClosed hclosed
    have htrim := length_trim_le body
    omega
  · have htrim := length_trim_le ("\\mathrm".toList ++ '\x7b' :: cs)
    simpa using htrim

end Result

namespace Markup

/-- The unit that a markup keeps leaves room for what announces it. -/
theorem length_of_hint? {markup hint : List Char} (h : hint? markup = some hint) :
    hint.length + requested.length < markup.length := by
  obtain ⟨⟨before, after⟩, hsplit, h⟩ := Option.bind_eq_some_iff.1 h
  obtain ⟨⟨body, rest⟩, hgroup, h⟩ := Option.bind_eq_some_iff.1 h
  cases h
  obtain ⟨rfl, -⟩ := splitAt?_eq_some requested_ne_nil hsplit
  rw [← append_of_group? hgroup]
  simp only [List.length_append, List.length_cons]
  omega

end Markup

namespace Statement

variable {text hint : String} {p : ParsedStatement} {h : List Char}

/-- A unit in a wrapper, as clearing leaves it. -/
def wrapper (h : List Char) : List Char := ' ' :: ("\\mathrm".toList ++ '\x7b' :: (h ++ ['\x7d']))

/-- What reads as itself inside of a wrapper. -/
structure Wraps (h : List Char) : Prop where
  grouped : Grouped h
  trimmed : trim h = h
  nonempty : h ≠ []
  free : Markup.Free h
  undivided : (divide 0 (wrapper h)).2 = []

/-- The unit that a statement shows its value in. -/
def Asks (text hint : String) : Prop :=
  ∃ p, parse text = .ok p ∧ p.statement.display? = some (.convert (some hint))

theorem clear_of_asks (hparse : parse text = .ok p)
    (hasks : p.statement.display? = some (.convert (some hint))) :
    clear text = String.ofList (leadOf text ++ wrapper hint.toList) := by
  unfold clear
  rw [hparse, leadOf_ok hparse]
  simp [hasks, wrapper, ← String.toList_inj]

theorem trimEnd_wrapper (front h : List Char) :
    trimEnd (front ++ wrapper h) = front ++ wrapper h := by
  have hsplit : front ++ wrapper h =
      front ++ (' ' :: ("\\mathrm".toList ++ '\x7b' :: h)) ++ ['\x7d'] := by
    simp [wrapper]
  rw [hsplit]
  exact trimEnd_concat (by decide) _

theorem toList_clear (hparse : parse text = .ok p)
    (hasks : p.statement.display? = some (.convert (some hint))) :
    (clear text).toList = leadOf text ++ wrapper hint.toList := by
  rw [clear_of_asks hparse hasks, String.toList_ofList]

/-! ## Markups in the unit -/

/-- A wrapper around a unit without markup completes none. -/
theorem free_wrapper (hfree : Markup.Free h) : Markup.Free (wrapper h) := by
  have hnever : ∀ a ∈ " \\mathrm\x7b".toList.tails, a ≠ [] → ¬a <+: Markup.start := by decide
  intro hinside
  have hsplit : wrapper h = " \\mathrm\x7b".toList ++ (h ++ ['\x7d']) := rfl
  rw [hsplit] at hinside
  rcases List.infix_append_iff_ne_nil.1 hinside with hfront | hback | ⟨a, b, ha, -, hab, hsuffix, -⟩
  · exact absurd hfront.length_le (by decide)
  · rcases List.infix_concat_iff.1 hback with hends | hinner
    · have hlast := Markup.getLast?_of_suffix Markup.start_ne_nil hends
      rw [List.getLast?_concat] at hlast
      exact absurd hlast (by decide)
    · exact hfree hinner
  · exact hnever a ((List.mem_tails a _).2 hsuffix) ha (hab ▸ List.prefix_append _ _)

theorem free_cleared (hshown : IsShown text) (hfree : Markup.Free h) :
    Markup.Free (leadOf text ++ wrapper h) := by
  obtain ⟨front, c, hlead, hc⟩ := leadOf_isShown hshown
  refine (leadOf_free text).append (fun c hc => ?_) (free_wrapper hfree) (.inl ?_)
  · cases hc
    rfl
  · rw [hlead, List.getLast?_concat]
    rcases hc with rfl | rfl <;> decide

/-- A markup in a unit cuts its wrapper off. -/
theorem split_marked (text : String) (hmarked : ¬Markup.Free h) :
    ∃ front after, h ++ ['\x7d'] = front ++ Markup.start ++ after ∧
      Markup.split (leadOf text ++ wrapper h) =
        (leadOf text ++ (" \\mathrm\x7b".toList ++ front), some (Markup.start ++ after)) := by
  have hname : Markup.Free (leadOf text ++ " \\mathrm".toList) := by
    refine (leadOf_free text).append (fun c hc => ?_) (fun hinside => ?_) (.inr (by decide))
    · cases hc
      rfl
    · exact absurd hinside.length_le (by decide)
  have hlast : ∀ c, (leadOf text ++ " \\mathrm".toList).getLast? = some c → c ∉ Markup.start := by
    intro c hc
    rw [Markup.getLast?_of_suffix (by decide) (List.suffix_append _ _)] at hc
    cases hc
    decide
  have hbegins := hname.prefix_split hlast ('\x7b' :: (h ++ ['\x7d']))
  have hwhole : leadOf text ++ " \\mathrm".toList ++ '\x7b' :: (h ++ ['\x7d']) =
      leadOf text ++ wrapper h := by
    rw [List.append_assoc]
    rfl
  rw [hwhole] at hbegins
  rcases Markup.split_cases (leadOf text ++ wrapper h) with
    ⟨-, hfree⟩ | ⟨front, after, heq, hsplit, -⟩
  · refine absurd (fun hinside => hfree (hinside.trans ?_)) hmarked
    exact ⟨leadOf text ++ " \\mathrm\x7b".toList, ['\x7d'], by simp [wrapper]⟩
  · rw [hsplit] at hbegins ⊢
    obtain ⟨tail, rfl⟩ := hbegins
    simp only [← hwhole, List.append_assoc, List.append_cancel_left_eq] at heq
    cases tail with
    | nil => cases heq
    | cons c tail =>
      rw [List.cons_append, List.cons.injEq] at heq
      obtain ⟨rfl, hinner⟩ := heq
      refine ⟨tail, after, by rw [hinner, List.append_assoc], ?_⟩
      simp

/-! ## What is read from a cleared statement -/

theorem isShown_of_asks (hparse : parse text = .ok p)
    (hasks : p.statement.display? = some (.convert (some hint))) : IsShown text :=
  ⟨p, hparse, by rw [hasks]; exact Option.some_ne_none _⟩

/-- Asking for another unit makes another statement. -/
theorem asking_eq_self_iff {own : Option String}
    (hasks : p.statement.display? = some (.convert (some hint))) :
    p.asking own = p ↔ own = some hint := by
  constructor
  · intro heq
    have hdisplay : (p.asking own).statement.display? = some (.convert own) := by
      rw [ParsedStatement.asking, display?_asking, hasks]
      rfl
    rw [heq, hasks] at hdisplay
    cases hdisplay
    rfl
  · rintro rfl
    exact ParsedStatement.asking_self hasks

/-- What is asked for is all that can change when a statement is cleared again. -/
theorem clear_eq_clear_iff {text' : String} {own : Option String} (hparse : parse text = .ok p)
    (hasks : p.statement.display? = some (.convert (some hint)))
    (hread : parse text' = .ok (p.asking own)) : clear text' = clear text ↔ own = some hint := by
  have hlead : leadOf text' = leadOf text := by
    rw [leadOf_ok hread, leadOf_ok hparse]
    rfl
  have hdisplay : (p.asking own).statement.display? = some (.convert own) := by
    rw [ParsedStatement.asking, display?_asking, hasks]
    rfl
  rw [← String.toList_inj, toList_clear hparse hasks]
  cases own with
  | none =>
    have hclear : clear text' = String.ofList (leadOf text') := by
      unfold clear
      rw [hread, leadOf_ok hread, String.ofList_toList]
      simp [hdisplay]
    rw [hclear, String.toList_ofList, hlead]
    simp [wrapper]
  | some unit =>
    rw [toList_clear hread hdisplay, hlead, List.append_cancel_left_eq]
    simp [wrapper, String.toList_inj]

/-- A wrapper without markup is read as a whole. -/
theorem parse_clear_free (hparse : parse text = .ok p)
    (hasks : p.statement.display? = some (.convert (some hint)))
    (hfree : Markup.Free hint.toList) :
    parse (clear text) = parseBody (leadOf text ++ wrapper hint.toList) none := by
  rw [parse_eq, toList_clear hparse hasks,
    (free_cleared (isShown_of_asks hparse hasks) hfree).split, trimEnd_wrapper]

/-- An operator in the unit makes too many of them, and then nothing more is cleared. -/
theorem clear_clear_of_divided (hparse : parse text = .ok p)
    (hasks : p.statement.display? = some (.convert (some hint)))
    (hfree : Markup.Free hint.toList) (hdivided : (divide 0 (wrapper hint.toList)).2 ≠ []) :
    (∃ e, parse (clear text) = .error e) ∧ clear (clear text) = clear text := by
  obtain ⟨e, he⟩ : ∃ e, parse (clear text) = .error e := by
    have hshown : p.statement.display? ≠ none := by simp [hasks]
    rcases (parseBody_shown hparse hshown).2.2 (wrapper hint.toList) none with
      ⟨hundivided, -⟩ | ⟨-, he⟩
    · exact absurd hundivided hdivided
    · rwa [parse_clear_free hparse hasks hfree, leadOf_ok hparse]
  refine ⟨⟨e, he⟩, ?_⟩
  rw [clear_error he, leadOf_error he, toList_clear hparse hasks,
    (free_cleared (isShown_of_asks hparse hasks) hfree).split, trimEnd_wrapper,
    clear_of_asks hparse hasks]

/-- What is shown in a wrapper is what is in it, exactly if it wraps. -/
theorem shownUnit?_wrapper (hfree : Markup.Free hint.toList)
    (hundivided : (divide 0 (wrapper hint.toList)).2 = []) :
    Result.shownUnit? (wrapper hint.toList) = some hint ↔ Wraps hint.toList := by
  have hvalue : Result.afterValue (wrapper hint.toList) =
      "\\mathrm".toList ++ '\x7b' :: (hint.toList ++ ['\x7d']) := Result.afterValue_mathrm _
  constructor
  · intro hshown
    obtain ⟨hcontent, hnonempty⟩ := Result.shownUnit?_eq_some hshown
    rw [hvalue, Result.unitContent_mathrm] at hcontent
    split at hcontent
    · rename_i body rest hclosed
      obtain ⟨hgrouped, htrimmed⟩ := grouped_of_trim hclosed hcontent.symm
      exact ⟨hgrouped, htrimmed, hnonempty, hfree, hundivided⟩
    · -- all of the wrapper is longer than what is in it
      have hends := trimEnd_concat (c := '\x7d') (by decide)
        ("\\mathrm".toList ++ '\x7b' :: hint.toList)
      have hwhole : trim ("\\mathrm".toList ++ '\x7b' :: (hint.toList ++ ['\x7d'])) =
          "\\mathrm".toList ++ '\x7b' :: (hint.toList ++ ['\x7d']) := by
        rw [List.append_assoc] at hends
        exact hends
      rw [hwhole] at hcontent
      have hlength := congrArg List.length hcontent
      simp at hlength
      omega
  · intro hwraps
    have hcontent : Result.unitContent (Result.afterValue (wrapper hint.toList)) = hint.toList := by
      rw [hvalue, Result.unitContent_group hwraps.grouped, hwraps.trimmed]
    unfold Result.shownUnit?
    rw [hcontent]
    split
    · rename_i hnil
      exact absurd hnil hwraps.nonempty
    · rw [String.ofList_toList]

/-- From a wrapper that a markup cuts off no unit is recovered that is as long. -/
theorem hint?_marked {front after : List Char}
    (hsplit : h ++ ['\x7d'] = front ++ Markup.start ++ after) :
    ∀ own, Result.hint? (trimEnd (" \\mathrm\x7b".toList ++ front)) (some (Markup.start ++ after)) =
      some own → own.toList.length < h.length := by
  intro own hown
  have hlength := congrArg List.length hsplit
  have hstart : Markup.start.length = 13 := by decide
  have hrequested : Markup.requested.length = 27 := by decide
  simp only [List.length_append, List.length_cons, List.length_nil, hstart] at hlength
  cases hkept : Markup.hint? (Markup.start ++ after) with
  | some kept =>
    have hshort := Markup.length_of_hint? hkept
    simp only [Result.hint?, Option.bind_some, hkept, Option.some.injEq] at hown
    rw [← hown, String.toList_ofList]
    simp only [List.length_append, hstart, hrequested] at hshort
    omega
  | none =>
    have hnone : (some (Markup.start ++ after)).bind Markup.hint? = none := hkept
    rw [Result.hint?_of_bind_none hnone] at hown
    obtain ⟨hcontent, -⟩ := Result.shownUnit?_eq_some hown
    have hname : trimEnd " \\mathrm\x7b".toList = " \\mathrm\x7b".toList := by decide
    have hvalue : Result.afterValue (trimEnd (" \\mathrm\x7b".toList ++ front)) =
        "\\mathrm".toList ++ '\x7b' :: trimEnd front := by
      rw [trimEnd_append_of_trimmed hname]
      exact Result.afterValue_mathrm _
    have hshort := Result.length_unitContent_mathrm (trimEnd front)
    have htrim := (trimEnd_isPrefix front).length_le
    rw [hcontent, hvalue]
    omega

/-- A markup in the unit is taken for that of the statement, and the unit is not recovered. -/
theorem clear_clear_of_marked (hparse : parse text = .ok p)
    (hasks : p.statement.display? = some (.convert (some hint)))
    (hmarked : ¬Markup.Free hint.toList) :
    parse (clear text) ≠ .ok p ∧ clear (clear text) ≠ clear text := by
  obtain ⟨front, after, hinner, hsplit⟩ := split_marked text hmarked
  have hbody : parse (clear text) = parseBody
      (leadOf text ++ trimEnd (" \\mathrm\x7b".toList ++ front)) (some (Markup.start ++ after)) := by
    rw [parse_eq, toList_clear hparse hasks, hsplit, trimEnd_append_of_trimmed (trimEnd_leadOf text)]
  by_cases hundivided : (divide 0 (trimEnd (" \\mathrm\x7b".toList ++ front))).2 = []
  · have hread := parseBody_convert hparse hasks hundivided (some (Markup.start ++ after))
    rw [← hbody] at hread
    have hother : Result.hint? (trimEnd (" \\mathrm\x7b".toList ++ front))
        (some (Markup.start ++ after)) ≠ some hint :=
      fun hsame => absurd (hint?_marked hinner hint hsame) (Nat.lt_irrefl _)
    rw [hread, Ne, Except.ok.injEq, asking_eq_self_iff hasks, Ne,
      clear_eq_clear_iff hparse hasks hread]
    exact ⟨hother, hother⟩
  · have hshown : p.statement.display? ≠ none := by simp [hasks]
    obtain ⟨e, he⟩ : ∃ e, parse (clear text) = .error e := by
      rcases (parseBody_shown hparse hshown).2.2 (trimEnd (" \\mathrm\x7b".toList ++ front))
          (some (Markup.start ++ after)) with ⟨hnone, -⟩ | ⟨-, he⟩
      · exact absurd hnone hundivided
      · rwa [hbody, leadOf_ok hparse]
    refine ⟨by rw [he]; exact nofun, fun hsame => ?_⟩
    -- what is cut off is lost
    have hcut : leadOf (clear text) =
        leadOf text ++ trimEnd (" \\mathrm\x7b".toList ++ front) := by
      rw [leadOf_error he, toList_clear hparse hasks, hsplit,
        trimEnd_append_of_trimmed (trimEnd_leadOf text)]
    have hlost : trimEnd (" \\mathrm\x7b".toList ++ front) = wrapper hint.toList := by
      have hlists := congrArg String.toList hsame
      rw [clear_error he, String.toList_ofList, toList_clear hparse hasks, hcut] at hlists
      exact List.append_cancel_left hlists
    have hprefix := (trimEnd_isPrefix (" \\mathrm\x7b".toList ++ front)).length_le
    have hinside := congrArg List.length hinner
    rw [hlost] at hprefix
    simp only [wrapper, List.length_append, List.length_cons, List.length_nil] at hprefix hinside
    have hopener : " \\mathrm\x7b".toList.length = 9 := by decide
    have hname : "\\mathrm".toList.length = 7 := by decide
    have hstart : Markup.start.length = 13 := by decide
    omega

/-! ## Clearing twice -/

/-- What clearing leaves depends on the statement only. -/
theorem clear_congr {text' : String} (hparse : parse text = .ok p) (hparse' : parse text' = .ok p) :
    clear text' = clear text := by
  unfold clear
  rw [hparse, hparse']

/-- Without a unit that a result was shown in, nothing is left to clear. -/
theorem clear_clear_of_not_asks (hsilent : ∀ hint, ¬Asks text hint) :
    clear (clear text) = clear text ∧ ∀ p, parse text = .ok p → parse (clear text) = .ok p := by
  cases hparse : parse text with
  | error e =>
    have hcleared : parse (clear text) = .error e := by
      have halone := parse_leadOf text
      rw [hparse] at halone
      rw [clear_error hparse]
      exact halone.error_left
    refine ⟨?_, nofun⟩
    rw [clear_error hcleared, leadOf_error hcleared, clear_error hparse, String.toList_ofList,
      (leadOf_free text).split, trimEnd_leadOf]
  | ok p =>
    have hclear : clear text = String.ofList (leadOf text) := by
      unfold clear
      rw [hparse, leadOf_ok hparse, String.ofList_toList]
      dsimp only
      split
      · rename_i hint hasks
        exact absurd ⟨p, hparse, hasks⟩ (hsilent hint)
      · rfl
    have hcleared : parse (clear text) = .ok p := by
      rw [hclear]
      by_cases hshown : ∃ own, p.statement.display? = some (.convert own)
      · obtain ⟨own, hown⟩ := hshown
        obtain rfl : own = none := by
          cases own with
          | none => rfl
          | some hint => exact absurd ⟨p, hparse, hown⟩ (hsilent hint)
        have hread := (isResult_nil text).parse_convert (.inl rfl : IsMarkup []) hparse hown
        simp only [List.append_nil, (leadOf_free text).split] at hread
        rw [hread]
        exact congrArg Except.ok (ParsedStatement.asking_self hown)
      · have halone := parse_leadOf text
        rw [hparse] at halone
        obtain ⟨hint, hread⟩ := halone.ok_left
        rw [hread, ParsedStatement.asking_of_silent fun own hown => hshown ⟨own, hown⟩]
    refine ⟨clear_congr hparse hcleared, fun q hq => ?_⟩
    cases hq
    exact hcleared

/-- With a unit, the statement stays the same exactly if the unit wraps. It is at least not cleared
any further if the unit has an operator in it, so that nothing can be read any more. -/
theorem clear_clear_of_asks (hparse : parse text = .ok p)
    (hasks : p.statement.display? = some (.convert (some hint))) :
    (parse (clear text) = .ok p ↔ Wraps hint.toList) ∧
      (clear (clear text) = clear text ↔ Wraps hint.toList ∨
        Markup.Free hint.toList ∧ (divide 0 (wrapper hint.toList)).2 ≠ []) := by
  by_cases hfree : Markup.Free hint.toList
  · by_cases hundivided : (divide 0 (wrapper hint.toList)).2 = []
    · have hread := parseBody_convert hparse hasks hundivided none
      rw [← parse_clear_free hparse hasks hfree] at hread
      have hwraps := shownUnit?_wrapper hfree hundivided
      rw [clear_eq_clear_iff hparse hasks hread, hread, Except.ok.injEq, asking_eq_self_iff hasks]
      refine ⟨hwraps, hwraps.trans ⟨.inl, ?_⟩⟩
      rintro (h | ⟨-, hdivided⟩)
      · exact h
      · exact absurd hundivided hdivided
    · obtain ⟨⟨e, he⟩, hsame⟩ := clear_clear_of_divided hparse hasks hfree hundivided
      rw [he]
      exact ⟨iff_of_false nofun fun h => hundivided h.undivided,
        iff_of_true hsame (.inr ⟨hfree, hundivided⟩)⟩
  · obtain ⟨hparse', hclear⟩ := clear_clear_of_marked hparse hasks hfree
    refine ⟨iff_of_false hparse' fun h => hfree h.free, iff_of_false hclear ?_⟩
    rintro (h | ⟨h, -⟩)
    · exact hfree h.free
    · exact hfree h

/-- Clearing keeps a statement as it is read, except for the value that it shows, exactly if the
unit that it asks for wraps, or if it asks for none. Clearing twice is clearing once in these cases,
and where the unit has an operator in it. -/
theorem clear_keeps_iff (text : String) :
    ((∀ p, parse text = .ok p → parse (clear text) = .ok p) ↔
      ∀ hint, Asks text hint → Wraps hint.toList) ∧
    (clear (clear text) = clear text ↔ ∀ hint, Asks text hint →
      Wraps hint.toList ∨ Markup.Free hint.toList ∧ (divide 0 (wrapper hint.toList)).2 ≠ []) := by
  by_cases hsilent : ∀ hint, ¬Asks text hint
  · obtain ⟨hclear, hparse⟩ := clear_clear_of_not_asks hsilent
    exact ⟨iff_of_true hparse fun hint h => absurd h (hsilent hint),
      iff_of_true hclear fun hint h => absurd h (hsilent hint)⟩
  · obtain ⟨hint, p, hparse, hasks⟩ := not_forall_not.1 hsilent
    have honly : ∀ {P : String → Prop}, (∀ hint', Asks text hint' → P hint') ↔ P hint := by
      refine fun {P} => ⟨fun h => h hint ⟨p, hparse, hasks⟩, fun h hint' ⟨q, hq, hasks'⟩ => ?_⟩
      rw [hparse] at hq
      cases hq
      rw [hasks] at hasks'
      cases hasks'
      exact h
    obtain ⟨hkeeps, hclear⟩ := clear_clear_of_asks hparse hasks
    rw [honly, honly, hclear, ← hkeeps]
    refine ⟨⟨fun h => h p hparse, fun h q hq => ?_⟩, Iff.rfl⟩
    rw [hparse] at hq
    cases hq
    exact h

/-- A unit that closes a group too many is lost, and one in a wrapper that is not closed grows with
every clearing. -/
theorem clear_clear_ne :
    Asks "x == 5 \x7d" "\x7d" ∧ clear "x == 5 \x7d" = "x == \\mathrm\x7b\x7d\x7d" ∧
      clear (clear "x == 5 \x7d") = "x ==" ∧
      clear "x == \\mathrm\x7bm" = "x == \\mathrm\x7b\\mathrm\x7bm\x7d" ∧
      clear (clear "x == \\mathrm\x7bm") ≠ clear "x == \\mathrm\x7bm" := by
  refine ⟨⟨_, rfl, rfl⟩, ?_⟩
  decide +kernel

end Statement

end Worksheet

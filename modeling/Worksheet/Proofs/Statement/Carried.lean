import Worksheet.Proofs.Statement.Again
/-!
# What a markup delimits

A markup begins where it was put, and the unit that it keeps is the one that it was made with,
whatever its message says: nothing in a message looks like the beginning of a markup, announces a
unit or closes a group.
-/

namespace Worksheet

open Text

namespace Result

/-- The unit that is shown behind a display operator. -/
def shownUnit? (tail : List Char) : Option String :=
  match unitContent (afterValue tail) with
  | [] => none
  | unit => some (String.ofList unit)

/-- Unless a unit is kept in the markup, it is the unit that is shown. -/
theorem hint?_of_bind_none {tail : List Char} {markup : Option (List Char)}
    (h : markup.bind Markup.hint? = none) : hint? tail markup = shownUnit? tail := by
  unfold hint?
  rw [h]
  rfl

end Result

namespace Markup

variable {cs front : List Char} {hint : String}

/-- Behind a text without escaped spaces a unit is announced where it is announced first. -/
theorem Spaceless.append_dropLast (h : Spaceless cs) :
    ¬requested <:+: cs ++ requested.dropLast := by
  have hnever : ¬['\\', ' '] <:+: cs ++ [' '] := fun hinside =>
    absurd (h [' '] hinside) (by decide)
  intro hinside
  rcases List.infix_append_iff_ne_nil.1 hinside with hfront | hself | ⟨a, b, ha, hb, hab, hsuffix, -⟩
  · exact h.not_requested hfront
  · exact absurd hself.length_le (by decide)
  · -- the escaped space it begins with would be in the text, or end right behind it
    obtain ⟨c, a, rfl⟩ := List.exists_cons_of_ne_nil ha
    have hspace : ['\\', ' '] <+: (c :: a) ++ [' '] := by
      have hbegins : (c :: a) <+: requested := hab ▸ List.prefix_append _ _
      have hfirst : ['\\', ' '] <+: requested := by decide
      cases a with
      | nil =>
          obtain ⟨rfl, -⟩ := List.cons_prefix_cons.1 hbegins
          exact List.prefix_rfl
      | cons d a =>
          have hshort : ['\\', ' '] <+: c :: d :: a :=
            List.prefix_of_prefix_length_le hfirst hbegins (by simp)
          exact hshort.trans (List.prefix_append _ _)
    obtain ⟨before, hbefore⟩ := hsuffix
    refine hnever (hspace.isInfix.trans ⟨before, [], ?_⟩)
    rw [← hbefore, List.append_nil, List.append_assoc]

/-- The unit that a markup was made with is the one that it keeps. -/
theorem hint?_render_some (severity : Severity) (message : String) (hgroup : Grouped hint.toList) :
    hint? (render severity message (some hint)).toList = some hint.toList := by
  have hwhole : (render severity message (some hint)).toList = opening severity message ++
      requested ++ ('\x7b' :: (hint.toList ++ '\x7d' :: ['\x7d'])) := by
    rw [render_eq_opening, request_toList]
    simp
  have hsplit : splitAt? requested (render severity message (some hint)).toList =
      some (opening severity message, '\x7b' :: (hint.toList ++ '\x7d' :: ['\x7d'])) := by
    rw [hwhole]
    exact splitAt?_append requested_ne_nil (spaceless_opening severity message).append_dropLast _
  have hgroup' : group? ('\x7b' :: (hint.toList ++ '\x7d' :: ['\x7d'])) =
      some (hint.toList, ['\x7d']) := hgroup.untilClosed _
  unfold hint?
  simp only [hsplit, hgroup', Option.bind_eq_bind, Option.bind_some]

/-- A markup is found behind every text in which none begins. -/
theorem Free.split_render (h : Free front) (severity : Severity) (message : String)
    (requested : Option String) :
    Markup.split (front ++ (render severity message requested).toList) =
      (front, some (render severity message requested).toList) := by
  rw [render_toList, ← List.append_assoc]
  exact h.split_append _

/-- A markup delimits itself. Behind a text in which none begins, the text and the markup are told
apart. The unit that it was made with is recovered from it, whatever stands before it, and if it was
made without one it announces none, so that the unit is recovered that the value is shown in. -/
theorem render_delimits (severity : Severity) (message : String) {front : List Char}
    (hfront : Free front) :
    (∀ hint : String, Grouped hint.toList →
      split (front ++ (render severity message (some hint)).toList) =
          (front, some (render severity message (some hint)).toList) ∧
        ∀ tail, Result.hint? tail (some (render severity message (some hint)).toList) =
          some hint) ∧
      ¬requested <:+: (render severity message none).toList ∧
      ∀ tail, Result.hint? tail (some (render severity message none).toList) =
        Result.shownUnit? tail := by
  refine ⟨fun hint hgroup => ⟨hfront.split_render severity message (some hint), fun tail => ?_⟩,
    not_requested_render_none severity message, fun tail => ?_⟩
  · have hkept := hint?_render_some severity message hgroup
    simp only [Result.hint?, Option.bind_some, hkept, String.ofList_toList]
  · exact Result.hint?_of_bind_none (hint?_render_none severity message)

/-- A message that quotes a markup and opens a group. -/
theorem render_delimits_quoted :
    Free "x ==".toList ∧ Grouped "\\frac\x7bm\x7d\x7bs\x7d".toList ∧
      split ("x ==".toList ++ (render .error "\x7b \\quad \\color\x7b"
          (some "\\frac\x7bm\x7d\x7bs\x7d")).toList) =
        ("x ==".toList, some (render .error "\x7b \\quad \\color\x7b"
          (some "\\frac\x7bm\x7d\x7bs\x7d")).toList) ∧
      Result.hint? " 5\\ \\mathrm\x7bkg\x7d".toList (some (render .error
          "\x7b \\quad \\color\x7b" (some "\\frac\x7bm\x7d\x7bs\x7d")).toList) =
        some "\\frac\x7bm\x7d\x7bs\x7d" ∧
      Result.hint? " 5\\ \\mathrm\x7bkg\x7d".toList (some (render .error
          "\x7b \\quad \\color\x7b" none).toList) =
        Result.shownUnit? " 5\\ \\mathrm\x7bkg\x7d".toList := by
  have hfront : Free "x ==".toList := by
    unfold Free
    decide
  have hgroup : Grouped "\\frac\x7bm\x7d\x7bs\x7d".toList := by decide
  obtain ⟨hkept, -, hshown⟩ :=
    render_delimits .error "\x7b \\quad \\color\x7b" hfront
  obtain ⟨hsplit, hhint⟩ := hkept _ hgroup
  exact ⟨hfront, hgroup, hsplit, hhint _, hshown _⟩

end Markup

end Worksheet

import Worksheet.Markup
import Worksheet.Proofs.Text.Group
/-!
# Markup behind a text

A markup is found where it begins, and it says what it was made from.
-/

namespace Worksheet.Markup

open Text

/-- No markup begins in the text. -/
def Free (cs : List Char) : Prop := ¬start <:+: cs

variable {cs front rest : List Char}

theorem start_ne_nil : start ≠ [] := by decide

theorem free_of_closed {silent : Bool} (h : Closed silent cs) : Free cs := by
  intro hinside
  have hbegins : ['\\', 'q'] <:+: start := List.IsPrefix.isInfix (by decide)
  rw [← List.append_nil cs] at hinside
  exact absurd (h.infix_append (hbegins.trans hinside)) (by decide)

theorem Free.of_isPrefix (h : Free cs) (hfront : front <+: cs) : Free front :=
  fun hinside => h (hinside.trans hfront.isInfix)

/-- The beginning of a markup does not overlap itself. -/
theorem Free.append_dropLast (h : Free front) : ¬start <:+: front ++ start.dropLast := by
  intro hinside
  rcases List.infix_append_iff_ne_nil.1 hinside with hfront | hself | ⟨a, b, ha, hb, hab, -, hbegins⟩
  · exact h hfront
  · exact absurd hself.length_le (by decide)
  · have hlength : a.length < 13 := by
      have hsum : start.length = a.length + b.length := by rw [hab, List.length_append]
      have hpos := List.length_pos_iff.2 hb
      have hstart : start.length = 13 := by decide
      omega
    have hpos := List.length_pos_iff.2 ha
    have hdrop : start.drop a.length = b := by rw [hab, List.drop_left]
    have hnever : ∀ k < 13, 0 < k → ¬start.drop k <+: start.dropLast := by decide
    exact hnever a.length hlength hpos (hdrop ▸ hbegins)

theorem Free.split (h : Free cs) : split cs = (cs, none) := by
  unfold Markup.split
  rw [(splitAt?_eq_none_iff start_ne_nil).2 h]

theorem Free.split_append (h : Free front) (after : List Char) :
    Markup.split (front ++ start ++ after) = (front, some (start ++ after)) := by
  unfold Markup.split
  rw [splitAt?_append start_ne_nil h.append_dropLast]

theorem split_cases (cs : List Char) :
    (split cs = (cs, none) ∧ Free cs) ∨
      ∃ front after, cs = front ++ start ++ after ∧ split cs = (front, some (start ++ after)) ∧
        Free front := by
  unfold split
  cases hsplit : splitAt? start cs with
  | none => exact .inl ⟨rfl, (splitAt?_eq_none_iff start_ne_nil).1 hsplit⟩
  | some pieces =>
      obtain ⟨front, after⟩ := pieces
      obtain ⟨heq, hfirst⟩ := splitAt?_eq_some start_ne_nil hsplit
      refine .inr ⟨front, after, heq, rfl, fun hinside => hfirst ?_⟩
      exact hinside.trans (List.prefix_append _ _).isInfix

theorem split_free (cs : List Char) : Free (split cs).1 := by
  rcases split_cases cs with ⟨hsplit, hfree⟩ | ⟨front, after, -, hsplit, hfree⟩
  · rw [hsplit]
    exact hfree
  · rw [hsplit]
    exact hfree

theorem split_isPrefix (cs : List Char) : (split cs).1 <+: cs := by
  rcases split_cases cs with ⟨hsplit, -⟩ | ⟨front, after, heq, hsplit, -⟩
  · rw [hsplit]
  · rw [hsplit, heq, List.append_assoc]
    exact List.prefix_append _ _

theorem getLast?_of_suffix {a : List Char} (ha : a ≠ []) (h : a <:+ front) :
    front.getLast? = a.getLast? := by
  obtain ⟨before, rfl⟩ := h
  rw [List.getLast?_append, List.getLast?_eq_some_getLast ha]
  rfl

/-- Behind a text, what begins with a blank completes no markup, unless it is the rest of the first
command and the command before it. -/
theorem Free.append (h : Free front) (hblank : ∀ c, rest.head? = some c → c = ' ')
    (hrest : Free rest) (hjoint : front.getLast? ≠ some 'd' ∨ '\x7b' ∉ rest) :
    Free (front ++ rest) := by
  intro hinside
  rcases List.infix_append_iff_ne_nil.1 hinside with
    hfront | hself | ⟨a, b, ha, hb, hab, hsuffix, hbegins⟩
  · exact h hfront
  · exact hrest hself
  · have hdrop : start.drop a.length = b := by rw [hab, List.drop_left]
    have htake : start.take a.length = a := by rw [hab, List.take_left]
    have hlength : a.length < 13 := by
      have hsum : start.length = a.length + b.length := by rw [hab, List.length_append]
      have hpos := List.length_pos_iff.2 hb
      have hstart : start.length = 13 := by decide
      omega
    have hhead : b.head? = some ' ' := by
      obtain ⟨c, b', rfl⟩ := List.exists_cons_of_ne_nil hb
      obtain ⟨after, rfl⟩ := hbegins
      rw [hblank c rfl]
      rfl
    have honly : ∀ k < 13, (start.drop k).head? = some ' ' → k = 5 := by decide
    have hfive := honly a.length hlength (hdrop ▸ hhead)
    rw [hfive] at hdrop htake
    rcases hjoint with hlast | hbrace
    · exact hlast (by rw [getLast?_of_suffix ha hsuffix, ← htake]; decide)
    · exact hbrace (hbegins.subset (by rw [← hdrop]; decide))

/-- A text that ends in no character of the beginning of a markup stands before every markup that
follows it. -/
theorem Free.prefix_split (h : Free front) (hlast : ∀ c, front.getLast? = some c → c ∉ start)
    (rest : List Char) : front <+: (Markup.split (front ++ rest)).1 := by
  rcases split_cases (front ++ rest) with ⟨hsplit, -⟩ | ⟨before, after, heq, hsplit, -⟩
  · rw [hsplit]
    exact List.prefix_append _ _
  · rw [hsplit]
    rw [List.append_assoc] at heq
    rcases List.append_eq_append_iff.1 heq with ⟨z, rfl, -⟩ | ⟨z, hfront, hz⟩
    · exact List.prefix_append _ _
    · by_cases hnil : z = []
      · rw [hnil, List.append_nil] at hfront
        exact hfront ▸ List.prefix_rfl
      · exfalso
        have hsuffix : z <:+ front := hfront ▸ List.suffix_append _ _
        have hstart : start <+: z ++ rest := ⟨after, hz⟩
        have hz' : z <+: start ++ after := hz ▸ List.prefix_append _ _
        rcases List.prefix_or_prefix_of_prefix hz' (List.prefix_append start after) with hle | hle
        · have hmem := List.getLast_mem hnil
          refine hlast (z.getLast hnil) ?_ (hle.subset hmem)
          rw [getLast?_of_suffix hnil hsuffix, List.getLast?_eq_some_getLast hnil]
        · exact h (hle.isInfix.trans hsuffix.isInfix)

/-! ## What a markup says -/

/-- An escaped character opens and closes no group. -/
theorem untilClosed_escape (c : Char) (rest : List Char) :
    untilClosed 0 (escape c ++ rest) =
      (untilClosed 0 rest).map fun (body, after) => (escape c ++ body, after) := by
  unfold escape
  by_cases hslash : c = '\\'
  · rw [if_pos hslash]
    cases h : untilClosed 0 rest <;> simp [untilClosed, h]
  rw [if_neg hslash]
  by_cases hcaret : c = '^'
  · rw [if_pos hcaret]
    cases h : untilClosed 0 rest <;> simp [untilClosed, h]
  rw [if_neg hcaret]
  by_cases htilde : c = '~'
  · rw [if_pos htilde]
    cases h : untilClosed 0 rest <;> simp [untilClosed, h]
  rw [if_neg htilde]
  split
  · cases h : untilClosed 0 rest <;> simp [untilClosed, h]
  · rename_i hplain
    simp only [Bool.or_eq_true, decide_eq_true_eq, not_or] at hplain
    exact untilClosed_other hslash hplain.1.2 hplain.2 rest

theorem untilClosed_escaped (message rest : List Char) :
    untilClosed 0 (message.flatMap escape ++ '\x7d' :: rest) =
      some (message.flatMap escape, rest) := by
  induction message with
  | nil => rfl
  | cons c message ih =>
      rw [List.flatMap_cons, List.append_assoc, untilClosed_escape, ih]
      rfl

theorem braced_toList (body : String) :
    (braced body).toList = '\x7b' :: (body.toList ++ ['\x7d']) := by
  simp [braced]

theorem request_toList (hint : String) :
    (request (some hint)).toList = requested ++ '\x7b' :: (hint.toList ++ ['\x7d']) := by
  unfold request
  rw [String.toList_append, String.toList_ofList, braced_toList]

theorem request_injective {hint hint' : Option String} (h : request hint = request hint') :
    hint = hint' := by
  have hlist := congrArg String.toList h
  cases hint with
  | none =>
      cases hint' with
      | none => rfl
      | some hint' =>
          rw [request_toList] at hlist
          exact absurd hlist.symm (List.append_ne_nil_of_right_ne_nil _ (List.cons_ne_nil _ _))
  | some hint =>
      cases hint' with
      | none =>
          rw [request_toList] at hlist
          exact absurd hlist (List.append_ne_nil_of_right_ne_nil _ (List.cons_ne_nil _ _))
      | some hint' =>
          rw [request_toList, request_toList, List.append_cancel_left_eq, List.cons.injEq,
            List.append_cancel_right_eq] at hlist
          rw [String.toList_inj.1 hlist.2]

theorem render_toList (severity : Severity) (message : String) (hint : Option String) :
    (render severity message hint).toList =
      start ++ ((colour severity).toList ++ ("\x7d\x7b\\text\x7b".toList ++
        (message.toList.flatMap escape ++ '\x7d' :: ((request hint).toList ++ ['\x7d'])))) := by
  simp [render, braced, escapeText]

/-- A markup shows what it stands for: an error or a warning, and the unit that was asked for. -/
theorem render_injective {severity severity' : Severity} {message message' : String}
    {hint hint' : Option String}
    (h : render severity message hint = render severity' message' hint') :
    severity = severity' ∧ hint = hint' := by
  rw [← String.toList_inj, render_toList, render_toList, List.append_cancel_left_eq] at h
  have hseverity : severity = severity' := by
    cases severity <;> cases severity' <;> first | rfl | simp [colour] at h
  subst hseverity
  rw [List.append_cancel_left_eq, List.append_cancel_left_eq] at h
  have hclosed := congrArg (untilClosed 0) h
  rw [untilClosed_escaped, untilClosed_escaped, Option.some.injEq, Prod.mk.injEq] at hclosed
  have hrequest := List.append_cancel_right_eq _ _ _ |>.mp hclosed.2
  exact ⟨rfl, request_injective (String.toList_inj.1 hrequest)⟩

end Worksheet.Markup

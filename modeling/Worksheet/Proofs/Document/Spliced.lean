import Worksheet.Document.Placeholder
import Worksheet.Proofs.Markup
import Worksheet.Proofs.Statement.Result
import Worksheet.Proofs.Text.Replace
/-!
# Placeholders in prose

A placeholder is replaced in its place: what stands before and behind it is resolved as if it stood
alone. The one exception is a placeholder right behind a brace. The braces are then paired from the
first one on, so that it is left as it is, or takes the brace and its partner with it.
-/

namespace Worksheet

open Text

namespace ProsePart

/-- What a placeholder begins with. -/
def opener : List Char := ['\x7b', '\x7b']

def closer : List Char := ['\x7d', '\x7d']

variable {c : Char} {cs : List Char}

theorem splitFrom_eq (n : Nat) (cs : List Char) : splitFrom n cs = split (cs.drop n) := by
  induction cs generalizing n with
  | nil => cases n <;> rfl
  | cons c cs ih =>
    cases n with
    | zero => rfl
    | succ n => exact ih n

theorem here?_of_group {body rest : List Char} (h : group? cs = some (body, '\x7d' :: rest)) :
    here? ('\x7b' :: cs) = some (trim body, body.length + 4) := by
  simp [here?, h]

theorem here?_of_no_group (h : ∀ body rest, group? cs ≠ some (body, '\x7d' :: rest)) :
    here? ('\x7b' :: cs) = none := by
  simp only [here?]

/-- Only what begins with two braces begins with a placeholder. -/
theorem here?_of_not_opener (h : ¬opener <+: c :: cs) : here? (c :: cs) = none := by
  by_cases hc : c = '\x7b'
  · subst hc
    refine here?_of_no_group fun body rest hgroup => h ?_
    cases cs with
    | nil => cases hgroup
    | cons d cs =>
      by_cases hd : d = '\x7b'
      · exact ⟨cs, by rw [hd]; rfl⟩
      · unfold group? at hgroup
        split at hgroup
        · rename_i heq
          exact absurd (List.cons.inj heq).1 hd
        · cases hgroup
  · unfold here?
    split
    · rename_i heq
      exact absurd (List.cons.inj heq).1 hc
    · rfl

theorem split_cons_of_not_opener (h : ¬opener <+: c :: cs) :
    split (c :: cs) = .text [c] :: split cs := by
  have hopens : (decide (c = '\x7b') && decide (cs.head? = some '\x7b')) = false := by
    rw [Bool.eq_false_iff]
    intro hboth
    simp only [Bool.and_eq_true, decide_eq_true_eq] at hboth
    obtain ⟨rest, rfl⟩ := List.head?_eq_some_iff.1 hboth.2
    exact h ⟨rest, by rw [hboth.1]; rfl⟩
  rw [split, splitFrom, here?_of_not_opener h]
  simp only [hopens, Bool.false_eq_true, if_false]
  rfl

theorem split_opener_of_group {body rest : List Char}
    (h : group? ('\x7b' :: cs) = some (body, '\x7d' :: rest)) :
    split (opener ++ cs) = .placeholder (trim body) :: split rest := by
  have hcs : cs = body ++ closer ++ rest := by
    have hback := append_of_untilClosed h
    rw [← hback]
    simp [closer]
  have hdrop : ('\x7b' :: cs).drop (body.length + 3) = rest := by
    subst hcs
    simp [closer, List.drop_append]
  change splitFrom 0 ('\x7b' :: '\x7b' :: cs) = _
  rw [splitFrom, here?_of_group h]
  simp only [Nat.add_one_sub_one]
  rw [splitFrom_eq, hdrop]

/-- Braces that are not closed, or by one brace only, are text. -/
theorem split_opener_of_no_group
    (h : ∀ body rest, group? ('\x7b' :: cs) ≠ some (body, '\x7d' :: rest)) :
    split (opener ++ cs) = .text opener :: split cs := by
  change splitFrom 0 ('\x7b' :: '\x7b' :: cs) = _
  rw [splitFrom, here?_of_no_group h]
  simp only [List.head?_cons, decide_true, Bool.and_true, if_true]
  rw [splitFrom_eq]
  rfl

end ProsePart

open ProsePart

namespace Document

/-! ## Counting -/

/-- The document with another count of errors. -/
def recounted (d : Document) (n : Nat) : Document := { d with errors := n }

theorem replacement_recounted (d : Document) (name : String) :
    ∃ k, ∀ n, (d.recounted n).replacement name =
      ((d.replacement name).1, d.recounted (n + k)) := by
  cases hlookup : d.registry.lookup (.ofSpelling name) with
  | none => exact ⟨1, fun n => by simp only [replacement, recounted, hlookup]⟩
  | some entry =>
    cases hbinder : entry.binder with
    | value v source =>
      refine ⟨0, fun n => ?_⟩
      simp only [replacement, recounted, hlookup, hbinder]
      rfl
    | function f => exact ⟨1, fun n => by simp only [replacement, recounted, hlookup, hbinder]⟩

/-- The text does not depend on what has been counted before, and nothing but the count changes. -/
theorem fill_recounted (d : Document) (parts : List ProsePart) :
    ∃ k, ∀ n, (d.recounted n).fill parts = ((d.fill parts).1, d.recounted (n + k)) := by
  induction parts with
  | nil => exact ⟨0, fun n => rfl⟩
  | cons part parts ih =>
    obtain ⟨k, hk⟩ := ih
    cases part with
    | text cs =>
      refine ⟨k, fun n => ?_⟩
      simp only [fill, hk]
    | placeholder name =>
      obtain ⟨j, hj⟩ := d.replacement_recounted (String.ofList name)
      have hnext : (d.replacement (String.ofList name)).2 = d.recounted (d.errors + j) :=
        congrArg Prod.snd (hj d.errors)
      refine ⟨j + k, fun n => ?_⟩
      simp only [fill, hj, hnext, hk, Nat.add_assoc]

/-! ## Around a placeholder -/

/-- The text with its placeholders replaced, and the document behind it. -/
def filled (d : Document) (cs : List Char) : List Char × Document := d.fill (split cs)

theorem resolvePlaceholders_eq (d : Document) (prose : String) :
    d.resolvePlaceholders prose =
      (String.ofList (d.filled prose.toList).1, (d.filled prose.toList).2) := rfl

/-- A text in which no placeholder begins stays as it is. -/
theorem filled_append (d : Document) {before rest : List Char} (hnot : ¬opener <:+: before)
    (hnone : NoneAcross opener before rest) :
    d.filled (before ++ rest) = (before ++ (d.filled rest).1, (d.filled rest).2) := by
  induction before with
  | nil => rfl
  | cons c before ih =>
    rw [List.infix_cons_iff, not_or] at hnot
    have hbegins : ¬opener <+: c :: (before ++ rest) := fun hbegins =>
      hnot.1 (hnone.prefix_of_prefix_append (List.cons_ne_nil c before) hbegins)
    have hrest := ih hnot.2 (hnone.of_suffix (List.suffix_cons c before))
    rw [List.cons_append, filled, split_cons_of_not_opener hbegins]
    change ([c] ++ (d.filled (before ++ rest)).1, (d.filled (before ++ rest)).2) = _
    rw [hrest]
    rfl

/-- What is behind a placeholder is resolved as if it stood alone, with the errors counted on. -/
theorem filled_placeholder (d : Document) {cs body rest : List Char}
    (h : group? ('\x7b' :: cs) = some (body, '\x7d' :: rest)) :
    (d.filled (opener ++ cs)).1 =
        (d.replacement (String.ofList (trim body))).1.toList ++ (d.filled rest).1 ∧
      (d.filled (opener ++ cs)).2 =
        d.recounted ((d.filled (opener ++ cs)).2.errors) ∧
      (d.filled (opener ++ cs)).2.errors + d.errors =
        (d.replacement (String.ofList (trim body))).2.errors + (d.filled rest).2.errors := by
  obtain ⟨j, hj⟩ := d.replacement_recounted (String.ofList (trim body))
  obtain ⟨k, hk⟩ := d.fill_recounted (split rest)
  have hnext : (d.replacement (String.ofList (trim body))).2 = d.recounted (d.errors + j) :=
    congrArg Prod.snd (hj d.errors)
  have hrest : (d.filled rest).2 = d.recounted (d.errors + k) := congrArg Prod.snd (hk d.errors)
  have hfilled : d.filled (opener ++ cs) =
      ((d.replacement (String.ofList (trim body))).1.toList ++ (d.filled rest).1,
        d.recounted (d.errors + j + k)) := by
    rw [filled, split_opener_of_group h]
    simp only [fill, hnext, hk]
    rfl
  rw [hfilled, hnext, hrest]
  refine ⟨rfl, rfl, ?_⟩
  simp only [recounted]
  omega

theorem filled_unclosed (d : Document) {cs : List Char}
    (h : ∀ body rest, group? ('\x7b' :: cs) ≠ some (body, '\x7d' :: rest)) :
    (d.filled (opener ++ cs)).1 = opener ++ (d.filled cs).1 := by
  rw [filled, split_opener_of_no_group h]
  rfl

/-! ## What takes the place -/

/-- The text begins with some character, and not with a brace. -/
def BeginsUnbraced (cs : List Char) : Prop := ∃ c rest, cs = c :: rest ∧ c ≠ '\x7b'

theorem BeginsUnbraced.append {cs : List Char} (h : BeginsUnbraced cs) (rest : List Char) :
    BeginsUnbraced (cs ++ rest) := by
  obtain ⟨c, cs, rfl, hc⟩ := h
  exact ⟨c, cs ++ rest, rfl, hc⟩

theorem beginsUnbraced_number (s : Settings) (x : Float) :
    BeginsUnbraced (Rendering.number s x).toList := by
  have hspelled : ∀ text ∈ Rendering.spelledOut,
      text.toList ≠ [] ∧ text.toList.head? ≠ some '\x7b' := by decide
  rcases Rendering.number_cases s x with hfigure | htext
  · obtain ⟨c, rest, heq, hc⟩ := Result.begins_of_isFigure hfigure
    refine ⟨c, rest, heq, ?_⟩
    rintro rfl
    rcases hc with hc | hc <;> exact absurd hc (by decide)
  · obtain ⟨hne, hhead⟩ := hspelled _ htext
    obtain ⟨c, rest, heq⟩ := List.exists_cons_of_ne_nil hne
    exact ⟨c, rest, heq, fun hc => hhead (by rw [heq, hc]; rfl)⟩

theorem beginsUnbraced_withUnits {r : Rendering} {body : String} {p : UnitProduct}
    (h : BeginsUnbraced body.toList) : BeginsUnbraced (r.withUnits body p).toList := by
  unfold Rendering.withUnits
  split
  · exact h
  · simp only [String.toList_append, List.append_assoc]
    exact h.append _

theorem beginsUnbraced_value (r : Rendering) (v : Value) :
    BeginsUnbraced (r.value v).toList := by
  cases v with
  | scalar q => exact beginsUnbraced_withUnits (beginsUnbraced_number _ _)
  | array elements =>
    unfold Rendering.value
    dsimp only
    have hbody : ∀ {column : Prop} [Decidable column] {rows line : String},
        BeginsUnbraced (if column then "\\begin\x7bbmatrix\x7d" ++ rows ++
          "\\end\x7bbmatrix\x7d" else "[" ++ line ++ "]").toList := by
      intro column _ rows line
      split
      · simp only [String.toList_append, List.append_assoc]
        exact BeginsUnbraced.append ⟨'\\', _, rfl, by decide⟩ _
      · simp only [String.toList_append, List.append_assoc]
        exact BeginsUnbraced.append ⟨'[', _, rfl, by decide⟩ _
    cases elements with
    | nil => exact hbody
    | cons first rest => exact beginsUnbraced_withUnits hbody

theorem beginsUnbraced_replacement (d : Document) (name : String) :
    BeginsUnbraced (d.replacement name).1.toList := by
  have hmissing : ∀ code text rest, BeginsUnbraced (missingText code text rest).toList := by
    intro code text rest
    rw [missingText, Markup.render_toList]
    exact BeginsUnbraced.append ⟨'\\', _, rfl, by decide⟩ _
  unfold replacement
  dsimp only
  split
  · exact hmissing _ _ _
  · split
    · exact hmissing _ _ _
    · exact beginsUnbraced_value _ _

/-! ## Splicing -/

def trimmedName (name : String) : String := String.ofList (trim name.toList)

/-- The prose around a placeholder. -/
def around (before name after : String) : String := before ++ "\x7b\x7b" ++ name ++ "\x7d\x7d" ++ after

/-- What is before a placeholder is kept, the placeholder is replaced, and what is behind it is
resolved as if it stood alone, with the errors of both counted. -/
structure Splices (d : Document) (before name after : String) : Prop where
  text : (d.resolvePlaceholders (around before name after)).1 =
    before ++ (d.replacement (trimmedName name)).1 ++ (d.resolvePlaceholders after).1
  errors : (d.resolvePlaceholders (around before name after)).2.errors + d.errors =
    (d.replacement (trimmedName name)).2.errors + (d.resolvePlaceholders after).2.errors
  others : (d.resolvePlaceholders (around before name after)).2 =
    d.recounted (d.resolvePlaceholders (around before name after)).2.errors

variable {d : Document} {before name after : String}

theorem toList_around (before name after : String) : (around before name after).toList =
    before.toList ++ (opener ++ (name.toList ++ closer ++ after.toList)) := by
  simp [around, opener, closer]

theorem splices_of_getLast (hbefore : ¬opener <:+: before.toList)
    (hname : ∀ c ∈ name.toList, c ∉ ['\\', '\x7b', '\x7d'])
    (hlast : before.toList.getLast? ≠ some '\x7b') : d.Splices before name after := by
  have hgroup : group? ('\x7b' :: (name.toList ++ closer ++ after.toList)) =
      some (name.toList, '\x7d' :: after.toList) := by
    rw [group?, List.append_assoc, untilClosed_append hname]
    simp [closer, untilClosed]
  have hnone : NoneAcross opener before.toList
      (opener ++ (name.toList ++ closer ++ after.toList)) :=
    noneAcross_of_getLast hlast (by simp)
  obtain ⟨htext, hothers, herrors⟩ := d.filled_placeholder hgroup
  refine ⟨?_, ?_, ?_⟩
  all_goals
    simp only [resolvePlaceholders_eq, toList_around, d.filled_append hbefore hnone]
  · rw [htext, ← String.toList_inj]
    simp [trimmedName]
  · exact herrors
  · exact hothers

/-- Right behind a brace, the group is one with it: its own brace closes behind the placeholder. -/
theorem group?_braced {name : List Char} (hname : ∀ c ∈ name, c ∉ ['\\', '\x7b', '\x7d'])
    (after : List Char) :
    group? ('\x7b' :: '\x7b' :: (name ++ closer ++ after)) =
      some ('\x7b' :: (name ++ ['\x7d']), after) := by
  rw [group?, untilClosed, List.append_assoc, untilClosed_append hname]
  simp [closer, untilClosed]

theorem not_splices_of_getLast (hbefore : ¬opener <:+: before.toList)
    (hname : ∀ c ∈ name.toList, c ∉ ['\\', '\x7b', '\x7d'])
    (hlast : before.toList.getLast? = some '\x7b') : ¬d.Splices before name after := by
  intro h
  obtain ⟨front, hfront⟩ := List.getLast?_eq_some_iff.1 hlast
  have hfrontLast : front.getLast? ≠ some '\x7b' := by
    intro hbrace
    obtain ⟨more, rfl⟩ := List.getLast?_eq_some_iff.1 hbrace
    refine hbefore ⟨more, [], ?_⟩
    rw [hfront]
    simp [opener]
  have hfrontNot : ¬opener <:+: front := fun hinside =>
    hbefore (hinside.trans ⟨[], ['\x7b'], by rw [hfront]; simp⟩)
  -- the braces are paired one character earlier
  have hshift : (around before name after).toList =
      front ++ (opener ++ '\x7b' :: (name.toList ++ closer ++ after.toList)) := by
    rw [toList_around, hfront]
    simp [opener]
  have hnone : NoneAcross opener front
      (opener ++ '\x7b' :: (name.toList ++ closer ++ after.toList)) :=
    noneAcross_of_getLast hfrontLast (by simp)
  have htext : (d.filled (opener ++ '\x7b' :: (name.toList ++ closer ++ after.toList))).1 =
      '\x7b' :: ((d.replacement (trimmedName name)).1.toList ++ (d.filled after.toList).1) := by
    have hlist := congrArg String.toList h.text
    rw [resolvePlaceholders_eq, hshift, d.filled_append hfrontNot hnone] at hlist
    simpa [resolvePlaceholders_eq, hfront] using hlist
  by_cases hclosed : ∃ rest, after.toList = '\x7d' :: rest
  · -- the name in its braces is taken for the placeholder
    obtain ⟨rest, hafter⟩ := hclosed
    have hgroup := group?_braced hname after.toList
    rw [hafter] at hgroup htext
    obtain ⟨c, rest', hreplaced, hc⟩ := d.beginsUnbraced_replacement
      (String.ofList (trim ('\x7b' :: (name.toList ++ ['\x7d']))))
    rw [(d.filled_placeholder hgroup).1, hreplaced] at htext
    exact hc (List.cons.inj htext).1
  · -- nothing is taken for one
    have hgroup : ∀ body rest,
        group? ('\x7b' :: '\x7b' :: (name.toList ++ closer ++ after.toList)) ≠
          some (body, '\x7d' :: rest) := by
      intro body rest hgroup
      rw [group?_braced hname, Option.some.injEq, Prod.mk.injEq] at hgroup
      exact hclosed ⟨rest, hgroup.2⟩
    obtain ⟨c, rest, hreplaced, hc⟩ := d.beginsUnbraced_replacement (trimmedName name)
    rw [d.filled_unclosed hgroup, hreplaced] at htext
    exact hc (List.cons.inj (List.cons.inj htext).2).1.symm

/-- Behind prose without placeholders, a placeholder is spliced in exactly when it does not stand
right behind a brace. -/
theorem resolvePlaceholders_splices_iff (d : Document) {before name after : String}
    (hbefore : ¬opener <:+: before.toList)
    (hname : ∀ c ∈ name.toList, c ∉ ['\\', '\x7b', '\x7d']) :
    d.Splices before name after ↔ before.toList.getLast? ≠ some '\x7b' :=
  ⟨fun h hlast => not_splices_of_getLast hbefore hname hlast h, splices_of_getLast hbefore hname⟩

/-- A name with blanks around it, in front of a placeholder that is not closed. -/
theorem splices_rate :
    ¬opener <:+: "The rate is ".toList ∧
      (∀ c ∈ " rate ".toList, c ∉ ['\\', '\x7b', '\x7d']) ∧
      (default : Document).Splices "The rate is " " rate " ", and \x7b\x7b is not closed." := by
  have hbefore : ¬opener <:+: "The rate is ".toList := by decide
  have hname : ∀ c ∈ " rate ".toList, c ∉ ['\\', '\x7b', '\x7d'] := by decide
  exact ⟨hbefore, hname, (resolvePlaceholders_splices_iff default hbefore hname).2 (by decide)⟩

/-- In the argument of a command, a placeholder with a text behind it is left as it is. -/
theorem not_splices_argument :
    ((default : Document).resolvePlaceholders "\\mathbf\x7b\x7b\x7bx\x7d\x7d m\x7d").1 =
        "\\mathbf\x7b\x7b\x7bx\x7d\x7d m\x7d" ∧
      ¬(default : Document).Splices "\\mathbf\x7b" "x" " m\x7d" :=
  ⟨by decide, not_splices_of_getLast (by decide) (by decide) (by decide)⟩

end Document

end Worksheet

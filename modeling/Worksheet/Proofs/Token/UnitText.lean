import Worksheet.Proofs.Text.Search
import Worksheet.Token.UnitText
/-!
# Plain spellings

What becomes of the parts of a unit text when its commands are taken out. A part that does not run
into the next one becomes the same wherever it stands.
-/

namespace Worksheet.UnitText

open Text

theorem plainFrom_drop (n : Nat) (cs : List Char) : plainFrom n cs = plain (cs.drop n) := by
  induction cs generalizing n with
  | nil => cases n <;> rfl
  | cons c cs ih =>
    cases n with
    | zero => rfl
    | succ n => exact ih n

@[simp] theorem plain_nil : plain [] = [] := rfl

theorem degreeLength?_of_ne {c : Char} (h : c ≠ '^') (cs : List Char) :
    degreeLength? (c :: cs) = none := by
  have hne : ('^' == c) = false := beq_false_of_ne (Ne.symm h)
  simp [degreeLength?, List.isPrefixOf, hne]

theorem plain_of_no_degree {c : Char} {cs : List Char} (h : degreeLength? (c :: cs) = none) :
    plain (c :: cs) =
      if c = '~' then ' ' :: plain cs
      else if c = '\\' then
        match cs with
        | [] => ['\\']
        | d :: ds =>
          if d.isAlpha then
            commandText (String.ofList ((d :: ds).takeWhile Char.isAlpha)) ++
              plain ((d :: ds).drop (((d :: ds).takeWhile Char.isAlpha).length +
                spaces ((d :: ds).drop ((d :: ds).takeWhile Char.isAlpha).length)))
          else signText d ++ plain ds
      else c :: plain cs := by
  change plainFrom 0 (c :: cs) = _
  rw [plainFrom.eq_def]
  simp only [h, plainFrom_drop, List.drop_zero]
  cases cs <;> rfl

/-- A character that begins nothing of its own stays. -/
theorem plain_cons {c : Char} (h : c ∉ ['\\', '~', '^']) (cs : List Char) :
    plain (c :: cs) = c :: plain cs := by
  simp only [List.mem_cons, List.not_mem_nil, or_false, not_or] at h
  rw [plain_of_no_degree (degreeLength?_of_ne h.2.2 cs), if_neg h.2.1, if_neg h.1]

theorem plain_append {w : List Char} (hw : ∀ c ∈ w, c ∉ ['\\', '~', '^']) (cs : List Char) :
    plain (w ++ cs) = w ++ plain cs := by
  induction w with
  | nil => rfl
  | cons c w ih =>
    obtain ⟨hc, hw⟩ := List.forall_mem_cons.1 hw
    rw [List.cons_append, plain_cons hc, ih hw, List.cons_append]

/-- A raised group is no degree sign unless it begins with a command. -/
theorem plain_raised {c : Char} (h : c ≠ '\\') (cs : List Char) :
    plain ('^' :: '\x7b' :: c :: cs) = '^' :: plain ('\x7b' :: c :: cs) := by
  have hne : ('\\' == c) = false := beq_false_of_ne (Ne.symm h)
  have hdegree : degreeLength? ('^' :: '\x7b' :: c :: cs) = none := by
    simp [degreeLength?, List.isPrefixOf, hne]
  rw [plain_of_no_degree hdegree, if_neg (by decide), if_neg (by decide)]

theorem drop_spaces (cs : List Char) : cs.drop (spaces cs) = cs.dropWhile (· = ' ') := by
  calc cs.drop (spaces cs)
      = (cs.takeWhile (· = ' ') ++ cs.dropWhile (· = ' ')).drop
          (cs.takeWhile (· = ' ')).length := by rw [List.takeWhile_append_dropWhile]; rfl
    _ = cs.dropWhile (· = ' ') := List.drop_left

/-- A command goes on as long as its letters do, and takes the spaces behind it away. -/
theorem plain_command {name rest : List Char} (hne : name ≠ []) (hname : ∀ c ∈ name, c.isAlpha)
    (hrest : Stops Char.isAlpha rest) :
    plain ('\\' :: (name ++ rest)) =
      commandText (String.ofList name) ++ plain (rest.dropWhile (· = ' ')) := by
  obtain ⟨d, ds, rfl⟩ := List.exists_cons_of_ne_nil hne
  have hd := hname d List.mem_cons_self
  have htake : (d :: (ds ++ rest)).takeWhile Char.isAlpha = d :: ds :=
    takeWhile_append_of_stops hname hrest
  have hdrop : (d :: (ds ++ rest)).drop (d :: ds).length = rest := List.drop_left
  rw [plain_of_no_degree (degreeLength?_of_ne (by decide) _), if_neg (by decide), if_pos rfl,
    List.cons_append]
  dsimp only
  rw [if_pos hd, htake, ← List.drop_drop, hdrop, drop_spaces]

/-- A backslash before a percent sign goes away. -/
theorem plain_percent (cs : List Char) : plain ('\\' :: '%' :: cs) = '%' :: plain cs := by
  rw [plain_of_no_degree (degreeLength?_of_ne (by decide) _), if_neg (by decide), if_pos rfl]
  rfl

theorem plain_of_degree {c : Char} {cs : List Char} {size : Nat}
    (h : degreeLength? (c :: cs) = some size) :
    plain (c :: cs) = '°' :: plain (cs.drop (size - 1 + spaces ((c :: cs).drop size))) := by
  change plainFrom 0 (c :: cs) = _
  rw [plainFrom.eq_def]
  simp only [h, plainFrom_drop]

theorem plain_degree (cs : List Char) :
    plain ("^\x7b\\circ\x7d".toList ++ cs) = '°' :: plain (cs.dropWhile (· = ' ')) := by
  have hdegree : degreeLength? ('^' :: ("\x7b\\circ\x7d".toList ++ cs)) = some 8 := rfl
  have hdrop : ("\x7b\\circ\x7d".toList ++ cs).drop 7 = cs := rfl
  calc plain ('^' :: ("\x7b\\circ\x7d".toList ++ cs))
      = '°' :: plain (("\x7b\\circ\x7d".toList ++ cs).drop (7 + spaces cs)) :=
        plain_of_degree hdegree
    _ = '°' :: plain (cs.dropWhile (· = ' ')) := by
        rw [← List.drop_drop, hdrop, drop_spaces]

end Worksheet.UnitText

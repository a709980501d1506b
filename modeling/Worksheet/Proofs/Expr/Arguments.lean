import Worksheet.Proofs.Expr.Factor
/-!
# Lists of arguments

Expressions with commas between them, in parentheses, are the arguments of a call. A matrix that one
of them left open would read the signs of those behind it in another way, so they have none.
-/

namespace Worksheet

open Text

/-- The begin or the end of a matrix. -/
def Piece.IsEnvironment (p : Piece) : Prop :=
  "\\begin".toList <+: p.text ∨ "\\end".toList <+: p.text

instance (p : Piece) : Decidable p.IsEnvironment := inferInstanceAs (Decidable (_ ∨ _))

namespace Scan

/-! ## Matrices -/

section

variable {rules : ScanRules} {depth depth' : Nat} {c : Char} {cs : List Char}

/-- A command stands in front of what it takes. -/
theorem commandPiece_begins_letters (depth : Nat) (letters rest : List Char) :
    '\\' :: letters <+: (commandPiece depth letters rest).1.text := by
  have hcase := commandPiece_cases depth letters rest
  generalize commandPiece depth letters rest = next at hcase
  cases hcase with
  | layout htext | token htext | bracket htext | wrong htext => exact htext.command
  | undecorated => exact List.prefix_rfl
  | letter hgreek hname =>
    obtain ⟨more, -, rfl⟩ := decorate_eq_ok hname
    exact List.prefix_append _ _

theorem commandPiece_depth {letters rest : List Char}
    (h : ¬(commandPiece depth letters rest).1.IsEnvironment) :
    (commandPiece depth letters rest).2 = depth := by
  have hbegins := commandPiece_begins_letters depth letters rest
  have hspelled : ∀ name, String.ofList letters = name → letters = name.toList := by
    rintro _ rfl
    rw [String.toList_ofList]
  have hbegin : String.ofList letters ≠ "begin" := fun heq => h (.inl (by
    rwa [hspelled _ heq] at hbegins ⊢))
  have hend : String.ofList letters ≠ "end" := fun heq => h (.inr (by
    rwa [hspelled _ heq] at hbegins ⊢))
  unfold commandPiece
  simp only [if_neg hbegin, if_neg hend]
  repeat' split
  all_goals rfl

/-- Matrices begin and end with their own commands. -/
theorem nextPiece_depth (h : ¬(nextPiece rules depth c cs).1.IsEnvironment) :
    (nextPiece rules depth c cs).2 = depth := by
  rw [nextPiece.eq_def] at h ⊢
  split
  · rename_i hslash
    rw [if_pos hslash] at h
    cases cs with
    | nil => rfl
    | cons d ds =>
      dsimp only at h ⊢
      split
      · rename_i halpha
        rw [if_pos halpha] at h
        exact commandPiece_depth h
      · rfl
  · split <;> rfl

theorem Leaves.eq_of_free (h : Leaves rules depth cs depth')
    (hfree : ∀ p ∈ piecesFrom rules depth 0 cs, ¬p.IsEnvironment) : depth' = depth := by
  induction h with
  | done => rfl
  | @piece depth depth' depth'' c cs piece next others ih =>
    rw [piecesFrom, next] at hfree
    dsimp only at hfree
    rw [piecesFrom_drop] at hfree
    obtain ⟨hfirst, hothers⟩ := List.forall_mem_cons.1 hfree
    have hdepth := @nextPiece_depth rules depth c cs (by rwa [next])
    rw [next] at hdepth
    exact (ih hothers).trans hdepth

end

/-- No matrix begins or ends in a text. -/
def MatrixFree (rules : ScanRules) (text : String) : Prop :=
  ∀ p ∈ pieces rules text.toList, ¬p.IsEnvironment

end Scan

namespace Expr

open Scan

variable {scope : Scope} {texts : List String} {es : List Expr}

/-- Texts that are read as these expressions, each on its own, and have no matrices. -/
abbrev ReadAs (scope : Scope) (texts : List String) (es : List Expr) : Prop :=
  List.Forall₂ (fun text e => parse scope text = .ok (some e) ∧ MatrixFree (rules scope) text) texts es

/-- In parentheses the text is read as these arguments, and nothing is left of it. -/
def ListsArguments (scope : Scope) (args : String) (es : List Expr) : Prop :=
  ∃ ts last stop, tokens (rules scope) ("(" ++ args ++ ")") = .ok ts ∧
    Reads (arguments scope last ts) (es, stop) []

/-- The tokens of texts with commas between them, in front of what is apart from them. -/
theorem ReadAs.scans (h : ReadAs scope texts es) (hne : texts ≠ []) {r : List Char}
    {ks' : List Token.Kind} (hr : Apart r) (hcalled : isCalled r = false)
    (hothers : Scans (rules scope) 0 r ks') :
    ∃ k ks, k ≠ .rparen ∧
      Scans (rules scope) 0 ((",".intercalate texts).toList ++ r) (k :: ks ++ ks') ∧
      ∀ last, Listed scope last (k :: ks) (es.map SameTree) := by
  rw [String.toList_intercalate]
  induction h with
  | nil => exact absurd rfl hne
  | @cons text e texts es hfirst hrest ih =>
    obtain ⟨hparse, hfree⟩ := hfirst
    obtain ⟨k, ks, hscans, hk, hread⟩ := exists_scans_of_parse hparse
    cases hrest with
    | nil =>
      refine ⟨k, ks, hk, ?_, fun last => .single (hread last)⟩
      rw [List.map_singleton, List.intercalate_singleton]
      exact hscans.append_leaves hr hcalled fun depth hleaves => hleaves.eq_of_free hfree ▸ hothers
    | @cons text' e' texts es hnext hrest =>
      obtain ⟨k', ks₂, -, hscans', hlisted⟩ := ih (by simp)
      refine ⟨k, ks ++ .comma :: (k' :: ks₂), hk, ?_, fun last => .cons (hread last) (hlisted last)⟩
      rw [List.map_cons, List.map_cons, List.intercalate_cons_cons, List.append_assoc,
        List.append_assoc, List.cons_append, List.append_assoc, ← List.cons_append]
      refine hscans.append_leaves (apart_cons (by decide) (by decide) _) rfl fun depth hleaves => ?_
      rw [hleaves.eq_of_free hfree]
      exact .sign rfl hscans'

theorem sameTrees_of_forall₂ {es es' : List Expr} (h : List.Forall₂ SameTree es es') :
    SameTrees es es' := by
  induction h with
  | nil => rfl
  | cons hfirst _ ih => rw [SameTrees, bares, bares, hfirst, ih]

/-- Texts that are read on their own are a list of arguments. -/
theorem ReadAs.listsArguments (h : ReadAs scope texts es) (hne : texts ≠ []) :
    ∃ args, SameTrees es args ∧ ListsArguments scope (",".intercalate texts) args := by
  have hclose : Scans (rules scope) 0 [')'] [.rparen] := .sign rfl .done
  obtain ⟨k, ks, hk, hscans, hlisted⟩ :=
    h.scans hne (apart_cons (by decide) (by decide) []) rfl hclose
  have htext : Scans (rules scope) 0 ("(" ++ ",".intercalate texts ++ ")").toList
      (.lparen :: (k :: ks ++ [.rparen])) := by
    rw [String.toList_append, String.toList_append]
    exact .sign rfl hscans
  obtain ⟨ts, hts, hkinds⟩ := scans_iff.1 htext
  obtain ⟨⟨args, stop⟩, hargs, hreads⟩ :=
    arguments_parentheses hk (hlisted 0) ts [] hkinds nofun
  rw [Elementwise, List.forall₂_map_left_iff] at hargs
  rw [List.append_nil] at hreads
  exact ⟨args, sameTrees_of_forall₂ hargs, ts, 0, stop, hts, hreads⟩

end Expr

end Worksheet

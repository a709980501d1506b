import Worksheet.Proofs.Text.Group
import Worksheet.Proofs.Token.Spelling
/-!
# Commands of equations

The commands that rendered values are written with, each as the token that it stands for.
-/

namespace Worksheet

open Text

namespace Scan

variable {rules : ScanRules} {depth : Nat} {body rest : List Char} {ks : List Token.Kind}

/-! ## Spaces -/

theorem Scans.escapedSpace (others : Scans rules depth rest ks) :
    Scans rules depth ('\\' :: ' ' :: rest) ks := by
  have next : nextPiece rules depth '\\' (' ' :: rest) = (.layout ['\\', ' '], depth) := by
    cases rules
    rfl
  exact .layout next others

theorem stops_alpha_of_mem {c : Char} (h : c ∈ [' ', '\x7b']) (rest : List Char) :
    Stops Char.isAlpha (c :: rest) := by
  have hall : ∀ c ∈ [' ', '\x7b'], c.isAlpha = false := by decide
  exact stops_cons.2 (hall c h)

/-! ## Products and rows -/

theorem Scans.times (others : Scans rules depth rest ks) :
    Scans rules depth (" \\times ".toList ++ rest) (.mul :: ks) := by
  have next : nextPiece rules depth '\\' ("times".toList ++ ' ' :: rest) =
      (.token ('\\' :: "times".toList) .mul, depth) := by
    rw [nextPiece_command (by decide) (by decide) (stops_alpha_of_mem (by decide) rest)]
    rfl
  have hscans : Scans rules depth (' ' :: '\\' :: ("times".toList ++ ' ' :: rest)) (.mul :: ks) :=
    .space (.token_append next others.space)
  exact hscans

/-- Two backslashes end a row of a matrix. -/
theorem Scans.row (others : Scans rules (depth + 1) rest ks) :
    Scans rules (depth + 1) (" \\\\ ".toList ++ rest) (.comma :: ks) := by
  have next : nextPiece rules (depth + 1) '\\' ('\\' :: ' ' :: rest) =
      (.token ['\\', '\\'] .comma, depth + 1) := by
    cases rules
    rfl
  have hscans : Scans rules (depth + 1) (' ' :: '\\' :: '\\' :: ' ' :: rest) (.comma :: ks) :=
    .space (.token next others.space)
  exact hscans

theorem Scans.comma (others : Scans rules depth rest ks) :
    Scans rules depth (", ".toList ++ rest) (.comma :: ks) := by
  have hscans : Scans rules depth (',' :: ' ' :: rest) (.comma :: ks) := .sign rfl others.space
  exact hscans

/-! ## Groups -/

theorem argument_braces (code : ErrorCode) (command : List Char)
    (h : untilClosed 0 (body ++ '\x7d' :: rest) = some (body, rest)) :
    argument code command ('\x7b' :: (body ++ '\x7d' :: rest)) =
      .ok (command ++ '\x7b' :: body ++ ['\x7d'], body) := by
  have hgap : ('\x7b' :: (body ++ '\x7d' :: rest)).takeWhile isBlank = [] := rfl
  have htrim : trimStart ('\x7b' :: (body ++ '\x7d' :: rest)) =
      '\x7b' :: (body ++ '\x7d' :: rest) := rfl
  rw [argument, hgap, htrim]
  simp [h]

/-- What is in a wrapper stands for units. -/
theorem Scans.wrapper (h : untilClosed 0 (body ++ '\x7d' :: rest) = some (body, rest))
    (others : Scans rules depth rest ks) :
    Scans rules depth ("\\mathrm\x7b".toList ++ (body ++ '\x7d' :: rest))
      (.unit (String.ofList (UnitText.plain body)) :: ks) := by
  have next : nextPiece rules depth '\\' ("mathrm".toList ++ '\x7b' :: (body ++ '\x7d' :: rest)) =
      (.token ('\\' :: "mathrm".toList ++ '\x7b' :: body ++ ['\x7d'])
        (.unit (String.ofList (UnitText.plain body))), depth) := by
    rw [nextPiece_command (by decide) (by decide) (stops_alpha_of_mem (by decide) _)]
    unfold commandPiece
    dsimp only
    rw [if_pos (by decide), argument_braces _ _ h]
  have hsplit : "mathrm\x7b".toList ++ body ++ ['\x7d'] ++ rest =
      "mathrm".toList ++ '\x7b' :: (body ++ '\x7d' :: rest) := by simp
  have hscans : Scans rules depth ('\\' :: ("mathrm\x7b".toList ++ body ++ ['\x7d'] ++ rest))
      (.unit (String.ofList (UnitText.plain body)) :: ks) := by
    refine .token_append ?_ others
    rw [hsplit, next]
    simp
  rw [hsplit] at hscans
  exact hscans

theorem environmentPiece_bmatrix (command : List Char) (opens : Bool) (depth : Nat)
    (rest : List Char) :
    environmentPiece depth opens command ('\x7b' :: ("bmatrix".toList ++ '\x7d' :: rest)) =
      if opens then (.token (command ++ "\x7bbmatrix\x7d".toList) .lbracket, depth + 1)
      else (.token (command ++ "\x7bbmatrix\x7d".toList) .rbracket, depth - 1) := by
  have hname : Closed false "bmatrix".toList := closed_word (by decide)
  have hmatrix : matrixEnvironments.contains (String.ofList (trim "bmatrix".toList)) = true := by
    decide
  unfold environmentPiece
  rw [argument_braces _ _ (hname.untilClosed rest)]
  dsimp only
  rw [if_pos hmatrix]
  cases opens <;> simp

theorem Scans.beginMatrix (others : Scans rules (depth + 1) rest ks) :
    Scans rules depth ("\\begin\x7bbmatrix\x7d".toList ++ rest) (.lbracket :: ks) := by
  have next : nextPiece rules depth '\\'
      ("begin".toList ++ '\x7b' :: ("bmatrix".toList ++ '\x7d' :: rest)) =
      (.token "\\begin\x7bbmatrix\x7d".toList .lbracket, depth + 1) := by
    rw [nextPiece_command (by decide) (by decide) (stops_alpha_of_mem (by decide) _)]
    exact environmentPiece_bmatrix "\\begin".toList true depth rest
  have hscans : Scans rules depth ('\\' :: ("begin\x7bbmatrix\x7d".toList ++ rest))
      (.lbracket :: ks) :=
    .token_append next others
  exact hscans

theorem Scans.endMatrix (others : Scans rules depth rest ks) :
    Scans rules (depth + 1) ("\\end\x7bbmatrix\x7d".toList ++ rest) (.rbracket :: ks) := by
  have next : nextPiece rules (depth + 1) '\\'
      ("end".toList ++ '\x7b' :: ("bmatrix".toList ++ '\x7d' :: rest)) =
      (.token "\\end\x7bbmatrix\x7d".toList .rbracket, depth) := by
    rw [nextPiece_command (by decide) (by decide) (stops_alpha_of_mem (by decide) _)]
    exact environmentPiece_bmatrix "\\end".toList false (depth + 1) rest
  have hscans : Scans rules (depth + 1) ('\\' :: ("end\x7bbmatrix\x7d".toList ++ rest))
      (.rbracket :: ks) :=
    .token_append next others
  exact hscans

end Scan

end Worksheet

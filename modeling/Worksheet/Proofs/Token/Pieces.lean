import Worksheet.Proofs.Text.Group
import Worksheet.Token.Scan
/-!
# What a command is read as

A command takes some of the text behind it, and is layout, a token or an error. Only the begin and
the end of a matrix, which are brackets, change how many are open.
-/

namespace Worksheet

/-- A number or an identifier, which stands in the text as it is spelled. -/
def Token.Kind.IsVerbatim : Token.Kind → Bool
  | .num _ | .ident _ => true
  | _ => false

variable {kind : Token.Kind}

theorem Token.Kind.ne_num (h : kind.IsVerbatim = false) (literal : String) :
    kind ≠ .num literal := by
  rintro rfl
  cases h

theorem Token.Kind.ne_ident (h : kind.IsVerbatim = false) (name : String) :
    kind ≠ .ident name := by
  rintro rfl
  cases h

namespace Scan

open Text

/-- The group that a command takes ends with its own brace, whatever is behind it. -/
theorem argument_eq_ok {code : ErrorCode} {command rest text body : List Char}
    (h : argument code command rest = .ok (text, body)) :
    ∃ front after, rest = front ++ after ∧ text = command ++ front ∧
      ∀ after', argument code command (front ++ after') = .ok (text, body) := by
  have hrest : rest.takeWhile isBlank ++ trimStart rest = rest := List.takeWhile_append_dropWhile
  have hgap : ∀ c ∈ rest.takeWhile isBlank, isBlank c := List.all_eq_true.1 List.all_takeWhile
  unfold argument at h
  dsimp only at h
  split at h
  · rename_i cs hgroup
    split at h
    · rename_i body' after hbody
      cases h
      have hsplit : ∀ after', rest.takeWhile isBlank ++ '\x7b' :: body ++ ['\x7d'] ++ after' =
          rest.takeWhile isBlank ++ '\x7b' :: (body ++ '\x7d' :: after') := by simp
      refine ⟨rest.takeWhile isBlank ++ '\x7b' :: body ++ ['\x7d'], after, ?_, by simp,
        fun after' => ?_⟩
      · rw [hsplit, append_of_untilClosed hbody, ← hgroup, hrest]
      · have hstops : Stops isBlank ('\x7b' :: (body ++ '\x7d' :: after')) :=
          stops_cons.2 (by decide)
        rw [hsplit, argument, trimStart, takeWhile_append_of_stops hgap hstops,
          dropWhile_append_of_stops hgap hstops]
        simp only [untilClosed_body hbody]
    · cases h
  · cases h

/-- A group that is not there, or has no end, is an error. -/
theorem argument_eq_error {code : ErrorCode} {command rest : List Char} {piece : Piece}
    (h : argument code command rest = .error piece) :
    ∃ front, front <+: rest ∧ piece = .wrong (command ++ front) code := by
  unfold argument at h
  dsimp only at h
  split at h
  · split at h <;> cases h
    exact ⟨rest, List.prefix_rfl, rfl⟩
  · cases h
    exact ⟨_, List.takeWhile_prefix _, rfl⟩

/-- The text of a command with some of the text behind it. -/
structure CommandText (letters rest text : List Char) : Prop where
  command : '\\' :: letters <+: text
  front : text <+: '\\' :: letters ++ rest

/-- The ways in which a command is read, and how many matrices are open behind it. -/
inductive CommandCase (depth : Nat) (letters rest : List Char) : Piece × Nat → Prop where
  | layout {text : List Char} (htext : CommandText letters rest text) :
      CommandCase depth letters rest (.layout text, depth)
  | token {text : List Char} {kind : Token.Kind} (htext : CommandText letters rest text)
      (hkind : kind.IsVerbatim = false) : CommandCase depth letters rest (.token text kind, depth)
  | bracket {text : List Char} {kind : Token.Kind} {depth' : Nat}
      (htext : CommandText letters rest text) (hkind : kind ∈ [.lbracket, .rbracket]) :
      CommandCase depth letters rest (.token text kind, depth')
  | letter {name : List Char} (hgreek : greekLetters.contains (String.ofList letters))
      (hname : decorate ('\\' :: letters) rest = .ok name) :
      CommandCase depth letters rest (.token name (.ident (String.ofList name)), depth)
  | undecorated {fault : Misread} (hfault : decorate ('\\' :: letters) rest = .error fault) :
      CommandCase depth letters rest (⟨'\\' :: letters, .misread fault⟩, depth)
  | wrong {text : List Char} {code : ErrorCode} (htext : CommandText letters rest text)
      (hcode : code.kind = .lex) : CommandCase depth letters rest (.wrong text code, depth)

section

variable {depth : Nat} {letters rest front text body : List Char} {code : ErrorCode}

theorem commandText_append (h : front <+: rest) :
    CommandText letters rest ('\\' :: letters ++ front) :=
  ⟨List.prefix_append _ _, (List.prefix_append_right_inj ('\\' :: letters)).2 h⟩

theorem commandText_self : CommandText letters rest ('\\' :: letters) :=
  ⟨List.prefix_rfl, List.prefix_append _ _⟩

theorem commandText_of_argument (h : argument code ('\\' :: letters) rest = .ok (text, body)) :
    CommandText letters rest text := by
  obtain ⟨front, after, hrest, rfl, -⟩ := argument_eq_ok h
  exact commandText_append ⟨after, hrest.symm⟩

theorem commandCase_unclosed {piece : Piece} (hcode : code.kind = .lex)
    (h : argument code ('\\' :: letters) rest = .error piece) :
    CommandCase depth letters rest (piece, depth) := by
  obtain ⟨front, hfront, rfl⟩ := argument_eq_error h
  exact .wrong (commandText_append hfront) hcode

theorem commandCase_group (hcode : code.kind = .lex)
    {found : List Char → List Char → Piece × Nat}
    (hfound : ∀ text body, CommandText letters rest text →
      CommandCase depth letters rest (found text body)) :
    CommandCase depth letters rest (match argument code ('\\' :: letters) rest with
      | .error piece => (piece, depth)
      | .ok (text, body) => found text body) := by
  cases h : argument code ('\\' :: letters) rest with
  | error piece => exact commandCase_unclosed hcode h
  | ok group => exact hfound group.1 group.2 (commandText_of_argument h)

theorem commandCase_environment (opens : Bool) :
    CommandCase depth letters rest (environmentPiece depth opens ('\\' :: letters) rest) := by
  refine commandCase_group rfl fun text body htext => ?_
  refine iteInduction (fun _ => ?_) fun _ => .wrong htext rfl
  cases opens with
  | true => exact .bracket htext (by simp)
  | false => exact .bracket htext (by simp)

end

theorem commandPiece_cases (depth : Nat) (letters rest : List Char) :
    CommandCase depth letters rest (commandPiece depth letters rest) := by
  have hself := @commandText_self letters rest
  unfold commandPiece
  refine iteInduction (fun _ => ?_) fun _ => ?_
  · exact commandCase_group rfl fun text body htext => .token htext rfl
  refine iteInduction (fun _ => ?_) fun _ => ?_
  · split
    · exact .layout (commandText_append (List.cons_prefix_cons.2 ⟨rfl, List.nil_prefix⟩))
    · exact .layout hself
  refine iteInduction (fun _ => .token hself rfl) fun _ => ?_
  refine iteInduction (fun hgreek => ?_) fun _ => ?_
  · split
    · rename_i hname
      exact .letter hgreek hname
    · rename_i hfault
      exact .undecorated hfault
  refine iteInduction (fun _ => .token hself rfl) fun _ => ?_
  refine iteInduction (fun _ => .token hself rfl) fun _ => ?_
  refine iteInduction (fun _ => .token hself rfl) fun _ => ?_
  refine iteInduction (fun _ => .token hself rfl) fun _ => ?_
  refine iteInduction (fun _ => ?_) fun _ => ?_
  · exact commandCase_group rfl fun text body htext => .token htext rfl
  refine iteInduction (fun _ => commandCase_environment true) fun _ => ?_
  refine iteInduction (fun _ => commandCase_environment false) fun _ => ?_
  exact .wrong hself rfl

end Scan

end Worksheet

import Worksheet.Proofs.Except
import Worksheet.Proofs.Text.Search
import Worksheet.Token.Scan
/-!
# Scanning without faults

The tokens of a text, read off piece by piece with the rest of the text in sight, so that what is
known of the pieces of a text can be put together.
-/

namespace Worksheet

namespace Scan

/-- A text in which so many matrices are open is cut into tokens of these kinds, and nothing in it
is misread. -/
inductive Scans (rules : ScanRules) : Nat → List Char → List Token.Kind → Prop where
  | done {depth : Nat} : Scans rules depth [] []
  | token {depth depth' : Nat} {c : Char} {cs text : List Char} {kind : Token.Kind}
      {ks : List Token.Kind} (next : nextPiece rules depth c cs = (.token text kind, depth'))
      (others : Scans rules depth' (cs.drop (text.length - 1)) ks) :
      Scans rules depth (c :: cs) (kind :: ks)
  | layout {depth depth' : Nat} {c : Char} {cs text : List Char} {ks : List Token.Kind}
      (next : nextPiece rules depth c cs = (.layout text, depth'))
      (others : Scans rules depth' (cs.drop (text.length - 1)) ks) :
      Scans rules depth (c :: cs) ks

variable {rules : ScanRules} {depth depth' : Nat} {cs text : List Char} {ks : List Token.Kind}
  {kind : Token.Kind}

theorem piecesFrom_drop (rules : ScanRules) (depth n : Nat) (cs : List Char) :
    piecesFrom rules depth n cs = piecesFrom rules depth 0 (cs.drop n) := by
  induction cs generalizing n with
  | nil => cases n <;> rfl
  | cons c cs ih =>
    cases n with
    | zero => rfl
    | succ n => exact ih n

/-- The tokens of pieces that lie one behind the other, or the first fault. -/
def tokensFrom (rules : ScanRules) (start depth : Nat) (cs : List Char) :
    Except SourceError (List Token) :=
  (place start (piecesFrom rules depth 0 cs)).mapM id

theorem tokensFrom_cons (rules : ScanRules) (start depth : Nat) (c : Char) (cs : List Char) :
    tokensFrom rules start depth (c :: cs) =
      let (piece, depth') := nextPiece rules depth c cs
      let stop := start + Text.byteSize piece.text
      let others := tokensFrom rules stop depth' (cs.drop (piece.text.length - 1))
      match piece.meaning with
      | .layout => others
      | .token kind => do return ⟨kind, start, stop⟩ :: (← others)
      | .misread fault =>
        .error ⟨fault.code, Span.ofBytes (start + fault.start) (start + fault.stop)⟩ := by
  rcases hnext : nextPiece rules depth c cs with ⟨⟨text, meaning⟩, depth'⟩
  unfold tokensFrom
  rw [piecesFrom, hnext]
  dsimp only
  rw [piecesFrom_drop, place]
  cases meaning with
  | layout => rfl
  | token kind =>
    dsimp only
    rw [List.mapM_cons]
    rfl
  | misread fault => rfl

theorem tokensFrom_token {c : Char} {rest : List Char}
    (next : nextPiece rules depth c (cs ++ rest) = (.token (c :: cs) kind, depth')) (start : Nat) :
    tokensFrom rules start depth (c :: (cs ++ rest)) =
      (tokensFrom rules (start + Text.byteSize (c :: cs)) depth' rest >>= fun ts =>
        .ok (⟨kind, start, start + Text.byteSize (c :: cs)⟩ :: ts)) := by
  rw [tokensFrom_cons, next]
  dsimp only [Piece.token]
  rw [List.length_cons, Nat.add_sub_cancel, List.drop_left]
  rfl

theorem Scans.tokensFrom (h : Scans rules depth cs ks) (start : Nat) :
    ∃ ts, tokensFrom rules start depth cs = .ok ts ∧ ts.map Token.kind = ks := by
  induction h generalizing start with
  | done => exact ⟨[], rfl, rfl⟩
  | @token depth depth' c cs text kind ks next others ih =>
    obtain ⟨ts, hts, rfl⟩ := ih (start + Text.byteSize text)
    refine ⟨⟨kind, start, start + Text.byteSize text⟩ :: ts, ?_, rfl⟩
    simp [tokensFrom_cons, next, Piece.token, hts]
  | @layout depth depth' c cs text ks next others ih =>
    obtain ⟨ts, hts, rfl⟩ := ih (start + Text.byteSize text)
    exact ⟨ts, by simp [tokensFrom_cons, next, Piece.layout, hts], rfl⟩

/-- A text without faults scans as the kinds of its tokens. -/
theorem scans_of_tokensFrom {start : Nat} :
    ∀ {depth : Nat} {cs : List Char} {ts : List Token},
      Scan.tokensFrom rules start depth cs = .ok ts → Scans rules depth cs (ts.map Token.kind)
  | depth, [], ts, h => by
    cases h
    exact .done
  | depth, c :: cs, ts, h => by
    rw [tokensFrom_cons] at h
    rcases hnext : nextPiece rules depth c cs with ⟨⟨text, meaning⟩, depth'⟩
    rw [hnext] at h
    cases meaning with
    | layout => exact .layout hnext (scans_of_tokensFrom h)
    | token kind =>
      obtain ⟨others, hothers, heq⟩ := bind_eq_ok.1 h
      cases heq
      exact .token hnext (scans_of_tokensFrom hothers)
    | misread fault => cases h
termination_by _ cs => cs.length

/-- Goes on behind a token whose text is known. -/
theorem Scans.token_append {c : Char} {rest : List Char}
    (next : nextPiece rules depth c (cs ++ rest) = (.token (c :: cs) kind, depth'))
    (others : Scans rules depth' rest ks) : Scans rules depth (c :: (cs ++ rest)) (kind :: ks) := by
  refine .token next ?_
  rw [List.length_cons, Nat.add_sub_cancel, List.drop_left]
  exact others

/-! ## Signs and commands -/

theorem Scans.sign {c : Char} (h : sign? c = some kind) (others : Scans rules depth cs ks) :
    Scans rules depth (c :: cs) (kind :: ks) := by
  have hc : c ≠ '\\' := by
    rintro rfl
    cases h
  have next : nextPiece rules depth c cs = (.token [c] kind, depth) := by
    rw [nextPiece.eq_def, if_neg hc, h]
  exact .token next others

/-- A command is as long as its letters go on. -/
theorem nextPiece_command {name rest : List Char} (hne : name ≠ [])
    (hname : ∀ c ∈ name, c.isAlpha) (hrest : Text.Stops Char.isAlpha rest) :
    nextPiece rules depth '\\' (name ++ rest) = commandPiece depth name rest := by
  obtain ⟨d, ds, rfl⟩ := List.exists_cons_of_ne_nil hne
  obtain ⟨hd, hds⟩ := List.forall_mem_cons.1 hname
  change (if d.isAlpha then commandPiece depth (d :: (ds ++ rest).takeWhile Char.isAlpha)
      ((ds ++ rest).dropWhile Char.isAlpha) else (signPiece rules.mode depth d, depth)) = _
  rw [if_pos hd, Text.takeWhile_append_of_stops hds hrest,
    Text.dropWhile_append_of_stops hds hrest]

end Scan

/-- The tokens of a text are of the kinds that it scans as. -/
theorem scans_iff {rules : ScanRules} {text : String} {ks : List Token.Kind} :
    Scan.Scans rules 0 text.toList ks ↔
      ∃ ts, tokens rules text = .ok ts ∧ ts.map Token.kind = ks := by
  constructor
  · intro h
    exact h.tokensFrom 0
  · rintro ⟨ts, hts, rfl⟩
    exact Scan.scans_of_tokensFrom hts

end Worksheet

import Worksheet.Number.Rounding
/-!
# Unit products

Products of units raised to integer powers: the units that a quantity is written in, and its
dimension. The factors stand in the order of their symbols, so that equal products are equal terms.
-/

namespace Worksheet

def minExponent : Int := -2147483648

def maxExponent : Int := 2147483647

/-- Exponents are kept in 32 bits. -/
def fitsExponent (e : Int) : Bool := minExponent ≤ e && e ≤ maxExponent

def exponent? (e : Int) : Option Int := if fitsExponent e then some e else none

/-- The exponent in range that is nearest. -/
def clampExponent (e : Int) : Int := max minExponent (min e maxExponent)

abbrev Factors := List (String × Int)

namespace Factors

/-- In increasing order of the symbols, each of them once. -/
def Sorted (fs : Factors) : Prop := fs.Pairwise fun f g => f.1 < g.1

/-- Puts a factor in its place, instead of the one with the same symbol if there is one. -/
def put (symbol : String) (e : Int) : Factors → Factors
  | [] => [(symbol, e)]
  | f :: fs =>
    if symbol < f.1 then (symbol, e) :: f :: fs
    else if symbol = f.1 then (symbol, e) :: fs
    else f :: put symbol e fs

theorem mem_put {symbol : String} {e : Int} {g : String × Int} {fs : Factors}
    (h : g ∈ put symbol e fs) : g = (symbol, e) ∨ g ∈ fs := by
  induction fs with
  | nil => simpa [put] using h
  | cons f fs ih =>
    unfold put at h
    split at h
    · simpa using h
    · split at h
      · rcases List.mem_cons.1 h with h | h
        · exact .inl h
        · exact .inr (List.mem_cons_of_mem _ h)
      · rcases List.mem_cons.1 h with h | h
        · exact .inr (h ▸ List.mem_cons_self)
        · exact (ih h).imp id (List.mem_cons_of_mem _)

private theorem lt_of_not_lt {a b : String} (h : ¬a < b) (hne : a ≠ b) : b < a := by
  rcases String.le_total a b with hab | hba
  · exact absurd (String.le_antisymm hab (String.not_lt.1 h)) hne
  · exact Classical.byContradiction fun hlt =>
      hne (String.le_antisymm (String.not_lt.1 hlt) hba)

theorem Sorted.put {fs : Factors} (h : fs.Sorted) (symbol : String) (e : Int) :
    (fs.put symbol e).Sorted := by
  induction fs with
  | nil => simp [Factors.put, Sorted]
  | cons f fs ih =>
    have ⟨hf, hfs⟩ := List.pairwise_cons.1 h
    unfold Factors.put
    split
    · rename_i hlt
      refine List.pairwise_cons.2 ⟨fun g hg => ?_, h⟩
      rcases List.mem_cons.1 hg with rfl | hg
      · exact hlt
      · exact String.lt_trans hlt (hf g hg)
    · split
      · rename_i heq
        exact List.pairwise_cons.2 ⟨fun g hg => heq ▸ hf g hg, hfs⟩
      · rename_i hlt hne
        refine List.pairwise_cons.2 ⟨fun g hg => ?_, ih hfs⟩
        rcases mem_put hg with rfl | hg
        · exact lt_of_not_lt hlt hne
        · exact hf g hg

def drop (symbol : String) (fs : Factors) : Factors := fs.filter fun f => f.1 != symbol

theorem Sorted.drop {fs : Factors} (h : fs.Sorted) (symbol : String) : (fs.drop symbol).Sorted :=
  List.Pairwise.filter _ h

def mapExponents (f : Int → Int) (fs : Factors) : Factors := fs.map fun g => (g.1, f g.2)

theorem Sorted.mapExponents {fs : Factors} (h : fs.Sorted) (f : Int → Int) :
    (fs.mapExponents f).Sorted := by
  simpa [Sorted, Factors.mapExponents, List.pairwise_map] using h

end Factors

structure UnitProduct where
  factors : Factors
  sorted : factors.Sorted
deriving DecidableEq

namespace UnitProduct

def one : UnitProduct := ⟨[], .nil⟩

instance : Inhabited UnitProduct := ⟨one⟩

/-- The exponent of a symbol, which is zero if it does not occur. -/
def get (p : UnitProduct) (symbol : String) : Int := (p.factors.lookup symbol).getD 0

/-- Writes a factor down, whatever its exponent. -/
def put (p : UnitProduct) (symbol : String) (e : Int) : UnitProduct :=
  ⟨p.factors.put symbol e, p.sorted.put symbol e⟩

/-- Gives a symbol an exponent; the factor goes away if that is zero. -/
def set (p : UnitProduct) (symbol : String) (e : Int) : UnitProduct :=
  if e = 0 then ⟨p.factors.drop symbol, p.sorted.drop symbol⟩ else p.put symbol e

/-- The product of a list of factors; of two with the same symbol the later counts. -/
def ofList (fs : Factors) : UnitProduct :=
  (fs.filter fun f => f.2 != 0).foldl (fun p f => p.put f.1 f.2) one

def unit (symbol : String) : UnitProduct := one.put symbol 1

def isOne (p : UnitProduct) : Bool := p.factors.isEmpty

def numerator (p : UnitProduct) : Factors := p.factors.filter fun f => 0 < f.2

def denominator (p : UnitProduct) : Factors := p.factors.filter fun f => f.2 < 0

def mapExponents (p : UnitProduct) (f : Int → Int) : UnitProduct :=
  ⟨p.factors.mapExponents f, p.sorted.mapExponents f⟩

/-- Gives every factor another exponent, unless one is out of range. -/
def mapExponents? (p : UnitProduct) (f : Int → Int) : Option UnitProduct :=
  if p.factors.all fun (_, e) => fitsExponent (f e) then some (p.mapExponents f) else none

/-- The reciprocal, with the exponents kept in range. -/
def reciprocal (p : UnitProduct) : UnitProduct := p.mapExponents fun e => clampExponent (-e)

def pow (p : UnitProduct) (n : Int) : UnitProduct :=
  if n = 0 then one else p.mapExponents fun e => clampExponent (e * n)

def mul (p q : UnitProduct) : UnitProduct :=
  q.factors.foldl (fun r (symbol, e) => r.set symbol (clampExponent (e + r.get symbol))) p

def div (p q : UnitProduct) : UnitProduct := p.mul q.reciprocal

def reciprocal? (p : UnitProduct) : Option UnitProduct := p.mapExponents? fun e => -e

def pow? (p : UnitProduct) (n : Int) : Option UnitProduct :=
  if n = 0 then some one else p.mapExponents? fun e => e * n

def mul? (p q : UnitProduct) : Option UnitProduct :=
  q.factors.foldlM (fun r (symbol, e) => (exponent? (e + r.get symbol)).map (r.set symbol)) p

def div? (p q : UnitProduct) : Option UnitProduct := q.reciprocal?.bind p.mul?

/-- How far a scaled exponent may be from a whole number. -/
def exponentTolerance : Float := 1e-9

/-- The whole number that a scaled exponent stands for, if it is close to one in range. -/
def wholeExponent? (scaled : Float) : Option Int :=
  match Number.nearest? scaled with
  | none => none
  | some whole =>
    if (scaled - Float.ofInt whole).abs ≤ exponentTolerance && whole.natAbs ≤ maxExponent.toNat
    then some whole else none

/-- A real power, if all exponents stay whole; factors whose exponent becomes zero go away. Where a
scaled exponent is no number the factor stays, with exponent zero. -/
def scale? (p : UnitProduct) (power : Float) : Option UnitProduct :=
  p.factors.foldlM
    (fun r (symbol, e) =>
      let scaled := Float.ofInt e * power
      if scaled.isNaN then some (r.put symbol 0)
      else (wholeExponent? scaled).map (r.set symbol))
    one

def factorText (symbol : String) (e : Int) : String :=
  if 1 < e then symbol ++ "^" ++ toString e else symbol

/-- The product in a line: `kg*m/s^2`, or `1` for the empty product. -/
def text (p : UnitProduct) : String :=
  let above := p.numerator.map fun (symbol, e) => factorText symbol e
  let below := p.denominator.map fun (symbol, e) => "/" ++ factorText symbol (-e)
  (if above.isEmpty then "1" else "*".intercalate above) ++ String.join below

end UnitProduct

end Worksheet

import Lox.Number.Binary64

/-!
The fewest decimal digits that read back as a number. The multiples of a power of ten form a grid;
the search goes from coarse grids to fine ones and takes the first with a point that reads back as
the number. If a point of a grid does, so does one of the two neighbours of the number on it.
-/

namespace Lox.Binary64

inductive Tie where
  | up
  | even
deriving DecidableEq, Repr

def exact (p : Nat) : Decimal := ⟨units p * Nat.pow 5 1074, -1074⟩

def steps (p : Nat) (k : Int) : Nat × Nat :=
  match k with
  | .ofNat k => (units p, one * Nat.pow 10 k)
  | .negSucc k => (units p * Nat.pow 10 (k + 1), one)

def onGrid? (tie : Tie) (p : Nat) (k : Int) : Option Decimal :=
  let (n, d) := steps p k
  let below : Decimal := ⟨n / d, k⟩
  let above : Decimal := ⟨n / d + 1, k⟩
  let nearer :=
    if 2 * (n % d) < d then below
    else if d < 2 * (n % d) then above
    else match tie with
      | .up => above
      | .even => if below.digits % 2 = 0 then below else above
  match below.nearest == p, above.nearest == p with
  | true, true => some nearer
  | true, false => some below
  | false, true => some above
  | false, false => none

def coarsest (p : Nat) : Int := ((units p).log2 - 1073) * 30103 / 100000 + 2

/-- The decimal with fewest digits that reads back as `p`, of these the nearest to it. Seventeen
digits always suffice; the exact decimal stands for the search that fails. -/
def shortest (tie : Tie) (p : Nat) : Decimal :=
  ((List.range 21).findSome? fun (i : Nat) => onGrid? tie p (coarsest p - (i : Int))).getD (exact p)

end Lox.Binary64

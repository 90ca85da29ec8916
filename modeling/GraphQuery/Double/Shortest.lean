import GraphQuery.Double

/-!
# GraphQuery.Double.Shortest — the fewest digits that read back

1. **Digits**: the coarsest decimal grid with a point that rounds to the double; of two such
   points the nearer, and of two equally near the even one.
2. **Text**: positional from `1e-5` up to below `1e16`, in exponent form elsewhere. A number
   without fraction keeps one zero after the point, and an exponent always has a sign. Messages
   use the positional form for all numbers.
-/

namespace GraphQuery.Double

/-! ## Digits -/

/-- The point `point · 10 ^ grid`. -/
structure DecimalPoint where
  point : Nat
  grid : Int
deriving Repr, DecidableEq

/-- The point of one decimal grid that stands for the double, if one rounds to it. -/
def pointOn? (d : Double) (grid : Int) : Option DecimalPoint :=
  let m := d.significand
  let q := d.exponent - 2
  -- `x · 10 ^ grid` and `y · 2 ^ q` compare as `x * decimal` and `y * binary`
  let decimal := Nat.pow 10 grid.toNat * Nat.pow 2 (-q).toNat
  let binary := Nat.pow 2 q.toNat * Nat.pow 10 (-grid).toNat
  let value := 4 * m * binary
  let low := (4 * m - (if m == Nat.pow 2 52 && d.magnitude > Nat.pow 2 52 then 1 else 2)) * binary
  let high := (4 * m + 2) * binary
  let reads (x : Nat) : Bool :=
    let p := x * decimal
    if m % 2 == 0 then low ≤ p && p ≤ high else low < p && p < high
  let below := value / decimal
  let above := below + 1
  if reads below && reads above then
    let down := value - below * decimal
    let up := above * decimal - value
    if down < up || (down == up && below % 2 == 0) then some ⟨below, grid⟩
    else some ⟨above, grid⟩
  else if reads below then some ⟨below, grid⟩
  else if reads above then some ⟨above, grid⟩
  else none

/-- Fewest digits of a number other than zero. The search starts above its leading digit and
seventeen digits always suffice. -/
def shortest (d : Double) : DecimalPoint :=
  let binaryExponent : Int := Nat.log2 d.significand + d.exponent
  let top := binaryExponent * 30103 / 100000 + 2
  ((List.range 24).findSome? fun (i : Nat) => d.pointOn? (top - i)).getD ⟨0, 0⟩

/-! ## Text -/

def zeros (n : Nat) : String := String.ofList (List.replicate n '0')

/-- Text of the digits and the place of the decimal point, counted from their left end. -/
def positional (digits : String) (place : Int) : String :=
  if place ≤ 0 then "0." ++ zeros place.natAbs ++ digits
  else if place ≥ digits.length then digits ++ zeros (place.toNat - digits.length) ++ ".0"
  else
    String.ofList (digits.toList.take place.toNat) ++ "." ++
      String.ofList (digits.toList.drop place.toNat)

/-- Digits in scientific form, with the point after the first of them. -/
def scientific (digits : String) (place : Int) : String :=
  let e := place - 1
  let mantissa := match digits.toList with
    | first :: second :: rest => String.ofList (first :: '.' :: second :: rest)
    | _ => digits
  mantissa ++ "e" ++ (if e < 0 then "-" else "+") ++ toString e.natAbs

/-- Writes the digits in the given manner, after the sign. -/
def textBy (write : String → Int → String) (d : Double) : String :=
  let body :=
    if d.isZero then "0.0"
    else
      let p := d.shortest
      let digits := toString p.point
      write digits (digits.length + p.grid)
  if d.negative then "-" ++ body else body

/-- The shortest text that is read as the same number. -/
def text (d : Double) : String :=
  d.textBy fun digits place =>
    if -5 < place && place ≤ 16 then positional digits place else scientific digits place

/-- Text that is positional for all numbers. -/
def positionalText (d : Double) : String := d.textBy positional

end GraphQuery.Double

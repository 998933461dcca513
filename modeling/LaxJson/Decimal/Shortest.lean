/-
# Shortest decimal digits

A finite positive double `m · 2^q` is the double nearest to every real of an interval around
it, reaching halfway to its neighbours. The gap below is half as wide as the gap above when
`m` is the least mantissa of a binade that is not the lowest. Both ends belong to the
interval when `m` is even, since a real exactly halfway rounds to the even mantissa.

The shortest digits of the double are those of a decimal in that interval with the fewest
significant digits; of two such decimals, the nearer to the double, and of two equally near,
the one whose last digit is even. For `n` digits the decimals form a grid, and if any point
of the grid lies in the interval, so does one of the two grid points next to the double; so
for `n = 1, 2, …, 17` it is enough to test those two, in exact `Nat` arithmetic. Seventeen
digits always suffice.
-/

set_option autoImplicit false
namespace LaxJson.Decimal

/-- A finite positive double as `m · 2^q`. -/
structure Binary where
  m : Nat
  q : Int
  /-- Whether the gap to the next double below is half the gap to the next double above. -/
  narrowBelow : Bool

/-- The absolute value of a finite nonzero double as `m · 2^q`. -/
def Binary.ofBits (bits : UInt64) : Binary :=
  let frac : Nat := bits.toNat % Nat.pow 2 52
  let ex : Nat := bits.toNat / Nat.pow 2 52 % Nat.pow 2 11
  if ex = 0 then ⟨frac, -1074, false⟩
  else ⟨frac + Nat.pow 2 52, (ex : Int) - 1075, frac == 0 && 1 < ex⟩

/-- Compares `a · 10^i` with `b · 2^j`, exactly. -/
def cmpScaled (a : Nat) (i : Int) (b : Nat) (j : Int) : Ordering :=
  compare (a * Nat.pow 10 i.toNat * Nat.pow 2 (-j).toNat)
    (b * Nat.pow 2 j.toNat * Nat.pow 10 (-i).toNat)

/-- `⌊m · 2^q / 10^t⌋`. -/
def floorScaled (m : Nat) (q t : Int) : Nat :=
  m * Nat.pow 2 q.toNat * Nat.pow 10 (-t).toNat / (Nat.pow 2 (-q).toNat * Nat.pow 10 t.toNat)

namespace Binary

/-- The exponent `D` of the leading digit: `10^D ≤ m · 2^q < 10^(D+1)`. -/
def leadExponent (b : Binary) : Int :=
  let k : Int := (b.m.log2 : Int) + b.q
  let guess := k * 78913 / 262144
  let candidates := [guess + 2, guess + 1, guess, guess - 1, guess - 2]
  (candidates.find? fun d => cmpScaled 1 d b.m b.q != .gt).getD (guess - 2)

/-- Whether `d · 10^t` lies in the interval of the double, above its midpoint's lower end. -/
def aboveLow (b : Binary) (d : Nat) (t : Int) : Bool :=
  let low := 4 * b.m - (if b.narrowBelow then 1 else 2)
  match cmpScaled d t low (b.q - 2) with
  | .gt => true
  | .eq => b.m % 2 == 0
  | .lt => false

/-- Whether `d · 10^t` lies below the upper end of the double's interval. -/
def belowHigh (b : Binary) (d : Nat) (t : Int) : Bool :=
  match cmpScaled d t (4 * b.m + 2) (b.q - 2) with
  | .lt => true
  | .eq => b.m % 2 == 0
  | .gt => false

/-- Of the grid points `d` and `d + 1` around the double on the grid `10^t`, the nearer;
an exact tie goes to the even one. -/
def nearer (b : Binary) (d : Nat) (t : Int) : Nat :=
  match cmpScaled (2 * d + 1) t (8 * b.m) (b.q - 2) with
  | .lt => d + 1
  | .gt => d
  | .eq => if d % 2 == 0 then d else d + 1

/-- The decimal with `n` significant digits chosen for the double, if one lies in its
interval. -/
def digitsAt (b : Binary) (n : Nat) : Option (Nat × Int) :=
  let t := b.leadExponent + 1 - n
  let d := floorScaled b.m b.q t
  match b.aboveLow d t, b.belowHigh (d + 1) t with
  | true, true => some (b.nearer d t, t)
  | true, false => some (d, t)
  | false, true => some (d + 1, t)
  | false, false => none

/-- The shortest decimal `(d, t)` for the double, `d · 10^t`, with `d` free of trailing
zeros. -/
def shortest (b : Binary) : Nat × Int :=
  let t17 := b.leadExponent - 16
  let (d, t) := ((List.range 17).findSome? fun i => b.digitsAt (i + 1)).getD
    (b.nearer (floorScaled b.m b.q t17) t17, t17)
  let ds := Nat.toDigits 10 d
  let zeros := (ds.reverse.takeWhile (· == '0')).length
  (digitsValue' (ds.take (ds.length - zeros)), t + zeros)
where
  digitsValue' (ds : List Char) : Nat := ds.foldl (fun n c => 10 * n + (c.toNat - 48)) 0

end Binary

end LaxJson.Decimal

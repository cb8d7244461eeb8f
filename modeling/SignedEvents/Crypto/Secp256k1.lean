import SignedEvents.Text.Basic

/-! # The curve secp256k1

  The points of `y ^ 2 = x ^ 3 + 7` over a prime field, in Jacobian coordinates.

  - **fieldPrime**, **groupOrder**, **Point.generator** — the constants of the curve.
  - **Point.double**, **Point.add**, **Point.mul** — the group.
  - **liftX?** — the point of even `y` with a given `x`.
-/

namespace SignedEvents.Secp256k1

/-! ## The field -/

/-- The prime of the field. -/
def fieldPrime : Nat := Nat.pow 2 256 - Nat.pow 2 32 - 977

/-- The number of points of the curve. -/
def groupOrder : Nat := 0xFFFFFFFFFFFFFFFFFFFFFFFFFFFFFFFEBAAEDCE6AF48A03BBFD25E8CD0364141

/-- `base ^ exponent` modulo `modulus`. -/
def powMod (modulus base exponent : Nat) : Nat :=
  if exponent = 0 then 1 % modulus
  else
    let half := powMod modulus (base * base % modulus) (exponent / 2)
    if exponent % 2 = 1 then half * base % modulus else half
termination_by exponent
decreasing_by omega

/-- The product of two field elements. -/
def mulF (a b : Nat) : Nat := a * b % fieldPrime

/-- The sum of two field elements. -/
def addF (a b : Nat) : Nat := (a + b) % fieldPrime

/-- The difference of two field elements. -/
def subF (a b : Nat) : Nat := (a + (fieldPrime - b % fieldPrime)) % fieldPrime

/-- The inverse of a field element other than zero. -/
def invF (a : Nat) : Nat := powMod fieldPrime a (fieldPrime - 2)

/-! ## Points -/

/-- A point in Jacobian coordinates: `(x / z ^ 2, y / z ^ 3)`, or the point at infinity when `z`
    is zero. -/
structure Point where
  (x y z : Nat)
  deriving DecidableEq

namespace Point

/-- The point at infinity. -/
def infinity : Point := ⟨1, 1, 0⟩

/-- The generator of the group. -/
def generator : Point :=
  ⟨0x79BE667EF9DCBBAC55A06295CE870B07029BFCDB2DCE28D959F2815B16F81798,
    0x483ADA7726A3C4655DA4FBFC0E1108A8FD17B448A68554199C47D08FFB10D4B8, 1⟩

/-- Twice a point. -/
def double (p : Point) : Point :=
  if p.z = 0 || p.y = 0 then infinity
  else
    let yy := mulF p.y p.y
    let s := mulF 4 (mulF p.x yy)
    let m := mulF 3 (mulF p.x p.x)
    let x := subF (mulF m m) (mulF 2 s)
    let y := subF (mulF m (subF s x)) (mulF 8 (mulF yy yy))
    ⟨x, y, mulF 2 (mulF p.y p.z)⟩

/-- The sum of two points. -/
def add (p q : Point) : Point :=
  if p.z = 0 then q
  else if q.z = 0 then p
  else
    let pzz := mulF p.z p.z
    let qzz := mulF q.z q.z
    let u₁ := mulF p.x qzz
    let u₂ := mulF q.x pzz
    let s₁ := mulF p.y (mulF qzz q.z)
    let s₂ := mulF q.y (mulF pzz p.z)
    if u₁ = u₂ then if s₁ = s₂ then double p else infinity
    else
      let h := subF u₂ u₁
      let r := subF s₂ s₁
      let hh := mulF h h
      let hhh := mulF h hh
      let v := mulF u₁ hh
      let x := subF (subF (mulF r r) hhh) (mulF 2 v)
      let y := subF (mulF r (subF v x)) (mulF s₁ hhh)
      ⟨x, y, mulF h (mulF p.z q.z)⟩

/-- `k` times a point. -/
def mul (k : Nat) (p : Point) : Point :=
  if k = 0 then infinity
  else
    let rest := mul (k / 2) p.double
    if k % 2 = 1 then add rest p else rest
termination_by k
decreasing_by omega

/-- The point with the opposite `y`. -/
def neg (p : Point) : Point := ⟨p.x, subF 0 p.y, p.z⟩

/-- The coordinates of a point other than infinity. -/
def affine? (p : Point) : Option (Nat × Nat) :=
  if p.z = 0 then none
  else
    let i := invF p.z
    let ii := mulF i i
    some (mulF p.x ii, mulF p.y (mulF ii i))

end Point

/-- The point with a given `x` and an even `y`, if there is one. -/
def liftX? (x : Nat) : Option Point :=
  if x ≥ fieldPrime then none
  else
    let c := addF (mulF x (mulF x x)) 7
    let y := powMod fieldPrime c ((fieldPrime + 1) / 4)
    if mulF y y != c then none
    else some ⟨x, if y % 2 = 0 then y else fieldPrime - y, 1⟩

end SignedEvents.Secp256k1

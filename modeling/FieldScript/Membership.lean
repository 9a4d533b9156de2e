/-! Membership functions over any numbers with the four operations and an order. Written once for
the machine's numbers and for exact ones; no division has a zero below it where it is reached. -/
namespace FieldScript.Membership

variable {α : Type} [Add α] [Sub α] [Mul α] [Div α] [LT α] [LE α] [DecidableLT α] [DecidableLE α]

def segment? (x : α) (p q : α × α) : Option α :=
  if p.1 ≤ x ∧ x ≤ q.1 then
    if p.1 < q.1 then some (p.2 + (x - p.1) * (q.2 - p.2) / (q.1 - p.1)) else some q.2
  else none

def alongSegments (x : α) : α × α → List (α × α) → α
  | p, [] => p.2
  | p, q :: rest =>
    match segment? x p q with
    | some y => y
    | none => alongSegments x q rest

def interpolate (x : α) (first : α × α) (rest : List (α × α)) : α :=
  let last := rest.getLastD first
  if x ≤ first.1 then first.2
  else if last.1 ≤ x then last.2
  else alongSegments x first rest

variable [OfNat α 0] [OfNat α 1] [OfNat α 2]

/-- 0 outside `[a, d]`, 1 on `[b, c]`, linear in between. -/
def trapezoid (x a b c d : α) : α :=
  if x ≤ a ∨ d ≤ x then 0
  else if b ≤ x ∧ x ≤ c then 1
  else if x < b then (x - a) / (b - a)
  else (d - x) / (d - c)

/-- Rises from 0 at `a` to 1 at `b`, by one parabola below the midpoint and one above. -/
def sShape (x a b : α) : α :=
  if x ≤ a then 0
  else if b ≤ x then 1
  else if x ≤ (a + b) / 2 then
    2 * ((x - a) / (b - a)) * ((x - a) / (b - a))
  else 1 - 2 * ((x - b) / (b - a)) * ((x - b) / (b - a))

end FieldScript.Membership

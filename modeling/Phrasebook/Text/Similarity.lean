/-!
Which known word a mistyped one may stand for. Two texts are alike as far as they share characters at
about the same places and in the same order.
-/

set_option autoImplicit false

namespace Phrasebook.Text

/-- The places of the characters of `text` that have a partner in `other`, with the places of their
partners. Partners are at most `reach` places apart, and no character has two. -/
def partners (reach : Nat) (other : List Char) : List (Char × Nat) → List Nat → List (Nat × Nat)
  | [], _ => []
  | (c, place) :: rest, taken =>
    let found := other.zipIdx.find? fun (d, seat) =>
      c == d && place ≤ seat + reach && seat ≤ place + reach && !taken.contains seat
    match found with
    | some (_, seat) => (place, seat) :: partners reach other rest (seat :: taken)
    | none => partners reach other rest taken

/-- How alike two texts are: a fraction as numerator and denominator, three for equal texts. -/
def likeness (a b : List Char) : Nat × Nat :=
  let pairs := partners (max a.length b.length / 2 - 1) b a.zipIdx []
  let count := pairs.length
  let inOrder := pairs.map (·.2) |>.mergeSort fun x y => decide (x ≤ y)
  let crossed := ((pairs.map (·.1)).zip inOrder).countP fun (place, seat) => a[place]? != b[seat]?
  if count = 0 then (0, 1)
  else
    (count * count * b.length + count * count * a.length
        + (count - crossed / 2) * a.length * b.length,
      count * a.length * b.length)

def exceeds (x y : Nat × Nat) : Bool := decide (y.1 * x.2 < x.1 * y.2)

/-- The words that are alike enough, the least alike first. -/
def suggestions (word : String) (known : List String) : List String :=
  let rated := known.map fun other => (other, likeness word.toList other.toList)
  let alike := rated.filter fun (_, rating) => exceeds rating (21, 10)
  (alike.mergeSort fun a b => !exceeds a.2 b.2).map (·.1)

end Phrasebook.Text

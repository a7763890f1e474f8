/-!
# Similar texts

How alike two texts are, for a hint at what a mistyped name may have meant. A character of the one
text is **paired** with the first free equal character of the other that is not too far away. Three
shares are looked at: the paired characters of each text, and those pairs that stand in the same
order on both sides. The texts are similar when the shares come to seven tenths on average.
-/

namespace ScriptTags.Text

/-- How far apart two characters may stand that are paired: a bit less than half of the longer
text. -/
def reach (a b : List Char) : Nat :=
  (if a.length < b.length then b.length else a.length) / 2 - 1

/-- The first place in `b` within reach of place `i` that holds `c` and is not used. -/
def partner? (reach : Nat) (b : List Char) (used : List Nat) (c : Char) (i : Nat) : Option Nat :=
  (List.range b.length).find? fun j =>
    i ≤ j + reach && j ≤ i + reach && b[j]? == some c && !used.contains j

/-- The characters of `a` that are **paired** with one of `b`, and the place of that one, from left
to right. -/
def pairs (a b : List Char) : List (Char × Nat) :=
  (a.zipIdx.foldl (fun found e =>
    match partner? (reach a b) b (found.map Prod.snd) e.1 e.2 with
    | some j => (e.1, j) :: found
    | none => found) []).reverse

/-- The number of pairs that are **out of order**: half of the places at which the paired characters
of the two texts differ, each in the order of its text. -/
def outOfOrder (b : List Char) (found : List (Char × Nat)) : Nat :=
  let places := (List.range b.length).filter fun j => (found.map Prod.snd).contains j
  let differing := (found.zip places).filter fun e => b[e.2]? != some e.1.1
  differing.length / 2

/-- The sum of the three shares, as a fraction. -/
def shares (a b : String) : Nat × Nat :=
  let m := a.length
  let n := b.length
  let found := pairs a.toList b.toList
  let k := found.length
  let inOrder := k - outOfOrder b.toList found
  if k = 0 then (0, 1) else (k * k * n + k * k * m + inOrder * m * n, k * m * n)

/-- Whether two texts are **similar**. -/
def isSimilar (a b : String) : Bool :=
  21 * (shares a b).2 ≤ 10 * (shares a b).1

/-- Whether `c` is at least as similar to `a` as `b` is. -/
def isCloser (a b c : String) : Bool :=
  (shares a b).1 * (shares a c).2 ≤ (shares a c).1 * (shares a b).2

/-- The **closest** of the texts that are similar to `a`; the last of them if there are several. -/
def closest? (a : String) (texts : List String) : Option String :=
  (texts.filter (isSimilar a)).foldl
    (fun best text => if best.all fun b => isCloser a b text then some text else best) none

end ScriptTags.Text

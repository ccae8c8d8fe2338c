/-!
# Edit distance

The distance of two texts is the least number of insertions, deletions and
substitutions of single characters that turn one into the other.

`distances s t` lists the distances from `s` to `t` and to every shorter end of
`t`, so that one more character in front of `s` costs one pass over the list.
-/

namespace SpecOverlay
namespace Text

/-- One more character `c` in front of the first text: from the distances to the
ends of the second text, the new distances to the same ends. -/
def prependDistances (c : Char) : List Char → List Nat → List Nat
  | d :: t, whole :: ends =>
    match prependDistances c t ends with
    | [] => []
    | next :: rest =>
      let replaced := ends.headD 0
      (if c = d then replaced else 1 + min whole (min next replaced)) :: next :: rest
  | _, ends => ends.map (· + 1)

/-- The distances from a text to the ends of another one, longest end first. -/
def distances : List Char → List Char → List Nat
  | [], t => (List.range (t.length + 1)).reverse
  | c :: s, t => prependDistances c t (distances s t)

/-- The edit distance of two texts. -/
def editDistance (s t : List Char) : Nat :=
  (distances s t).headD 0

end Text
end SpecOverlay

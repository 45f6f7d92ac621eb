import LoxLex.Text.GraphemeBreak

/-! Extended grapheme clusters: the stretches of text that a reader takes for one character. Main
statement: the clusters of a text make up the text. -/

namespace LoxLex.Text
open GraphemeBreak

/-- Whether a text ends in a consonant and what may follow it in a conjunct, with a linker among that.
The last character comes first. -/
def endsLinked (text : List Char) : Bool :=
  let tail := text.takeWhile fun char => (ofChar char).isWithinConjunct
  tail.any (ofChar · = .linker) && (text.drop tail.length).head?.any (ofChar · = .consonant)

/-- Whether a text ends in a pictograph, extended or not, and a joiner. The last character comes
first. -/
def endsInJoinedPictograph : List Char → Bool
  | [] => false
  | last :: earlier =>
    ofChar last = .joiner &&
      (earlier.dropWhile fun char => (ofChar char).isExtender).head?.any (ofChar · = .pictograph)

/-- Whether a text ends in a regional indicator that has no partner yet. The last character comes
first. -/
def endsInOddRegional (text : List Char) : Bool :=
  (text.takeWhile (ofChar · = .regional)).length % 2 = 1

/-- Whether a character goes on with a cluster, whose last character comes first. -/
def continues : List Char → Char → Bool
  | [], _ => false
  | last :: earlier, char =>
    let before := ofChar last
    let next := ofChar char
    if before.isSeparator || next.isSeparator then before = .carriageReturn && next = .lineFeed
    else next.attaches || before = .prepended || before.precedesInSyllable next ||
      (next = .consonant && endsLinked (last :: earlier)) ||
      (next = .pictograph && endsInJoinedPictograph (last :: earlier)) ||
      (next = .regional && endsInOddRegional (last :: earlier))

/-- Puts a character behind clusters that are in reverse, as each one is in itself. -/
def addToClusters (clusters : List (List Char)) (char : Char) : List (List Char) :=
  match clusters with
  | [] => [[char]]
  | cluster :: earlier =>
    if continues cluster char then (char :: cluster) :: earlier else [char] :: clusters

def clusters (text : List Char) : List (List Char) :=
  ((text.foldl addToClusters []).map List.reverse).reverse

private theorem flatten_foldl_addToClusters (text : List Char) (found : List (List Char)) :
    (text.foldl addToClusters found).flatten = text.reverse ++ found.flatten := by
  induction text generalizing found with
  | nil => simp
  | cons char rest ih =>
    have added : (addToClusters found char).flatten = char :: found.flatten := by
      unfold addToClusters
      split
      · rfl
      · split <;> simp
    simp [ih, added]

theorem clusters_flatten (text : List Char) : (clusters text).flatten = text := by
  have reversed := congrArg List.reverse (flatten_foldl_addToClusters text [])
  simpa [clusters, List.reverse_flatten] using reversed

end LoxLex.Text

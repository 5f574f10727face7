import Folio.Text.Lower
import Folio.Text.Upper

/-! Names that a component or a hook gets in the generated text. -/

namespace Folio.Text

/-- The upper case of the first character, and the rest as it is. -/
def capitalize (s : String) : String :=
  match s.toList with
  | [] => ""
  | c :: cs => String.ofList (upper c ++ cs)

/-- A capital among the ASCII letters. -/
def isCapital (c : Char) : Bool := 'A' ≤ c && c ≤ 'Z'

/-- A small ASCII letter. -/
def isSmall (c : Char) : Bool := 'a' ≤ c && c ≤ 'z'

/-- Sets the last capital of a run apart when a word starts with it: `HTMLView` becomes
`HTML-View`. A run is taken as long as it goes; `done` holds the text so far, last character
first. -/
def splitAcronyms (done : List Char) : List Char → List Char
  | [] => done.reverse
  | c :: cs =>
    if isCapital c then
      let run := c :: cs.takeWhile isCapital
      match _h : cs.dropWhile isCapital with
      | [] => (run.reverse ++ done).reverse
      | next :: rest =>
        match run.reverse with
        | last :: before :: more =>
          if isSmall next then splitAcronyms (next :: last :: '-' :: before :: more ++ done) rest
          else splitAcronyms (next :: last :: before :: more ++ done) rest
        | _ => splitAcronyms (next :: c :: done) rest
    else splitAcronyms (c :: done) cs
termination_by cs => cs.length
decreasing_by
  all_goals
    have bound := (List.dropWhile_suffix (l := cs) isCapital).length_le
    simp_all only [List.length_cons]
    omega

/-- Sets a capital apart from a small letter or digit before it: `myButton` becomes `my-Button`. -/
def splitHumps (done : List Char) : List Char → List Char
  | x :: y :: rest =>
    if (isSmall x || x.isDigit) && isCapital y then splitHumps (y :: '-' :: x :: done) rest
    else splitHumps (x :: done) (y :: rest)
  | [x] => (x :: done).reverse
  | [] => done.reverse

/-- The custom element tag of a component: its words in lower case, joined by hyphens, after the
common prefix. -/
def elementTag (name : String) : String :=
  let words := splitHumps [] (splitAcronyms [] name.toList)
  "ema-" ++ toLower (String.ofList (words.map fun c => if c = '_' then '-' else c))

end Folio.Text

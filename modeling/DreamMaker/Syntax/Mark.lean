namespace DreamMaker

/-- What a mark in a text with holes stands for: the first three for a hole
and how its value is printed, the others for a text macro. -/
inductive Mark
  | value
  | bareValue
  | reference
  | upperDefiniteArticle
  | lowerDefiniteArticle
  | upperIndefiniteArticle
  | lowerIndefiniteArticle
  | upperSubjectPronoun
  | lowerSubjectPronoun
  | upperPossessiveAdjective
  | lowerPossessiveAdjective
  | objectPronoun
  | reflexivePronoun
  | upperPossessivePronoun
  | lowerPossessivePronoun
  | proper
  | improper
  | lowerRoman
  | upperRoman
  | ordinalIndicator
  | pluralSuffix
  | icon
  | colorRed
  | colorBlue
  | colorGreen
  | colorBlack
  | colorYellow
  | colorNavy
  | colorTeal
  | colorCyan
  | bold
  | italic
deriving DecidableEq, Repr, Inhabited

/-- Where the value comes from that a text macro speaks of. -/
inductive Mark.Placement
  | before
  | after
  | alone
deriving DecidableEq, Repr, Inhabited

namespace Mark

def all : List Mark :=
  [.value, .bareValue, .reference, .upperDefiniteArticle, .lowerDefiniteArticle,
   .upperIndefiniteArticle, .lowerIndefiniteArticle, .upperSubjectPronoun,
   .lowerSubjectPronoun, .upperPossessiveAdjective, .lowerPossessiveAdjective, .objectPronoun,
   .reflexivePronoun, .upperPossessivePronoun, .lowerPossessivePronoun, .proper, .improper,
   .lowerRoman, .upperRoman, .ordinalIndicator, .pluralSuffix, .icon, .colorRed, .colorBlue,
   .colorGreen, .colorBlack, .colorYellow, .colorNavy, .colorTeal, .colorCyan, .bold, .italic]

def label : Mark → String
  | .value => "StringifyWithArticle"
  | .bareValue => "StringifyNoArticle"
  | .reference => "ReferenceOfValue"
  | .upperDefiniteArticle => "UpperDefiniteArticle"
  | .lowerDefiniteArticle => "LowerDefiniteArticle"
  | .upperIndefiniteArticle => "UpperIndefiniteArticle"
  | .lowerIndefiniteArticle => "LowerIndefiniteArticle"
  | .upperSubjectPronoun => "UpperSubjectPronoun"
  | .lowerSubjectPronoun => "LowerSubjectPronoun"
  | .upperPossessiveAdjective => "UpperPossessiveAdjective"
  | .lowerPossessiveAdjective => "LowerPossessiveAdjective"
  | .objectPronoun => "ObjectPronoun"
  | .reflexivePronoun => "ReflexivePronoun"
  | .upperPossessivePronoun => "UpperPossessivePronoun"
  | .lowerPossessivePronoun => "LowerPossessivePronoun"
  | .proper => "Proper"
  | .improper => "Improper"
  | .lowerRoman => "LowerRoman"
  | .upperRoman => "UpperRoman"
  | .ordinalIndicator => "OrdinalIndicator"
  | .pluralSuffix => "PluralSuffix"
  | .icon => "Icon"
  | .colorRed => "ColorRed"
  | .colorBlue => "ColorBlue"
  | .colorGreen => "ColorGreen"
  | .colorBlack => "ColorBlack"
  | .colorYellow => "ColorYellow"
  | .colorNavy => "ColorNavy"
  | .colorTeal => "ColorTeal"
  | .colorCyan => "ColorCyan"
  | .bold => "Bold"
  | .italic => "Italic"

/-- The characters of marks follow each other from here. -/
def base : Nat := 0xFF00

def char (mark : Mark) : Char := Char.ofNat (base + all.idxOf mark)

def ofChar? (c : Char) : Option Mark :=
  if c.toNat < base then none else all[c.toNat - base]?

def isHole : Mark → Bool
  | .value | .bareValue | .reference => true
  | _ => false

def ofMacro? : String → Option (Mark × Placement)
  | "The" => some (.upperDefiniteArticle, .before)
  | "the" => some (.lowerDefiniteArticle, .before)
  | "A" => some (.upperIndefiniteArticle, .before)
  | "An" => some (.upperIndefiniteArticle, .before)
  | "a" => some (.lowerIndefiniteArticle, .before)
  | "an" => some (.lowerIndefiniteArticle, .before)
  | "proper" => some (.proper, .before)
  | "improper" => some (.improper, .before)
  | "roman" => some (.lowerRoman, .before)
  | "Roman" => some (.upperRoman, .before)
  | "icon" => some (.icon, .before)
  | "ref" => some (.reference, .before)
  | "He" => some (.upperSubjectPronoun, .after)
  | "She" => some (.upperSubjectPronoun, .after)
  | "he" => some (.lowerSubjectPronoun, .after)
  | "she" => some (.lowerSubjectPronoun, .after)
  | "His" => some (.upperPossessiveAdjective, .after)
  | "his" => some (.lowerPossessiveAdjective, .after)
  | "him" => some (.objectPronoun, .after)
  | "Him" => some (.objectPronoun, .after)
  | "himself" => some (.reflexivePronoun, .after)
  | "herself" => some (.reflexivePronoun, .after)
  | "Hers" => some (.upperPossessivePronoun, .after)
  | "hers" => some (.lowerPossessivePronoun, .after)
  | "th" => some (.ordinalIndicator, .after)
  | "s" => some (.pluralSuffix, .after)
  | "red" => some (.colorRed, .alone)
  | "blue" => some (.colorBlue, .alone)
  | "green" => some (.colorGreen, .alone)
  | "black" => some (.colorBlack, .alone)
  | "yellow" => some (.colorYellow, .alone)
  | "navy" => some (.colorNavy, .alone)
  | "teal" => some (.colorTeal, .alone)
  | "cyan" => some (.colorCyan, .alone)
  | "bold" => some (.bold, .alone)
  | "b" => some (.bold, .alone)
  | "italic" => some (.italic, .alone)
  | _ => none

end Mark

end DreamMaker

/-!
White space in the sense of the Unicode property White_Space, and text without any at its ends.
-/

namespace BehaviorTree.Text

def isBlank (char : Char) : Bool :=
  let point := char.toNat
  (9 ≤ point && point ≤ 13) || point == 0x20 || point == 0x85 || point == 0xA0 ||
    point == 0x1680 || (0x2000 ≤ point && point ≤ 0x200A) || point == 0x2028 ||
    point == 0x2029 || point == 0x202F || point == 0x205F || point == 0x3000

/-- Whether there is nothing but white space. -/
def isBlankText (text : String) : Bool := text.toList.all isBlank

def dropBlank (chars : List Char) : List Char := chars.dropWhile isBlank

/-- The text without the white space at its ends. -/
def trim (text : String) : String :=
  String.ofList (dropBlank (dropBlank text.toList).reverse).reverse

end BehaviorTree.Text

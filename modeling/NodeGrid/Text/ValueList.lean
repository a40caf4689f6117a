import NodeGrid.Text.Numeral
import NodeGrid.Text.Blank

/-!
# Lists of values

Values are written as decimal numerals with commas between them. Reading trims each item and
passes over items that are blank; the first other item that is no 32-bit numeral is reported.
-/

namespace NodeGrid.ValueList

/-- An item that is no 32-bit numeral. -/
structure InvalidItem where
  item : String
  reason : Numeral.Error
  deriving DecidableEq

def InvalidItem.message (e : InvalidItem) : String :=
  "Invalid input value: " ++ e.item

/-! ## Writing -/

def printValue (value : Int32) : String := String.ofList (Numeral.print value.toInt)

def print (values : List Int32) : String := ",".intercalate (values.map printValue)

/-! ## Reading -/

/-- The parts between commas; a text without a comma is one part. -/
def items : List Char → List (List Char)
  | [] => [[]]
  | ',' :: rest => [] :: items rest
  | c :: rest =>
    match items rest with
    | [] => [[c]]
    | item :: others => (c :: item) :: others

/-- The value of one trimmed item. -/
def readItem (item : List Char) : Except InvalidItem Int32 :=
  let text := String.ofList item
  (Numeral.readInt32 text).mapError (⟨text, ·⟩)

def read (text : String) : Except InvalidItem (List Int32) :=
  (((items text.toList).map Blank.trim).filter (· ≠ [])).mapM readItem

end NodeGrid.ValueList

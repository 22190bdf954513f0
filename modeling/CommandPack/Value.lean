import CommandPack.Text.Quoted
import CommandPack.Text.Shortest

namespace CommandPack

inductive Value
  | null
  | flag (b : Bool)
  | whole (n : Int)
  | double (x : Float)
  | single (x : Float32)
  | text (s : String)
  | list (items : List Value)
  | record (fields : List (String × Value))

namespace Value

/-- Doubles are written without an exponent from `0.00001` up to below `1e+16`. -/
def doubleLayout : Text.FloatLayout := ⟨-5, 15⟩

def singleLayout : Text.FloatLayout := ⟨-6, 12⟩

/-- What is written for a number that has no digits. -/
def noNumber : List Char := ['n', 'u', 'l', 'l']

def doubleChars (x : Float) : List Char :=
  (doubleLayout.chars? .double x.toBits.toNat).getD noNumber

def singleChars (x : Float32) : List Char :=
  (singleLayout.chars? .single x.toBits.toNat).getD noNumber

def flagChars (b : Bool) : List Char :=
  if b then ['t', 'r', 'u', 'e'] else ['f', 'a', 'l', 's', 'e']

def wholeChars : Int → List Char
  | .ofNat n => Text.digits n
  | .negSucc n => '-' :: Text.digits (n + 1)

mutual

def chars : Value → List Char
  | .null => ['n', 'u', 'l', 'l']
  | .flag b => flagChars b
  | .whole n => wholeChars n
  | .double x => doubleChars x
  | .single x => singleChars x
  | .text s => Text.quotedChars s.toList
  | .list items => '[' :: (itemsChars items ++ [']'])
  | .record fields => '\x7b' :: (fieldsChars fields ++ ['\x7d'])

def itemsChars : List Value → List Char
  | [] => []
  | v :: rest => v.chars ++ moreItemsChars rest

def moreItemsChars : List Value → List Char
  | [] => []
  | v :: rest => ',' :: (v.chars ++ moreItemsChars rest)

def fieldsChars : List (String × Value) → List Char
  | [] => []
  | (k, v) :: rest => Text.quotedChars k.toList ++ ':' :: (v.chars ++ moreFieldsChars rest)

def moreFieldsChars : List (String × Value) → List Char
  | [] => []
  | (k, v) :: rest =>
    ',' :: (Text.quotedChars k.toList ++ ':' :: (v.chars ++ moreFieldsChars rest))

end

/-- There is no space between tokens, so the written form is one line. -/
def written (v : Value) : String := String.ofList v.chars

def putField (key : String) (value : Value) : List (String × Value) → List (String × Value)
  | [] => [(key, value)]
  | (k, v) :: rest =>
    if key < k then (key, value) :: (k, v) :: rest
    else if key = k then (key, value) :: rest
    else (k, v) :: putField key value rest

/-- Fields by key, each key once: of fields with the same key the last one counts. -/
def orderFields (fields : List (String × Value)) : List (String × Value) :=
  fields.foldl (fun sorted f => putField f.1 f.2 sorted) []

mutual

def ordered : Value → Value
  | .list items => .list (orderedItems items)
  | .record fields => .record (orderFields (orderedFields fields))
  | v => v

def orderedItems : List Value → List Value
  | [] => []
  | v :: rest => v.ordered :: orderedItems rest

def orderedFields : List (String × Value) → List (String × Value)
  | [] => []
  | (k, v) :: rest => (k, v.ordered) :: orderedFields rest

end

end Value
end CommandPack

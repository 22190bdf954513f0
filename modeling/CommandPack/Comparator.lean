namespace CommandPack

inductive Comparator
  | less | greater | equal | lessOrEqual | greaterOrEqual | matching
deriving DecidableEq, Repr

namespace Comparator

def all : List Comparator :=
  [.less, .greater, .equal, .lessOrEqual, .greaterOrEqual, .matching]

def spelling : Comparator → String
  | .less => "<"
  | .greater => ">"
  | .equal => "="
  | .lessOrEqual => "<="
  | .greaterOrEqual => ">="
  | .matching => "matches"

def ofSpelling? (text : String) : Option Comparator :=
  all.find? fun c => c.spelling == text

theorem ofSpelling?_spelling (c : Comparator) : ofSpelling? c.spelling = some c := by
  cases c <;> decide

end Comparator
end CommandPack

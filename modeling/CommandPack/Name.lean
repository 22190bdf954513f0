import CommandPack.Text.Blank

namespace CommandPack

inductive NameKind
  | space | context | holder | bossBar | objective
deriving DecidableEq, Repr

def NameKind.text : NameKind → String
  | .space => "namespace"
  | .context => "context"
  | .holder => "variable"
  | .bossBar => "boss bar"
  | .objective => "objective"

inductive NameFault
  | empty
  | spaceCharacter
  | pathCharacter
  | emptySegment
  | blank
  | selectorSign
  | tooLong
  | objectiveCharacter
  | reserved
deriving DecidableEq, Repr

/-- The longest name of a score holder, in characters. -/
def maxHolderLength : Nat := 40

/-- Names that start with this are left to generated names. -/
def generatedLead : List Char := ['_', '_']

def NameFault.message : NameFault → String
  | .empty => "must not be empty"
  | .spaceCharacter => "only lowercase letters, digits, '_', '.' and '-' are allowed"
  | .pathCharacter => "only lowercase letters, digits, '_', '.', '-' and '/' are allowed"
  | .emptySegment => "path segments must not be empty"
  | .blank => "must not contain whitespace"
  | .selectorSign => "must not start with '@' (reserved for selectors)"
  | .tooLong => "longer than the 40 characters a score holder may have"
  | .objectiveCharacter => "only letters, digits, '_', '.', '+' and '-' are allowed"
  | .reserved => "the '__' prefix is reserved for generated names"

namespace Name

def isPlain (c : Char) : Bool :=
  c.isLower || c.isDigit || c == '_' || c == '.' || c == '-'

def isPath (c : Char) : Bool := isPlain c || c == '/'

def isObjective (c : Char) : Bool :=
  c.isAlpha || c.isDigit || c == '_' || c == '.' || c == '+' || c == '-'

def hasDoubleSlash : List Char → Bool
  | '/' :: '/' :: _ => true
  | _ :: cs => hasDoubleSlash cs
  | [] => false

def isGenerated (name : List Char) : Bool := generatedLead.isPrefixOf name

def spaceFault? (name : List Char) : Option NameFault :=
  if name.isEmpty then some .empty
  else if !name.all isPlain then some .spaceCharacter
  else none

def pathFault? (name : List Char) : Option NameFault :=
  if name.isEmpty then some .empty
  else if !name.all isPath then some .pathCharacter
  else if name.head? == some '/' || name.getLast? == some '/' || hasDoubleSlash name then
    some .emptySegment
  else none

def holderFault? (name : List Char) : Option NameFault :=
  if name.isEmpty then some .empty
  else if name.any Text.isBlank then some .blank
  else if name.head? == some '@' then some .selectorSign
  else if maxHolderLength < name.length then some .tooLong
  else none

def objectiveFault? (name : List Char) : Option NameFault :=
  if name.isEmpty then some .empty
  else if !name.all isObjective then some .objectiveCharacter
  else none

def reservedFault? (name : List Char) : Option NameFault :=
  if isGenerated name then some .reserved else none

end Name

/-- The first rule that a name of this kind breaks. -/
def NameKind.fault? (kind : NameKind) (name : List Char) : Option NameFault :=
  match kind with
  | .space => Name.spaceFault? name
  | .context => (Name.pathFault? name).or (Name.reservedFault? name)
  | .holder => (Name.holderFault? name).or (Name.reservedFault? name)
  | .bossBar => Name.pathFault? name
  | .objective => Name.objectiveFault? name

structure NameError where
  kind : NameKind
  name : String
  fault : NameFault
deriving DecidableEq, Repr

def NameError.message (e : NameError) : String :=
  "invalid " ++ e.kind.text ++ " name '" ++ e.name ++ "': " ++ e.fault.message

def NameKind.check (kind : NameKind) (name : String) : Except NameError Unit :=
  match kind.fault? name.toList with
  | none => .ok ()
  | some fault => .error ⟨kind, name, fault⟩

/-- A name is accepted when it breaks no rule of its kind. -/
def NameKind.Accepts (kind : NameKind) (name : String) : Prop :=
  kind.fault? name.toList = none

instance (kind : NameKind) (name : String) : Decidable (kind.Accepts name) :=
  inferInstanceAs (Decidable (_ = none))

theorem NameKind.check_eq_ok {kind : NameKind} {name : String} :
    kind.check name = .ok () ↔ kind.Accepts name := by
  unfold check Accepts
  cases kind.fault? name.toList <;> simp

theorem NameKind.check_eq_error {kind : NameKind} {name : String} {e : NameError} :
    kind.check name = .error e ↔
      ∃ fault, kind.fault? name.toList = some fault ∧ e = ⟨kind, name, fault⟩ := by
  unfold check
  cases kind.fault? name.toList with
  | none => simp
  | some fault => simp [eq_comm]

end CommandPack

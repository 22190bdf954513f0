import CommandPack.Once

namespace CommandPack

/-- Commands compare and multiply only scores, so a number used that way gets a score of its own,
declared when the number is first used. -/
structure ConstantPool where
  objective : Once := {}
  /-- The declared numbers, in order of first use. -/
  values : List Int32 := []
deriving DecidableEq, Repr, Inhabited

namespace ConstantPool

structure Registration where
  declareObjective : Bool
  declareValue : Bool
deriving DecidableEq, Repr

def register (p : ConstantPool) (n : Int32) : Registration × ConstantPool :=
  let known := p.values.contains n
  (⟨p.objective.claim.1, !known⟩,
    ⟨p.objective.claim.2, if known then p.values else p.values ++ [n]⟩)

theorem values_register (p : ConstantPool) (n : Int32) :
    (p.register n).2.values = if n ∈ p.values then p.values else p.values ++ [n] := by
  simp [register]

end ConstantPool
end CommandPack

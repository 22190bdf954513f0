namespace CommandPack

/-- A declaration that is made at most once: the first to ask makes it. -/
structure Once where
  claimed : Bool := false
deriving DecidableEq, Repr, Inhabited

namespace Once

def claim (o : Once) : Bool × Once := (!o.claimed, ⟨true⟩)

@[simp] theorem claim_claimed (o : Once) : o.claim.2.claimed = true := rfl

end Once
end CommandPack

import CommandPack.Proofs.Refinement
import Mathlib.Data.List.Induction

namespace CommandPack.ScopeStack

inductive Call
  | push (fragment : String)
  | pop
  | truncate (depth : Nat)
deriving DecidableEq, Repr

def Call.perform (s : ScopeStack) : Call → Option String × ScopeStack
  | .push fragment => (none, s.push fragment)
  | .pop => s.pop
  | .truncate depth => (none, s.truncate depth)

def ofCalls (calls : List Call) : ScopeStack := calls.foldl (fun s c => (c.perform s).2) empty

def fragments (s : ScopeStack) : List String := s.frames.reverse

/-- The same call on a plain list of fragments, outermost first. -/
def Call.onFragments (fs : List String) : Call → Option String × List String
  | .push fragment => (none, fs ++ [fragment])
  | .pop => (fs.getLast?, fs.dropLast)
  | .truncate depth => (none, fs.take (min depth fs.length))

def remaining (calls : List Call) : List String :=
  calls.foldl (fun fs c => (c.onFragments fs).2) []

/-- The stack that comes from opening scopes with these fragments. -/
def ofFragments (fs : List String) : ScopeStack := fs.foldl push empty

theorem ofFragments_concat (fs : List String) (f : String) :
    ofFragments (fs ++ [f]) = (ofFragments fs).push f := by
  rw [ofFragments, List.foldl_append]
  rfl

theorem fragments_ofFragments (fs : List String) : (ofFragments fs).fragments = fs := by
  induction fs using List.reverseRecOn with
  | nil => rfl
  | append_singleton fs f ih =>
    rw [ofFragments_concat, fragments, push, List.reverse_cons]
    exact congrArg (· ++ [f]) ih

theorem depth_ofFragments (fs : List String) : (ofFragments fs).depth = fs.length := by
  rw [ofFragments, depth_foldl_push]
  exact Nat.zero_add _

theorem text_ofFragments (fs : List String) : (ofFragments fs).text = String.join fs :=
  text_foldl_push fs empty

/-- Closing a scope gives back the fragment that was opened last. -/
theorem pop_ofFragments (fs : List String) :
    (ofFragments fs).pop = (fs.getLast?, ofFragments fs.dropLast) := by
  cases fs using List.reverseRecOn with
  | nil => rfl
  | append_singleton fs f =>
    rw [ofFragments_concat, pop_push, List.getLast?_concat, List.dropLast_concat]

theorem popTimes_ofFragments (k : Nat) (fs : List String) :
    popTimes k (ofFragments fs) = ofFragments (fs.take (fs.length - k)) := by
  induction k with
  | zero => rw [Nat.sub_zero, List.take_length]; rfl
  | succ k ih =>
    have hmin : min (min (fs.length - k) fs.length - 1) (fs.length - k) = fs.length - (k + 1) := by
      omega
    rw [popTimes_succ, ih, pop_ofFragments, List.dropLast_eq_take, List.take_take,
      List.length_take, hmin]

/-- Closing down to a depth keeps the outermost scopes. -/
theorem truncate_ofFragments (depth : Nat) (fs : List String) :
    (ofFragments fs).truncate depth = ofFragments (fs.take (min depth fs.length)) := by
  have hmin : fs.length - (fs.length - depth) = min depth fs.length := by omega
  rw [truncate, popTimes_ofFragments, depth_ofFragments, hmin]

/-- One call on scopes that were opened one after the other is the same call on their fragments. -/
theorem perform_ofFragments (c : Call) (fs : List String) :
    c.perform (ofFragments fs) = ((c.onFragments fs).1, ofFragments (c.onFragments fs).2) := by
  cases c with
  | push f => exact congrArg (Prod.mk none) (ofFragments_concat fs f).symm
  | pop => exact pop_ofFragments fs
  | truncate depth => exact congrArg (Prod.mk none) (truncate_ofFragments depth fs)

/-- A stack is the one that opening its remaining scopes again would give. -/
theorem ofCalls_eq (calls : List Call) : ofCalls calls = ofFragments (remaining calls) := by
  induction calls using List.reverseRecOn with
  | nil => rfl
  | append_singleton calls c ih =>
    rw [ofCalls, remaining, List.foldl_append, List.foldl_append]
    change (c.perform (ofCalls calls)).2 = ofFragments (c.onFragments (remaining calls)).2
    rw [ih, perform_ofFragments]

/-- A cut takes the last fragment off the end of the text, and nothing else. -/
theorem cut_ofFragments {fs : List String} {f : String} (h : fs.getLast? = some f) :
    ∃ kept, cut (ofFragments fs).text f = some kept ∧
      (ofFragments fs).text = String.ofList kept ++ f ∧
      Text.byteSize f.toList ≤ Text.byteSize (ofFragments fs).text.toList := by
  obtain ⟨front, rfl⟩ := List.getLast?_eq_some_iff.mp h
  rw [ofFragments_concat]
  refine ⟨(ofFragments front).text.toList, cut_append _ f, ?_, ?_⟩
  · rw [String.ofList_toList]
    rfl
  · rw [push, String.toList_append, Text.byteSize_append]
    exact Nat.le_add_left _ _

/-- Whatever calls are made on a new stack, its text is that of the remaining fragments, outermost
first, and its depth is their number. Closing a scope gives back the fragment that was opened last
of those, closing down to a depth keeps the outermost ones, and no cut on the way, not even one of
the many in a call that closes several scopes, needs more bytes than there are or ends inside a
character. -/
theorem calls_in_step (calls : List Call) :
    let s := ofCalls calls
    let fs := remaining calls
    s.fragments = fs ∧ s.text = String.join fs ∧ s.depth = fs.length ∧
      s.isEmpty = fs.isEmpty ∧
      s.pop.1 = fs.getLast? ∧ s.pop.2.fragments = fs.dropLast ∧
      (∀ depth, (s.truncate depth).fragments = fs.take (min depth s.depth)) ∧
      ∀ k f, (popTimes k s).frames.head? = some f →
        ∃ kept, cut (popTimes k s).text f = some kept ∧
          (popTimes k s).text = String.ofList kept ++ f ∧
          Text.byteSize f.toList ≤ Text.byteSize (popTimes k s).text.toList := by
  intro s fs
  have hs : s = ofFragments fs := ofCalls_eq calls
  rw [hs]
  refine ⟨fragments_ofFragments fs, text_ofFragments fs, depth_ofFragments fs, ?_, ?_, ?_,
    fun depth => ?_, fun k f hf => ?_⟩
  · rw [isEmpty, ← List.isEmpty_reverse]
    exact congrArg List.isEmpty (fragments_ofFragments fs)
  · rw [pop_ofFragments]
  · rw [pop_ofFragments, fragments_ofFragments]
  · rw [truncate_ofFragments, fragments_ofFragments, depth_ofFragments]
  · rw [popTimes_ofFragments] at hf ⊢
    refine cut_ofFragments ?_
    rw [← fragments_ofFragments (fs.take _), fragments, List.getLast?_reverse]
    exact hf

-- Fragments that are equal, or contain each other, stay apart.
example : ofCalls [.push "é ", .push "xé ", .push "é ", .pop, .truncate 5] =
    ofFragments ["é ", "xé "] := by decide +kernel

end CommandPack.ScopeStack

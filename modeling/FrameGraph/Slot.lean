import FrameGraph.Compile

/-!
# The slot

Holds the plan that frames run. A plan is put in whole, after it has been prepared, and whatever
is refused leaves the slot as it was.
-/

namespace FrameGraph

/-- The active plan and how many plans have been installed so far. The count identifies a plan
among all that the slot has held. -/
structure Slot where
  generation : Nat := 0
  current : Option Plan := none
  deriving DecidableEq, Repr, Inhabited

/-- Why a compile is not adopted. -/
inductive AdoptError
  | compileFailed (reason : String)
  | preparation (error : PassError)
  deriving DecidableEq, Repr

namespace AdoptError

def message : AdoptError → String
  | compileFailed reason => s!"compile failed: {reason}"
  | preparation error => error.message

end AdoptError

namespace CompileResult

/-- The plan to adopt, or why there is none. -/
def offer (r : CompileResult) : Except String Plan :=
  match r.plan with
  | some plan =>
    if r.success then .ok plan else .error (r.failure.getD "compile produced no render path")
  | none => .error (r.failure.getD "compile produced no render path")

end CompileResult

namespace Slot

/-- Prepares a plan and makes it the active one. -/
def install (s : Slot) (plan : Plan) : Except AdoptError Slot :=
  match plan.prepare with
  | .error err => .error (.preparation err)
  | .ok plan => .ok ⟨s.generation + 1, some plan⟩

/-- Installs the plan of a successful compile. -/
def adopt (s : Slot) (r : CompileResult) : Except AdoptError Slot :=
  match r.offer with
  | .error reason => .error (.compileFailed reason)
  | .ok plan => s.install plan

def installRecords (s : Slot) (plan : Plan) : List Record :=
  plan.prepareRecords ++
    match s.install plan with
    | .error _ => []
    | .ok t =>
      [⟨.info, .slot, s!"RenderPathSlot: installed render path generation {t.generation}"⟩]

/-- What `adopt` logs. -/
def adoptRecords (s : Slot) (r : CompileResult) : List Record :=
  match r.offer with
  | .error reason =>
    [⟨.warn, .slot, s!"RenderPathSlot: keeping previous render path ({reason})"⟩]
  | .ok plan => s.installRecords plan

end Slot

end FrameGraph

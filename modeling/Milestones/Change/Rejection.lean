import Milestones.Decimal.Text
import Milestones.Graph.WorkOrder

/-!
# Why a change is rejected

## Main definitions

* `Rejection`: the cause, with its message.
-/

namespace Milestones

/-- Why a change is rejected. -/
inductive Rejection where
  | milestoneNotFound (id : MilestoneId)
  | dependencyNotFound (id : DependencyId)
  | contractMismatch (id : MilestoneId) (expected actual : ContractId)
  | duplicateMilestone (id : MilestoneId)
  | illegalTransition (id : MilestoneId) (e : IllegalTransition)
  | invalidProgress (id : MilestoneId) (value : Float)
  | progressOnClosed (id : MilestoneId) (status : Status)
  | negativeDuration (id : MilestoneId) (seconds : Int)
  | selfDependency (id : MilestoneId)
  | duplicateDependency (dependent prerequisite : MilestoneId) (kind : DependencyKind)
  | duplicateDependencyId (id : DependencyId)
  | cycle (r : CycleReport)
  | graph (e : GraphError)
deriving DecidableEq

namespace Rejection

/-- The message of a rejection. -/
def message : Rejection → String
  | milestoneNotFound id => "milestone not found: " ++ id.text
  | dependencyNotFound id => "dependency not found: " ++ id.text
  | contractMismatch id expected actual =>
    "milestone " ++ id.text ++ " belongs to contract " ++ actual.text ++ ", batch targets " ++
      expected.text
  | duplicateMilestone id => "milestone already exists: " ++ id.text
  | illegalTransition id e => "milestone " ++ id.text ++ ": " ++ e.message
  | invalidProgress id value =>
    "milestone " ++ id.text ++ ": progress " ++ plainNumber value ++ " outside 0-100"
  | progressOnClosed id status =>
    "milestone " ++ id.text ++ " is " ++ status.label ++ " and accepts no progress"
  | negativeDuration id seconds =>
    "milestone " ++ id.text ++ ": negative estimated duration (" ++ toString seconds ++ "s)"
  | selfDependency id => "milestone " ++ id.text ++ " cannot depend on itself"
  | duplicateDependency dependent prerequisite kind =>
    dependent.text ++ " already depends on " ++ prerequisite.text ++ " (" ++ kind.label ++ ")"
  | duplicateDependencyId id => "dependency already exists: " ++ id.text
  | cycle r => r.message
  | graph e => e.message

/-- What is stored is at fault, not the request. -/
def isDataIntegrity : Rejection → Bool
  | graph _ => true
  | _ => false

end Rejection

end Milestones

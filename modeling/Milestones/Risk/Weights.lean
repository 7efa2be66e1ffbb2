import Milestones.Contract.Written
import Milestones.Decimal.Text

/-!
# Risk weights

The score of a milestone, from 0 to 100, weighs two factors: how critical its author holds
it, and how little slack it has.  Slack at or beyond a horizon counts as no risk at all.

## Main definitions

* `RiskWeights`: the two weights and the horizon.
* `RiskWeights.validate`: refuses weights that give no score.
* `RiskWeights.score`: the score of a milestone.
-/

namespace Milestones

/-- The weights of the risk score. -/
structure RiskWeights where
  criticality : Float := 0.6
  slack : Float := 0.4
  /-- The slack from which on a milestone counts as unconstrained; two weeks by default. -/
  slackHorizon : Duration := .fortnight
deriving DecidableEq

/-- Why weights give no score. -/
inductive WeightsError where
  | negative (name : String) (weight : Float)
  | allZero
  | shortHorizon (millis : Int)
deriving DecidableEq

/-- The message of a refusal. -/
def WeightsError.message : WeightsError → String
  | negative name weight =>
    "invalid risk weights: " ++ name ++ " weight must be a non-negative number, got " ++
      plainNumber weight
  | allZero => "invalid risk weights: at least one weight must be positive"
  | shortHorizon millis =>
    "invalid risk weights: slack horizon must be at least 1s, got " ++ toString millis ++ "ms"

namespace RiskWeights

/-- A weight is a finite number that is not negative. -/
def isWeight (w : Float) : Bool := w.isFinite && !(w < 0)

/-- Refuses weights that give no score. -/
def validate (w : RiskWeights) : Except WeightsError Unit :=
  if !isWeight w.criticality then .error (.negative "criticality" w.criticality)
  else if !isWeight w.slack then .error (.negative "slack" w.slack)
  else if w.criticality + w.slack ≤ 0 then .error .allZero
  else if w.slackHorizon < .second then .error (.shortHorizon w.slackHorizon.millis)
  else .ok ()

/-- The score of a milestone with the given weight of its author and the given slack. -/
def score (w : RiskWeights) (criticalityScore : UInt8) (slack : Duration) : Float :=
  let criticality := (limitScore criticalityScore).toFloat / 100
  let limited := (slack.max .zero).min w.slackHorizon
  let tightness := 1 - Float.ofInt limited.seconds / Float.ofInt w.slackHorizon.seconds
  100 * (w.criticality * criticality + w.slack * tightness) / (w.criticality + w.slack)

open Datum

/-- Writes weights. -/
def toDatum (w : RiskWeights) : Datum :=
  record
    [("criticality", float w.criticality),
      ("slack", float w.slack),
      ("slack_horizon", ofDuration w.slackHorizon)]

/-- Reads weights; what is missing keeps its default. -/
def ofDatum? (l : Leniency) (d : Datum) : Option RiskWeights := do
  let fs ← d.fields? l ["criticality", "slack", "slack_horizon"]
  let default : RiskWeights := {}
  some
    { criticality := ← fs.given? "criticality" default.criticality float?
      slack := ← fs.given? "slack" default.slack float?
      slackHorizon := ← fs.given? "slack_horizon" default.slackHorizon duration? }

end RiskWeights

end Milestones

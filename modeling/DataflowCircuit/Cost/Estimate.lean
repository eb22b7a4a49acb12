import DataflowCircuit.Cost.Basic
import DataflowCircuit.Error
import DataflowCircuit.FunctionalUnit.Request
import DataflowCircuit.Number.Decimal
import DataflowCircuit.Text.Blank

/-!
# Estimates

An estimator answers a request with four numbers in base units: area, dynamic
power, static power and delay. They become a cost by changing units, dropping
fractions, and adding what surrounds the synthesized logic: a latch per input
bit, a handshake port per input, and a stage for every stretch of delay.

## Main definitions

* `RawCost`: The four numbers of a reply.
* `RawCost.read`: A reply from its text.
* `Overhead`: What ports and stages add to one kind of cost.
* `RawCost.normalize`: The cost of a unit from a reply.
* `Estimator`: What answers requests.
-/

namespace DataflowCircuit

/-- A reply of an estimator: square metres, watts, watts and seconds. -/
structure RawCost where
  area : Float
  dynamicPower : Float
  staticPower : Float
  delay : Float

/-- The words of a reply as numbers, or the first word that is none. -/
def readReplyFields : List (List Char) → Except ReplyFault (List Float)
  | [] => .ok []
  | field :: rest => do
    match Number.readFloat? field with
    | some x => return x :: (← readReplyFields rest)
    | none => throw (.notANumber (String.ofList field))

/-- A reply from its text: four numbers between blanks. -/
def RawCost.read (text : String) : Except ReplyFault RawCost := do
  match ← readReplyFields (Text.words text.toList) with
  | [area, dynamicPower, staticPower, delay] =>
    return { area, dynamicPower, staticPower, delay }
  | numbers => throw (.fieldCount numbers.length)

/-- What each narrow port, each wide port and each handshake stage adds. -/
structure Overhead where
  narrow : Float
  wide : Float
  stage : Float

/-- A decimal constant with `places` digits after the point. -/
def decimalConstant (digits places : Nat) : Float :=
  Binary64.ofDecimal false digits (-places)

/-- Area: 1.43 a narrow port, 2.86 a wide port, 1.43 a stage. -/
def areaOverhead : Overhead :=
  ⟨decimalConstant 143 2, decimalConstant 286 2, decimalConstant 143 2⟩

/-- Leakage: 0.15 a narrow port, 5.36 a wide port, 1.38 a stage. -/
def leakageOverhead : Overhead :=
  ⟨decimalConstant 15 2, decimalConstant 536 2, decimalConstant 138 2⟩

/-- Energy: 4.516 a narrow port, 20.19 a wide port, 28.544 a stage. -/
def energyOverhead : Overhead :=
  ⟨decimalConstant 4516 3, decimalConstant 2019 2, decimalConstant 28544 3⟩

/-- The delay in picoseconds that costs one handshake stage. -/
def stageDelay : Int := 500

/-- A power of ten as a factor between units. -/
def unitFactor (exponent : Nat) : Float :=
  Binary64.ofDecimal false 1 exponent

/-- A signed 64-bit number as the nearest double. -/
def toDouble (n : Int) : Float :=
  Binary64.ofSigned64 n.toInt64

/-- A base cost with its latches, ports and stages. The sum is formed from the
    left and its fraction dropped. -/
def adjust (r : EstimateRequest) (stages base perBit : Int) (o : Overhead) : Int :=
  Binary64.truncate
    (toDouble base + toDouble r.totalWidth * toDouble perBit
      + toDouble r.narrow * o.narrow + toDouble r.wide * o.wide + toDouble stages * o.stage)

/-- The sum of three delays from the left. -/
def addDelays (a b c : Int) : Except Error Int :=
  match (Number.addSigned64? a b).bind (Number.addSigned64? · c) with
  | some sum => .ok sum
  | none => .error .costOverflow

/-- The cost of a unit from a reply, given the costs of an input latch per bit
    and of the join in front of the unit. -/
def RawCost.normalize (raw : RawCost) (r : EstimateRequest) (latch twoToOne : Cost) :
    Except Error Cost := do
  let leakage := Binary64.truncate (raw.staticPower * unitFactor 9)
  let energy := Binary64.truncate (raw.dynamicPower * raw.delay * unitFactor 15)
  let delay := Binary64.truncate (raw.delay * unitFactor 12)
  let area := Binary64.truncate (raw.area * unitFactor 12)
  let stages := delay.tdiv stageDelay
  let total ← addDelays delay twoToOne.delay latch.delay
  return {
    leakage := adjust r stages leakage latch.leakage leakageOverhead
    energy := adjust r stages energy latch.energy energyOverhead
    delay := total
    area := adjust r stages area latch.area areaOverhead }

/-- What answers requests. An answer may depend on the requests before. An
    estimator that has no answer says why by a synthesis fault: an error of any
    other kind is outside its contract, and the unit that was asked about is
    named by the session. -/
structure Estimator where
  answer : List EstimateRequest → EstimateRequest → Except SynthesisFault RawCost

end DataflowCircuit

import Polyphony.Binary64.Text
import Polyphony.Signal.Basic

/-!
# Describing signals

Each unit generator has a title, parameters with names, and names for its inputs; a signal is
described by its generator, the parameters, and the titles of what is wired to it.

* `Ugen.title`: the title.
* `Ugen.parameters`, `Ugen.roles`: the names of parameters and inputs.
* `Signal.describe`: one line on a signal.
-/

namespace Polyphony

open Scalar

variable {α : Type} [Scalar α]

namespace Ugen

/-- **The title of a unit generator.** -/
def title : {n : Nat} → Ugen α n → String
  | _, constant _ => "ConstantNode"
  | _, line _ _ => "LineNode"
  | _, parabola _ _ _ => "QuadraticNode"
  | _, sine _ _ => "SineNode"
  | _, sawtooth _ => "SawtoothNode"
  | _, square _ _ => "SquareNode"
  | _, triangle _ => "TriangleNode"
  | _, impulse => "ImpulseNode"
  | _, playback _ => "Record"
  | _, mix _ => "MixNode"
  | _, gain _ => "GainNode"
  | _, shift _ => "ShiftNode"
  | _, delay _ => "DelayNode"
  | _, gate _ => "GateNode"
  | _, range _ _ => "RangeNode"
  | _, amplitudeModulation => "AmplitudeModulatorNode"
  | _, frequencyModulation => "FrequencyModulatorNode"
  | _, phaseModulation => "PhaseModulatorNode"
  | _, timeScaling => "TimeScaleModulatorNode"
  | _, response => "ResponseNode"

/-- The parameters that a description lists, with their names. -/
def parameters : {n : Nat} → Ugen α n → List (String × α)
  | _, constant value => [("value", value)]
  | _, line a0 a1 => [("a0", a0), ("a1", a1)]
  | _, parabola a0 a1 a2 => [("a0", a0), ("a1", a1), ("a2", a2)]
  | _, sine frequency phase => [("frequency", frequency), ("phase", phase)]
  | _, sawtooth frequency => [("frequency", frequency)]
  | _, square frequency pulseWidth => [("frequency", frequency), ("pulse_width", pulseWidth)]
  | _, triangle frequency => [("frequency", frequency)]
  | _, gain factor => [("gain", factor)]
  | _, shift offset => [("offset", offset)]
  | _, delay seconds => [("delay", seconds)]
  | _, gate span => [("start", span.start), ("end", span.finish)]
  | _, range low high => [("low", low), ("high", high)]
  | _, impulse | _, playback _ | _, mix _ | _, amplitudeModulation | _, frequencyModulation
  | _, phaseModulation | _, timeScaling | _, response => []

/-- The names of the inputs. Those of a mixer have no names. -/
def roles : {n : Nat} → Ugen α n → List String
  | _, gain _ | _, shift _ | _, delay _ | _, gate _ | _, range _ _ => ["source"]
  | _, amplitudeModulation | _, phaseModulation | _, timeScaling => ["carrier", "modulator"]
  | _, frequencyModulation => ["carrier", "phase_integral"]
  | _, response => ["input", "system"]
  | _, constant _ | _, line _ _ | _, parabola _ _ _ | _, sine _ _ | _, sawtooth _ | _, square _ _
  | _, triangle _ | _, impulse | _, playback _ | _, mix _ => []

/-- The gains of a mixer. -/
def gains? : {n : Nat} → Ugen α n → Option (List α)
  | _, mix gains => some (List.ofFn gains)
  | _, _ => none

/-- The number of a reel that is played back. -/
def reel? : {n : Nat} → Ugen α n → Option Nat
  | _, playback reel => some reel
  | _, _ => none

end Ugen

namespace Signal

def title (s : Signal α) : String := s.ugen.title

/-- The reel that a signal plays back. -/
def reel? (reels : Reels α) (s : Signal α) : Option (Reel α) :=
  s.ugen.reel?.bind fun k => reels[k]?

/-- For each named input its name, and the positions at which the very same signal is wired. -/
def roles (s : Signal α) : List (String × List Nat) :=
  s.ugen.roles.zipIdx.map fun (role, i) =>
    let wired := s.inputList.map Signal.id
    (role, (List.range wired.length).filter fun j => wired[j]? == wired[i]?)

/-- **One line on a signal**: its title, its inputs by title, and its parameters. -/
def describe (reels : Reels Float) (s : Signal Float) : String :=
  let titles := s.inputList.map title
  let named := s.ugen.roles.zip titles
  let parts : List String :=
    match s.ugen.gains?, s.ugen.reel? with
    | some gains, _ => List.zipWith (fun g t => Binary64.text g ++ "*" ++ t) gains titles
    | none, some _ =>
      match s.reel? reels with
      | some r => ["samples=" ++ toString r.samples.size, "sample_rate=" ++ Binary64.text r.rate]
      | none => []
    | none, none =>
      named.map (fun (role, t) => role ++ "=" ++ t) ++
        s.ugen.parameters.map fun (name, x) => name ++ "=" ++ Binary64.text x
  s.title ++ "(" ++ ", ".intercalate parts ++ ")"

end Signal

end Polyphony

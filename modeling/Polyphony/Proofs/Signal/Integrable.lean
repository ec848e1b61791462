import Polyphony.Message
import Polyphony.Proofs.Signal.Wiring
import Polyphony.Proofs.Underflow
import Polyphony.Signal.Integral

/-!
# Signals that have an antiderivative

* `Ugen.integratesInputs`, `Ugen.integratesItself`: the generators that have a rule, and
  `Ugen.ends_integral`: how each rule ends.
* `Signal.descent`: the places that integration comes to, each before those below it, and
  `Signal.obstacle?`: the first of them without a rule.
* `Signal.checkedIntegral`: integration with a check of every division by a computed number and of every span.
  On doubles no check is ever met (`Signal.checkedIntegral_eq`).
* `Signal.integral_ends`: **integration fails at its first obstacle**, and for no other reason.
-/

namespace Polyphony

open Scalar Wiring

variable {α : Type} [Scalar α] {reels : Reels α}

namespace Ugen

variable {n : ℕ}

/-- The generators whose antiderivative is made of those of their inputs. -/
def integratesInputs : {n : ℕ} → Ugen α n → Bool
  | _, mix _ | _, gain _ | _, shift _ | _, delay _ | _, gate _ | _, range _ _ => true
  | _, _ => false

/-- The sources that have an antiderivative. -/
def integratesItself : {n : ℕ} → Ugen α n → Bool
  | _, constant _ | _, line _ _ | _, sine _ _ => true
  | _, _ => false

/-- Whether there is a rule for a generator. -/
def hasRule (u : Ugen α n) : Bool := u.integratesInputs || u.integratesItself

theorem succeeds_lessValue (F : Signal α) (value : α) : Succeeds reels (lessValue F value) :=
  Succeeds.bind (succeeds_place _ _) fun _ => succeeds_place _ _

theorem succeeds_sineIntegral (frequency phase : α) : Succeeds reels (sineIntegral frequency phase) := by
  unfold sineIntegral
  split
  · exact (succeeds_enter _).bind fun _ => succeeds_place _ _
  · exact Succeeds.bind (succeeds_place _ _) fun _ => Succeeds.bind (succeeds_place _ _) fun _ =>
      Succeeds.bind (succeeds_place _ _) fun _ => succeeds_place _ _

/-- **How the rule of a generator ends**: as its inputs do, without a fault, or with its own. -/
theorem ends_integral (u : Ugen α n) {inputs : Fin n → Wiring α (Signal α)}
    {fate : Fin n → Option (Fault α)} (h : ∀ i, Ends reels (inputs i) (fate i)) :
    Ends reels (u.integral inputs)
      (if u.integratesInputs then (List.finRange n).findSome? fate
      else if u.integratesItself then none else some (.noIntegral u.title)) := by
  have hone : ∀ {fate : Fin 1 → Option (Fault α)}, (List.finRange 1).findSome? fate = fate 0 :=
    List.findSome?_singleton
  cases u with
  | constant | line => exact show Succeeds reels (place _ _) from succeeds_place _ _
  | sine frequency phase => exact succeeds_sineIntegral frequency phase
  | mix => exact (Ends.ofFnM h).bind fun _ => succeeds_place _ _
  | gain =>
    simp only [integratesInputs, if_true, hone]
    exact (h 0).bind fun _ => succeeds_place _ _
  | shift | delay =>
    simp only [integratesInputs, if_true, hone]
    exact (h 0).bind fun F => Succeeds.bind (succeeds_place _ _) fun _ =>
      succeeds_read.bind fun _ => succeeds_lessValue _ _
  | gate =>
    simp only [integratesInputs, if_true, hone]
    exact (h 0).bind fun F => succeeds_read.bind fun _ =>
      (succeeds_lessValue _ _).bind fun _ => succeeds_place _ _
  | range =>
    simp only [integratesInputs, if_true, hone]
    exact (h 0).bind fun F => Succeeds.bind (succeeds_place _ _) fun _ => succeeds_place _ _
  | parabola | sawtooth | square | triangle | impulse | playback | amplitudeModulation
  | frequencyModulation | phaseModulation | timeScaling | response => exact ends_throw _

end Ugen

namespace Signal

/-- **The places that integration comes to**: down to the generators that do not integrate their inputs,
each place before the places below it. -/
def descent : Signal α → List (Signal α)
  | node id (n := n) ugen inputs => node id ugen inputs ::
    if ugen.integratesInputs then (List.finRange n).flatMap fun i => (inputs i).descent else []

/-- **The first place without a rule** among those that integration comes to. -/
def obstacle? (s : Signal α) : Option (Signal α) := s.descent.find? fun p => !p.ugen.hasRule

/-- **How integration ends**: with the first place without a rule, if there is one. -/
theorem ends_integral (s : Signal α) (reels : Reels α) :
    Ends reels s.integral (s.obstacle?.map fun p => .noIntegral p.title) := by
  induction s with
  | node id ugen inputs ih =>
    have hrule := ugen.ends_integral ih
    have hroot : (node id ugen inputs).ugen.hasRule = (ugen.integratesInputs || ugen.integratesItself) := rfl
    rw [integral, obstacle?, descent]
    cases hinputs : ugen.integratesInputs with
    | true =>
      rw [hinputs, Bool.true_or] at hroot
      rw [hinputs, if_pos rfl] at hrule
      -- the first obstacle is that of the first input that has one
      rw [List.find?_cons_of_neg (by rw [hroot]; decide), if_pos rfl, List.find?_flatMap,
        List.map_findSome?]
      exact hrule
    | false =>
      rw [hinputs, Bool.false_or] at hroot
      rw [hinputs, if_neg Bool.false_ne_true] at hrule
      rw [if_neg Bool.false_ne_true, List.find?_singleton, hroot]
      cases hitself : ugen.integratesItself with
      | true =>
        rw [hitself, if_pos rfl] at hrule
        exact hrule
      | false =>
        rw [hitself, if_neg Bool.false_ne_true] at hrule
        exact hrule

/-- A modulation of the frequency ends as the integration does. -/
theorem ends_frequencyModulated (carrier s : Signal α) (reels : Reels α) :
    Ends reels (carrier.frequencyModulated s) (s.obstacle?.map fun p => .noIntegral p.title) :=
  (s.ends_integral reels).bind fun _ => succeeds_place _ _

theorem obstacle?_eq_none {s : Signal α} : s.obstacle? = none ↔ ∀ p ∈ s.descent, p.ugen.hasRule = true := by
  simp [obstacle?]

/-- A signal without an obstacle is integrated. -/
theorem succeeds_integral_of_hasRule {s : Signal α} (h : ∀ p ∈ s.descent, p.ugen.hasRule = true) :
    Succeeds reels s.integral := by
  have hends := s.ends_integral reels
  rw [obstacle?_eq_none.2 h] at hends
  exact hends

end Signal

/-! ### Checks that are never met -/

/-- A quotient, if the divisor is not zero. -/
def Scalar.divide (a b : α) : Wiring α α :=
  if eq b 0.0 then throw (.told .any "division by zero") else pure (a / b)

/-- **The rule of a generator with its checks**: the sine divides by a number that depends on its frequency, and
the gate opens for a span that is checked anew. -/
def Ugen.checkedIntegral : {n : ℕ} → Ugen α n → (Fin n → Wiring α (Signal α)) → Wiring α (Signal α)
  | _, .sine frequency phase, _ =>
    if eq frequency 0.0 then do
      enter .restingSine
      Signal.line 0.0 (sin phase)
    else do
      let scale ← divide 1.0 (2.0 * pi * frequency)
      let moving ← (← Signal.source (.sine frequency (phase + pi / 2.0))).gain (-scale)
      Signal.mix #[(1.0, moving), (scale * cos phase, ← Signal.constant 1.0)]
  | _, .gate span, inputs => do
    let F ← only inputs
    (← lessValue F (F.sample (← read) span.start)).gate span.start span.finish
  | _, u, inputs => u.integral inputs

/-- The antiderivative of a signal, by the rules with their checks. -/
def Signal.checkedIntegral : Signal α → Wiring α (Signal α)
  | node _ ugen inputs => ugen.checkedIntegral fun i => (inputs i).checkedIntegral

/-- The span of a gate stands its check. -/
theorem Signal.gate_span (span : Span α) (s : Signal α) :
    s.gate span.start span.finish = Signal.through (.gate span) s := by
  rw [Signal.gate, Span.make?, dif_pos span.ordered]

/-- **The divisor of the sine** is zero for no frequency but zero: a turn is more than one. -/
theorem Binary64.turn_beq_zero {frequency : Float} (h : eq frequency 0.0 = false) :
    eq (2.0 * pi * frequency) 0.0 = false :=
  Binary64.mul_beq_zero_of_one_le (x := 2.0 * pi) (by decide +kernel) h

theorem Ugen.checkedIntegral_eq {n : ℕ} (u : Ugen Float n) (inputs : Fin n → Wiring Float (Signal Float)) :
    u.checkedIntegral inputs = u.integral inputs := by
  cases u with
  | sine frequency phase =>
    rw [checkedIntegral, integral, sineIntegral]
    cases hzero : eq frequency 0.0 with
    | true => rfl
    | false =>
      simp only [Scalar.divide, Binary64.turn_beq_zero hzero, Bool.false_eq_true, if_false, pure_bind]
  | gate span =>
    rw [checkedIntegral, integral]
    simp only [Signal.gate_span]
  | _ => rfl

namespace Signal

/-- **On doubles no check is met**, whatever the frequencies and the spans. -/
theorem checkedIntegral_eq (s : Signal Float) : s.checkedIntegral = s.integral := by
  induction s with
  | node id ugen inputs ih =>
    rw [checkedIntegral, integral, funext ih]
    exact ugen.checkedIntegral_eq _

/-- **Integration fails at its first obstacle**, the first place without a rule among those that it comes to, and
the fault names that place. Without an obstacle it gives a signal. A frequency can be modulated by just the
signals that it integrates; and no division by zero and no span out of order is among the causes. -/
theorem integral_ends :
    (∀ {α : Type} [Scalar α] (s : Signal α) (reels : Reels α) (next : ℕ),
      (∀ fault, (s.integral reels next).result = .error fault ↔
        ∃ p, s.obstacle? = some p ∧ fault = .noIntegral p.title) ∧
      ((∃ F next', (s.integral reels next).result = .ok (F, next')) ↔
        ∀ p ∈ s.descent, p.ugen.hasRule = true) ∧
      ∀ carrier : Signal α,
        (∀ fault, ((carrier.frequencyModulated s) reels next).result = .error fault ↔
          (s.integral reels next).result = .error fault) ∧
        ((∃ M next', ((carrier.frequencyModulated s) reels next).result = .ok (M, next')) ↔
          ∃ F next', (s.integral reels next).result = .ok (F, next'))) ∧
    (∀ s : Signal Float, s.checkedIntegral = s.integral) ∧
    ∀ p : Signal Float, (Fault.noIntegral p.title : Fault Float).kind = .integral ∧
      (Fault.noIntegral p.title).message = p.title ++ " has no closed-form integral" := by
  refine ⟨fun {α} _ s reels next => ?_, checkedIntegral_eq, fun p => ⟨rfl, rfl⟩⟩
  obtain ⟨herror, hok⟩ := (s.ends_integral reels).result_iff next
  refine ⟨fun fault => ?_, ?_, fun carrier => ?_⟩
  · rw [herror, Option.map_eq_some_iff]
    exact exists_congr fun p => and_congr_right fun _ => eq_comm
  · rw [hok, Option.map_eq_none_iff, obstacle?_eq_none]
  · obtain ⟨herror', hok'⟩ := (ends_frequencyModulated carrier s reels).result_iff next
    exact ⟨fun fault => (herror' fault).trans (herror fault).symm, hok'.trans hok.symm⟩

/-- A gated impulse beside a sawtooth: the impulse comes first. The slowest sine that there is, delayed. -/
theorem integral_ends_impulse :
    ((node 3 (.mix fun _ : Fin 2 => 1.0) fun i => if i = 0 then
        node 1 (.gate ⟨0.0, 2.0, by decide +kernel⟩) fun _ => node 0 .impulse Fin.elim0
      else node 2 (.sawtooth 440.0) Fin.elim0).integral (#[] : Reels Float) 4).result =
        .error (.noIntegral "ImpulseNode") ∧
    ∃ F next', ((node 1 (.delay 1.0) fun _ => node 0 (.sine 5e-324 0.0) Fin.elim0).integral
      (#[] : Reels Float) 2).result = .ok (F, next') := by
  constructor
  · exact ((integral_ends.1 _ _ _).1 _).2 ⟨node 0 .impulse Fin.elim0, rfl, rfl⟩
  · refine (integral_ends.1 _ _ _).2.1.2 fun p hp => ?_
    rcases List.mem_cons.1 hp with rfl | hp
    · rfl
    · rw [List.mem_singleton.1 hp]
      rfl

end Signal

end Polyphony

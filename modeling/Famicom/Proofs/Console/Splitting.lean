import Famicom.Proofs.Console.Drift
import Famicom.Proofs.Console.Interrupts
import Famicom.Proofs.Console.RenderingGate
import Famicom.Proofs.Cpu.Splitting

/-!
# Runs of the schedule

The schedule runs the processor in small parts, to the dot of every step. Some of the dots are those
of an earlier step, or lie before one: the runs to them are made all the same, and change nothing.

* `Console.runCpu_runCpu`: a run may be broken off at an earlier limit.
* `Console.runCpu_performAll`: within a frame, a run that is not to a later limit than an earlier
  one changes nothing.
* `Console.runs_in_parts`: a run may be made in any number of parts, and superfluous ones do no
  harm.
-/

namespace Famicom

namespace Console

variable {T C A D : Type} [Time T] [Cartridge C] [Apu A] [Controller D]
  {console : Console T C A D} {limit earlier later : T}

theorem runCpu_of_not_due (h : ¬ console.cpu.Due limit) : console.runCpu limit = console := by
  unfold runCpu
  rw [Cpu.runTo_of_not_due h]

/-- Once the processor has run to a limit, no round is due before it until the frame is closed. -/
theorem not_due_performAll {acts : List (FrameAct T)} (hopen : .close ∉ acts)
    (hmem : .runCpu limit ∈ acts) : ¬ (console.performAll acts).cpu.Due limit := by
  obtain ⟨before, after, rfl⟩ := List.append_of_mem hmem
  simp only [List.mem_append, List.mem_cons, not_or] at hopen
  rw [performAll_append, performAll_cons]
  generalize console.performAll before = reached
  obtain ⟨_, hafter⟩ := (reached.act (.runCpu limit)).elapsed_performAll hopen.2.2
  exact hafter.not_due (reached.cpu.not_due_runTo reached.bus limit)

theorem foldl_runCpu (limits : List T) (console : Console T C A D) :
    limits.foldl runCpu console = console.performAll (limits.map .runCpu) := by
  rw [performAll, List.foldl_map]
  rfl

/-- How every frame begins; the next thing it does is to run the processor to dot 0 once more. -/
def openingActs : List (FrameAct T) :=
  [.enter (.visible ⟨0, by decide⟩), .runCpu (FrameTime.ofDot 0 0),
    .perform (.visible ⟨0, by decide⟩) ⟨0, .clearSecondaryOam⟩]

theorem openingActs_prefix (console : Console T C A D) :
    openingActs ++ [.runCpu (FrameTime.ofDot 0 0)] <+: console.frameActs := by
  obtain ⟨rest, hstages⟩ : ∃ rest, (frameStages : List (Stage T)) =
      [.acts [.enter (.visible 0)]] ++ .line (.visible 0) :: rest := ⟨_, rfl⟩
  have hline (rendering : Bool) :
      [.runCpu (FrameTime.ofDot 0 0), .perform (.visible 0) ⟨0, .clearSecondaryOam⟩,
        .runCpu (FrameTime.ofDot 0 0)] <+:
          ((Line.visible 0).acts rendering : List (FrameAct T)) := by
    cases rendering <;> exact ⟨_, rfl⟩
  have hentered : [.enter (.visible 0)] ++ (Line.visible 0).acts _ <+: console.frameActs :=
    console.prefix_line hstages
  exact ((List.prefix_append_right_inj [.enter (.visible 0)]).mpr (hline _)).trans hentered

variable [LE T] [OrderedTime T]

/-- A run may be broken off at an earlier limit. -/
theorem runCpu_runCpu (h : limit ≤ later) (console : Console T C A D) :
    (console.runCpu limit).runCpu later = console.runCpu later :=
  congrArg (fun run : Cpu T × Bus C A D => { console with cpu := run.1, bus := run.2 })
    (console.cpu.runTo_runTo console.bus h)

/-- Within a frame, a run that is not to a later limit than an earlier one changes nothing. -/
theorem runCpu_performAll {acts : List (FrameAct T)} (hopen : .close ∉ acts)
    (hmem : .runCpu earlier ∈ acts) (hle : limit ≤ earlier) :
    (console.performAll acts).runCpu limit = console.performAll acts :=
  runCpu_of_not_due fun hdue => not_due_performAll hopen hmem (hdue.mono hle)

/-- Runs to limits that increase are one run to the last of them. -/
theorem foldl_runCpu_of_sorted {limits : List T} {last : T}
    (h : (limits ++ [last]).Pairwise (· ≤ ·)) (console : Console T C A D) :
    (limits ++ [last]).foldl runCpu console = console.runCpu last := by
  induction limits generalizing console with
  | nil => rfl
  | cons first limits ih =>
    obtain ⟨hfirst, hrest⟩ := List.pairwise_cons.mp h
    have hle : first ≤ last := hfirst last (List.mem_concat_self ..)
    exact (ih hrest (console.runCpu first)).trans (console.runCpu_runCpu hle)

/-- It does not matter in how many parts the processor is run. Runs to increasing limits, one after
the other, leave the processor and its bus as the run to the last limit alone does; a run to a limit
that is not above an earlier one changes nothing; and neither does one of a frame, whatever the
picture unit has done since the earlier one. -/
theorem runs_in_parts (console : Console T C A D) :
    (∀ limits last, (limits ++ [last]).Pairwise (· ≤ ·) →
      (limits ++ [last]).foldl runCpu console = console.runCpu last) ∧
    (∀ limits limit, (∃ earlier ∈ limits, limit ≤ earlier) →
      (limits ++ [limit]).foldl runCpu console = limits.foldl runCpu console) ∧
    ∀ done limit, done ++ [.runCpu limit] <+: console.frameActs →
      (∃ earlier, .runCpu earlier ∈ done ∧ limit ≤ earlier) →
        (console.performAll done).runCpu limit = console.performAll done := by
  refine ⟨fun limits last h => foldl_runCpu_of_sorted h console, ?_, ?_⟩
  · rintro limits limit ⟨earlier, hmem, hle⟩
    have hopen : (.close : FrameAct T) ∉ limits.map .runCpu := by simp
    rw [List.foldl_append, foldl_runCpu limits]
    exact runCpu_performAll hopen (List.mem_map_of_mem hmem) hle
  · rintro done limit hdone ⟨earlier, hmem, hle⟩
    have hopen : .close ∉ done := fun hclose =>
      console.close_notMem_frameBody ((prefix_frameBody hdone).subset hclose)
    exact runCpu_performAll hopen hmem hle

/-- The first frame of a console with the bare board begins with two runs to dot 0. -/
theorem runs_in_parts_bare :
    (([10, 20, 20] ++ [30] : List ℚ).Pairwise (· ≤ ·) ∧
      ([10, 20, 20] ++ [30]).foldl runCpu bare = bare.runCpu 30) ∧
    ((∃ earlier ∈ ([30] : List ℚ), 20 ≤ earlier) ∧
      ([30] ++ [20]).foldl runCpu bare = [30].foldl runCpu bare) ∧
    openingActs ++ [.runCpu (FrameTime.ofDot 0 0)] <+: bare.frameActs ∧
    (∃ earlier, .runCpu earlier ∈ openingActs ∧ FrameTime.ofDot 0 0 ≤ (earlier : ℚ)) ∧
    (bare.performAll openingActs).runCpu (FrameTime.ofDot 0 0) = bare.performAll openingActs := by
  have hsorted : ([10, 20, 20] ++ [30] : List ℚ).Pairwise (· ≤ ·) := by decide
  have hearlier : ∃ earlier ∈ ([30] : List ℚ), 20 ≤ earlier := ⟨30, by decide⟩
  have hdot : ∃ earlier, .runCpu earlier ∈ openingActs ∧ FrameTime.ofDot 0 0 ≤ (earlier : ℚ) :=
    ⟨_, .tail _ (.head _), le_rfl⟩
  have hprefix := bare.openingActs_prefix
  obtain ⟨hparts, hagain, hframe⟩ := runs_in_parts bare
  exact ⟨⟨hsorted, hparts _ _ hsorted⟩, ⟨hearlier, hagain _ _ hearlier⟩, hprefix, hdot,
    hframe _ _ hprefix hdot⟩

end Console

end Famicom

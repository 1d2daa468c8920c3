import Famicom.Proofs.Ppu.Calls
import Famicom.Proofs.Ppu.Pipeline

/-!
# The flags of the status

Three flags tell a program where the picture is. The two of the sprites stay set until vertical
blanking ends, however the unit is used in between. The flag of vertical blanking can be read once.

* `Ppu.status_run`: what a request does to the flags.
* `Latch.runAll_iff`: a flag is set exactly if it has been raised and not been cleared since.
* `Ppu.flagsTell`: what the flags say of the requests that have been made.
-/

namespace Famicom

namespace Ppu

/-! ## Requests that concern a flag -/

/-- Whether a request begins vertical blanking. -/
def Call.beginsVblank : Call → Bool
  | .beginVblank => true
  | _ => false

/-- Whether a request ends vertical blanking. -/
def Call.endsVblank : Call → Bool
  | .endVblank => true
  | _ => false

/-- Whether a request reads the status, at its address or at a mirror of it. -/
def Call.readsStatus : Call → Bool
  | @Call.read _ _ _ address => address % 8 == 2
  | _ => false

/-- Whether a search for the sprites of a line, having found eight, meets what it takes for a
ninth. -/
def meetsNinth (ppu : Ppu) (line : UInt16) : Bool :=
  (Sprite.candidates ppu.oam ppu.control.spriteHeight line)[7]?.any fun eighth =>
    (Sprite.overflowWalk ppu.oam ppu.control.spriteHeight line (eighth + 1) 0).1

/-- Whether a request raises the flag of a ninth sprite. -/
def raisesOverflow (ppu : Ppu) : Call → Bool
  | .searchSprites line => ppu.meetsNinth line
  | _ => false

/-- Whether a request raises the flag of the first sprite. -/
def raisesHit (ppu : Ppu) : Call → Bool
  | .drawTile _ tile => (List.finRange 8).any (ppu.hitAt tile)
  | _ => false

/-! ## One request -/

theorem status_readRegister {C : Type} [Cartridge C] (ppu : Ppu) (cartridge : C)
    (address : UInt16) :
    (ppu.readRegister cartridge address).2.1.status =
      { ppu.status with vblank := ppu.status.vblank && !(address % 8 == 2) } := by
  unfold readRegister
  dsimp only
  by_cases hstatus : address % 8 = 2
  · simp [hstatus, readStatus]
  · have hread : (address % 8 == 2) = false := beq_eq_false_iff_ne.mpr hstatus
    rw [if_neg hstatus, hread, Bool.not_false, Bool.and_true]
    split
    · rfl
    split
    · unfold readData
      dsimp only
      split <;> rfl
    · rfl

theorem status_searchSprites (ppu : Ppu) (line : UInt16) :
    (ppu.searchSprites line).status =
      { ppu.status with overflow := ppu.meetsNinth line || ppu.status.overflow } := by
  unfold searchSprites meetsNinth
  dsimp only
  rw [Bool.or_comm]
  cases (Sprite.candidates ppu.oam ppu.control.spriteHeight line)[7]? <;> rfl

/-- What a request does to the flags. -/
theorem status_run (ppu : Ppu) (call : Call) :
    (ppu.run call).status =
      { overflow := ppu.raisesOverflow call || (ppu.status.overflow && !call.endsVblank)
        spriteZeroHit := ppu.raisesHit call || (ppu.status.spriteZeroHit && !call.endsVblank)
        vblank := call.beginsVblank ||
          (ppu.status.vblank && !(call.endsVblank || call.readsStatus)) } := by
  have hsame : ppu.status =
      ⟨ppu.status.overflow && true, ppu.status.spriteZeroHit && true,
        ppu.status.vblank && true⟩ := by
    simp only [Bool.and_true]
  cases call with
  | read cartridge address =>
    refine (ppu.status_readRegister cartridge address).trans ?_
    simp [raisesOverflow, raisesHit, Call.beginsVblank, Call.endsVblank, Call.readsStatus]
  | write cartridge address value =>
    exact (congrArg (·.status) (ppu.writeRegister_changes cartridge address value)).trans hsame
  | fetchSprite cartridge slot =>
    exact (congrArg (·.status) (ppu.fetchSprite_changes cartridge slot)).trans hsame
  | searchSprites line =>
    refine (ppu.status_searchSprites line).trans ?_
    simp [raisesOverflow, raisesHit, Call.beginsVblank, Call.endsVblank, Call.readsStatus]
  | drawTile line tile =>
    simp [run, drawTile, raisesOverflow, raisesHit, Call.beginsVblank, Call.endsVblank,
      Call.readsStatus, Bool.or_comm]
  | beginVblank =>
    simp [run, Ppu.beginVblank, raisesOverflow, raisesHit, Call.beginsVblank, Call.endsVblank]
  | endVblank =>
    simp [run, Ppu.endVblank, PpuStatus.clear, raisesOverflow, raisesHit, Call.beginsVblank,
      Call.endsVblank]
  | _ => exact hsame

theorem Call.beginsVblank_iff (call : Call) : call.beginsVblank = true ↔ call = .beginVblank := by
  cases call <;> simp [beginsVblank]

theorem Call.endsVblank_iff (call : Call) : call.endsVblank = true ↔ call = .endVblank := by
  cases call <;> simp [endsVblank]

theorem raisesOverflow_iff (ppu : Ppu) (call : Call) :
    ppu.raisesOverflow call = true ↔
      ∃ line, call = .searchSprites line ∧ ppu.meetsNinth line = true := by
  cases call <;> simp [raisesOverflow]

theorem raisesHit_iff (ppu : Ppu) (call : Call) :
    ppu.raisesHit call = true ↔
      ∃ line tile, call = .drawTile line tile ∧ ∃ i, ppu.hitAt tile i = true := by
  cases call with
  | drawTile line tile =>
    constructor
    · intro hraised
      exact ⟨line, tile, rfl, by simpa [raisesHit] using hraised⟩
    · rintro ⟨_, _, heq, hit⟩
      cases heq
      simpa [raisesHit] using hit
  | _ => simp [raisesHit]

/-! ## Any number of requests -/

/-- A flag of the unit, the requests that raise it and those that clear it; no other request changes
it. -/
structure Latch (flag : Ppu → Bool) (Raises : Ppu → Call → Prop) (Clears : Call → Prop) : Prop where
  run : ∀ ppu call,
    flag (ppu.run call) = true ↔ Raises ppu call ∨ flag ppu = true ∧ ¬ Clears call

/-- A flag is set exactly if one of the requests has raised it and none has cleared it since, or if
it was set before and none has cleared it. -/
theorem Latch.runAll_iff {flag : Ppu → Bool} {Raises : Ppu → Call → Prop} {Clears : Call → Prop}
    (h : Latch flag Raises Clears) (ppu : Ppu) (calls : List Call) :
    flag (ppu.runAll calls) = true ↔
      (flag ppu = true ∧ ∀ call ∈ calls, ¬ Clears call) ∨
        ∃ before call after, calls = before ++ call :: after ∧
          Raises (ppu.runAll before) call ∧ ∀ later ∈ after, ¬ Clears later := by
  induction calls generalizing ppu with
  | nil => simp [runAll]
  | cons call calls ih =>
    have hfirst := h.run ppu call
    refine (ih (ppu.run call)).trans ?_
    rw [hfirst]
    -- A flag that is set after the first request was raised by it, or was set before and kept.
    constructor
    · rintro (⟨hraised | ⟨hset, hkept⟩, hnone⟩ | ⟨before, raiser, after, rfl, hraised, hnone⟩)
      · exact .inr ⟨[], call, calls, rfl, hraised, hnone⟩
      · exact .inl ⟨hset, List.forall_mem_cons.mpr ⟨hkept, hnone⟩⟩
      · exact .inr ⟨call :: before, raiser, after, rfl, hraised, hnone⟩
    · rintro (⟨hset, hnone⟩ | ⟨before, raiser, after, heq, hraised, hnone⟩)
      · obtain ⟨hkept, hrest⟩ := List.forall_mem_cons.mp hnone
        exact .inl ⟨.inr ⟨hset, hkept⟩, hrest⟩
      · cases before with
        | nil =>
          cases heq
          exact .inl ⟨.inl hraised, hnone⟩
        | cons first before =>
          cases heq
          exact .inr ⟨before, raiser, after, rfl, hraised, hnone⟩

theorem latch_overflow :
    Latch (·.status.overflow)
      (fun ppu call => ∃ line, call = .searchSprites line ∧ ppu.meetsNinth line = true)
      (· = .endVblank) where
  run ppu call := by
    simp [status_run, raisesOverflow_iff, ← Call.endsVblank_iff]

theorem latch_spriteZeroHit :
    Latch (·.status.spriteZeroHit)
      (fun ppu call =>
        ∃ line tile, call = .drawTile line tile ∧ ∃ i, ppu.hitAt tile i = true)
      (· = .endVblank) where
  run ppu call := by
    simp [status_run, raisesHit_iff, ← Call.endsVblank_iff]

theorem latch_vblank :
    Latch (·.status.vblank) (fun _ call => call = .beginVblank)
      (fun call => call = .endVblank ∨ call.readsStatus = true) where
  run ppu call := by
    simp [status_run, Call.beginsVblank_iff, ← Call.endsVblank_iff]

/-! ## Reading the status -/

/-- What the status register shows of its flags. -/
theorem bit_readStatus (ppu : Ppu) :
    Byte.bit ppu.readStatus.1 5 = ppu.status.overflow ∧
      Byte.bit ppu.readStatus.1 6 = ppu.status.spriteZeroHit ∧
      Byte.bit ppu.readStatus.1 7 = ppu.status.vblank := by
  have hbits : ∀ overflow hit vblank : Bool, ∀ latch : UInt8,
      let value := (⟨overflow, hit, vblank⟩ : PpuStatus).toByte + latch % 0x20
      Byte.bit value 5 = overflow ∧ Byte.bit value 6 = hit ∧ Byte.bit value 7 = vblank := by
    intro overflow hit vblank
    cases overflow <;> cases hit <;> cases vblank <;> exact Byte.forall_of_fin (by decide +kernel)
  exact hbits _ _ _ ppu.ioLatch

/-- The byte that a request reads, if it reads the status. -/
def statusRead? (ppu : Ppu) : Call → Option UInt8
  | @Call.read _ _ cartridge address =>
    if address % 8 = 2 then some (ppu.readRegister cartridge address).1 else none
  | _ => none

/-- The bytes that some requests read from the status. -/
def statusReads (ppu : Ppu) : List Call → List UInt8
  | [] => []
  | call :: calls => (ppu.statusRead? call).toList ++ (ppu.run call).statusReads calls

/-- How many of the bytes read from the status report vertical blanking. -/
def vblankReports (ppu : Ppu) (calls : List Call) : Nat :=
  (ppu.statusReads calls).countP (Byte.bit · 7)

/-- A read of the status reports the flag as it is before the read. -/
theorem countP_statusRead? (ppu : Ppu) (call : Call) :
    (ppu.statusRead? call).toList.countP (Byte.bit · 7) =
      (call.readsStatus && ppu.status.vblank).toNat := by
  cases call with
  | read cartridge address =>
    by_cases hstatus : address % 8 = 2
    · have hread : ppu.statusRead? (.read cartridge address) = some ppu.readStatus.1 := by
        simp [statusRead?, readRegister, hstatus]
      rw [hread, Option.toList_some, List.countP_singleton, ppu.bit_readStatus.2.2]
      cases ppu.status.vblank <;> simp [Call.readsStatus, hstatus]
    · have hread : (address % 8 == 2) = false := beq_eq_false_iff_ne.mpr hstatus
      simp [statusRead?, Call.readsStatus, hstatus, hread]
  | _ => rfl

/-- A flag that is reported is cleared, so a request that reports it does not leave it set. -/
theorem report_run (ppu : Ppu) (call : Call) :
    (ppu.statusRead? call).toList.countP (Byte.bit · 7) + (ppu.run call).status.vblank.toNat ≤
      ppu.status.vblank.toNat + call.beginsVblank.toNat := by
  rw [countP_statusRead?, status_run]
  dsimp only
  generalize ppu.status.vblank = vblank, call.beginsVblank = begins, call.endsVblank = ends,
    call.readsStatus = reads
  revert vblank begins ends reads
  decide

/-- Every report answers a beginning of vertical blanking of its own, or the flag that was set
before. -/
theorem vblankReports_le (ppu : Ppu) (calls : List Call) :
    ppu.vblankReports calls + (ppu.runAll calls).status.vblank.toNat ≤
      ppu.status.vblank.toNat + calls.countP Call.beginsVblank := by
  induction calls generalizing ppu with
  | nil => simp [vblankReports, statusReads, runAll]
  | cons call calls ih =>
    have hfirst := ppu.report_run call
    have hrest := ih (ppu.run call)
    have hreports : ppu.vblankReports (call :: calls) =
        (ppu.statusRead? call).toList.countP (Byte.bit · 7) +
          (ppu.run call).vblankReports calls := by
      simp only [vblankReports, statusReads, List.countP_append]
    have hbegins : (call :: calls).countP Call.beginsVblank =
        calls.countP Call.beginsVblank + call.beginsVblank.toNat := by
      rw [List.countP_cons]
      cases call.beginsVblank <;> rfl
    have hrun : ppu.runAll (call :: calls) = (ppu.run call).runAll calls := rfl
    rw [hreports, hbegins, hrun]
    omega

/-! ## What the flags tell -/

/-- What the flags of the status tell of the requests that have been made. -/
structure FlagsTell (ppu : Ppu) (calls : List Call) : Prop where
  /-- The status register shows the flags. -/
  shown : Byte.bit (ppu.runAll calls).readStatus.1 5 = (ppu.runAll calls).status.overflow ∧
    Byte.bit (ppu.runAll calls).readStatus.1 6 = (ppu.runAll calls).status.spriteZeroHit ∧
    Byte.bit (ppu.runAll calls).readStatus.1 7 = (ppu.runAll calls).status.vblank
  /-- The flag of a ninth sprite tells that a search for the sprites of a line has met one, and that
  vertical blanking has not ended since. Once set, it stays until then, and nothing else sets it. -/
  overflow_iff : (ppu.runAll calls).status.overflow = true ↔
    (ppu.status.overflow = true ∧ ∀ call ∈ calls, call ≠ .endVblank) ∨
      ∃ before call after, calls = before ++ call :: after ∧
        (∃ line, call = .searchSprites line ∧ (ppu.runAll before).meetsNinth line = true) ∧
        ∀ later ∈ after, later ≠ .endVblank
  /-- The flag of the first sprite tells that it has met the background where a tile column was
  drawn, and that vertical blanking has not ended since. It stays likewise, and nothing else sets
  it. -/
  spriteZeroHit_iff : (ppu.runAll calls).status.spriteZeroHit = true ↔
    (ppu.status.spriteZeroHit = true ∧ ∀ call ∈ calls, call ≠ .endVblank) ∨
      ∃ before call after, calls = before ++ call :: after ∧
        (∃ line tile, call = .drawTile line tile ∧
          ∃ i, (ppu.runAll before).hitAt tile i = true) ∧
        ∀ later ∈ after, later ≠ .endVblank
  /-- The flag of vertical blanking tells that it has begun and not ended, and that the status has
  not been read since. -/
  vblank_iff : (ppu.runAll calls).status.vblank = true ↔
    (ppu.status.vblank = true ∧
        ∀ call ∈ calls, ¬ (call = .endVblank ∨ call.readsStatus = true)) ∨
      ∃ before call after, calls = before ++ call :: after ∧ call = .beginVblank ∧
        ∀ later ∈ after, ¬ (later = .endVblank ∨ later.readsStatus = true)
  /-- No more reads of the status report vertical blanking than it has begun; one more, if its flag
  was set before. -/
  reports_le : ppu.vblankReports calls ≤
    ppu.status.vblank.toNat + calls.countP Call.beginsVblank
  /-- So between two beginnings of vertical blanking at most one read reports it. -/
  reports_le_one : (∀ call ∈ calls, call ≠ .beginVblank) → ppu.vblankReports calls ≤ 1

theorem flagsTell (ppu : Ppu) (calls : List Call) : ppu.FlagsTell calls where
  shown := (ppu.runAll calls).bit_readStatus
  overflow_iff := latch_overflow.runAll_iff ppu calls
  spriteZeroHit_iff := latch_spriteZeroHit.runAll_iff ppu calls
  vblank_iff := latch_vblank.runAll_iff ppu calls
  reports_le := by
    have hreports := ppu.vblankReports_le calls
    omega
  reports_le_one hnone := by
    have hreports := ppu.vblankReports_le calls
    have hbegins : calls.countP Call.beginsVblank = 0 := by
      rw [List.countP_eq_zero]
      intro call hcall
      rw [Call.beginsVblank_iff]
      exact hnone call hcall
    have hflag := ppu.status.vblank.toNat_le
    omega

end Ppu

end Famicom

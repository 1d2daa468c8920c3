import Mathlib.Algebra.Ring.Parity
import Mathlib.Data.List.Induction
import Famicom.Proofs.Ppu.Counters
import Famicom.Proofs.Ppu.Flags

/-!
# Writing the scroll position

A program says where the picture begins by a nametable, a column and a line, or by an address, which
it writes in halves. Both halves go to one register, and one toggle tells them apart, whichever of
the two pairs is written. A read of the status makes the next half a first one.

* `Ppu.ScrollAccess`: what reaches the scroll registers; all other requests leave them alone.
* `Ppu.follows_runAll`: what any requests leave in them.
* `Ppu.secondWrite_accessAll`: the toggle counts halves.
* `Ppu.scrollProtocol`: what is written is what the fields of the scroll position say.
-/

namespace Famicom

namespace VramAddress

/-! ## Fields that a program writes -/

theorem fields_withNametable (v : VramAddress) (bits : UInt8) :
    (v.withNametable bits).fineY.toNat = v.fineY.toNat ∧
      (v.withNametable bits).nametableY.toNat = bits.toNat / 2 % 2 ∧
      (v.withNametable bits).nametableX.toNat = bits.toNat % 2 ∧
      (v.withNametable bits).coarseY.toNat = v.coarseY.toNat ∧
      (v.withNametable bits).coarseX.toNat = v.coarseX.toNat := by
  obtain ⟨hf, -, -, hcy, hcx⟩ := v.fields_lt
  have hhigh : (bits / 2 % 2).toUInt16.toNat = bits.toNat / 2 % 2 := by simp
  have hlow : (bits % 2).toUInt16.toNat = bits.toNat % 2 := by simp
  rw [← hhigh, ← hlow]
  exact fields_of_toNat hf (by omega) (by omega) hcy hcx
    (toNat_ofFields hf (by omega) (by omega) hcy hcx)

theorem fields_withScrollX (v : VramAddress) (x : UInt8) :
    (v.withScrollX x).fineY.toNat = v.fineY.toNat ∧
      (v.withScrollX x).nametableY.toNat = v.nametableY.toNat ∧
      (v.withScrollX x).nametableX.toNat = v.nametableX.toNat ∧
      (v.withScrollX x).coarseY.toNat = v.coarseY.toNat ∧
      (v.withScrollX x).coarseX.toNat = x.toNat / 8 := by
  obtain ⟨hf, hy, hx, hcy, -⟩ := v.fields_lt
  have hcolumn : (x / 8).toUInt16.toNat = x.toNat / 8 := by simp
  have hlt := toNat_div_eight_lt x
  rw [← hcolumn]
  exact fields_of_toNat hf hy hx hcy hlt (toNat_ofFields hf hy hx hcy hlt)

theorem fields_withScrollY (v : VramAddress) (y : UInt8) :
    (v.withScrollY y).fineY.toNat = y.toNat % 8 ∧
      (v.withScrollY y).nametableY.toNat = v.nametableY.toNat ∧
      (v.withScrollY y).nametableX.toNat = v.nametableX.toNat ∧
      (v.withScrollY y).coarseY.toNat = y.toNat / 8 ∧
      (v.withScrollY y).coarseX.toNat = v.coarseX.toNat := by
  obtain ⟨-, hy, hx, -, hcx⟩ := v.fields_lt
  have hfine : (y % 8).toUInt16.toNat = y.toNat % 8 := by simp
  have hrow : (y / 8).toUInt16.toNat = y.toNat / 8 := by simp
  have hlt := toNat_div_eight_lt y
  rw [← hfine, ← hrow]
  exact fields_of_toNat (by omega) hy hx hlt hcx (toNat_ofFields (by omega) hy hx hlt hcx)

/-- The nametable may be chosen before or after the column, -/
theorem withNametable_withScrollX (v : VramAddress) (bits x : UInt8) :
    (v.withScrollX x).withNametable bits = (v.withNametable bits).withScrollX x := by
  have hchosen := (v.withScrollX x).fields_withNametable bits
  have hscrolled := (v.withNametable bits).fields_withScrollX x
  have hv := v.fields_withScrollX x
  have hv' := v.fields_withNametable bits
  apply eq_of_line_column (withNametable_lt _ _) (withScrollX_lt _ _)
  · unfold line
    omega
  · unfold column
    omega

/-- and before or after the line. -/
theorem withNametable_withScrollY (v : VramAddress) (bits y : UInt8) :
    (v.withScrollY y).withNametable bits = (v.withNametable bits).withScrollY y := by
  have hchosen := (v.withScrollY y).fields_withNametable bits
  have hscrolled := (v.withNametable bits).fields_withScrollY y
  have hv := v.fields_withScrollY y
  have hv' := v.fields_withNametable bits
  apply eq_of_line_column (withNametable_lt _ _) (withScrollY_lt _ _)
  · unfold line
    omega
  · unfold column
    omega

end VramAddress

namespace Ppu

/-! ## Accesses -/

/-- What reaches the scroll registers: the address register, the place at which pictures begin, and
the toggle. -/
inductive ScrollAccess where
  /-- The status is read. -/
  | status
  /-- The control register is written, two bits of which choose a nametable. -/
  | control (value : UInt8)
  /-- Half of a position is written. -/
  | position (value : UInt8)
  /-- Half of an address is written. -/
  | address (value : UInt8)
  | reset
  deriving DecidableEq, Repr

namespace ScrollAccess

/-- Whether the next half is a first one thereafter. -/
def beginsPair : ScrollAccess → Bool
  | status | reset => true
  | _ => false

/-- Whether it writes half of a pair. -/
def isHalf : ScrollAccess → Bool
  | position _ | address _ => true
  | _ => false

/-- What a read of a register is to the scroll registers. -/
def ofRead? (address : UInt16) : Option ScrollAccess :=
  if address % 8 = 2 then some .status else none

/-- What a write to a register is to them. -/
def ofWrite? (address : UInt16) (value : UInt8) : Option ScrollAccess :=
  if address % 8 = 0 then some (.control value)
  else if address % 8 = 5 then some (.position value)
  else if address % 8 = 6 then some (.address value)
  else none

end ScrollAccess

/-- What a request is to the scroll registers. -/
def Call.scrollAccess? : Call → Option ScrollAccess
  | @Call.read _ _ _ address => ScrollAccess.ofRead? address
  | @Call.write _ _ _ address value => ScrollAccess.ofWrite? address value
  | .reset => some .reset
  | _ => none

/-- Whether a request moves the address register on, by an access at `$2007` or while rendering. -/
def Call.movesAddress : Call → Bool
  | @Call.read _ _ _ address => address % 8 == 7
  | @Call.write _ _ _ address _ => address % 8 == 7
  | .nextColumn | .nextRow | .reloadColumn | .reloadRow => true
  | _ => false

/-- What an access does. -/
def access (ppu : Ppu) : ScrollAccess → Ppu
  | .status => ppu.readStatus.2
  | .control value => ppu.writeControl value
  | .position value => ppu.writeScroll value
  | .address value => ppu.writeAddress value
  | .reset => ppu.reset

/-- What accesses do, one after the other. -/
def accessAll (ppu : Ppu) (accesses : List ScrollAccess) : Ppu := accesses.foldl access ppu

theorem accessAll_cons (ppu : Ppu) (a : ScrollAccess) (accesses : List ScrollAccess) :
    ppu.accessAll (a :: accesses) = (ppu.access a).accessAll accesses :=
  rfl

theorem accessAll_append (ppu : Ppu) (accesses later : List ScrollAccess) :
    ppu.accessAll (accesses ++ later) = (ppu.accessAll accesses).accessAll later :=
  List.foldl_append

/-- A state whose scroll registers are those of another; the address register too, as long as it
stands still. -/
structure Follows (Still : Prop) (ppu later : Ppu) : Prop where
  t : later.t = ppu.t
  fineX : later.fineX = ppu.fineX
  secondWrite : later.secondWrite = ppu.secondWrite
  v : Still → later.v = ppu.v

section

variable {Still : Prop} {ppu later last : Ppu}

theorem Follows.refl (Still : Prop) (ppu : Ppu) : ppu.Follows Still ppu :=
  ⟨rfl, rfl, rfl, fun _ => rfl⟩

theorem Follows.trans (h : Follows Still ppu later) (h' : Follows Still later last) :
    Follows Still ppu last where
  t := h'.t.trans h.t
  fineX := h'.fineX.trans h.fineX
  secondWrite := h'.secondWrite.trans h.secondWrite
  v hstill := (h'.v hstill).trans (h.v hstill)

/-- An access depends on the scroll registers alone. -/
theorem Follows.access (h : Follows Still ppu later) (a : ScrollAccess) :
    Follows Still (ppu.access a) (later.access a) := by
  obtain ⟨ht, hx, hw, hv⟩ := h
  cases a with
  | status => exact ⟨ht, hx, rfl, hv⟩
  | control value => exact ⟨congrArg (·.withNametable value) ht, hx, hw, hv⟩
  | position value =>
    simp only [Ppu.access, writeScroll, hw]
    split
    · exact ⟨congrArg (·.withScrollY value) ht, hx, rfl, hv⟩
    · exact ⟨congrArg (·.withScrollX value) ht, rfl, rfl, hv⟩
  | address value =>
    have hfirst : Word.ofBytes (Word.low later.t) (value % 0x40) =
        Word.ofBytes (Word.low ppu.t) (value % 0x40) := by rw [ht]
    have hsecond : Word.ofBytes value (Word.high later.t) =
        Word.ofBytes value (Word.high ppu.t) := by rw [ht]
    simp only [Ppu.access, writeAddress, hw]
    split
    · exact ⟨hsecond, hx, rfl, fun _ => hsecond⟩
    · exact ⟨hfirst, hx, rfl, hv⟩
  | reset => exact ⟨rfl, rfl, rfl, hv⟩

end

/-! ## Requests -/

section

variable {C : Type} [Cartridge C] {Still : Prop}

/-- Reading a register reaches the scroll registers through the status. -/
theorem follows_readRegister (ppu : Ppu) (cartridge : C) (address : UInt16)
    (hstill : Still → address % 8 ≠ 7) :
    Follows Still (ppu.accessAll (ScrollAccess.ofRead? address).toList)
      (ppu.readRegister cartridge address).2.1 := by
  unfold readRegister ScrollAccess.ofRead?
  dsimp only
  split
  · exact ⟨rfl, rfl, rfl, fun _ => rfl⟩
  split
  · exact ⟨rfl, rfl, rfl, fun _ => rfl⟩
  split
  · next hdata =>
    unfold readData
    dsimp only
    split <;> exact ⟨rfl, rfl, rfl, fun h => absurd hdata (hstill h)⟩
  · exact .refl Still ppu

/-- Writing one reaches them through the control register and the two that take pairs. -/
theorem follows_writeRegister (ppu : Ppu) (cartridge : C) (address : UInt16) (value : UInt8)
    (hstill : Still → address % 8 ≠ 7) :
    Follows Still (ppu.accessAll (ScrollAccess.ofWrite? address value).toList)
      (ppu.writeRegister cartridge address value).1 := by
  have hlatch : Follows Still ppu { ppu with ioLatch := value } := ⟨rfl, rfl, rfl, fun _ => rfl⟩
  unfold writeRegister ScrollAccess.ofWrite?
  generalize { ppu with ioLatch := value } = latched at hlatch
  dsimp only
  by_cases hcontrol : address % 8 = 0
  · rw [if_pos hcontrol, if_pos hcontrol]
    exact hlatch.access (.control value)
  rw [if_neg hcontrol, if_neg hcontrol]
  by_cases hposition : address % 8 = 5
  · simp only [hposition, if_true]
    exact hlatch.access (.position value)
  rw [if_neg hposition, if_neg hposition]
  by_cases haddress : address % 8 = 6
  · simp only [haddress, if_true]
    exact hlatch.access (.address value)
  rw [if_neg haddress, if_neg haddress]
  split
  · exact hlatch.trans ⟨rfl, rfl, rfl, fun _ => rfl⟩
  split
  · exact hlatch.trans ⟨rfl, rfl, rfl, fun _ => rfl⟩
  split
  · exact hlatch.trans ⟨rfl, rfl, rfl, fun _ => rfl⟩
  split
  · next hdata =>
    refine hlatch.trans ?_
    unfold writeData writeVram
    dsimp only
    repeat' split
    all_goals exact ⟨rfl, rfl, rfl, fun h => absurd hdata (hstill h)⟩
  · exact hlatch

/-- A request leaves in the scroll registers what its access does to them. -/
theorem follows_run (ppu : Ppu) {call : Call} (hstill : Still → call.movesAddress = false) :
    Follows Still (ppu.accessAll call.scrollAccess?.toList) (ppu.run call) := by
  cases call with
  | read cartridge address =>
    exact ppu.follows_readRegister cartridge address fun h => ne_of_beq_false (hstill h)
  | write cartridge address value =>
    exact ppu.follows_writeRegister cartridge address value fun h => ne_of_beq_false (hstill h)
  | nextColumn | nextRow | reloadColumn | reloadRow =>
    exact ⟨rfl, rfl, rfl, fun h => nomatch hstill h⟩
  | fetchSprite cartridge slot =>
    have hsettings := ppu.fetchSprite_settings cartridge slot
    refine ⟨hsettings.t, hsettings.fineX, hsettings.secondWrite, fun _ => ?_⟩
    exact congrArg (·.v) (ppu.fetchSprite_changes cartridge slot)
  | _ => exact ⟨rfl, rfl, rfl, fun _ => rfl⟩

/-- Accesses depend on the scroll registers alone. -/
theorem Follows.accessAll {ppu later : Ppu} (h : Follows Still ppu later)
    (accesses : List ScrollAccess) :
    Follows Still (ppu.accessAll accesses) (later.accessAll accesses) := by
  induction accesses generalizing ppu later with
  | nil => exact h
  | cons a accesses ih => exact ih (h.access a)

/-- Requests leave in the scroll registers what their accesses do to them. -/
theorem follows_runAll (ppu : Ppu) (calls : List Call)
    (hstill : Still → ∀ call ∈ calls, call.movesAddress = false) :
    Follows Still (ppu.accessAll (calls.filterMap Call.scrollAccess?)) (ppu.runAll calls) := by
  induction calls generalizing ppu with
  | nil => exact .refl Still ppu
  | cons call calls ih =>
    have hfirst := ppu.follows_run fun h => hstill h call (List.mem_cons_self ..)
    have hrest := ih (ppu.run call) fun h later hlater => hstill h later (.tail _ hlater)
    have hsplit : (call :: calls).filterMap Call.scrollAccess? =
        call.scrollAccess?.toList ++ calls.filterMap Call.scrollAccess? := by
      rw [List.filterMap_cons]
      cases call.scrollAccess? <;> rfl
    rw [hsplit, accessAll_append]
    exact (hfirst.accessAll _).trans hrest

end

/-! ## The toggle -/

/-- How many halves of pairs have been written since the next half was last made a first one. -/
def halves (accesses : List ScrollAccess) : Nat :=
  (accesses.reverse.takeWhile fun a => !a.beginsPair).countP ScrollAccess.isHalf

theorem halves_append (accesses : List ScrollAccess) (a : ScrollAccess) :
    halves (accesses ++ [a]) =
      if a.beginsPair then 0 else halves accesses + if a.isHalf then 1 else 0 := by
  unfold halves
  rw [List.reverse_append, List.reverse_singleton, List.singleton_append, List.takeWhile_cons]
  cases a.beginsPair with
  | true => rfl
  | false => exact List.countP_cons

theorem secondWrite_access (ppu : Ppu) (a : ScrollAccess) :
    (ppu.access a).secondWrite = if a.beginsPair then false else ppu.secondWrite ^^ a.isHalf := by
  cases a with
  | position value | address value =>
    simp only [Ppu.access, writeScroll, writeAddress]
    split
    · next hsecond => simp [hsecond, ScrollAccess.beginsPair, ScrollAccess.isHalf]
    · next hfirst => simp [hfirst, ScrollAccess.beginsPair, ScrollAccess.isHalf]
  | control value => exact (Bool.xor_false _).symm
  | _ => rfl

/-- The toggle counts halves. -/
theorem secondWrite_accessAll {ppu : Ppu} (hppu : ppu.secondWrite = false)
    (accesses : List ScrollAccess) :
    (ppu.accessAll accesses).secondWrite = true ↔ Odd (halves accesses) := by
  induction accesses using List.reverseRecOn with
  | nil => simp [Ppu.accessAll, hppu, halves]
  | append_singleton accesses a ih =>
    rw [accessAll_append, accessAll_cons, halves_append]
    show ((ppu.accessAll accesses).access a).secondWrite = true ↔ _
    rw [secondWrite_access]
    cases a.beginsPair with
    | true => simp
    | false =>
      rw [if_neg Bool.false_ne_true, if_neg Bool.false_ne_true]
      cases a.isHalf with
      | true =>
        rw [if_pos rfl, Nat.odd_add_one, ← ih, Bool.xor_true, Bool.not_eq_true', Bool.not_eq_true]
      | false => rwa [if_neg Bool.false_ne_true, Nat.add_zero, Bool.xor_false]

/-! ## Positions and addresses -/

/-- The scroll registers hold a nametable, a column and a line, and nothing else. -/
structure ScrollsTo (ppu : Ppu) (nametable x y : UInt8) : Prop where
  lt : ppu.t < 0x8000
  nametable : 2 * ppu.t.nametableY.toNat + ppu.t.nametableX.toNat = nametable.toNat % 4
  column : 8 * ppu.t.coarseX.toNat + ppu.fineX.val = x.toNat
  line : 8 * ppu.t.coarseY.toNat + ppu.t.fineY.toNat = y.toNat

/-- What a program that writes to the scroll registers finds in them. -/
structure ScrollsAsWritten (ppu : Ppu) : Prop where
  /-- A position, with the nametable written at any place among its halves. It leaves the address
  register alone. -/
  position : ∀ (nametable x y : UInt8) (i : Fin 3) (calls : List Call),
    calls.filterMap Call.scrollAccess? =
        .status :: [.position x, .position y].insertIdx i (.control nametable) →
      (ppu.runAll calls).ScrollsTo nametable x y ∧
        ((∀ call ∈ calls, call.movesAddress = false) → (ppu.runAll calls).v = ppu.v)
  /-- An address, which takes effect at once. -/
  address : ∀ (high low : UInt8) (calls : List Call),
    calls.filterMap Call.scrollAccess? = [.status, .address high, .address low] →
      (ppu.runAll calls).t.toNat = 0x100 * (high.toNat % 0x40) + low.toNat ∧
        ((∀ call ∈ calls, call.movesAddress = false) →
          (ppu.runAll calls).v = (ppu.runAll calls).t)

/-- The control register and half of a position may be written in either order. -/
theorem access_control_position (ppu : Ppu) (nametable value : UInt8) :
    (ppu.access (.position value)).access (.control nametable) =
      (ppu.access (.control nametable)).access (.position value) := by
  cases hsecond : ppu.secondWrite with
  | true =>
    simp only [access, writeControl, writeScroll, hsecond, if_true,
      VramAddress.withNametable_withScrollY]
  | false =>
    simp only [access, writeControl, writeScroll, hsecond, if_neg Bool.false_ne_true,
      VramAddress.withNametable_withScrollX]

/-- So the nametable may be written at any place among the halves. -/
theorem accessAll_insertIdx (ppu : Ppu) (nametable x y : UInt8) (i : Fin 3) :
    ppu.accessAll ([.position x, .position y].insertIdx i (.control nametable)) =
      ((ppu.access (.control nametable)).access (.position x)).access (.position y) := by
  match i with
  | 0 => rfl
  | 1 => exact congrArg (access · (.position y)) (ppu.access_control_position nametable x)
  | 2 =>
    refine ((ppu.access (.position x)).access_control_position nametable y).trans ?_
    rw [access_control_position]

/-- The parts of a position leave it in the registers. -/
theorem scrollsTo_position (ppu : Ppu) (nametable x y : UInt8) (i : Fin 3) :
    (ppu.accessAll
      (.status :: [.position x, .position y].insertIdx i (.control nametable))).ScrollsTo
      nametable x y := by
  have hn := ppu.t.fields_withNametable nametable
  have hx := (ppu.t.withNametable nametable).fields_withScrollX x
  have hy := ((ppu.t.withNametable nametable).withScrollX x).fields_withScrollY y
  have horder := (ppu.access .status).accessAll_insertIdx nametable x y i
  have ht : ((((ppu.access .status).access (.control nametable)).access (.position x)).access
      (.position y)).t = ((ppu.t.withNametable nametable).withScrollX x).withScrollY y := rfl
  rw [accessAll_cons, horder]
  refine ⟨VramAddress.withScrollY_lt _ _, ?_, ?_, ?_⟩
  · rw [ht]
    omega
  · rw [ht]
    show _ + x.toNat % 8 = _
    omega
  · rw [ht]
    omega

/-- They leave the address register alone. -/
theorem v_position (ppu : Ppu) (nametable x y : UInt8) (i : Fin 3) :
    (ppu.accessAll
      (.status :: [.position x, .position y].insertIdx i (.control nametable))).v = ppu.v := by
  rw [accessAll_cons, accessAll_insertIdx]
  rfl

theorem ScrollsTo.of_follows {Still : Prop} {ppu later : Ppu} {nametable x y : UInt8}
    (h : ppu.ScrollsTo nametable x y) (hfollows : Follows Still ppu later) :
    later.ScrollsTo nametable x y := by
  obtain ⟨hlt, hnametable, hcolumn, hline⟩ := h
  rw [← hfollows.t] at hlt hnametable hcolumn hline
  rw [← hfollows.fineX] at hcolumn
  exact ⟨hlt, hnametable, hcolumn, hline⟩

/-- An address is put together from its halves. -/
theorem t_address (ppu : Ppu) (high low : UInt8) :
    (ppu.accessAll [.status, .address high, .address low]).t = Word.ofBytes low (high % 0x40) := by
  show Word.ofBytes low (Word.high (Word.ofBytes (Word.low ppu.t) (high % 0x40))) = _
  rw [Word.high_ofBytes]

/-- What a program writes to the scroll registers is what it finds in them, whatever is in them
before and whatever else is done meanwhile. -/
theorem scrollsAsWritten (ppu : Ppu) : ppu.ScrollsAsWritten where
  position nametable x y i calls hcalls := by
    have hfollows := ppu.follows_runAll calls id
    rw [hcalls] at hfollows
    exact ⟨(ppu.scrollsTo_position nametable x y i).of_follows hfollows, fun hstill =>
      (hfollows.v hstill).trans (ppu.v_position nametable x y i)⟩
  address high low calls hcalls := by
    have hfollows := ppu.follows_runAll calls id
    rw [hcalls] at hfollows
    constructor
    · rw [hfollows.t, t_address, Word.toNat_ofBytes, UInt8.toNat_mod]
      exact Nat.add_comm _ _
    · intro hstill
      rw [hfollows.t, hfollows.v hstill]
      rfl

/-- After any requests since power-on, the toggle tells whether a half is missing from a pair: the
halves that have been written since the status was last read, or the unit was reset, are odd in
number. From there on, a position or an address is found in the scroll registers as it is
written. -/
theorem scrollProtocol (standard : VideoStandard) (earlier : List Call) :
    let ppu := (powerOn standard).runAll earlier
    (ppu.secondWrite = true ↔ Odd (halves (earlier.filterMap Call.scrollAccess?))) ∧
      ppu.ScrollsAsWritten := by
  intro ppu
  have hfollows := (powerOn standard).follows_runAll earlier False.elim
  refine ⟨?_, ppu.scrollsAsWritten⟩
  rw [show ppu.secondWrite = _ from hfollows.secondWrite]
  exact secondWrite_accessAll rfl _

/-- A program that scrolls to column 125 and line 94 of the third nametable, and shows the picture
meanwhile. -/
def scrollingCalls : List Call :=
  [.read EmptySlot.mk 0x2002, .write EmptySlot.mk 0x2005 0x7D, .write EmptySlot.mk 0x2001 0x1E,
    .write EmptySlot.mk 0x3000 0x82, .write EmptySlot.mk 0x2005 0x5E]

theorem scrollProtocol_scrolling :
    scrollingCalls.filterMap Call.scrollAccess? =
        .status :: [.position 0x7D, .position 0x5E].insertIdx 1 (.control 0x82) ∧
      (∀ call ∈ scrollingCalls, call.movesAddress = false) ∧
      (((powerOn .ntsc).runAll [.nextRow]).runAll scrollingCalls).ScrollsTo 0x82 0x7D 0x5E ∧
      (((powerOn .ntsc).runAll [.nextRow]).runAll scrollingCalls).v = 0x1000 := by
  have haccesses : scrollingCalls.filterMap Call.scrollAccess? =
      .status :: [.position 0x7D, .position 0x5E].insertIdx 1 (.control 0x82) := rfl
  have hstill : ∀ call ∈ scrollingCalls, call.movesAddress = false := by
    simp [scrollingCalls, Call.movesAddress]
  obtain ⟨-, hwritten⟩ := scrollProtocol .ntsc [.nextRow]
  obtain ⟨hscrolls, hv⟩ := hwritten.position 0x82 0x7D 0x5E 1 scrollingCalls haccesses
  exact ⟨haccesses, hstill, hscrolls, hv hstill⟩

end Ppu

end Famicom

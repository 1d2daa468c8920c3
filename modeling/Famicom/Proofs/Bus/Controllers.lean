import Mathlib.Data.List.GetD
import Famicom.Bus

/-!
# Reading standard controllers over the bus

Both controllers hang on one strobe line, which is bit 0 of what is written to `$4016`; each is read
at an address of its own. The statements are about all that may happen on a bus with two standard
controllers, in any order: accesses at any address, and buttons pressed or released.

* `device_read`, `device_write`: the accesses that a socket takes part in.
* `Loading.meet`, `Latched.meet`: what each event leaves of a controller that loads its buttons, and
  of one that has latched them.
* `buttons_meetAll`: the buttons are those that were pressed last.
* `readsSerially`: so a program reads the buttons that were pressed when the line went low.
-/

namespace Famicom

/-- The address at which a socket is read. -/
def Socket.address : Socket → UInt16
  | .one => 0x4016
  | .two => 0x4017

/-- What happens on a bus while its controllers are in use. -/
inductive PadEvent where
  | read (address : UInt16)
  | write (address : UInt16) (value : UInt8)
  /-- The buttons of a controller are from now on in some state. -/
  | press (socket : Socket) (buttons : Buttons)
  deriving DecidableEq, Repr

namespace PadEvent

/-- The level to which an event drives the strobe line, if it does. -/
def strobe? : PadEvent → Option Bool
  | write address value => if address = 0x4016 then some (Byte.bit value 0) else none
  | read _ | press _ _ => none

/-- Whether an event is a read of a socket. -/
def reads (socket : Socket) : PadEvent → Bool
  | read address => address = socket.address
  | write _ _ | press _ _ => false

/-- The buttons that an event presses on the controller in a socket, if it does. -/
def pressed? (socket : Socket) : PadEvent → Option Buttons
  | press pressed buttons => if pressed = socket then some buttons else none
  | read _ | write _ _ => none

end PadEvent

/-- The buttons one after the other, then ones. -/
def Buttons.serial (s : Buttons) (n : ℕ) : Bool :=
  [s.a, s.b, s.select, s.start, s.up, s.down, s.left, s.right].getD n true

/-- The buttons of a controller after some events, of those that it had before. -/
def Buttons.after (before : Buttons) (socket : Socket) (events : List PadEvent) : Buttons :=
  events.foldl (fun buttons event => (event.pressed? socket).getD buttons) before

namespace Bus

variable {C A D : Type} [Cartridge C] [Apu A]

/-! ## Sockets -/

/-- What is plugged into a socket. -/
def device (bus : Bus C A D) : Socket → D
  | .one => bus.socket1
  | .two => bus.socket2

omit [Cartridge C] [Apu A] in
/-- A device that is plugged in again changes nothing. -/
theorem plug_device (bus : Bus C A D) (socket : Socket) :
    bus.plug socket (bus.device socket) = bus := by
  cases socket <;> rfl

omit [Cartridge C] [Apu A] in
theorem device_plug (bus : Bus C A D) (plugged socket : Socket) (device : D) :
    (bus.plug plugged device).device socket =
      if plugged = socket then device else bus.device socket := by
  cases plugged <;> cases socket <;> rfl

variable [Controller D]

/-- A read at the address of a socket is a read of its device. -/
theorem read_socket (bus : Bus C A D) (socket : Socket) :
    bus.read socket.address =
      ((Controller.read (bus.device socket)).1,
        bus.plug socket (Controller.read (bus.device socket)).2) := by
  cases socket <;> rfl

/-- No other read reaches the device. -/
theorem device_read (bus : Bus C A D) (address : UInt16) (socket : Socket) :
    (bus.read address).2.device socket =
      if address = socket.address then (Controller.read (bus.device socket)).2
      else bus.device socket := by
  by_cases haddress : address = socket.address
  · rw [if_pos haddress, haddress, read_socket, device_plug, if_pos rfl]
  rw [if_neg haddress]
  unfold read
  split
  · rfl
  split
  · cases socket <;> rfl
  split
  · unfold readIo
    split
    · cases socket <;> rfl
    split
    · next hone =>
      cases socket with
      | one => exact absurd hone haddress
      | two => rfl
    split
    · next htwo =>
      cases socket with
      | one => rfl
      | two => exact absurd htwo haddress
    · rfl
  · cases socket <;> rfl

/-- A write to `$4016` reaches both devices, and no other write reaches any. -/
theorem device_write (bus : Bus C A D) (address : UInt16) (value : UInt8) (socket : Socket) :
    (bus.write address value).device socket =
      if address = 0x4016 then Controller.write (bus.device socket) value
      else bus.device socket := by
  by_cases haddress : address = 0x4016
  · subst haddress
    rw [if_pos rfl]
    cases socket <;> rfl
  rw [if_neg haddress]
  unfold write
  split
  · cases socket <;> rfl
  split
  · cases socket <;> rfl
  split
  · unfold writeIo
    rw [if_neg haddress]
    split
    · cases socket <;> rfl
    split <;> cases socket <;> rfl
  · cases socket <;> rfl

end Bus

namespace StandardController

/-! ## One controller -/

/-- What an event leaves of the controller in a socket. -/
def meet (pad : StandardController) (socket : Socket) : PadEvent → StandardController
  | .read address => if address = socket.address then pad.read.2 else pad
  | .write address value => if address = 0x4016 then pad.write value else pad
  | .press pressed buttons => if pressed = socket then { pad with buttons } else pad

/-- The line is high: a read sees the first button and changes nothing. -/
structure Loading (pad : StandardController) : Prop where
  strobe : pad.strobe = true

/-- The line is low, some buttons have been latched, and some reads have followed: the register
holds the buttons that are to come, and ones behind them. -/
structure Latched (pad : StandardController) (latched : Buttons) (reads : ℕ) : Prop where
  strobe : pad.strobe = false
  bit_shift : ∀ n < 8, Byte.bit pad.shift n = latched.serial (reads + n)

/-- The byte that the register loads is the eight buttons in order. -/
theorem bit_toByte (s : Buttons) : ∀ n < 8, Byte.bit s.toByte n = s.serial n := by
  obtain ⟨a, b, select, start, up, down, left, right⟩ := s
  revert a b select start up down left right
  decide +kernel

/-- A read puts out the lowest bit. -/
theorem low_eq_bit (shift : UInt8) : openBus + shift % 2 = openBus ||| (Byte.bit shift 0).toUInt8 :=
  Byte.forall_of_fin
    (P := fun shift => openBus + shift % 2 = openBus ||| (Byte.bit shift 0).toUInt8)
    (by decide +kernel) shift

/-- It moves the other bits down, and a one in. -/
theorem bit_shifted (shift : UInt8) :
    ∀ n < 8, Byte.bit (shift / 2 + 0x80) n = if n < 7 then Byte.bit shift (n + 1) else true :=
  Byte.forall_of_fin (P := fun shift =>
    ∀ n < 8, Byte.bit (shift / 2 + 0x80) n = if n < 7 then Byte.bit shift (n + 1) else true)
    (by decide +kernel) shift

/-- Behind the last button there are ones. -/
theorem serial_of_le (s : Buttons) {n : ℕ} (h : 8 ≤ n) : s.serial n = true :=
  List.getD_eq_default _ _ h

variable {pad : StandardController} {latched : Buttons} {reads : ℕ}

theorem Loading.read_eq (h : pad.Loading) :
    pad.read = (openBus ||| pad.buttons.a.toUInt8, pad) := by
  unfold read
  rw [if_pos h.strobe]
  cases pad.buttons.a <;> rfl

theorem Latched.read_fst (h : pad.Latched latched reads) :
    pad.read.1 = openBus ||| (latched.serial reads).toUInt8 := by
  have hbit := h.bit_shift 0 (by decide)
  unfold read
  rw [if_neg (by simp [h.strobe]), ← Nat.add_zero reads, ← hbit]
  exact low_eq_bit pad.shift

theorem Latched.read_snd (h : pad.Latched latched reads) :
    pad.read.2.Latched latched (reads + 1) := by
  unfold read
  rw [if_neg (by simp [h.strobe])]
  refine ⟨h.strobe, ?_⟩
  intro n hn
  show Byte.bit (pad.shift / 2 + 0x80) n = _
  rw [bit_shifted pad.shift n hn]
  split
  · next hseven => rw [h.bit_shift (n + 1) (by omega), Nat.add_assoc, Nat.add_comm 1 n]
  · exact (serial_of_le latched (by omega)).symm

/-- Whatever the line was, it is high after a write that drives it high. -/
theorem loading_write (pad : StandardController) {value : UInt8} (h : Byte.bit value 0 = true) :
    (pad.write value).Loading := by
  unfold write
  simp only [h, Bool.or_true, if_true]
  exact ⟨rfl⟩

/-- When the line goes low, the buttons are latched. -/
theorem Loading.latched_write (h : pad.Loading) {value : UInt8}
    (hvalue : Byte.bit value 0 = false) :
    (pad.write value).Latched pad.buttons 0 := by
  unfold write
  simp only [hvalue, h.strobe, Bool.or_false, if_true]
  refine ⟨rfl, ?_⟩
  intro n hn
  rw [Nat.zero_add]
  exact bit_toByte pad.buttons n hn

/-- A line that stays low does not latch anything. -/
theorem Latched.write (h : pad.Latched latched reads) {value : UInt8}
    (hvalue : Byte.bit value 0 = false) : pad.write value = pad := by
  unfold StandardController.write
  simp [hvalue, h.strobe]

/-- A controller that loads its buttons goes on doing so until the line is driven low. -/
theorem Loading.meet (h : pad.Loading) (socket : Socket) {event : PadEvent}
    (hevent : event.strobe? ≠ some false) : (pad.meet socket event).Loading := by
  cases event with
  | read address =>
    rw [StandardController.meet]
    split
    · rw [h.read_eq]
      exact h
    · exact h
  | write address value =>
    rw [StandardController.meet]
    split
    · next haddress =>
      have hvalue : Byte.bit value 0 = true := by simpa [PadEvent.strobe?, haddress] using hevent
      exact loading_write pad hvalue
    · exact h
  | press pressed buttons =>
    rw [StandardController.meet]
    split
    · exact ⟨h.strobe⟩
    · exact h

/-- A controller that has latched its buttons counts its own reads, until the line is driven
high. -/
theorem Latched.meet (h : pad.Latched latched reads) (socket : Socket) {event : PadEvent}
    (hevent : event.strobe? ≠ some true) :
    (pad.meet socket event).Latched latched (reads + (event.reads socket).toNat) := by
  cases event with
  | read address =>
    rw [StandardController.meet, PadEvent.reads]
    by_cases haddress : address = socket.address
    · simpa [haddress] using h.read_snd
    · simpa [haddress] using h
  | write address value =>
    rw [StandardController.meet]
    split
    · next haddress =>
      have hvalue : Byte.bit value 0 = false := by simpa [PadEvent.strobe?, haddress] using hevent
      rw [h.write hvalue]
      exact h
    · exact h
  | press pressed buttons =>
    rw [StandardController.meet]
    split
    · exact ⟨h.strobe, h.bit_shift⟩
    · exact h

theorem buttons_read (pad : StandardController) : pad.read.2.buttons = pad.buttons := by
  unfold read
  split <;> rfl

theorem buttons_write (pad : StandardController) (value : UInt8) :
    (pad.write value).buttons = pad.buttons := by
  simp only [write]
  split <;> rfl

/-- The buttons are those that an event presses, if it does. -/
theorem buttons_meet (pad : StandardController) (socket : Socket) (event : PadEvent) :
    (pad.meet socket event).buttons = (event.pressed? socket).getD pad.buttons := by
  cases event with
  | read address =>
    rw [meet, PadEvent.pressed?]
    split
    · exact pad.buttons_read
    · rfl
  | write address value =>
    rw [meet, PadEvent.pressed?]
    split
    · exact pad.buttons_write value
    · rfl
  | press pressed buttons =>
    rw [meet, PadEvent.pressed?]
    split <;> rfl

/-! ## Events one after the other -/

/-- What events leave of the controller in a socket. -/
def meetAll (pad : StandardController) (socket : Socket) (events : List PadEvent) :
    StandardController :=
  events.foldl (·.meet socket) pad

theorem Loading.meetAll (h : pad.Loading) (socket : Socket) {events : List PadEvent}
    (hevents : ∀ e ∈ events, e.strobe? ≠ some false) : (pad.meetAll socket events).Loading := by
  induction events generalizing pad with
  | nil => exact h
  | cons event events ih =>
    have hfirst := hevents event (List.mem_cons_self ..)
    exact ih (h.meet socket hfirst) fun e he => hevents e (List.mem_cons_of_mem _ he)

theorem Latched.meetAll (h : pad.Latched latched reads) (socket : Socket) {events : List PadEvent}
    (hevents : ∀ e ∈ events, e.strobe? ≠ some true) :
    (pad.meetAll socket events).Latched latched (reads + events.countP (·.reads socket)) := by
  induction events generalizing pad reads with
  | nil => exact h
  | cons event events ih =>
    have hfirst := hevents event (List.mem_cons_self ..)
    have hrest := ih (h.meet socket hfirst) fun e he => hevents e (List.mem_cons_of_mem _ he)
    have hcount : reads + (event :: events).countP (·.reads socket) =
        reads + (event.reads socket).toNat + events.countP (·.reads socket) := by
      rw [List.countP_cons]
      cases event.reads socket <;> simp
      omega
    rw [hcount]
    exact hrest

/-- The buttons are those that were pressed last. -/
theorem buttons_meetAll (pad : StandardController) (socket : Socket) (events : List PadEvent) :
    (pad.meetAll socket events).buttons = pad.buttons.after socket events := by
  induction events generalizing pad with
  | nil => rfl
  | cons event events ih =>
    have hrest := ih (pad.meet socket event)
    rw [buttons_meet] at hrest
    exact hrest

end StandardController

namespace Bus

variable {C A : Type} [Cartridge C] [Apu A]

/-- What an event leaves of a bus. -/
def meet (bus : Bus C A StandardController) : PadEvent → Bus C A StandardController
  | .read address => (bus.read address).2
  | .write address value => bus.write address value
  | .press socket buttons => bus.plug socket { bus.device socket with buttons }

/-- What events leave of a bus, one after the other. -/
def meetAll (bus : Bus C A StandardController) (events : List PadEvent) :
    Bus C A StandardController :=
  events.foldl meet bus

/-- The controllers hear of nothing but the events that concern them. -/
theorem device_meet (bus : Bus C A StandardController) (event : PadEvent) (socket : Socket) :
    (bus.meet event).device socket = (bus.device socket).meet socket event := by
  cases event with
  | read address => exact bus.device_read address socket
  | write address value => exact bus.device_write address value socket
  | press pressed buttons =>
    show (bus.plug pressed _).device socket = _
    rw [device_plug]
    rw [StandardController.meet]
    split
    · next heq => rw [heq]
    · rfl

theorem device_meetAll (bus : Bus C A StandardController) (events : List PadEvent)
    (socket : Socket) :
    (bus.meetAll events).device socket = (bus.device socket).meetAll socket events := by
  induction events generalizing bus with
  | nil => rfl
  | cons event events ih =>
    have hrest := ih (bus.meet event)
    rw [device_meet] at hrest
    exact hrest

theorem meetAll_append (bus : Bus C A StandardController) (earlier later : List PadEvent) :
    bus.meetAll (earlier ++ later) = (bus.meetAll earlier).meetAll later :=
  List.foldl_append

/-- Reading the controllers over the bus. Let anything happen until the strobe line is driven high,
and then anything that does not drive it low. As long as the line is high, a read of either socket
shows the first button as it is, and the bus is the same thereafter. Once the line is driven low,
and for as long as it is not driven high again, the reads of a socket show the eight buttons that
were pressed then, in their order, and ones thereafter, whatever else happens: reads of the other
socket, writes that leave the line low, other accesses, or changes of the buttons. -/
theorem readsSerially (bus : Bus C A StandardController) (earlier held later : List PadEvent)
    {raise lower : UInt8} (hraise : Byte.bit raise 0 = true) (hlower : Byte.bit lower 0 = false)
    (hheld : ∀ e ∈ held, e.strobe? ≠ some false) (hlater : ∀ e ∈ later, e.strobe? ≠ some true)
    (socket : Socket) :
    let begun := earlier ++ [.write 0x4016 raise] ++ held
    let buttons := (bus.device socket).buttons.after socket begun
    let loading := bus.meetAll begun
    let latched := loading.meetAll ([.write 0x4016 lower] ++ later)
    let count := later.countP (·.reads socket)
    loading.read socket.address = (0x40 ||| buttons.a.toUInt8, loading) ∧
      (latched.read socket.address).1 =
        if count < 8 then 0x40 ||| (Byte.bit buttons.toByte count).toUInt8 else 0x41 := by
  intro begun buttons loading latched count
  have hbuttons : (loading.device socket).buttons = buttons := by
    rw [device_meetAll, StandardController.buttons_meetAll]
  have hloading : (loading.device socket).Loading := by
    have hraised : ((bus.meetAll (earlier ++ [.write 0x4016 raise])).device socket).Loading := by
      rw [meetAll_append]
      show (((bus.meetAll earlier).meet (.write 0x4016 raise)).device socket).Loading
      rw [device_meet]
      exact StandardController.loading_write _ hraise
    rw [show loading = _ from bus.meetAll_append _ held, device_meetAll]
    exact hraised.meetAll socket hheld
  have hlatched : (latched.device socket).Latched buttons count := by
    have hlowered : ((loading.meet (.write 0x4016 lower)).device socket).Latched buttons 0 := by
      rw [device_meet, ← hbuttons]
      exact hloading.latched_write hlower
    have hall := hlowered.meetAll socket hlater
    rw [Nat.zero_add, ← device_meetAll] at hall
    exact hall
  constructor
  · rw [read_socket]
    show ((loading.device socket).read.1, loading.plug socket (loading.device socket).read.2) = _
    rw [hloading.read_eq, hbuttons]
    exact congrArg _ (loading.plug_device socket)
  · rw [read_socket]
    show (latched.device socket).read.1 = _
    rw [hlatched.read_fst]
    split
    · next hcount => rw [StandardController.bit_toByte buttons count hcount]; rfl
    · next hcount => rw [StandardController.serial_of_le buttons (Nat.not_lt.mp hcount)]; rfl

/-- Two unused controllers on a bus without a cartridge. -/
def twoPads : Bus EmptySlot SilentApu StandardController :=
  .new .mk .new .new .new .ntsc

/-- The player presses start while the line is high, and lets go when it is low. The first button
shows in between. The fourth read shows start, though the other socket is read meanwhile and the
line driven low again, and the ninth read shows a one. -/
theorem readsSerially_start :
    let pressed : Buttons := { Buttons.released with a := true, start := true }
    let held := [.press .one pressed, .read 0x4016]
    let later := [.read 0x4016, .read 0x4017, .press .one .released, .read 0x4016,
      .write 0x4016 0x10, .read 0x4016]
    let loading := twoPads.meetAll ([.read 0x4017] ++ [.write 0x4016 0x03] ++ held)
    (∀ e ∈ held, e.strobe? ≠ some false) ∧ (∀ e ∈ later, e.strobe? ≠ some true) ∧
      loading.read 0x4016 = (0x41, loading) ∧
      ((loading.meetAll ([.write 0x4016 0x02] ++ later)).read 0x4016).1 = 0x41 := by
  intro pressed held later loading
  have hheld : ∀ e ∈ held, e.strobe? ≠ some false := by decide
  have hlater : ∀ e ∈ later, e.strobe? ≠ some true := by decide
  have hraise : Byte.bit 0x03 0 = true := by decide
  have hlower : Byte.bit 0x02 0 = false := by decide
  obtain ⟨hloading, hlatched⟩ :=
    twoPads.readsSerially [.read 0x4017] held later hraise hlower hheld hlater .one
  exact ⟨hheld, hlater, hloading.trans (congrArg (·, loading) (by decide)),
    hlatched.trans (by decide)⟩

end Bus

end Famicom

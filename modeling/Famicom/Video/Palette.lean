/-!
# Colours

The picture unit puts out a colour number of six bits and three emphasis bits. The master palette
gives each number a colour; emphasis then darkens the channels that are not emphasised. The two
black columns of the palette stay as they are.
-/

namespace Famicom

/-- A colour, eight bits each of red, green and blue from the top down. -/
abbrev Rgb := UInt32

namespace Rgb

/-- The red channel. -/
def red (c : Rgb) : UInt32 := c / 0x10000 % 0x100

/-- The green channel. -/
def green (c : Rgb) : UInt32 := c / 0x100 % 0x100

/-- The blue channel. -/
def blue (c : Rgb) : UInt32 := c % 0x100

/-- The colour with the given channels. -/
def ofChannels (r g b : UInt32) : Rgb := 0x10000 * r + 0x100 * g + b

/-- The four bytes of a colour, the last of which says that it is opaque. -/
def toRgba (c : Rgb) : Vector UInt8 4 :=
  #v[c.red.toUInt8, c.green.toUInt8, c.blue.toUInt8, 0xFF]

end Rgb

/-- The colours of the console, by colour number. -/
def masterPalette : Vector Rgb 64 := #v[
  0x666666, 0x002A88, 0x1412A7, 0x3B00A4, 0x5C007E, 0x6E0040, 0x6C0600, 0x561D00,
  0x333500, 0x0B4800, 0x005200, 0x004F08, 0x00404D, 0x000000, 0x000000, 0x000000,
  0xADADAD, 0x155FD9, 0x4240FF, 0x7527FE, 0xA01ACC, 0xB71E7B, 0xB53120, 0x994E00,
  0x6B6D00, 0x388700, 0x0C9300, 0x008F32, 0x007C8D, 0x000000, 0x000000, 0x000000,
  0xFFFEFF, 0x64B0FF, 0x9290FF, 0xC676FF, 0xF36AFF, 0xFE6ECC, 0xFE8170, 0xEA9E22,
  0xBCBE00, 0x88D800, 0x5CE430, 0x45E082, 0x48CDDE, 0x4F4F4F, 0x000000, 0x000000,
  0xFFFEFF, 0xC0DFFF, 0xD3D2FF, 0xE8C8FF, 0xFBC2FF, 0xFEC4EA, 0xFECCC5, 0xF7D8A5,
  0xE4E594, 0xCFEF96, 0xBDF4AB, 0xB3F3CC, 0xB5EBF2, 0xB8B8B8, 0x000000, 0x000000]

/-- The colour of a colour number, of which six bits count. -/
def paletteColor (index : UInt8) : Rgb :=
  have : index.toNat % 64 < 64 := Nat.mod_lt _ (by decide)
  masterPalette[index.toNat % 64]

namespace Emphasis

/-- A channel at three quarters of its strength. -/
def attenuate (channel : UInt32) : UInt32 := channel * 3 / 4

/-- Whether a colour number lies in one of the two black columns. -/
def isBlack (index : UInt8) : Bool := index / 2 % 8 == 7

/-- A colour under emphasis: bit 0 emphasises red, bit 1 green and bit 2 blue. -/
def apply (index : UInt8) (color : Rgb) (emphasis : UInt8) : Rgb :=
  let bits := emphasis % 8
  if bits = 0 ∨ isBlack index then color
  else
    let channel (bit : UInt8) (c : UInt32) := if bits / bit % 2 = 1 then c else attenuate c
    .ofChannels (channel 1 color.red) (channel 2 color.green) (channel 4 color.blue)

end Emphasis

end Famicom

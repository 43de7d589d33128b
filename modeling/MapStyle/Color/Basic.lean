/-!
Colors with an alpha channel, and their text.
-/
namespace MapStyle

structure Color where
  red : UInt8
  green : UInt8
  blue : UInt8
  alpha : UInt8
deriving DecidableEq

namespace Color

def rgb (red green blue : UInt8) : Color := ⟨red, green, blue, 255⟩

def black : Color := rgb 0 0 0

def gray : Color := rgb 128 128 128

def white : Color := rgb 255 255 255

def hexDigits (channel : UInt8) : String :=
  String.ofList [Nat.digitChar (channel.toNat / 16), Nat.digitChar (channel.toNat % 16)]

/-- Hexadecimal, with the alpha channel only where it is not opaque. -/
def text (color : Color) : String :=
  "#" ++ hexDigits color.red ++ hexDigits color.green ++ hexDigits color.blue ++
    (if color.alpha = 255 then "" else hexDigits color.alpha)

end Color
end MapStyle

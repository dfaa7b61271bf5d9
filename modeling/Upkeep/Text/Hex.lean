import Upkeep.Text.Ascii

/-!
Octets as pairs of hexadecimal digits. Writing uses lower case, reading accepts either.
-/

namespace Upkeep.Hex

def encode (bs : Bytes) : Bytes :=
  bs.flatMap fun b => [Ascii.hexDigit (b.toNat / 16), Ascii.hexDigit (b.toNat % 16)]

def decode : Bytes → Option Bytes
  | [] => some []
  | [_] => none
  | a :: b :: r => do
    let high ← Ascii.hexValue? a
    let low ← Ascii.hexValue? b
    let rest ← decode r
    return UInt8.ofNat (high * 16 + low) :: rest

end Upkeep.Hex

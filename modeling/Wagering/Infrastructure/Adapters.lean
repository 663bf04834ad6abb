import Mathlib.Data.Rat.Floor
import Wagering.Lib.Bitwise
import Wagering.Lib.Separated
import Wagering.Text

/-!
# Identifiers of the service

`infrastructure/adapters.ts`.  The generator reads sixteen random bytes and the
clock, which are its arguments here.
-/

namespace Wagering

open Separated

/-- `HEX`. -/
def hexDigits : Text := utf16 "0123456789abcdef"

/-- `hex`. -/
def hex (byte : Int) : Text :=
  [hexDigits[(Bitwise.and (Bitwise.shiftRight byte 4) 0x0f).toNat]?.getD 48,
    hexDigits[(Bitwise.and byte 0x0f).toNat]?.getD 48]

namespace UuidV7Generator

/-- What the loop of `next` stores at `i`.  The quotient of two doubles is exact
here, because the divisor is a power of two. -/
def timestampByte (timestamp : Int) (i : Nat) : Int :=
  Bitwise.and ⌊(timestamp : ℚ) / 2 ^ (8 * (5 - i))⌋ 0xff

/-- `bytes` of `next`, once the version and the variant are in it. -/
def bytes (random : Vector UInt8 16) (timestamp : Int) : List Int :=
  let bytes := random.toList.map fun byte => (byte.toNat : Int)
  let bytes := (List.range 6).foldl
    (fun bytes i => bytes.set i (timestampByte timestamp i)) bytes
  let bytes := bytes.set 6 (Bitwise.or (Bitwise.and (bytes[6]?.getD 0) 0x0f) 0x70)
  bytes.set 8 (Bitwise.or (Bitwise.and (bytes[8]?.getD 0) 0x3f) 0x80)

/-- `next`. -/
def next (random : Vector UInt8 16) (timestamp : Int) : Text :=
  let chars := (bytes random timestamp).map hex
  joined 45
    [(chars.extract 0 4).flatten,
      (chars.extract 4 6).flatten,
      (chars.extract 6 8).flatten,
      (chars.extract 8 10).flatten,
      (chars.extract 10 16).flatten]

end UuidV7Generator

end Wagering

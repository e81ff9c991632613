import Mathlib.Data.List.Basic

/-!
# Base64 encoding (RFC 4648)

The padded encodings of RFC 4648 §4 (standard alphabet) and §5 (URL- and
filename-safe alphabet), which the `base64` crate's `STANDARD` and `URL_SAFE`
engines produce. Every three input bytes become four characters; a final group of
one or two bytes becomes two or three characters and `=` padding. The output is
ASCII, so its byte length is its character count and every index is a character
boundary.
-/

namespace Base64

set_option autoImplicit false

/-- The character for a 6-bit index: `A`-`Z`, `a`-`z`, `0`-`9`, then `+ /` or,
URL-safe, `- _`. -/
def alphabet (urlSafe : Bool) (index : Nat) : Char :=
  if index < 26 then Char.ofNat (0x41 + index)
  else if index < 52 then Char.ofNat (0x61 + (index - 26))
  else if index < 62 then Char.ofNat (0x30 + (index - 52))
  else if index = 62 then (if urlSafe then '-' else '+')
  else (if urlSafe then '_' else '/')

def encode (urlSafe : Bool) : List UInt8 → List Char
  | [] => []
  | [a] =>
      [alphabet urlSafe (a.toNat / 4), alphabet urlSafe (a.toNat % 4 * 16), '=', '=']
  | [a, b] =>
      [alphabet urlSafe (a.toNat / 4), alphabet urlSafe (a.toNat % 4 * 16 + b.toNat / 16),
        alphabet urlSafe (b.toNat % 16 * 4), '=']
  | a :: b :: c :: rest =>
      alphabet urlSafe (a.toNat / 4) :: alphabet urlSafe (a.toNat % 4 * 16 + b.toNat / 16) ::
        alphabet urlSafe (b.toNat % 16 * 4 + c.toNat / 64) :: alphabet urlSafe (c.toNat % 64) ::
          encode urlSafe rest

example : String.ofList (encode false [0x4D, 0x61, 0x6E]) = "TWFu" := by decide
example : String.ofList (encode false [0x4D]) = "TQ==" := by decide

end Base64

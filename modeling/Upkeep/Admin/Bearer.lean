import Upkeep.Admin.ErrorCode
import Upkeep.Text.Utf8

/-!
Bearer authorization. The token is compared in a time that depends on its length only.
-/

namespace Upkeep.Admin

structure Header where
  name : String
  value : Bytes

def toLowerAscii (c : Char) : Char := if 'A' ≤ c && c ≤ 'Z' then Char.ofNat (c.toNat + 32) else c

/-- Header names do not depend on case. -/
def Header.isNamed (h : Header) (name : String) : Bool := h.name.toList.map toLowerAscii == name.toList

namespace Bearer

/-- A header value that can be read as text: printable ASCII and tabs. -/
def isReadable (value : Bytes) : Bool := value.all fun b => (0x20 ≤ b && b ≤ 0x7e) || b == Ascii.tab

/-- Joins the differing bits of two octet strings of one length. -/
def difference (a b : Bytes) : UInt8 := (a.zip b).foldl (fun acc p => acc ||| (p.1 ^^^ p.2)) 0

def sameOctets (a b : Bytes) : Bool := a.length == b.length && difference a b == 0

def scheme : Bytes := Utf8.encode "Bearer "

/-- Whether the first authorization header carries the token; with no token, every request may pass. -/
def permits (expected : Option String) (headers : List Header) : Bool :=
  match expected with
  | none => true
  | some token =>
    match headers.find? fun h => h.isNamed "authorization" with
    | none => false
    | some h =>
      isReadable h.value && scheme.isPrefixOf h.value
        && sameOctets (h.value.drop scheme.length) (Utf8.encode token)

end Bearer

end Upkeep.Admin

import Assay.Text.Digit

/-!
# Internet addresses

The text forms of IPv4 and IPv6 addresses, and of ranges of them: an address, a slash and a
prefix length. An IPv4 range may give a net mask or a host mask in place of the length. The
address of a range need not be its first.
-/

namespace Assay.Net

open Text

/-- Split at every occurrence of a separator. -/
def splitAll (separator : Char) : List Char → List (List Char)
  | [] => [[]]
  | c :: cs =>
    if c == separator then [] :: splitAll separator cs
    else match splitAll separator cs with
      | [] => [[c]]
      | part :: parts => (c :: part) :: parts

/-- One number of an IPv4 address: at most three digits, no leading zero, at most 255. -/
def octet? (cs : List Char) : Option Nat :=
  if cs.isEmpty || !cs.all isAsciiDigit || cs.length > 3 then none
  else if cs.head? == some '0' && cs.length > 1 then none
  else if natOfDigits cs > 255 then none
  else some (natOfDigits cs)

/-- An IPv4 address as a number. -/
def ipv4? (cs : List Char) : Option Nat :=
  match splitAll '.' cs with
  | [a, b, c, d] => do
    return (((← octet? a) * 256 + (← octet? b)) * 256 + (← octet? c)) * 256 + (← octet? d)
  | _ => none

/-- A hexadecimal digit. -/
def isHexDigit (c : Char) : Bool :=
  isAsciiDigit c || ('a' ≤ c && c ≤ 'f') || ('A' ≤ c && c ≤ 'F')

/-- One group of an IPv6 address. -/
def isHextet (cs : List Char) : Bool :=
  !cs.isEmpty && cs.length ≤ 4 && cs.all isHexDigit

/-- The groups of an IPv6 address, an IPv4 ending written as two groups. -/
def hextets? (cs : List Char) : Option (List (List Char)) :=
  let parts := splitAll ':' cs
  if parts.length < 3 then none
  else
    let last := parts.getLast?.getD []
    if last.contains '.' then
      if (ipv4? last).isSome then some (parts.dropLast ++ [['0'], ['0']]) else none
    else some parts

/-- The inner positions, counted from 1, of groups that are empty. -/
def emptyInside (parts : List (List Char)) : List Nat :=
  (List.range parts.length).filter fun i =>
    0 < i && i + 1 < parts.length && (parts[i]?.map List.isEmpty).getD false

/-- The groups spell an address: eight of them, or fewer around one double colon. -/
def validHextets (parts : List (List Char)) : Bool :=
  let n := parts.length
  if n > 9 then false
  else match emptyInside parts with
  | [] => n == 8 && parts.all isHextet
  | [i] =>
    let startsEmpty := (parts.head?.map List.isEmpty).getD false
    let endsEmpty := (parts.getLast?.map List.isEmpty).getD false
    let high := if startsEmpty then i - 1 else i
    let low := if endsEmpty then n - i - 2 else n - i - 1
    (!startsEmpty || high == 0) && (!endsEmpty || low == 0) && high + low < 8 &&
      (parts.take high).all isHextet && (parts.drop (n - low)).all isHextet
  | _ => false

/-- The text is an IPv6 address, perhaps with a zone after a percent sign. -/
def isIpv6 (cs : List Char) : Bool :=
  let zone := cs.dropWhile (· != '%')
  (zone.isEmpty || (zone.length > 1 && !(zone.drop 1).contains '%')) &&
    match hextets? (cs.takeWhile (· != '%')) with
    | some parts => validHextets parts
    | none => false

/-- A prefix length of at most `bits`. -/
def isPrefixLength (bits : Nat) (cs : List Char) : Bool :=
  !cs.isEmpty && cs.all isAsciiDigit && natOfDigits cs ≤ bits

/-- A number of 32 bits made of ones followed by zeros. -/
def isNetMask (n : Nat) : Bool :=
  (List.range 33).any fun k => n == Nat.pow 2 32 - Nat.pow 2 k

/-- A net mask or a host mask in dotted form. -/
def isIpv4Mask (cs : List Char) : Bool :=
  match ipv4? cs with
  | some n => isNetMask n || isNetMask (Nat.pow 2 32 - 1 - n)
  | none => false

/-- The text is an IPv4 address. -/
def isIpv4 (cs : List Char) : Bool := (ipv4? cs).isSome

/-- The text is an IPv4 range. -/
def isIpv4Range (cs : List Char) : Bool :=
  match splitAll '/' cs with
  | [address, mask] => isIpv4 address && (isPrefixLength 32 mask || isIpv4Mask mask)
  | _ => false

/-- The text is an IPv6 range. -/
def isIpv6Range (cs : List Char) : Bool :=
  match splitAll '/' cs with
  | [address, length] => isIpv6 address && isPrefixLength 128 length
  | _ => false

end Assay.Net

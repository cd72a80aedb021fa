import Assay.Net.Address
import Assay.Text.Blank

/-!
# Absolute URLs

A URL with a scheme and a host: the scheme is a letter followed by letters, digits and the signs
`+`, `-` and `.`, the host lies between two slashes and the next `/`, `?` or `#`, and no white
space occurs anywhere. Control characters before the scheme are passed over. A host in brackets
is an IPv6 address or an address of a later version.
-/

namespace Assay.Net

/-- A character of a scheme. -/
def isSchemeChar (c : Char) : Bool :=
  c.isAlphanum || c == '+' || c == '-' || c == '.'

/-- The scheme and what follows its colon, when the text starts with a scheme. -/
def splitScheme (cs : List Char) : Option (List Char × List Char) :=
  let scheme := cs.takeWhile (· != ':')
  match cs.dropWhile (· != ':') with
  | _ :: rest =>
    if (scheme.head?.map Char.isAlpha).getD false && scheme.all isSchemeChar then
      some (scheme, rest)
    else none
  | [] => none

/-- The characters whose compatibility form holds a delimiter of URLs. -/
def delimiterLookalikes : List Nat :=
  [8263, 8264, 8265, 8448, 8449, 8453, 8454, 10868, 65043, 65046, 65109, 65110, 65119, 65131,
   65283, 65295, 65306, 65311, 65312]

/-- The name that stands between brackets: an address of a later version after `v`, or an
IPv6 address. -/
def isBracketedName (cs : List Char) : Bool :=
  match cs with
  | 'v' :: rest =>
    let version := rest.takeWhile isHexDigit
    match rest.dropWhile isHexDigit with
    | '.' :: tail => !version.isEmpty && !tail.isEmpty
    | _ => false
  | _ => isIpv6 cs

/-- The part of a host after its last at sign. -/
def afterUser (host : List Char) : List Char :=
  (host.reverse.takeWhile (· != '@')).reverse

/-- A host with brackets starts with them, after the user if there is one, and has at most a
port behind them. -/
def validBrackets (host : List Char) : Bool :=
  match afterUser host with
  | '[' :: rest =>
    let tail := (rest.dropWhile (· != ']')).drop 1
    isBracketedName (rest.takeWhile (· != ']')) && (tail.isEmpty || tail.head? == some ':')
  | name => !name.contains '[' && isBracketedName (name.takeWhile (· != ':'))

/-- A host is refused when its brackets do not hold an address, or when a character stands
for a delimiter. -/
def validHost (host : List Char) : Bool :=
  (host.contains '[' == host.contains ']') && (!host.contains '[' || validBrackets host) &&
    host.all fun c => !delimiterLookalikes.contains c.toNat

/-- The text is an absolute URL with a scheme and a host. -/
def isAbsoluteUrl (cs : List Char) : Bool :=
  if cs.any Text.isBlank then false
  else match splitScheme (cs.dropWhile fun c => c.toNat < 32) with
  | some (_, '/' :: '/' :: rest) =>
    let host := rest.takeWhile fun c => c != '/' && c != '?' && c != '#'
    !host.isEmpty && validHost host
  | _ => false

end Assay.Net

import Assay.Format.Recognizer
import Assay.Net.Url
import Assay.Value.Naming

/-!
# Named string formats

Which texts a named format accepts (`StringFormat.accepts`), and the pattern by which issues
describe those formats that have one (`StringFormat.pattern?`).
-/

namespace Assay.StringFormat

/-- The text has the format. -/
def accepts (format : StringFormat) (s : String) : Bool :=
  let cs := s.toList
  match format with
  | email => Recognizer.isEmail cs
  | url => Net.isAbsoluteUrl cs
  | uuid => Recognizer.isUuid cs
  | ipv4 => !cs.contains '/' && Net.isIpv4 cs
  | ipv6 => !cs.contains '/' && Net.isIpv6 cs
  | cidrv4 => cs.contains '/' && Net.isIpv4Range cs
  | cidrv6 => cs.contains '/' && Net.isIpv6Range cs
  | isoDateTime => Recognizer.isDayTime cs
  | isoDate => Recognizer.isDay cs
  | isoTime => Recognizer.isTime cs
  | base64 => Recognizer.isBase64 cs
  | hex => cs.all Net.isHexDigit
  | hostname => Recognizer.isHostname cs

/-- The pattern that issues show for a format. -/
def pattern? : StringFormat → Option String
  | email => some <|
    "(?!\\.)(?!.*\\.\\.)[A-Za-z0-9_'+\\-.]*[A-Za-z0-9_+-]@"
      ++ "(?:[A-Za-z0-9][A-Za-z0-9\\-]*\\.)+[A-Za-z]\x7b2,\x7d"
  | uuid => some <|
    "[0-9a-fA-F]\x7b8\x7d-[0-9a-fA-F]\x7b4\x7d-[1-8][0-9a-fA-F]\x7b3\x7d-"
      ++ "[89abAB][0-9a-fA-F]\x7b3\x7d-[0-9a-fA-F]\x7b12\x7d"
      ++ "|00000000-0000-0000-0000-000000000000"
      ++ "|[fF]\x7b8\x7d-[fF]\x7b4\x7d-[fF]\x7b4\x7d-[fF]\x7b4\x7d-[fF]\x7b12\x7d"
  | base64 => some <|
    "(?:[0-9a-zA-Z+/]\x7b4\x7d)*(?:[0-9a-zA-Z+/]\x7b2\x7d==|[0-9a-zA-Z+/]\x7b3\x7d=)?"
  | hex => some "[0-9a-fA-F]*"
  | hostname => some <|
    "(?=.\x7b1,253\x7d\\.?$)[a-zA-Z0-9](?:[a-zA-Z0-9-]\x7b0,61\x7d[a-zA-Z0-9])?"
      ++ "(?:\\.[a-zA-Z0-9](?:[a-zA-Z0-9-]\x7b0,61\x7d[a-zA-Z0-9])?)*\\.?"
  | isoTime => some "(?:[01]\\d|2[0-3]):[0-5]\\d(?::[0-5]\\d(?:\\.\\d+)?)?"
  | isoDate => some "\\d\x7b4\x7d-\\d\x7b2\x7d-\\d\x7b2\x7d"
  | isoDateTime => some <|
    "\\d\x7b4\x7d-\\d\x7b2\x7d-\\d\x7b2\x7dT(?:[01]\\d|2[0-3]):[0-5]\\d(?::[0-5]\\d(?:\\.\\d+)?)?"
      ++ "(?:Z|[+-](?:[01]\\d|2[0-3]):?[0-5]\\d)?"
  | url | ipv4 | ipv6 | cidrv4 | cidrv6 => none

end Assay.StringFormat

import Assay.Session.Basic

/-!
# Settings

The configured message providers and the locales that can be chosen by name. A configuration
changes only what it names; a locale may also be given as a function.
-/

namespace Assay.Settings

open Run

/-- The names of the locales, in ascending order. -/
def localeNames : Run Value := do
  return .list (← ofOption .unsupported (Value.sorted? ((← get).locales.map (·.1))))

/-- Make a source of messages available as a locale. -/
def registerLocale (name : Value) (source : LocaleSource) : Run Unit :=
  if !name.isHashable then throw .unsupported
  else modify fun s =>
    if s.locales.any fun l => l.1.isFound name then
      { s with locales := s.locales.map fun l =>
          if l.1.isFound name then (l.1, source) else l }
    else { s with locales := s.locales ++ [(name, source)] }

/-- The message provider of a locale. -/
def localeProvider (name : Value) : Run Value := do
  if !name.isHashable then throw .unsupported
  let session : Session ← get
  let known := session.locales.find? fun l => l.1.isFound name
  match known.map Prod.snd with
  | some .english => return .builtin .english
  | some .unavailable => throw .missingModule
  | none =>
    match ← localeNames with
    | .list available => refuse (.localeUnknown name available)
    | _ => throw .unsupported

/-- The message provider that a setting names or is. -/
def localeSetting (v : Value) : Run Value :=
  match v with
  | .str name => localeProvider (.str name)
  | .null => pure .null
  | v => if v.isCallable then pure v else refuse (.localeNotCallable v)

/-- Change the settings that are given by name. -/
def configure (fields : List (String × Value)) : Run Config := do
  if fields.any fun f => f.1 != "custom_error" && f.1 != "locale" then throw .unsupported
  let customError := fields.lookup "custom_error"
  let localeError ← (match fields.lookup "locale" with
    | none => pure none
    | some v => some <$> localeSetting v)
  let old := (← get).config
  let new : Config :=
    ⟨customError.getD old.customError, localeError.getD old.localeError⟩
  modify fun s => { s with config := new }
  let changed := (customError.map fun _ => Value.str "custom_error").toList
    ++ (localeError.map fun _ => Value.str "locale_error").toList
  logLine "INFO" ("Schema configuration updated: " ++ (Value.list changed).written)
  return new

/-- Drop every setting. -/
def reset : Run Config := do
  modify fun s => { s with config := {} }
  return {}

end Assay.Settings

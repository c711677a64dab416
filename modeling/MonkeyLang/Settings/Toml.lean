import MonkeyLang.Settings.Basic
import MonkeyLang.Settings.Toml.Table

/-!
# Settings in TOML

The tables of a document are the sections of settings.  Names are taken in upper or
lower case.  What settings do not know is not an error of the format: all such keys
are listed, in the order of the document.
-/

namespace MonkeyLang.Toml

/-- The value as each type of setting. -/
def Value.scalar : Value → Scalar
  | .string s => ⟨some s, none, none⟩
  | .integer n => ⟨none, none, some n⟩
  | .boolean b => ⟨none, some b, none⟩
  | _ => ⟨none, none, none⟩

/-- The small letter that a character counts as in a name: its own if it is a
capital, and those of the long s and of the sign for Kelvin. -/
def foldedChar (c : Char) : Char :=
  if c.isUpper then c.toLower
  else if c = '\u017f' then 's'
  else if c = '\u212a' then 'k'
  else c

/-- A name with the letters that count as the same made the same. -/
def folded (name : Text) : Text :=
  name.symbols.flatMap fun
    | .char c => String.utf8EncodeChar (foldedChar c)
    | .stray b => [b]

/-- How a character is written inside a quoted name. -/
def shownChar (b : UInt8) : Text :=
  match Char.ofUInt8 b with
  | '"' => "\\\""
  | '\\' => "\\\\"
  | '\x08' => "\\b"
  | '\t' => "\\t"
  | '\n' => "\\n"
  | '\x0c' => "\\f"
  | '\r' => "\\r"
  | _ => if b < 0x20 || b == 0x7F then Text.ofString "\\u" ++ Text.hex 4 b.toNat else [b]

/-- A name inside a dotted key: quoted, unless it could be a bare name. -/
def shownName (name : Text) : Text :=
  if name.isEmpty || !name.all fun b => isBare (Char.ofUInt8 b) then
    '"'.toUInt8 :: name.flatMap shownChar ++ ['"'.toUInt8]
  else name

/-- A key with dots between its names. -/
def shownKey (key : Key) : Text :=
  Text.joined "." (key.map shownName)

/-- The settings after the entries of a section, and the keys that were used. -/
def applyEntries (division section_ : Text) :
    Entries → Settings → Option (Settings × List Key)
  | [], s => some (s, [])
  | (name, item) :: rest, s => do
    if Settings.fields.contains (division, folded name) then
      match item with
      | .value value =>
        match s.assign division (folded name) value.scalar with
        | .changed after =>
          let (last, used) ← applyEntries division section_ rest after
          return (last, [section_, name] :: used)
        | _ => none
      | _ => none
    else applyEntries division section_ rest s

/-- The settings after the sections of a document, and the keys that were used. -/
def applySections : Entries → Settings → Option (Settings × List Key)
  | [], s => some (s, [])
  | (name, item) :: rest, s => do
    if Settings.sections.contains (folded name) then
      match item with
      | .table entries =>
        let (after, used) ← applyEntries (folded name) name entries s
        let (last, more) ← applySections rest after
        return (last, [name] :: used ++ more)
      | _ => none
    else applySections rest s

/-- The settings after a document, and the keys of the document that were not used. -/
def decode (text : Text) (s : Settings) : Except Text (Settings × List Text) :=
  let outcome := do
    let a ← Assembly.empty.addAll? [] (← document? text)
    let (after, used) ← applySections a.root s
    return (after, (a.given.reverse.filter fun key => !used.contains key).map shownKey)
  match outcome with
  | none => .error "malformed document"
  | some result => .ok result

end MonkeyLang.Toml

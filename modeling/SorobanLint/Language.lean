import SorobanLint.Text.Blank

/-!
# Languages

The language of a source is told from what it contains, or from the extension of its file.  Every
Soroban contract is Rust too, so Soroban is looked for first.
-/

namespace SorobanLint

open Text

/-- A language that sources are written in. -/
inductive Language where
  | rust
  | vyper
  | soroban
deriving DecidableEq, Repr

namespace Language

/-- The name of the language. -/
def name : Language → String
  | rust => "rust"
  | vyper => "vyper"
  | soroban => "soroban"

/-- The language with exactly the given name. -/
def ofName? (name : String) : Option Language :=
  [rust, vyper, soroban].find? fun language => language.name = name

/-- The language of files with the given extension, in either case and with dots in front or
without. -/
def ofExtension? (extension : String) : Option Language :=
  let letters := (extension.toList.map Char.toLower).dropWhile (· = '.')
  if letters = ['r', 's'] then some rust
  else if letters = ['v', 'y'] then some vyper
  else none

/-- The import without which a source is not taken for Soroban. -/
def sorobanImport : String := "soroban_sdk"

/-- The attributes one of which must stand beside the import. -/
def sorobanMarkers : List String := ["#[contract]", "#[contractimpl]", "#[contracttype]"]

/-- What tells Vyper. -/
def vyperMarkers : List String := ["# @version", "interface "]

/-- What tells Rust. -/
def rustMarkers : List String := ["fn main(", "#[derive("]

/-- The language that the markers for which `has` is true tell. -/
def ofMarkers? (has : String → Bool) : Option Language :=
  if has sorobanImport && sorobanMarkers.any has then some soroban
  else if vyperMarkers.any has then some vyper
  else if rustMarkers.any has then some rust
  else none

/-- The language that a source tells by its content. -/
def detect? (content : String) : Option Language :=
  ofMarkers? fun marker => contains marker.toList content.toList

@[simp]
theorem ofName?_name (language : Language) : ofName? language.name = some language := by
  cases language <;> decide

end Language
end SorobanLint

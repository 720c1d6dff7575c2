import SorobanLint.Scan.Scanner

/-!
# The supply of a scanner

All requests are served by one scanner.  It is made when it is first asked for and kept from then
on; while making it fails, it is tried again for every request.
-/

namespace SorobanLint

/-- The scanner of a service. -/
structure ScannerSupply where
  /-- Make a scanner, or say why there is none. -/
  make : Except String Scanner
  /-- The scanner that is kept, once it is made. -/
  kept? : Option Scanner

namespace ScannerSupply

/-- A supply that keeps the given scanner. -/
def ofScanner (scanner : Scanner) : ScannerSupply := ⟨.ok scanner, some scanner⟩

/-- The scanner, and the supply after it was asked for. -/
def take (supply : ScannerSupply) : Except String Scanner × ScannerSupply :=
  match supply.kept? with
  | some scanner => (.ok scanner, supply)
  | none =>
    match supply.make with
    | .ok scanner => (.ok scanner, { supply with kept? := some scanner })
    | .error reason => (.error reason, supply)

end ScannerSupply
end SorobanLint

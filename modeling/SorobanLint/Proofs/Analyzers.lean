import SorobanLint.Scan.Scanner

/-!
# How analyzers fail

Engines and analyzers that always find the same fail by errors of reading and parsing a source only
(`Scanner.BuiltIn.failsByParsing`).  With such analyzers, a source that is not scanned cannot be
parsed or there is no analyzer for its language (`Scanner.scanContent_error`).
-/

namespace SorobanLint
namespace Scanner

/-- The analyzers of the scanner raise nothing but errors of reading and parsing a source. -/
def FailsByParsing (scanner : Scanner) : Prop :=
  ∀ language analyzer, scanner.analyzer? language = some analyzer →
    ∀ content source error, analyzer.analyze content source = .error error →
      ∃ parse, error = .parse parse

/-- The analyzers of the scanner are engines or always find the same. -/
def BuiltIn (scanner : Scanner) : Prop :=
  ∀ language analyzer, scanner.analyzer? language = some analyzer →
    (∃ engine, analyzer = .engine engine) ∨ ∃ violations, analyzer = .fixed violations

theorem BuiltIn.failsByParsing {scanner : Scanner} (builtIn : scanner.BuiltIn) :
    scanner.FailsByParsing := by
  intro language analyzer found content source error fails
  obtain ⟨engine, rfl⟩ | ⟨violations, rfl⟩ := builtIn language analyzer found
  · rw [Analyzer.analyze] at fails
    cases outcome : engine.analyze content source with
    | error parse =>
        rw [outcome] at fails
        exact ⟨parse, (Except.error.inj fails).symm⟩
    | ok violations => rw [outcome] at fails; cases fails
  · cases fails

theorem builtIn_ofEngine (engine : Engine) (defaultLanguage : Option Language) :
    (ofEngine engine defaultLanguage).BuiltIn := by
  intro language analyzer found
  cases language with
  | soroban => exact .inl ⟨engine, (Option.some.inj found).symm⟩
  | rust => cases found
  | vyper => cases found

variable {scanner : Scanner} {content source : String} {language : Option Language}

theorem source_of_scanContent {result : ScanResult}
    (scans : scanner.scanContent content source language = .ok result) :
    result.source = source := by
  rw [scanContent] at scans
  split at scans
  next => cases scans
  next analyzer present =>
    cases outcome : analyzer.analyze content source with
    | error error => rw [outcome] at scans; cases scans
    | ok violations => rw [outcome] at scans; cases scans; rfl

/-- A text that is not scanned cannot be parsed, or there is no analyzer for its language. -/
theorem scanContent_error (parses : scanner.FailsByParsing) {error : ScanError}
    (fails : scanner.scanContent content source language = .error error) :
    (∃ parse, error = .parse parse) ∨ ∃ resolved, error = .unsupported resolved source := by
  rw [scanContent] at fails
  split at fails
  next absent => exact .inr ⟨_, (Except.error.inj fails).symm⟩
  next analyzer present =>
    obtain ⟨resolved, -, found⟩ := Option.bind_eq_some_iff.mp present
    cases outcome : analyzer.analyze content source with
    | error cause =>
        rw [outcome] at fails
        obtain rfl := Except.error.inj fails
        exact .inl (parses resolved analyzer found _ _ _ outcome)
    | ok violations => rw [outcome] at fails; cases fails

end Scanner
end SorobanLint

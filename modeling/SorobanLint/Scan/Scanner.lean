import SorobanLint.Engine
import SorobanLint.File.Tree
import SorobanLint.Language
import SorobanLint.Scan.Result

/-!
# Scanning

A scanner tells the language of a source and hands it to the analyzer for that language.  It scans
texts, files, and all files with a known suffix below a directory; in a directory, a file that
cannot be read or analyzed is recorded and the others are scanned all the same.  What ends the scan
of a directory is an analyzer that fails otherwise, or an entry about which it cannot be asked
whether it is a file.
-/

namespace SorobanLint

open Text

/-- Why a source is not scanned. -/
inductive ScanError where
  /-- The source cannot be read or parsed. -/
  | parse (error : ParseError)
  /-- There is no analyzer for the language of the source. -/
  | unsupported (language : Option Language) (source : String)
  /-- What the analyzer finds are no violations, with the reason in words. -/
  | invalid (reason : String)
  /-- No file can have such a path. -/
  | noPath
deriving DecidableEq, Repr

/-- What finds violations in sources of one language. -/
inductive Analyzer where
  /-- An engine that runs rules over contracts. -/
  | engine (runner : Engine)
  /-- An analyzer that always finds the same. -/
  | fixed (violations : List Violation)
  /-- An analyzer whose findings are no violations, with the reason in words. -/
  | faulty (reason : String)
  /-- An analyzer that a caller supplies, with the rules that it shows. -/
  | supplied (rules : List Rule) (find : String → String → Except ScanError (List Violation))

namespace Analyzer

/-- The violations in a source with the given name. -/
def analyze (analyzer : Analyzer) (content source : String) :
    Except ScanError (List Violation) :=
  match analyzer with
  | .engine runner => (runner.analyze content source).mapError ScanError.parse
  | .fixed violations => .ok violations
  | .faulty reason => .error (.invalid reason)
  | .supplied _ find => find content source

/-- The rules that an analyzer runs. -/
def rules : Analyzer → List Rule
  | .engine runner => runner.rules
  | .fixed _ => []
  | .faulty _ => []
  | .supplied rules _ => rules

end Analyzer

namespace ScanError

/-- The error in words. -/
def message : ScanError → String
  | parse error => error.message
  | unsupported language source =>
    let name := match language with
      | some language => language.name
      | none => "unknown"
    s!"No analyzer registered for {name} source: {source}"
  | invalid reason => reason
  | noPath => "embedded null byte"

end ScanError

/-- The analyzers at hand, and the language of sources that tell none. -/
structure Scanner where
  /-- The analyzer for each language. -/
  analyzer? : Language → Option Analyzer
  /-- The language of a source that tells none. -/
  defaultLanguage : Option Language

/-- A file that was not analyzed. -/
structure ScanFailure where
  /-- The path of the file. -/
  source : String
  /-- What went wrong. -/
  error : String
deriving DecidableEq, Repr

/-- Why the scan of a directory is given up. -/
inductive DirectoryError where
  /-- The directory, or something below it, cannot be asked about. -/
  | access (error : AccessError) (path : Path)
  /-- The scan of a file ends in an error that is not about the file. -/
  | scan (error : ScanError)
deriving DecidableEq, Repr

namespace DirectoryError

/-- The error in words. -/
def message : DirectoryError → String
  | access error path => error.message path.text
  | scan error => error.message

end DirectoryError

/-- What the scan of a directory finds. -/
structure DirectoryReport where
  /-- The results with violations, in the order of the paths. -/
  results : List ScanResult
  /-- The files that were not analyzed, in the order of the paths. -/
  failures : List ScanFailure
  /-- The number of files with a known suffix. -/
  filesScanned : Nat
deriving DecidableEq, Repr

namespace Scanner

/-- A scanner with an engine for Soroban and no other analyzer. -/
def ofEngine (engine : Engine) (defaultLanguage : Option Language) : Scanner where
  analyzer? := fun
    | .soroban => some (.engine engine)
    | .rust => none
    | .vyper => none
  defaultLanguage

/-- The language of a source: the one given, or else the one that the content tells, or else
Soroban if its import occurs, or else the default. -/
def resolveLanguage (scanner : Scanner) (content : String) (language : Option Language) :
    Option Language :=
  language <|> Language.detect? content <|>
    (if contains Language.sorobanImport.toList content.toList then some .soroban else none) <|>
    scanner.defaultLanguage

/-- Scan a text. -/
def scanContent (scanner : Scanner) (content source : String) (language : Option Language) :
    Except ScanError ScanResult :=
  let resolved := scanner.resolveLanguage content language
  match resolved.bind scanner.analyzer? with
  | none => .error (.unsupported resolved source)
  | some analyzer =>
    (analyzer.analyze content source).map (⟨source, ·⟩)

/-- Whether the scan of a text writes the name of its source: an engine tells which source it has
parsed, and the error without an analyzer tells the source. -/
def writesSource (scanner : Scanner) (content : String) (language : Option Language) : Bool :=
  match (scanner.resolveLanguage content language).bind scanner.analyzer? with
  | none => true
  | some (.engine _) => true
  | some _ => false

/-- The text of the file at a path, with every newline a line feed. -/
def readFile (tree : FileTree) (path : Path) : Except ParseError String :=
  let unreadable (cause : String) : ParseError :=
    .unreadable s!"Failed to read file {path.text}: {cause}"
  match tree.read path with
  | .error error => .error (unreadable (error.message path.text))
  | .ok octets =>
    match Utf8.decode octets with
    | .error fault => .error (unreadable fault.message)
    | .ok content => .ok (String.ofList (normalizeNewlines content))

/-- Scan the file at a path. -/
def scanFile (scanner : Scanner) (tree : FileTree) (path : Path) : Except ScanError ScanResult :=
  if path.holdsNull then .error .noPath
  else
    match readFile tree path with
    | .error error => .error (.parse error)
    | .ok content =>
      let language := Language.detect? content <|> Language.ofExtension? path.suffix
      scanner.scanContent content path.text language

/-- The suffixes of the files that are scanned in a directory. -/
def suffixes : List String := [".rs", ".vy"]

/-- A report with what the scan of one more file in front finds. -/
def addFile (source : String) (outcome : Except ScanError ScanResult) (report : DirectoryReport) :
    DirectoryReport :=
  let filesScanned := report.filesScanned + 1
  match outcome with
  | .error error =>
    { report with filesScanned, failures := ⟨source, error.message⟩ :: report.failures }
  | .ok result =>
    if result.hasViolations then
      { report with filesScanned, results := result :: report.results }
    else { report with filesScanned }

/-- Scan those of the given paths that are files with a known suffix, one after the other.  An error
about a file is recorded.  Any other one ends the scan, and so does a path that cannot be asked
about, whatever its suffix. -/
def scanFiles (scanner : Scanner) (tree : FileTree) :
    List Path → Except DirectoryError DirectoryReport
  | [] => .ok ⟨[], [], 0⟩
  | file :: rest =>
    match tree.ask file false FileTree.isFile with
    | .error error => .error (.access error file)
    | .ok isFile =>
      if !isFile || !suffixes.contains file.suffix then scanFiles scanner tree rest
      else
        let outcome := scanner.scanFile tree file
        match outcome with
        | .error (.invalid error) => .error (.scan (.invalid error))
        | .error .noPath => .error (.scan .noPath)
        | _ => (scanFiles scanner tree rest).map (addFile file.text outcome)

/-- Scan every file with a known suffix below the directory at a path. -/
def scanDirectory (scanner : Scanner) (tree : FileTree) (path : Path) :
    Except DirectoryError DirectoryReport :=
  match tree.files path with
  | .error (error, place) => .error (.access error place)
  | .ok files => scanner.scanFiles tree files

end Scanner
end SorobanLint

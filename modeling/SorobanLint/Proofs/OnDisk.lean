import SorobanLint.Proofs.SameLines

/-!
# Sources on disk

A text written in octets is read back as it was (`Utf8.decode_encode`).  So a file is scanned like
the text in it whenever the text tells its language by its markers (`Scanner.scanFile_eq_of_told`).
For a text that does not, the two scans settle on different languages: the suffix of the file comes
before what else a text is told by, the Soroban import and the default language
(`Scanner.scanFile_import_alone`).
-/

namespace SorobanLint

open Text

/-! ## Octets -/

namespace Utf8

theorem toNat_ofNat_of_lt {n : Nat} (small : n < 256) : (UInt8.ofNat n).toNat = n := by
  rw [UInt8.toNat_ofNat']
  exact Nat.mod_eq_of_lt small

/-- An octet behind the first one of a character, which carries six bits. -/
def tail (n : Nat) : UInt8 := UInt8.ofNat (0x80 + n % 64)

theorem toNat_tail (n : Nat) : (tail n).toNat = 0x80 + n % 64 :=
  toNat_ofNat_of_lt (by omega)

section Sequence

variable {lead first bits owed low high n offset : Nat} {rest : List UInt8}

/-- The first octet of a character of several octets is read. -/
theorem decodeFrom_lead {part : Partial} (many : 0x80 ≤ n) (small : n < 256)
    (begun : Partial.begin? n offset = some part) :
    decodeFrom none offset (UInt8.ofNat n :: rest) = decodeFrom (some part) (offset + 1) rest := by
  rw [decodeFrom]
  simp only [toNat_ofNat_of_lt small, Nat.not_lt.mpr many, if_false, begun]

theorem tail_inside (low_le : low ≤ 0x80 + n % 64) (le_high : 0x80 + n % 64 ≤ high) :
    (decide (0x80 + n % 64 < low) || decide (high < 0x80 + n % 64)) = false := by
  simp only [Nat.not_lt.mpr low_le, Nat.not_lt.mpr le_high, decide_false, Bool.or_false]

theorem extend_tail (part : Partial) (n : Nat) :
    part.extend (0x80 + n % 64) = part.bits * 64 + n % 64 := by
  unfold Partial.extend
  rw [Nat.add_sub_cancel_left]

/-- One octet is read of a character that owes more. -/
theorem decodeFrom_tail (low_le : low ≤ 0x80 + n % 64) (le_high : 0x80 + n % 64 ≤ high) :
    decodeFrom (some ⟨lead, first, bits, owed + 2, low, high⟩) offset (tail n :: rest) =
      decodeFrom (some ⟨lead, first, bits * 64 + n % 64, owed + 1, 0x80, 0xbf⟩) (offset + 1)
        rest := by
  have more : ¬owed + 2 ≤ 1 := by omega
  rw [decodeFrom]
  have inside := tail_inside low_le le_high
  simp only [toNat_tail, inside, Bool.false_eq_true, if_false, more, extend_tail,
    Nat.add_succ_sub_one]

/-- The last octet of a character is read. -/
theorem decodeFrom_last (low_le : low ≤ 0x80 + n % 64) (le_high : 0x80 + n % 64 ≤ high) :
    decodeFrom (some ⟨lead, first, bits, 1, low, high⟩) offset (tail n :: rest) =
      (decodeFrom none (offset + 1) rest).map (Char.ofNat (bits * 64 + n % 64) :: ·) := by
  rw [decodeFrom]
  have inside := tail_inside low_le le_high
  simp only [toNat_tail, inside, Bool.false_eq_true, if_false, Nat.le_refl, if_true, extend_tail]

theorem begin?_two (lower : 0x80 ≤ n) (upper : n < 0x800) (offset : Nat) :
    Partial.begin? (0xc0 + n / 64) offset =
      some ⟨0xc0 + n / 64, offset, n / 64, 1, 0x80, 0xbf⟩ := by
  have lead : (decide (0xc2 ≤ 0xc0 + n / 64) && decide (0xc0 + n / 64 ≤ 0xdf)) = true := by
    simp only [Bool.and_eq_true, decide_eq_true_eq]
    omega
  rw [Partial.begin?, if_pos lead, Nat.add_sub_cancel_left]

/-- Three octets begin like no overlong sequence and no surrogate. -/
theorem begin?_three (lower : 0x800 ≤ n) (upper : n < 0x10000)
    (scalar : n < 0xd800 ∨ 0xdfff < n) (offset : Nat) :
    ∃ low high, Partial.begin? (0xe0 + n / 4096) offset =
        some ⟨0xe0 + n / 4096, offset, n / 4096, 2, low, high⟩ ∧
      low ≤ 0x80 + n / 64 % 64 ∧ 0x80 + n / 64 % 64 ≤ high := by
  have not_two : (decide (0xc2 ≤ 0xe0 + n / 4096) && decide (0xe0 + n / 4096 ≤ 0xdf)) = false := by
    simp only [Bool.and_eq_false_iff, decide_eq_false_iff_not]
    omega
  have lead : (decide (0xe1 ≤ 0xe0 + n / 4096) && decide (0xe0 + n / 4096 ≤ 0xef)) =
      decide (n / 4096 ≠ 0) := by
    rw [Bool.eq_iff_iff]
    simp only [Bool.and_eq_true, decide_eq_true_eq]
    omega
  rw [Partial.begin?, not_two, if_neg Bool.false_ne_true, lead]
  by_cases least : n / 4096 = 0
  · exact ⟨0xa0, 0xbf, by simp [least], by omega, by omega⟩
  · rw [if_neg (by omega : 0xe0 + n / 4096 ≠ 0xe0)]
    by_cases surrogates : n / 4096 = 0xd
    · exact ⟨0x80, 0x9f, by simp [surrogates], by omega, by omega⟩
    · rw [if_neg (by omega : 0xe0 + n / 4096 ≠ 0xed)]
      exact ⟨0x80, 0xbf, by simp [least], by omega, by omega⟩

/-- Four octets begin like no overlong sequence and no number above all code points. -/
theorem begin?_four (lower : 0x10000 ≤ n) (upper : n < 0x110000) (offset : Nat) :
    ∃ low high, Partial.begin? (0xf0 + n / 262144) offset =
        some ⟨0xf0 + n / 262144, offset, n / 262144, 3, low, high⟩ ∧
      low ≤ 0x80 + n / 4096 % 64 ∧ 0x80 + n / 4096 % 64 ≤ high := by
  have not_two : (decide (0xc2 ≤ 0xf0 + n / 262144) && decide (0xf0 + n / 262144 ≤ 0xdf)) =
      false := by
    simp only [Bool.and_eq_false_iff, decide_eq_false_iff_not]
    omega
  have not_three : (decide (0xe1 ≤ 0xf0 + n / 262144) && decide (0xf0 + n / 262144 ≤ 0xef)) =
      false := by
    simp only [Bool.and_eq_false_iff, decide_eq_false_iff_not]
    omega
  have lead : (decide (0xf1 ≤ 0xf0 + n / 262144) && decide (0xf0 + n / 262144 ≤ 0xf3)) =
      decide (1 ≤ n / 262144 ∧ n / 262144 ≤ 3) := by
    rw [Bool.eq_iff_iff]
    simp only [Bool.and_eq_true, decide_eq_true_eq]
    omega
  rw [Partial.begin?, not_two, if_neg Bool.false_ne_true, if_neg (by omega), if_neg (by omega),
    not_three, if_neg Bool.false_ne_true, lead]
  by_cases least : n / 262144 = 0
  · exact ⟨0x90, 0xbf, by simp [least], by omega, by omega⟩
  · rw [if_neg (by omega : 0xf0 + n / 262144 ≠ 0xf0)]
    by_cases greatest : n / 262144 = 4
    · exact ⟨0x80, 0x8f, by simp [greatest], by omega, by omega⟩
    · rw [if_neg (by omega : 0xf0 + n / 262144 ≠ 0xf4)]
      have inside : 1 ≤ n / 262144 ∧ n / 262144 ≤ 3 := by omega
      exact ⟨0x80, 0xbf, by simp [inside], by omega, by omega⟩

end Sequence

/-- The octets of a character are read as that character, whatever follows them. -/
theorem decodeFrom_encodeChar (c : Char) (offset : Nat) (rest : List UInt8) :
    decodeFrom none offset (encodeChar c ++ rest) =
      (decodeFrom none (offset + (encodeChar c).length) rest).map (c :: ·) := by
  have char_eq : Char.ofNat c.toNat = c := Char.ofNat_toNat c
  have scalar : c.toNat < 0xd800 ∨ 0xdfff < c.toNat ∧ c.toNat < 0x110000 := c.valid
  rw [encodeChar]
  generalize c.toNat = n at char_eq scalar
  have last_le (m : Nat) : 0x80 + m % 64 ≤ 0xbf := by omega
  have le_last (m : Nat) : 0x80 ≤ 0x80 + m % 64 := Nat.le_add_right _ _
  dsimp only
  rw [← tail, ← tail, ← tail, Nat.div_one]
  split
  next one =>
    have octet_eq := toNat_ofNat_of_lt (n := n) (by omega)
    rw [List.singleton_append, decodeFrom]
    simp only [octet_eq, one, if_true, char_eq, List.length_singleton]
  next not_one =>
    split
    next two =>
      have begun := begin?_two (Nat.le_of_not_lt not_one) two offset
      have bits : n / 64 * 64 + n % 64 = n := by omega
      rw [List.cons_append, decodeFrom_lead (by omega) (by omega) begun, List.singleton_append,
        decodeFrom_last (le_last n) (last_le n), bits, char_eq]
      rfl
    next not_two =>
      split
      next three =>
        obtain ⟨low, high, begun, low_le, le_high⟩ :=
          begin?_three (Nat.le_of_not_lt not_two) three (by omega) offset
        have bits : (n / 4096 * 64 + n / 64 % 64) * 64 + n % 64 = n := by omega
        rw [List.cons_append, decodeFrom_lead (by omega) (by omega) begun, List.cons_append,
          decodeFrom_tail low_le le_high, List.singleton_append,
          decodeFrom_last (le_last n) (last_le n), bits, char_eq]
        rfl
      next not_three =>
        obtain ⟨low, high, begun, low_le, le_high⟩ :=
          begin?_four (Nat.le_of_not_lt not_three) (by omega) offset
        have bits : ((n / 262144 * 64 + n / 4096 % 64) * 64 + n / 64 % 64) * 64 + n % 64 = n := by
          omega
        rw [List.cons_append, decodeFrom_lead (by omega) (by omega) begun, List.cons_append,
          decodeFrom_tail low_le le_high, List.cons_append,
          decodeFrom_tail (le_last (n / 64)) (last_le (n / 64)), List.singleton_append,
          decodeFrom_last (le_last n) (last_le n), bits, char_eq]
        rfl

/-- A text is read back from its octets. -/
theorem decode_encode (text : List Char) : decode (encode text) = .ok text := by
  have from_any (offset : Nat) : decodeFrom none offset (encode text) = .ok text := by
    induction text generalizing offset with
    | nil => rfl
    | cons c text ih =>
        rw [encode, List.flatMap_cons, decodeFrom_encodeChar, ← encode, ih]
        rfl
  exact from_any 0

end Utf8

/-! ## Files -/

/-- There are no newlines to normalize without a carriage return. -/
theorem Text.normalizeNewlines_eq_self {s : List Char} (no_return : '\r' ∉ s) :
    normalizeNewlines s = s := by
  induction s with
  | nil => rfl
  | cons c rest ih =>
      have not_return : c ≠ '\r' := fun eq => no_return (eq ▸ List.mem_cons_self)
      rw [normalizeNewlines, if_neg not_return, ih (fun mem => no_return (.tail c mem))]

namespace Scanner

variable {tree : FileTree} {file : Path} {content : String}

/-- What is written in a file without carriage returns is read of it. -/
theorem readFile_of_encode (no_return : '\r' ∉ content.toList)
    (read : tree.read file = .ok (Utf8.encode content.toList)) :
    readFile tree file = .ok content := by
  have decoded := Utf8.decode_encode content.toList
  rw [readFile_eq_ok read decoded, normalizeNewlines_eq_self no_return, String.ofList_toList]

/-- Without a language that is given, the one that the content tells is taken. -/
theorem resolveLanguage_of_detect? (scanner : Scanner) {language : Language}
    (told : Language.detect? content = some language) :
    scanner.resolveLanguage content none = some language := by
  rw [resolveLanguage, told]
  rfl

/-- A file of Rust is scanned under the language that its content tells, or else as Rust. -/
theorem scanFile_eq_scanContent_of_rust (scanner : Scanner) (possible : file.holdsNull = false)
    (suffix : file.suffix = ".rs") (read : readFile tree file = .ok content) :
    scanner.scanFile tree file =
      scanner.scanContent content file.text (Language.detect? content <|> some .rust) := by
  have extension : Language.ofExtension? ".rs" = some .rust := by decide
  rw [scanFile, possible, if_neg Bool.false_ne_true, read]
  dsimp only
  rw [suffix, extension]

/-- A file of Rust is scanned like the text that is written in it if the text tells its language
by its markers, with the same violations or the same error; and if the text tells none, it is
rejected as Rust. -/
theorem scanFile_eq_of_told (engine : Engine) (defaultLanguage : Option Language)
    (no_return : '\r' ∉ content.toList) (possible : file.holdsNull = false)
    (suffix : file.suffix = ".rs")
    (read : tree.read file = .ok (Utf8.encode content.toList)) :
    let scanner := ofEngine engine defaultLanguage
    (Language.detect? content ≠ none →
      scanner.scanFile tree file = scanner.scanContent content file.text none) ∧
    (Language.detect? content = none →
      scanner.scanFile tree file = .error (.unsupported (some .rust) file.text)) := by
  intro scanner
  have scanned := scanner.scanFile_eq_scanContent_of_rust possible suffix
    (readFile_of_encode no_return read)
  constructor
  · intro told
    obtain ⟨language, told⟩ := Option.ne_none_iff_exists'.mp told
    rw [scanned, told, scanContent, scanContent, scanner.resolveLanguage_of_detect? told]
    rfl
  · intro untold
    rw [scanned, untold]
    rfl

/-- A contract behind the import and a marker, in a file and as a text. -/
theorem scanFile_eq_of_told_marker :
    let content := "use soroban_sdk::Env;\n#[contracttype]\npub struct A \x7b pub x: u64 \x7d\n"
    let unused : Violation := {
      ruleName := "soroban-unused-state-variables"
      description := "State variable 'x' of 'A' is never used by any contract function"
      severity := .warning
      line := 3
      column := 20
      variableName := "x"
      suggestion := "Remove 'x' to reduce storage footprint and ledger rent" }
    let file : Path := ⟨"", ["a.rs"]⟩
    let tree : FileTree := .directory [("a.rs", .file (Utf8.encode content.toList))]
    let scanner := ofEngine Engine.default none
    '\r' ∉ content.toList ∧ file.holdsNull = false ∧ file.suffix = ".rs" ∧
      tree.read file = .ok (Utf8.encode content.toList) ∧ Language.detect? content ≠ none ∧
      scanner.scanContent content "a.rs" none = .ok ⟨"a.rs", [unused]⟩ ∧
      scanner.scanFile tree file = .ok ⟨"a.rs", [unused]⟩ := by
  intro content unused file tree scanner
  have no_return : '\r' ∉ content.toList := by decide +kernel
  have possible : file.holdsNull = false := rfl
  have suffix : file.suffix = ".rs" := by decide +kernel
  have read : tree.read file = .ok (Utf8.encode content.toList) := by decide +kernel
  have told : Language.detect? content ≠ none := by decide +kernel
  have in_memory : scanner.scanContent content "a.rs" none = .ok ⟨"a.rs", [unused]⟩ := by
    decide +kernel
  have on_disk := (scanFile_eq_of_told Engine.default none no_return possible suffix read).1 told
  exact ⟨no_return, possible, suffix, read, told, in_memory, on_disk.trans in_memory⟩

/-- A contract whose marker carries a path tells no language by its markers: as a text it is taken
for Soroban by its import, in a file it is rejected as Rust. -/
theorem scanFile_import_alone :
    let content :=
      "use soroban_sdk::Env;\n#[soroban_sdk::contracttype]\npub struct A \x7b pub x: u64 \x7d\n"
    let unused : Violation := {
      ruleName := "soroban-unused-state-variables"
      description := "State variable 'x' of 'A' is never used by any contract function"
      severity := .warning
      line := 3
      column := 20
      variableName := "x"
      suggestion := "Remove 'x' to reduce storage footprint and ledger rent" }
    let file : Path := ⟨"", ["a.rs"]⟩
    let tree : FileTree := .directory [("a.rs", .file (Utf8.encode content.toList))]
    let scanner := ofEngine Engine.default none
    '\r' ∉ content.toList ∧ file.holdsNull = false ∧ file.suffix = ".rs" ∧
      tree.read file = .ok (Utf8.encode content.toList) ∧
      scanner.scanContent content "a.rs" none = .ok ⟨"a.rs", [unused]⟩ ∧
      scanner.scanFile tree file = .error (.unsupported (some .rust) "a.rs") := by
  decide +kernel

end Scanner
end SorobanLint

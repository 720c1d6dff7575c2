import SorobanLint.Proofs.Below
import SorobanLint.Proofs.OnDisk
import SorobanLint.Rule.ConfigFile
import SorobanLint.Yaml.Load

/-!
# Loading a configuration

Octets that are decoded are those of the text that is read from them (`Utf8.decode_eq_ok_iff`).  So
what a configuration file configures is the mapping in a text, and nothing for any other text; an
error is due to octets that encode no text, to a path that is refused, or to a loader that fails
otherwise than by a mistaken document (`ConfigFile.outcome_load`).
-/

namespace SorobanLint

open Text

/-! ## Octets that are decoded -/

namespace Utf8

variable {n low high offset : Nat} {octet : UInt8} {part : Partial} {front octets : List UInt8}
  {text : List Char}

/-- The last octets of a character, each of which carries six bits. -/
def tails : Nat → Nat → List UInt8
  | 0, _ => []
  | k + 1, n => tail (n / 64 ^ k) :: tails k n

theorem toNat_ofNat_of_scalar (scalar : n < 0xd800 ∨ 0xdfff < n ∧ n < 0x110000) :
    (Char.ofNat n).toNat = n := by
  have valid : n.isValidChar := scalar
  rw [Char.ofNat, dif_pos valid]
  exact Char.toNat_ofNatAux valid

theorem encodeChar_one (one : octet.toNat < 0x80) :
    encodeChar (Char.ofNat octet.toNat) = [octet] := by
  rw [encodeChar, toNat_ofNat_of_scalar (by omega)]
  dsimp only
  rw [if_pos one, UInt8.ofNat_toNat]

theorem encodeChar_two (lower : 0x80 ≤ n) (upper : n < 0x800) :
    encodeChar (Char.ofNat n) = UInt8.ofNat (0xc0 + n / 64) :: tails 1 n := by
  rw [encodeChar, toNat_ofNat_of_scalar (by omega)]
  dsimp only
  rw [if_neg (by omega), if_pos upper]
  rfl

theorem encodeChar_three (lower : 0x800 ≤ n) (upper : n < 0x10000)
    (scalar : n < 0xd800 ∨ 0xdfff < n) :
    encodeChar (Char.ofNat n) = UInt8.ofNat (0xe0 + n / 4096) :: tails 2 n := by
  rw [encodeChar, toNat_ofNat_of_scalar (by omega)]
  dsimp only
  rw [if_neg (by omega), if_neg (by omega), if_pos upper]
  rfl

theorem encodeChar_four (lower : 0x10000 ≤ n) (upper : n < 0x110000) :
    encodeChar (Char.ofNat n) = UInt8.ofNat (0xf0 + n / 262144) :: tails 3 n := by
  rw [encodeChar, toNat_ofNat_of_scalar (by omega)]
  dsimp only
  rw [if_neg (by omega), if_neg (by omega), if_neg (by omega)]
  rfl

/-- The octets in front make the part of a character that is read: they begin every character with
the bits read so far whose next octet is within the bounds. -/
structure Partial.Begins (part : Partial) (front : List UInt8) : Prop where
  owed_pos : 1 ≤ part.owed
  low_ge : 0x80 ≤ part.low
  high_le : part.high ≤ 0xbf
  completes : ∀ n, n / 64 ^ part.owed = part.bits →
    part.low ≤ 0x80 + n / 64 ^ (part.owed - 1) % 64 →
    0x80 + n / 64 ^ (part.owed - 1) % 64 ≤ part.high →
    encodeChar (Char.ofNat n) = front ++ tails part.owed n

/-! ### The first octet -/

section First

variable {first bits : Nat}

theorem begins_two (lead : octet.toNat = 0xc0 + bits) (lower : 2 ≤ bits) (upper : bits ≤ 0x1f) :
    Partial.Begins ⟨octet.toNat, first, bits, 1, 0x80, 0xbf⟩ [octet] where
  owed_pos := Nat.le_refl 1
  low_ge := Nat.le_refl _
  high_le := Nat.le_refl _
  completes := by
    intro n bits_eq _ _
    dsimp only at bits_eq
    have octet_eq : 0xc0 + n / 64 = octet.toNat := by omega
    rw [encodeChar_two (by omega) (by omega), octet_eq, UInt8.ofNat_toNat]
    rfl

/-- The bounds leave out overlong sequences and surrogates. -/
theorem begins_three (lead : octet.toNat = 0xe0 + bits) (upper : bits ≤ 0xf) (low_ge : 0x80 ≤ low)
    (high_le : high ≤ 0xbf) (least : bits = 0 → 0xa0 ≤ low)
    (surrogates : bits = 0xd → high ≤ 0x9f) :
    Partial.Begins ⟨octet.toNat, first, bits, 2, low, high⟩ [octet] where
  owed_pos := Nat.succ_pos _
  low_ge := low_ge
  high_le := high_le
  completes := by
    intro n bits_eq above below
    dsimp only at bits_eq above below
    have octet_eq : 0xe0 + n / 4096 = octet.toNat := by omega
    rw [encodeChar_three (by omega) (by omega) (by omega), octet_eq, UInt8.ofNat_toNat]
    rfl

/-- The bounds leave out overlong sequences and numbers above all code points. -/
theorem begins_four (lead : octet.toNat = 0xf0 + bits) (upper : bits ≤ 4) (low_ge : 0x80 ≤ low)
    (high_le : high ≤ 0xbf) (least : bits = 0 → 0x90 ≤ low) (greatest : bits = 4 → high ≤ 0x8f) :
    Partial.Begins ⟨octet.toNat, first, bits, 3, low, high⟩ [octet] where
  owed_pos := Nat.succ_pos _
  low_ge := low_ge
  high_le := high_le
  completes := by
    intro n bits_eq above below
    dsimp only at bits_eq above below
    have octet_eq : 0xf0 + n / 262144 = octet.toNat := by omega
    rw [encodeChar_four (by omega) (by omega), octet_eq, UInt8.ofNat_toNat]
    rfl

theorem begins_of_begin? (begun : Partial.begin? octet.toNat first = some part) :
    part.Begins [octet] := by
  simp only [Partial.begin?, Bool.and_eq_true, decide_eq_true_eq] at begun
  split at begun
  · obtain rfl := Option.some.inj begun
    exact begins_two (by omega) (by omega) (by omega)
  iterate 3
    split at begun
    · obtain rfl := Option.some.inj begun
      apply begins_three <;> omega
  iterate 3
    split at begun
    · obtain rfl := Option.some.inj begun
      apply begins_four <;> omega
  contradiction

end First

/-! ### The octets behind it -/

/-- One more octet within the bounds gives more of the same characters. -/
theorem Partial.Begins.completes_extend (begins : part.Begins front)
    (above : part.low ≤ octet.toNat) (below : octet.toNat ≤ part.high)
    (bits_eq : n / 64 ^ (part.owed - 1) = part.extend octet.toNat) :
    encodeChar (Char.ofNat n) = front ++ octet :: tails (part.owed - 1) n := by
  obtain ⟨owed_pos, low_ge, high_le, completes⟩ := begins
  obtain ⟨more, owed_eq⟩ := Nat.exists_eq_add_of_le' owed_pos
  have onward := completes n
  rw [owed_eq, Nat.add_sub_cancel, Nat.pow_succ, ← Nat.div_div_eq_div_mul, tails] at onward
  rw [owed_eq, Nat.add_sub_cancel] at bits_eq ⊢
  unfold Partial.extend at bits_eq
  rw [bits_eq] at onward
  have octet_eq : tail (part.bits * 64 + (octet.toNat - 0x80)) = octet := by
    rw [← UInt8.toNat_inj, toNat_tail]
    omega
  rw [octet_eq] at onward
  exact onward (by omega) (by omega) (by omega)

theorem Partial.Begins.extend (begins : part.Begins front) (owed : 1 < part.owed)
    (above : part.low ≤ octet.toNat) (below : octet.toNat ≤ part.high) :
    Partial.Begins { part with
      bits := part.extend octet.toNat, owed := part.owed - 1, low := 0x80, high := 0xbf }
      (front ++ [octet]) where
  owed_pos := Nat.le_sub_one_of_lt owed
  low_ge := Nat.le_refl _
  high_le := Nat.le_refl _
  completes := by
    intro n bits_eq _ _
    rw [begins.completes_extend above below bits_eq, List.append_assoc]
    rfl

/-- The octets that owe nothing after one more are those of a character. -/
theorem Partial.Begins.encodeChar_extend (begins : part.Begins front) (owed : part.owed ≤ 1)
    (above : part.low ≤ octet.toNat) (below : octet.toNat ≤ part.high) :
    encodeChar (Char.ofNat (part.extend octet.toNat)) = front ++ [octet] := by
  have owed_eq : part.owed - 1 = 0 := Nat.sub_eq_zero_of_le owed
  have encoded := begins.completes_extend (n := part.extend octet.toNat) above below
    (by rw [owed_eq, Nat.pow_zero, Nat.div_one])
  rwa [owed_eq] at encoded

/-- Octets are those of the text that is decoded, with the octets in front if these make a character
that is read in part. -/
theorem encode_of_decodeFrom (octets : List UInt8) (offset : Nat) (text : List Char) :
    (decodeFrom none offset octets = .ok text → octets = encode text) ∧
      ∀ part front, part.Begins front → decodeFrom (some part) offset octets = .ok text →
        front ++ octets = encode text := by
  induction octets generalizing offset text with
  | nil =>
      constructor
      · intro decoded
        obtain rfl := Except.ok.inj decoded
        rfl
      · intro part front _ decoded
        contradiction
  | cons octet octets ih =>
      have onward {c : Char} {front : List UInt8} (here : encodeChar c = front)
          (decoded : (decodeFrom none (offset + 1) octets).map (c :: ·) = .ok text) :
          front ++ octets = encode text := by
        cases rest_eq : decodeFrom none (offset + 1) octets with
        | error fault => simp [rest_eq, Except.map] at decoded
        | ok rest =>
            rw [rest_eq] at decoded
            obtain rfl := Except.ok.inj decoded
            rw [encode, List.flatMap_cons, here, ← encode, ← (ih (offset + 1) rest).1 rest_eq]
      constructor
      · intro decoded
        rw [decodeFrom] at decoded
        split at decoded
        next one => exact onward (encodeChar_one one) decoded
        next many =>
          split at decoded
          · contradiction
          next part begun =>
            exact (ih (offset + 1) text).2 part [octet] (begins_of_begin? begun) decoded
      · intro part front begins decoded
        rw [decodeFrom] at decoded
        split at decoded
        · contradiction
        next inside =>
          simp only [Bool.or_eq_true, decide_eq_true_eq, not_or, Nat.not_lt] at inside
          rw [List.append_cons]
          split at decoded
          next last => exact onward (begins.encodeChar_extend last inside.1 inside.2) decoded
          next more =>
            exact (ih (offset + 1) text).2 _ _
              (begins.extend (Nat.lt_of_not_le more) inside.1 inside.2) decoded

/-- Octets are decoded as a text exactly if they are its octets. -/
theorem decode_eq_ok_iff : decode octets = .ok text ↔ octets = encode text := by
  constructor
  · exact (encode_of_decodeFrom octets 0 text).1
  · rintro rfl
    exact decode_encode text

theorem encode_inj {other : List Char} (same : encode text = encode other) : text = other := by
  have decoded := decode_eq_ok_iff.mpr same
  rw [decode_encode] at decoded
  exact Except.ok.inj decoded

end Utf8

/-! ## What cannot be read -/

namespace FileTree

variable {tree : FileTree} {path : Path} {error : AccessError}

theorem read_eq_error_of_refused (refused : tree.Refused path error) :
    tree.read path = .error error := by
  rw [read, refused.find?_eq]

/-- Nothing is read where nothing is. -/
theorem read_eq_error_of_ask (absent : tree.ask path true (fun _ => true) = .ok false) :
    ∃ error, tree.read path = .error error := by
  rw [ask] at absent
  split at absent
  next => cases absent
  next => cases absent
  next error failed => exact ⟨error, by rw [read, failed]⟩

end FileTree

/-! ## Configuration files -/

namespace ConfigFile

/-- What is assumed of a loader: a text is no document, or it has a value. -/
structure Loader.Lawful (loader : Loader) : Prop where
  /-- The loader fails by a mistaken document only. -/
  eq_mistake {text : List Char} {error : LoadError} (failed : loader text = .error error) :
    error = .mistake

variable {loader : Loader} {tree : FileTree} {path : Path} {given environment : Option String}
  {entries : List (Value × Value)}

/-- The file at the path holds the octets of a text whose value is a mapping. -/
def Maps (loader : Loader) (tree : FileTree) (path : Path) (entries : List (Value × Value)) :
    Prop :=
  ∃ text, tree.read path = .ok (Utf8.encode text) ∧
    loader (normalizeNewlines text) = .ok (.map entries)

/-- What comes of a configuration file, and why. -/
inductive Outcome (loader : Loader) (tree : FileTree) (path : Path) :
    Except Fault Value → Prop where
  /-- The entries of the mapping in the file. -/
  | mapping {entries : List (Value × Value)} (maps : Maps loader tree path entries) :
      Outcome loader tree path (.ok (.map entries))
  /-- Nothing, without a mapping in a file. -/
  | nothing (unmapped : ∀ entries, ¬Maps loader tree path entries) :
      Outcome loader tree path (.ok (.map []))
  /-- It cannot be told whether there is a file. -/
  | access {error : AccessError} (refused : tree.Refused path error) :
      Outcome loader tree path (.error (.access error path.text))
  /-- The octets of the file encode no text. -/
  | encoding {octets : List UInt8} {fault : Utf8.Fault} (read : tree.read path = .ok octets)
      (no_text : ∀ text, octets ≠ Utf8.encode text) :
      Outcome loader tree path (.error (.encoding fault))
  /-- The loader fails in its own way on the text of the file. -/
  | loader {text : List Char} {kind message : String}
      (read : tree.read path = .ok (Utf8.encode text))
      (failed : loader (normalizeNewlines text) = .error (.other kind message)) :
      Outcome loader tree path (.error (.loader kind message))

theorem Maps.text_eq {text : List Char} (maps : Maps loader tree path entries)
    (read : tree.read path = .ok (Utf8.encode text)) :
    loader (normalizeNewlines text) = .ok (.map entries) := by
  obtain ⟨other, other_read, value⟩ := maps
  rwa [Utf8.encode_inj (Except.ok.inj (read.symm.trans other_read))]

theorem outcome_ofText {text : List Char} (read : tree.read path = .ok (Utf8.encode text)) :
    Outcome loader tree path (ofText loader text) := by
  rw [ofText]
  cases value : loader (normalizeNewlines text) with
  | ok loaded =>
      cases loaded with
      | map entries => exact .mapping ⟨text, read, value⟩
      | _ =>
        refine .nothing fun entries maps => ?_
        cases value.symm.trans (maps.text_eq read)
  | error error =>
      cases error with
      | mistake =>
          refine .nothing fun entries maps => ?_
          cases value.symm.trans (maps.text_eq read)
      | other kind message => exact .loader read value

/-- Without octets to read there is no mapping. -/
theorem not_maps_of_read_error {error : AccessError} (unread : tree.read path = .error error)
    (entries : List (Value × Value)) : ¬Maps loader tree path entries := by
  rintro ⟨text, read, -⟩
  cases unread.symm.trans read

/-- The configuration at a path is explained by what is there. -/
theorem outcome_load (loader : Loader) (tree : FileTree) (path : Path) :
    Outcome loader tree path (load loader tree path) := by
  rw [load]
  split
  next error refused => exact .access (FileTree.ask_eq_error_iff.mp refused)
  next absent =>
    obtain ⟨error, unread⟩ := FileTree.read_eq_error_of_ask absent
    exact .nothing (not_maps_of_read_error unread)
  next present =>
    split
    next octets read =>
      rw [ofOctets]
      cases decoded : Utf8.decode octets with
      | ok text =>
          obtain rfl := Utf8.decode_eq_ok_iff.mp decoded
          exact outcome_ofText read
      | error fault =>
          refine .encoding read ?_
          rintro text rfl
          rw [Utf8.decode_encode] at decoded
          contradiction
    next error unread => exact .nothing (not_maps_of_read_error unread)

/-- It can be told whether anything is at the path, and a file there holds the octets of a text or
cannot be read. -/
structure Sound (tree : FileTree) (path : Path) : Prop where
  not_refused : ∀ error, ¬tree.Refused path error
  encoded : ∀ octets, tree.read path = .ok octets → ∃ text, octets = Utf8.encode text

theorem Maps.unique {other : List (Value × Value)} (maps : Maps loader tree path entries)
    (other_maps : Maps loader tree path other) : entries = other := by
  obtain ⟨text, read, value⟩ := other_maps
  have same := (maps.text_eq read).symm.trans value
  simpa using same

/-- With a lawful loader, a configuration is loaded from whatever a sound path leads to: the mapping
in the text of the file, and an empty one without a file that can be read, without a text that is a
mapping, and without a path. -/
theorem loadNamed_eq_ok (lawful : loader.Lawful)
    (sound : ∀ path ∈ path? given environment, Sound tree path) :
    ∃ entries, loadNamed loader tree given environment = .ok (.map entries) ∧
      (entries ≠ [] → ∃ path ∈ path? given environment, Maps loader tree path entries) ∧
      ∀ path ∈ path? given environment, ∀ mapped, Maps loader tree path mapped →
        entries = mapped := by
  rw [loadNamed]
  cases named : path? given environment with
  | none => exact ⟨[], rfl, nofun, nofun⟩
  | some path =>
      obtain ⟨not_refused, encoded⟩ := sound path named
      have outcome := outcome_load loader tree path
      dsimp only
      generalize load loader tree path = loaded at outcome
      cases outcome with
      | @mapping entries maps =>
          refine ⟨entries, rfl, fun _ => ⟨path, rfl, maps⟩, ?_⟩
          rintro _ ⟨⟩ mapped other_maps
          exact maps.unique other_maps
      | nothing unmapped =>
          refine ⟨[], rfl, nofun, ?_⟩
          rintro _ ⟨⟩ mapped maps
          exact absurd maps (unmapped mapped)
      | access refused => exact absurd refused (not_refused _)
      | encoding read no_text =>
          obtain ⟨text, same⟩ := encoded _ read
          exact absurd same (no_text text)
      | loader read failed => cases lawful.eq_mistake failed

theorem exists_map_of_typeName {loaded : Except LoadError Value}
    (named : loaded.toOption.map Value.typeName = some "dict") :
    ∃ entries, loaded = .ok (.map entries) := by
  cases loaded with
  | error fault => contradiction
  | ok value =>
      cases value with
      | map entries => exact ⟨entries, rfl⟩
      | _ => simp [Except.toOption, Value.typeName] at named

/-- The values of YAML texts, with every fault taken for a mistaken document. -/
def yamlLoader : Loader := fun text => (Yaml.load text).mapError fun _ => .mistake

theorem lawful_yamlLoader : yamlLoader.Lawful where
  eq_mistake {text error} failed := by
    rw [yamlLoader] at failed
    cases loaded : Yaml.load text with
    | error fault => rw [loaded] at failed; exact (Except.error.inj failed).symm
    | ok value => rw [loaded] at failed; cases failed

/-- A severity in the file that the environment names. -/
theorem loadNamed_eq_ok_environment :
    let tree : FileTree := .directory [("c.yaml", .file (Utf8.encode "severity: off\n".toList))]
    yamlLoader.Lawful ∧ (∀ path ∈ path? (some "") (some "c.yaml"), Sound tree path) ∧
      ∃ entries, loadNamed yamlLoader tree (some "") (some "c.yaml") = .ok (.map entries) ∧
        (Value.lookup? "severity" entries).map Value.text = some "False" := by
  intro tree
  have named : path? (some "") (some "c.yaml") = some ⟨"", ["c.yaml"]⟩ := by decide +kernel
  have read : tree.read ⟨"", ["c.yaml"]⟩ = .ok (Utf8.encode "severity: off\n".toList) := by
    decide +kernel
  obtain ⟨mapped, value, off⟩ : ∃ mapped,
      yamlLoader (normalizeNewlines "severity: off\n".toList) = .ok (.map mapped) ∧
        (Value.lookup? "severity" mapped).map Value.text = some "False" := by
    have is_map : (yamlLoader (normalizeNewlines "severity: off\n".toList)).toOption.map
        Value.typeName = some "dict" := by decide +kernel
    have off : ((yamlLoader (normalizeNewlines "severity: off\n".toList)).toOption.bind
        (·.get? "severity")).map Value.text = some "False" := by decide +kernel
    obtain ⟨mapped, value⟩ := exists_map_of_typeName is_map
    rw [value] at off
    exact ⟨mapped, value, off⟩
  have sound : ∀ path ∈ path? (some "") (some "c.yaml"), Sound tree path := by
    rw [named]
    rintro _ ⟨⟩
    constructor
    · intro error refused
      cases (FileTree.read_eq_error_of_refused refused).symm.trans read
    · intro octets other_read
      exact ⟨_, Except.ok.inj (other_read.symm.trans read)⟩
  obtain ⟨entries, loaded, -, unique⟩ := loadNamed_eq_ok lawful_yamlLoader sound
  obtain rfl := unique _ named _ ⟨_, read, value⟩
  exact ⟨lawful_yamlLoader, sound, entries, loaded, off⟩

/-- An octet that begins no character is an error, not an empty configuration. -/
theorem loadNamed_undecodable :
    yamlLoader.Lawful ∧
      loadNamed yamlLoader (.directory [("c.yaml", .file [0xff])]) (some "c.yaml") none =
        .error (.encoding ⟨.badStart, 0xff, 0, 0⟩) := by
  have named : path? (some "c.yaml") none = some ⟨"", ["c.yaml"]⟩ := by decide +kernel
  have asked : FileTree.ask (.directory [("c.yaml", .file [0xff])]) ⟨"", ["c.yaml"]⟩ true
      (fun _ => true) = .ok true := by decide +kernel
  have read : FileTree.read (.directory [("c.yaml", .file [0xff])]) ⟨"", ["c.yaml"]⟩ =
      .ok [0xff] := by decide +kernel
  have decoded : Utf8.decode [0xff] = .error ⟨.badStart, 0xff, 0, 0⟩ := by decide
  refine ⟨lawful_yamlLoader, ?_⟩
  rw [loadNamed, named]
  dsimp only
  rw [load, asked]
  dsimp only
  rw [read]
  dsimp only
  rw [ofOctets, decoded]
  rfl

end ConfigFile
end SorobanLint

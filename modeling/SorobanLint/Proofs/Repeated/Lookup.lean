import SorobanLint.Proofs.Brackets.Group
import SorobanLint.Proofs.Findings
import SorobanLint.Proofs.Reads

/-!
# Lookups

A lookup is a call that a match of one of the two patterns begins: behind the match stand explicit
type arguments, perhaps, and arguments whose real brackets pair up (`RepeatedStorage.Site`).  The
lookups of a text are just these (`mem_all_iff`), and no two of them begin at one place
(`nodup_offsets`).
-/

namespace SorobanLint

open Text

/-! ## The text inside the parentheses of a call -/

/-- Of a text that begins with a parenthesis, the first group is that parenthesis with a text whose
real brackets pair up. -/
theorem Bracket.insideParens?_paren {rest inner : List Char} :
    insideParens? ('(' :: rest) = some inner ↔
      ∃ after, rest = inner ++ ')' :: after ∧ WellNested inner := by
  rw [insideParens?_eq_some_iff]
  constructor
  · rintro ⟨before, after, group⟩
    have begins : before = [] := by
      cases before with
      | nil => rfl
      | cons c before => exact absurd rfl (group.first _ List.mem_cons_self rfl)
    subst begins
    have text_eq := group.text_eq
    exact ⟨after, (List.cons.inj text_eq).2, group.nested⟩
  · rintro ⟨after, rfl, nested⟩
    refine ⟨[], after, ?_⟩
    exact {
      text_eq := rfl
      fits := nofun
      first := nofun
      outside := by
        rintro visit ⟨⟩
        rfl
      nested }

namespace RepeatedStorage

/-! ## Calls -/

/-- The first text is nothing, or explicit type arguments with the rest behind them. -/
inductive TypeArgs : List Char → List Char → Prop where
  | none (rest : List Char) : TypeArgs [] rest
  | turbofish {lead gap angles rest : List Char} (lead_blank : ∀ c ∈ lead, isBlank c = true)
      (gap_blank : ∀ c ∈ gap, isBlank c = true) (begins : angles.head? = some '<')
      (closes : Bracket.skipAngles? (angles ++ rest) = some angles.length) :
      TypeArgs (lead ++ ("::".toList ++ (gap ++ angles))) rest

theorem advance_append (before s after : List Char) :
    advance s.length ⟨before, s ++ after⟩ = ⟨s.reverse ++ before, after⟩ := by
  induction s generalizing before with
  | nil => rfl
  | cons c s ih =>
      rw [List.length_cons, List.cons_append, advance, ih, List.reverse_cons, List.append_assoc]
      rfl

variable {before s after rest : List Char} {place : Place} {found : Match}

theorem exists_of_reads_turbofish (reads : turbofish.Reads before s after) :
    ∃ lead gap, s = lead ++ ("::".toList ++ (gap ++ ['<'])) ∧
      (∀ c ∈ lead, isBlank c = true) ∧ ∀ c ∈ gap, isBlank c = true := by
  obtain ⟨lead, -, rfl, lead_blank, -, -, rfl, rfl, gap, -, rfl, gap_blank, -, -, rfl, rfl, rfl⟩ :=
    reads
  exact ⟨lead, gap, rfl, lead_blank, gap_blank⟩

theorem matchAt?_turbofish {lead gap : List Char} (lead_blank : ∀ c ∈ lead, isBlank c = true)
    (gap_blank : ∀ c ∈ gap, isBlank c = true) (before rest : List Char) :
    ∃ found, turbofish.matchAt? ⟨before, lead ++ ("::".toList ++ (gap ++ '<' :: rest))⟩ =
        some found ∧
      found.stop = ⟨(lead ++ ("::".toList ++ (gap ++ ['<']))).reverse ++ before, rest⟩ := by
  have stops :=
    (Pattern.stops_many lead_blank (stops_cons rfl (':' :: (gap ++ '<' :: rest)))
      before none).all_cons
      ((Pattern.stops_text _ "::".toList _ none).all_cons
        ((Pattern.stops_many gap_blank (stops_cons rfl rest) _ none).all_cons
          ((Pattern.stops_text _ ['<'] rest none).all_cons (Pattern.stops_all_nil _))))
  refine ⟨_, stops.matchAt?_eq, ?_⟩
  simp

theorem exists_of_reads_call (reads : call.Reads before s after) :
    ∃ gap, s = gap ++ ['('] ∧ ∀ c ∈ gap, isBlank c = true := by
  obtain ⟨gap, -, rfl, gap_blank, rfl⟩ := reads
  exact ⟨gap, rfl, gap_blank⟩

theorem matchAt?_call {gap : List Char} (gap_blank : ∀ c ∈ gap, isBlank c = true)
    (before rest : List Char) :
    ∃ found, call.matchAt? ⟨before, gap ++ '(' :: rest⟩ = some found ∧
      found.stop = ⟨(gap ++ ['(']).reverse ++ before, rest⟩ := by
  have stops := (Pattern.stops_many gap_blank (stops_cons rfl rest) before none).seq
    (Pattern.stops_text _ ['('] rest none)
  refine ⟨_, stops.matchAt?_eq, ?_⟩
  simp

/-- Type arguments that are closed begin the text. -/
theorem exists_of_skipAngles? {text : List Char} {offset : Nat}
    (closes : Bracket.skipAngles? ('<' :: text) = some offset) :
    ∃ inside rest, text = inside ++ rest ∧ offset = inside.length + 1 := by
  obtain ⟨stop, stopped, rfl⟩ := Option.map_eq_some_iff.mp closes
  have text_eq := Bracket.append_of_stopFrom? stopped
  cases before_eq : stop.before with
  | nil => exact ⟨[], text, rfl, rfl⟩
  | cons c inside =>
      rw [before_eq, List.cons_append] at text_eq
      obtain ⟨-, rfl⟩ := List.cons.inj text_eq
      exact ⟨inside ++ [stop.visit.char], stop.after, by simp, by simp⟩

/-- Behind type arguments, or where there are none, stands what follows them. -/
theorem exists_of_afterTypeArgs? {next : Place} (found : afterTypeArgs? place = some next) :
    ∃ typeArgs, place.after = typeArgs ++ next.after ∧
      next.before = typeArgs.reverse ++ place.before ∧ TypeArgs typeArgs next.after := by
  rw [afterTypeArgs?] at found
  split at found
  · obtain rfl := Option.some.inj found
    exact ⟨[], rfl, rfl, .none _⟩
  next opened matched =>
    obtain ⟨offset, closes, rfl⟩ := Option.map_eq_some_iff.mp found
    obtain ⟨-, s, after_eq, before_eq, reads⟩ := Pattern.exists_of_matchAt? matched
    obtain ⟨lead, gap, rfl, lead_blank, gap_blank⟩ := exists_of_reads_turbofish reads
    obtain ⟨inside, rest, rest_eq, rfl⟩ := exists_of_skipAngles? closes
    have next_eq : advance (inside.length + 1 - 1) opened.stop =
        ⟨inside.reverse ++ opened.stop.before, rest⟩ := by
      rw [Nat.add_sub_cancel, ← advance_append, ← rest_eq]
    rw [rest_eq] at closes after_eq
    rw [next_eq]
    refine ⟨lead ++ ("::".toList ++ (gap ++ '<' :: inside)), ?_, ?_, ?_⟩
    · rw [after_eq]
      simp
    · rw [before_eq]
      simp
    · exact .turbofish lead_blank gap_blank rfl closes

/-- Type arguments are passed, and a call without them is not mistaken for them. -/
theorem afterTypeArgs?_append {typeArgs gap : List Char} (generic : TypeArgs typeArgs
    (gap ++ '(' :: rest)) (gap_blank : ∀ c ∈ gap, isBlank c = true) (before : List Char) :
    afterTypeArgs? ⟨before, typeArgs ++ (gap ++ '(' :: rest)⟩ =
      some ⟨typeArgs.reverse ++ before, gap ++ '(' :: rest⟩ := by
  rw [afterTypeArgs?]
  generalize behind_eq : gap ++ '(' :: rest = behind at generic
  cases generic with
  | none =>
      split
      · rfl
      next opened matched =>
        obtain ⟨-, s, after_eq, -, reads⟩ := Pattern.exists_of_matchAt? matched
        obtain ⟨lead, colons, rfl, lead_blank, -⟩ := exists_of_reads_turbofish reads
        have same : gap ++ '(' :: rest =
            lead ++ (':' :: ':' :: (colons ++ '<' :: opened.stop.after)) := by
          rw [behind_eq]
          simpa using after_eq
        obtain ⟨-, parted⟩ :=
          append_inj_of_forall gap_blank lead_blank (stops_cons rfl _) (stops_cons rfl _) same
        exact absurd (List.cons.inj parted).1 (by decide)
  | @turbofish lead colons angles _ lead_blank colons_blank begins closes =>
      obtain ⟨inside, rfl⟩ := List.head?_eq_some_iff.mp begins
      obtain ⟨opened, matched, stop_eq⟩ :=
        matchAt?_turbofish lead_blank colons_blank before (inside ++ behind)
      have place_eq : lead ++ ("::".toList ++ (colons ++ '<' :: inside)) ++ behind =
          lead ++ ("::".toList ++ (colons ++ '<' :: (inside ++ behind))) := by simp
      rw [List.cons_append] at closes
      rw [place_eq, matched]
      simp only [stop_eq]
      rw [closes, Option.map_some, List.length_cons, Nat.add_sub_cancel, advance_append]
      simp

theorem callPlace?_eq_some_iff {found : Match} {place : Place} :
    callPlace? found = some place ↔ ∃ typeArgs gap rest,
      found.stop.after = typeArgs ++ (gap ++ '(' :: rest) ∧ TypeArgs typeArgs (gap ++ '(' :: rest) ∧
      (∀ c ∈ gap, isBlank c = true) ∧
      place = ⟨(typeArgs ++ (gap ++ ['('])).reverse ++ found.stop.before, rest⟩ := by
  simp only [callPlace?, Option.bind_eq_bind, Option.bind_eq_some_iff, Option.pure_def,
    Option.some.injEq]
  constructor
  · rintro ⟨next, passed, opened, matched, rfl⟩
    obtain ⟨typeArgs, after_eq, before_eq, generic⟩ := exists_of_afterTypeArgs? passed
    obtain ⟨-, s, next_eq, stop_eq, reads⟩ := Pattern.exists_of_matchAt? matched
    obtain ⟨gap, rfl, gap_blank⟩ := exists_of_reads_call reads
    have next_after : next.after = gap ++ '(' :: opened.stop.after := by simpa using next_eq
    rw [next_after] at after_eq generic
    refine ⟨typeArgs, gap, opened.stop.after, after_eq, generic, gap_blank, ?_⟩
    rw [before_eq] at stop_eq
    cases opened_eq : opened.stop with
    | mk before after =>
        rw [opened_eq] at stop_eq
        simp [show before = _ from stop_eq]
  · rintro ⟨typeArgs, gap, rest, after_eq, generic, gap_blank, rfl⟩
    obtain ⟨opened, matched, stop_eq⟩ :=
      matchAt?_call gap_blank (typeArgs.reverse ++ found.stop.before) rest
    refine ⟨_, ?_, opened, matched, ?_⟩
    · have passed := afterTypeArgs?_append generic gap_blank found.stop.before
      rwa [← after_eq] at passed
    · rw [stop_eq]
      simp

/-! ## Sites -/

/-- The call that a text begins with. -/
structure Call (text : List Char) where
  /-- The explicit type arguments, if there are any. -/
  typeArgs : List Char
  /-- The blanks in front of the parenthesis. -/
  gap : List Char
  /-- The arguments. -/
  args : List Char
  /-- The text behind the call. -/
  after : List Char
  text_eq : text = typeArgs ++ (gap ++ '(' :: (args ++ ')' :: after))
  generic : TypeArgs typeArgs (gap ++ '(' :: (args ++ ')' :: after))
  gap_blank : ∀ c ∈ gap, isBlank c = true
  nested : Bracket.WellNested args

namespace Call

variable {text : List Char}

/-- The text of the call. -/
def whole (call : Call text) : List Char :=
  call.typeArgs ++ (call.gap ++ '(' :: (call.args ++ [')']))

/-- What is looked up: the argument without a reference. -/
def key (call : Call text) : List Char :=
  trim ((trim call.args).dropWhile (· = '&'))

end Call

/-- Where a lookup stands in a text. -/
structure Site (code : List Char) (lookup : Lookup) where
  /-- The match of a pattern for lookups. -/
  found : Match
  /-- The call behind it. -/
  call : Call found.stop.after
  start_eq : lookup.start = found.start
  expression_eq :
    lookup.expression = withoutBlanks (found.start.upTo found.stop ++ call.whole)
  /-- A read of the ledger is named for its key, and a read of a map for the map. -/
  label_eq : found ∈ ledgerRead.findAll code ∧ lookup.label = call.key ∨
    found ∈ mapRead.findAll code ∧ lookup.label = found.captured

theorem upTo_of_append {start stop : Place} {s : List Char}
    (after_eq : start.after = s ++ stop.after)
    (before_eq : stop.before = s.reverse ++ start.before) : start.upTo stop = s := by
  have count_eq : stop.offset - start.offset = s.length := by
    rw [Place.offset, before_eq, List.length_append, List.length_reverse, Place.offset,
      Nat.add_sub_cancel]
  rw [Place.upTo, count_eq, after_eq, List.take_left]

/-- The lookup that a match makes with a call behind it. -/
theorem ofMatch?_eq_some_iff {pattern : Pattern} {lookup : Lookup}
    (matched : pattern.matchAt? found.start = some found) :
    Lookup.ofMatch? found = some lookup ↔ ∃ call : Call found.stop.after,
      lookup = ⟨withoutBlanks (found.start.upTo found.stop ++ call.whole), found.start,
        if found.group.isSome then found.captured else call.key⟩ := by
  obtain ⟨-, s, after_eq, before_eq, -⟩ := Pattern.exists_of_matchAt? matched
  have text_eq (typeArgs gap rest : List Char)
      (behind_eq : found.stop.after = typeArgs ++ (gap ++ '(' :: rest)) :
      found.start.upTo ⟨(typeArgs ++ (gap ++ ['('])).reverse ++ found.stop.before, rest⟩ =
        found.start.upTo found.stop ++ (typeArgs ++ (gap ++ ['('])) := by
    rw [upTo_of_append after_eq before_eq]
    apply upTo_of_append
    · simp [after_eq, behind_eq]
    · simp [before_eq]
  simp only [Lookup.ofMatch?, Option.bind_eq_bind, Option.bind_eq_some_iff, Option.pure_def,
    Option.some.injEq]
  constructor
  · rintro ⟨place, called, args, inside, rfl⟩
    obtain ⟨typeArgs, gap, rest, behind_eq, generic, gap_blank, rfl⟩ :=
      callPlace?_eq_some_iff.mp called
    obtain ⟨after, rfl, nested⟩ := Bracket.insideParens?_paren.mp inside
    refine ⟨⟨typeArgs, gap, args, after, behind_eq, generic, gap_blank, nested⟩, ?_⟩
    rw [text_eq typeArgs gap _ behind_eq]
    cases found.group <;> simp [Call.whole, Call.key]
  · rintro ⟨⟨typeArgs, gap, args, after, behind_eq, generic, gap_blank, nested⟩, rfl⟩
    refine ⟨_, callPlace?_eq_some_iff.mpr ⟨typeArgs, gap, _, behind_eq, generic, gap_blank, rfl⟩,
      args, Bracket.insideParens?_paren.mpr ⟨after, rfl, nested⟩, ?_⟩
    rw [text_eq typeArgs gap _ behind_eq]
    cases found.group <;> simp [Call.whole, Call.key]

variable {code : List Char} {lookup : Lookup}

theorem matchAt?_of_mem (mem : found ∈ ledgerRead.findAll code ++ mapRead.findAll code) :
    ∃ pattern : Pattern, pattern.matchAt? found.start = some found :=
  (List.mem_append.mp mem).elim (fun mem => ⟨_, Pattern.matchAt?_of_mem_findAll mem⟩)
    fun mem => ⟨_, Pattern.matchAt?_of_mem_findAll mem⟩

/-- A read of the ledger records nothing. -/
theorem group_of_ledgerRead (mem : found ∈ ledgerRead.findAll code) : found.group = none :=
  Pattern.group_of_matchAt? rfl (Pattern.matchAt?_of_mem_findAll mem)

/-- A read of a map records the name of the map. -/
theorem isSome_group_of_mapRead (mem : found ∈ mapRead.findAll code) :
    found.group.isSome = true :=
  Pattern.isSome_group_of_matchAt? rfl (Pattern.matchAt?_of_mem_findAll mem)

/-- The lookups of a text are those that stand in it. -/
theorem mem_all_iff : lookup ∈ Lookup.all code ↔ Nonempty (Site code lookup) := by
  rw [Lookup.all, List.mem_filterMap]
  constructor
  · rintro ⟨found, mem, made⟩
    obtain ⟨pattern, matched⟩ := matchAt?_of_mem mem
    obtain ⟨call, rfl⟩ := (ofMatch?_eq_some_iff matched).mp made
    refine ⟨⟨found, call, rfl, rfl, ?_⟩⟩
    rcases List.mem_append.mp mem with ledger | map
    · exact .inl ⟨ledger, by simp [group_of_ledgerRead ledger]⟩
    · exact .inr ⟨map, by simp [isSome_group_of_mapRead map]⟩
  · rintro ⟨found, call, start_eq, expression_eq, label_eq⟩
    have mem : found ∈ ledgerRead.findAll code ++ mapRead.findAll code :=
      List.mem_append.mpr (label_eq.imp (·.1) (·.1))
    obtain ⟨pattern, matched⟩ := matchAt?_of_mem mem
    refine ⟨found, mem, (ofMatch?_eq_some_iff matched).mpr ⟨call, ?_⟩⟩
    rw [← expression_eq, ← start_eq]
    rcases label_eq with ⟨ledger, label_eq⟩ | ⟨map, label_eq⟩
    · rw [group_of_ledgerRead ledger, if_neg (by decide), ← label_eq]
    · rw [isSome_group_of_mapRead map, if_pos rfl, ← label_eq]

/-! ## Lookups in their places -/

/-- A read of the ledger begins with a word, a dot and a call of `storage`. -/
theorem exists_of_reads_ledgerRead (reads : ledgerRead.Reads before s after) :
    ∃ word lead gap behind more,
      s = word ++ (lead ++ '.' :: (gap ++ ("storage".toList ++ (behind ++ '(' :: more)))) ∧
      (∀ c ∈ word, isWord c = true) ∧ (∀ c ∈ lead, isBlank c = true) ∧
      (∀ c ∈ gap, isBlank c = true) ∧ ∀ c ∈ behind, isBlank c = true := by
  obtain ⟨_, _, rfl, ⟨rfl, _⟩, _, _, rfl, ⟨_, word, rfl, ⟨c, rfl, first⟩, inside⟩, lead, _, rfl,
    lead_blank, _, _, rfl, rfl, gap, _, rfl, gap_blank, _, more, rfl, ⟨_, _, rfl, rfl, behind, _,
      rfl, behind_blank, _, rest, rfl, rfl, _⟩, _⟩ := reads
  refine ⟨c :: word, lead, gap, behind, rest ++ more, ?_, List.forall_mem_cons.mpr ⟨first, inside⟩,
    lead_blank, gap_blank, behind_blank⟩
  simp

/-- A read of a map begins with `self`, a dot, a word and another dot. -/
theorem exists_of_reads_mapRead (reads : mapRead.Reads before s after) :
    ∃ lead gap name behind more,
      s = "self".toList ++ (lead ++ '.' :: (gap ++ (name ++ (behind ++ '.' :: more)))) ∧
      (∀ c ∈ lead, isBlank c = true) ∧ (∀ c ∈ gap, isBlank c = true) ∧
      (∀ c ∈ name, isWord c = true) ∧ name ≠ [] ∧ ∀ c ∈ behind, isBlank c = true := by
  obtain ⟨-, -, rfl, ⟨rfl, -⟩, -, -, rfl, rfl, lead, -, rfl, lead_blank, -, -, rfl, rfl, gap, -,
    rfl, gap_blank, -, -, rfl, ⟨-, name, rfl, ⟨c, rfl, first⟩, inside⟩, behind, -, rfl,
    behind_blank, -, more, rfl, rfl, -⟩ := reads
  refine ⟨lead, gap, c :: name, behind, more, ?_, lead_blank, gap_blank,
    List.forall_mem_cons.mpr ⟨first, inside⟩, List.cons_ne_nil c name, behind_blank⟩
  simp

theorem stops_word {name : List Char} (inside : ∀ c ∈ name, isWord c = true)
    (nonempty : name ≠ []) (rest : List Char) : ∀ c ∈ (name ++ rest).head?, isBlank c = false := by
  obtain ⟨d, name, rfl⟩ := List.exists_cons_of_ne_nil nonempty
  refine stops_cons (Bool.eq_false_iff.mpr fun blank => ?_) (name ++ rest)
  have outside := isWord_of_isBlank blank
  rw [inside d List.mem_cons_self] at outside
  contradiction

/-- No text begins with a read of the ledger and with a read of a map. -/
theorem append_ne_of_reads {t more : List Char} (ledger : ledgerRead.Reads before s after)
    (map : mapRead.Reads before t more) : s ++ after ≠ t ++ more := by
  obtain ⟨word, lead, gap, behind, rest, rfl, word_inside, lead_blank, gap_blank, behind_blank⟩ :=
    exists_of_reads_ledgerRead ledger
  obtain ⟨map_lead, map_gap, name, map_behind, map_rest, rfl, map_lead_blank, map_gap_blank,
    name_inside, nonempty, map_behind_blank⟩ := exists_of_reads_mapRead map
  have self_inside : ∀ c ∈ "self".toList, isWord c = true := List.all_eq_true.mp (by decide)
  have storage_inside : ∀ c ∈ "storage".toList, isWord c = true := List.all_eq_true.mp (by decide)
  intro same
  simp only [List.append_assoc, List.cons_append] at same
  obtain ⟨-, behind_self⟩ := append_inj_of_forall word_inside self_inside
    (edge_of_gap (by decide) lead_blank) (edge_of_gap (by decide) map_lead_blank) same
  obtain ⟨-, behind_lead⟩ := append_inj_of_forall lead_blank map_lead_blank (stops_cons rfl _)
    (stops_cons rfl _) behind_self
  obtain ⟨-, behind_dot⟩ := append_inj_of_forall gap_blank map_gap_blank
    (stops_word storage_inside (by decide) _) (stops_word name_inside nonempty _)
    (List.cons.inj behind_lead).2
  obtain ⟨-, behind_name⟩ := append_inj_of_forall storage_inside name_inside
    (edge_of_gap (by decide) behind_blank) (edge_of_gap (by decide) map_behind_blank) behind_dot
  -- a call of `storage` is not the name of a map, which a dot follows
  obtain ⟨-, mark⟩ := append_inj_of_forall behind_blank map_behind_blank (stops_cons rfl _)
    (stops_cons rfl _) behind_name
  exact absurd (List.cons.inj mark).1 (by decide)

/-- Where a read of the ledger begins, no read of a map begins. -/
theorem offset_ne_of_mem_findAll {ledger map : Match}
    (ledger_mem : ledger ∈ ledgerRead.findAll code) (map_mem : map ∈ mapRead.findAll code) :
    ledger.start.offset ≠ map.start.offset := by
  intro same
  have start_eq := (Pattern.in_of_mem_findAll ledger_mem).eq_of_offset_eq
    (Pattern.in_of_mem_findAll map_mem) same
  obtain ⟨-, s, after_eq, -, reads⟩ :=
    Pattern.exists_of_matchAt? (Pattern.matchAt?_of_mem_findAll ledger_mem)
  obtain ⟨-, t, map_after_eq, -, map_reads⟩ :=
    Pattern.exists_of_matchAt? (Pattern.matchAt?_of_mem_findAll map_mem)
  rw [← start_eq] at map_after_eq map_reads
  exact append_ne_of_reads reads map_reads (after_eq.symm.trans map_after_eq)

/-- No two lookups begin at one place. -/
theorem nodup_offsets (code : List Char) : ((Lookup.all code).map (·.start.offset)).Nodup := by
  have within (pattern : Pattern) :
      (pattern.findAll code).Pairwise (·.start.offset ≠ ·.start.offset) :=
    (Pattern.pairwise_findAll pattern code).imp Nat.ne_of_lt
  have found_apart : (ledgerRead.findAll code ++ mapRead.findAll code).Pairwise
      (·.start.offset ≠ ·.start.offset) :=
    List.pairwise_append.mpr ⟨within ledgerRead, within mapRead,
      fun _ mem _ other_mem => offset_ne_of_mem_findAll mem other_mem⟩
  rw [List.Nodup, List.pairwise_map, Lookup.all, List.pairwise_filterMap]
  refine found_apart.imp ?_
  intro found next apart lookup made other other_made
  rwa [start_of_ofMatch? made, start_of_ofMatch? other_made]

end RepeatedStorage
end SorobanLint

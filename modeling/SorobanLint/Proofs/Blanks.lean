import SorobanLint.Proofs.Lines
import SorobanLint.Proofs.Words

/-!
# Blanks in a text

Squeezing keeps the characters that are not blank and parts the same words (`squeeze_cons_solid`),
so two ends of a text that neither begin with a blank nor differ when squeezed are the same end
(`eq_of_suffix_of_squeeze`).  Trimming takes off blanks alone.
-/

namespace SorobanLint
namespace Text

variable {q : Char → Bool} {c d : Char} {s t u : List Char}

/-- The blanks above ASCII, as closed ranges. -/
def blankRanges : List (Nat × Nat) := [
  (0x85, 0x85), (0xa0, 0xa0), (0x1680, 0x1680), (0x2000, 0x200a), (0x2028, 0x2029),
  (0x202f, 0x202f), (0x205f, 0x205f), (0x3000, 0x3000)]

/-- No blank is among the letters and numeric characters above ASCII. -/
theorem alnumRanges_apart :
    (alnumRanges.all fun range => blankRanges.all fun blanks =>
      range.2 < blanks.1 || blanks.2 < range.1) = true := by
  decide +kernel

theorem inRanges_alnumRanges_eq_false {n : Nat} {blanks : Nat × Nat} (mem : blanks ∈ blankRanges)
    (lower : blanks.1 ≤ n) (upper : n ≤ blanks.2) : inRanges alnumRanges n = false := by
  rw [inRanges, List.any_eq_false]
  intro range in_alnum inside
  simp only [Bool.and_eq_true, decide_eq_true_eq] at inside
  have all_apart := List.all_eq_true.mp alnumRanges_apart range in_alnum
  have apart := List.all_eq_true.mp all_apart blanks mem
  simp only [Bool.or_eq_true, decide_eq_true_eq] at apart
  omega

/-- The white space and the separators are no characters of words. -/
theorem isWord_of_isBlank (blank : isBlank c = true) : isWord c = false := by
  have different : c ≠ '_' := by
    rintro rfl
    cases blank
  rw [isWord, decide_eq_false different, Bool.or_false, isAlnum]
  simp only [isBlank] at blank
  split at blank
  next ascii =>
    have outside : ∀ n ∈ [0x09, 0x0a, 0x0b, 0x0c, 0x0d, 0x1c, 0x1d, 0x1e, 0x1f, 0x20],
        (Char.ofNat n).isAlphanum = false := by decide
    rw [if_pos ascii, ← Char.ofNat_toNat c]
    refine outside c.toNat ?_
    simp only [Bool.or_eq_true, Bool.and_eq_true, decide_eq_true_eq] at blank
    simp only [List.mem_cons, List.not_mem_nil]
    omega
  next beyond =>
    obtain ⟨blanks, mem, lower, upper⟩ :
        ∃ blanks ∈ blankRanges, blanks.1 ≤ c.toNat ∧ c.toNat ≤ blanks.2 := by
      simp only [Bool.or_eq_true, Bool.and_eq_true, decide_eq_true_eq] at blank
      simp only [blankRanges, List.mem_cons, List.not_mem_nil, exists_eq_or_imp, or_false,
        exists_eq_left]
      omega
    rw [if_neg beyond]
    exact inRanges_alnumRanges_eq_false mem lower upper

theorem ne_of_isBlank {d : Char} (blank : isBlank c = true) (solid : isBlank d = false) :
    c ≠ d := by
  rintro rfl
  simp [blank] at solid

/-- No word goes on where blanks follow, or a character that no word holds. -/
theorem edge_of_gap {d : Char} {gap : List Char} (outside : isWord d = false)
    (blank : ∀ c ∈ gap, isBlank c = true) : ∀ c ∈ (gap ++ d :: s).head?, isWord c = false := by
  cases gap with
  | nil =>
      rintro c ⟨⟩
      exact outside
  | cons e gap =>
      rintro c ⟨⟩
      exact isWord_of_isBlank (blank e List.mem_cons_self)

theorem forall_getLast?_append {p : Char → Prop} (first : ∀ c ∈ s.getLast?, p c)
    (second : ∀ c ∈ t.getLast?, p c) : ∀ c ∈ (s ++ t).getLast?, p c := by
  intro c last
  rw [List.getLast?_append, Option.mem_def, Option.or_eq_some_iff] at last
  rcases last with inside | ⟨-, outside⟩
  · exact second c inside
  · exact first c outside

/-- A text with a colon is what stands in front of the first one, the colon, and the rest. -/
theorem exists_of_mem_colon (mem : ':' ∈ s) :
    ∃ behind, s = s.takeWhile (· ≠ ':') ++ ':' :: behind := by
  induction s with
  | nil => contradiction
  | cons c s ih =>
      by_cases colon : c = ':'
      · subst colon
        exact ⟨s, rfl⟩
      · obtain ⟨behind, s_eq⟩ := ih (List.mem_of_ne_of_mem (Ne.symm colon) mem)
        refine ⟨behind, ?_⟩
        rw [List.takeWhile_cons, if_pos (by simpa using colon), List.cons_append, ← s_eq]

theorem takeWhile_append_cons (stops : q c = false) (s rest : List Char) :
    (s ++ c :: rest).takeWhile q = s.takeWhile q := by
  induction s with
  | nil => simp [stops]
  | cons d s ih => rw [List.cons_append, List.takeWhile_cons, List.takeWhile_cons, ih]

theorem stops_cons (outside : q d = false) (rest : List Char) :
    ∀ c ∈ (d :: rest).head?, q c = false := by
  rintro c ⟨⟩
  exact outside

/-- A text falls in only one way into a run of characters in `q` and a rest that begins with
another character. -/
theorem append_inj_of_forall {run other rest more : List Char} (inside : ∀ c ∈ run, q c = true)
    (other_inside : ∀ c ∈ other, q c = true) (stops : ∀ c ∈ rest.head?, q c = false)
    (other_stops : ∀ c ∈ more.head?, q c = false) (same : run ++ rest = other ++ more) :
    run = other ∧ rest = more := by
  have nothing {text : List Char} (stops : ∀ c ∈ text.head?, q c = false) :
      text.takeWhile q = [] := by
    cases text with
    | nil => rfl
    | cons c text => simp [stops c rfl]
  have runs_eq := congrArg (List.takeWhile q) same
  rw [List.takeWhile_append_of_pos inside, List.takeWhile_append_of_pos other_inside,
    nothing stops, nothing other_stops, List.append_nil, List.append_nil] at runs_eq
  subst runs_eq
  exact ⟨rfl, List.append_cancel_left same⟩

theorem trimStart_append_cons (solid : isBlank c = false) (s rest : List Char) :
    trimStart (s ++ c :: rest) = trimStart s ++ c :: rest := by
  induction s with
  | nil => exact trimStart_cons solid rest
  | cons d s ih =>
      cases blank : isBlank d with
      | false => rw [List.cons_append, trimStart_cons blank, trimStart_cons blank, List.cons_append]
      | true =>
          rw [List.cons_append, trimStart_cons_of_isBlank blank, trimStart_cons_of_isBlank blank,
            ih]

/-! ## Trimming -/

theorem exists_append_trimEnd (s : List Char) :
    ∃ blanks, (∀ c ∈ blanks, isBlank c = true) ∧ s = trimEnd s ++ blanks := by
  refine ⟨(s.reverse.takeWhile isBlank).reverse, ?_, ?_⟩
  · intro c mem
    exact List.mem_takeWhile_imp (List.mem_reverse.mp mem)
  · rw [trimEnd, dropEndWhile, ← List.reverse_append, List.takeWhile_append_dropWhile,
      List.reverse_reverse]

theorem trimEnd_prefix (s : List Char) : trimEnd s <+: s := by
  obtain ⟨blanks, -, s_eq⟩ := exists_append_trimEnd s
  exact ⟨blanks, s_eq.symm⟩

theorem trimEnd_append_blank {blanks : List Char} (blank : ∀ c ∈ blanks, isBlank c = true)
    (s : List Char) : trimEnd (s ++ blanks) = trimEnd s := by
  have reverse_blank : ∀ c ∈ blanks.reverse, isBlank c = true :=
    fun c mem => blank c (List.mem_reverse.mp mem)
  rw [trimEnd, dropEndWhile, List.reverse_append, List.dropWhile_append_of_pos reverse_blank]
  rfl

/-- The end of a trimmed text has no blanks to be trimmed off. -/
theorem trimEnd_of_suffix (behind : s <:+ trimEnd t) : trimEnd s = s := by
  refine dropEndWhile_eq ?_
  intro c last
  obtain ⟨front, s_eq⟩ := behind
  have whole_last : (trimEnd t).getLast? = some c := by
    rw [← s_eq, List.getLast?_append, Option.mem_def.mp last, Option.some_or]
  rw [trimEnd, dropEndWhile, List.getLast?_reverse] at whole_last
  have stopped := List.head?_dropWhile_not isBlank t.reverse
  rw [whole_last] at stopped
  simpa using stopped

theorem trimEnd_append_cons (solid : isBlank c = false) (s t : List Char) :
    trimEnd (s ++ c :: t) = s ++ c :: trimEnd t := by
  have reverse_eq : (s ++ c :: t).reverse = t.reverse ++ c :: s.reverse := by simp
  change (trimStart (s ++ c :: t).reverse).reverse = s ++ c :: (trimStart t.reverse).reverse
  rw [reverse_eq, trimStart_append_cons solid]
  simp

theorem trimEnd_prefix_append (s t : List Char) : trimEnd s <+: trimEnd (s ++ t) := by
  rw [trimEnd, trimEnd, dropEndWhile, dropEndWhile, List.reverse_append, List.dropWhile_append]
  split
  · exact List.prefix_rfl
  · rw [List.reverse_append, List.reverse_reverse]
    have leading := trimEnd_prefix s
    exact leading.trans (List.prefix_append s _)

theorem trim_suffix_trimEnd (s : List Char) : trim s <:+ trimEnd s := by
  have s_eq : s = s.takeWhile isBlank ++ trimStart s := List.takeWhile_append_dropWhile.symm
  conv => right; rw [s_eq]
  rw [trim, trimEnd, trimEnd, dropEndWhile, dropEndWhile, List.reverse_append,
    List.dropWhile_append]
  split
  next nothing =>
    rw [List.isEmpty_iff.mp nothing]
    exact List.nil_suffix
  next => exact List.reverse_suffix.mpr (List.prefix_append _ _)

theorem prefix_dropEndWhile (p : Char → Bool) (s : List Char) : dropEndWhile p s <+: s := by
  have behind := List.reverse_prefix.mpr (List.dropWhile_suffix p (l := s.reverse))
  rwa [List.reverse_reverse] at behind

theorem prefix_trim (solid : ∀ c ∈ s.head?, isBlank c = false) : trim s <+: s := by
  have start_eq : trimStart s = s := by
    cases s with
    | nil => rfl
    | cons c s => exact trimStart_cons (solid c rfl) s
  rw [trim, start_eq]
  exact trimEnd_prefix s

/-- A trimmed text stands between blanks. -/
theorem exists_append_trim (s : List Char) :
    ∃ trail, (∀ c ∈ trail, isBlank c = true) ∧ s = s.takeWhile isBlank ++ (trim s ++ trail) := by
  obtain ⟨trail, blank, start_eq⟩ := exists_append_trimEnd (trimStart s)
  refine ⟨trail, blank, ?_⟩
  rw [trim, ← start_eq]
  exact List.takeWhile_append_dropWhile.symm

theorem words_append_blank {blanks : List Char} (blank : ∀ c ∈ blanks, isBlank c = true)
    (s : List Char) : words (s ++ blanks) = words s := by
  induction blanks generalizing s with
  | nil => rw [List.append_nil]
  | cons c blanks ih =>
      rw [List.forall_mem_cons] at blank
      rw [List.append_cons, ih blank.2, words_eq_runs, runs_concat blank.1, words_eq_runs]

theorem words_blank_append {blanks : List Char} (blank : ∀ c ∈ blanks, isBlank c = true)
    (s : List Char) : words (blanks ++ s) = words s := by
  induction blanks with
  | nil => rfl
  | cons c blanks ih =>
      rw [List.forall_mem_cons] at blank
      rw [List.cons_append, words_eq_runs, runs_cons blank.1, ← words_eq_runs, ih blank.2]

theorem words_trim (s : List Char) : words (trim s) = words s := by
  obtain ⟨trail, trail_blank, start_eq⟩ := exists_append_trimEnd (trimStart s)
  have s_eq : s = s.takeWhile isBlank ++ trimStart s := List.takeWhile_append_dropWhile.symm
  rw [trim, ← words_append_blank trail_blank, ← start_eq]
  conv => right; rw [s_eq]
  rw [words_blank_append fun c mem => List.mem_takeWhile_imp mem]

theorem blank_of_words_eq_nil (nothing : words s = []) : ∀ c ∈ s, isBlank c = true := by
  induction s with
  | nil => simp
  | cons c s ih =>
      cases blank : isBlank c with
      | true =>
          rw [words_eq_runs, runs_cons blank, ← words_eq_runs] at nothing
          exact List.forall_mem_cons.mpr ⟨blank, ih nothing⟩
      | false => exact absurd nothing (words_cons_ne_nil blank s)

/-- The first word of a text stands behind blanks, and behind it stands a blank or nothing. -/
theorem exists_of_words_eq_cons {word : List Char} {others : List (List Char)}
    (words_eq : words s = word :: others) :
    ∃ blanks rest, s = blanks ++ (word ++ rest) ∧ (∀ c ∈ blanks, isBlank c = true) ∧
      (∀ c ∈ rest.head?, isBlank c = true) ∧ words rest = others := by
  induction s generalizing word others with
  | nil => contradiction
  | cons c s ih =>
      cases blank : isBlank c with
      | true =>
          rw [words_eq_runs, runs_cons blank, ← words_eq_runs] at words_eq
          obtain ⟨blanks, rest, rfl, blanks_blank, behind, others_eq⟩ := ih words_eq
          exact ⟨c :: blanks, rest, rfl, List.forall_mem_cons.mpr ⟨blank, blanks_blank⟩, behind,
            others_eq⟩
      | false =>
          cases s with
          | nil =>
              rw [words_of_solid blank] at words_eq
              obtain ⟨rfl, rfl⟩ := List.cons.inj words_eq
              exact ⟨[], [], rfl, nofun, nofun, rfl⟩
          | cons d s =>
              cases next : isBlank d with
              | true =>
                  rw [words_cons_gap blank next] at words_eq
                  obtain ⟨rfl, rfl⟩ := List.cons.inj words_eq
                  refine ⟨[], d :: s, rfl, nofun, ?_, ?_⟩
                  · rintro e ⟨⟩
                    exact next
                  · rw [words_eq_runs, runs_cons next, words_eq_runs]
              | false =>
                  obtain ⟨front, later, onward⟩ :=
                    List.exists_cons_of_ne_nil (words_cons_ne_nil next s)
                  rw [words_eq_runs, runs_cons_cons blank next, ← words_eq_runs, onward] at words_eq
                  obtain ⟨rfl, rfl⟩ := List.cons.inj words_eq
                  obtain ⟨blanks, rest, rest_eq, blanks_blank, behind, others_eq⟩ := ih onward
                  cases blanks with
                  | nil =>
                      refine ⟨[], rest, ?_, nofun, behind, others_eq⟩
                      rw [rest_eq]
                      rfl
                  | cons e blanks =>
                      obtain ⟨rfl, -⟩ := List.cons.inj rest_eq
                      simp [next] at blanks_blank

theorem words_terminated (codes : List (List Char)) :
    words (terminated codes) = codes.flatMap words := by
  induction codes with
  | nil => rfl
  | cons code codes ih =>
      rw [terminated_cons, words_eq_runs, runs_append_cons (by decide), ← words_eq_runs,
        ← words_eq_runs, ih, List.flatMap_cons]

/-! ## Squeezing -/

/-- Squeezing leaves the first character that is not blank, with at most a space behind it. -/
theorem squeeze_cons_solid (solid : isBlank c = false) (s : List Char) :
    ∃ gap, (∀ d ∈ gap, isBlank d = true) ∧ squeeze (c :: s) = c :: (gap ++ squeeze s) := by
  cases s with
  | nil => exact ⟨[], List.forall_mem_nil _, by simp [squeeze, words, pieces, solid, consFirst]⟩
  | cons d s =>
      cases blank : isBlank d with
      | false => exact ⟨[], List.forall_mem_nil _, squeeze_cons_cons solid blank s⟩
      | true =>
          rw [squeeze_cons_gap solid blank, squeeze_cons_blank blank]
          split
          next nothing => exact ⟨[], List.forall_mem_nil _, by rw [squeeze, nothing]; rfl⟩
          next => exact ⟨[' '], List.forall_mem_singleton.mpr rfl, rfl⟩

/-- Squeezing keeps what stands in front of the first blank. -/
theorem takeWhile_squeeze (solid : ∀ c, isBlank c = true → q c = false) (s : List Char) :
    (squeeze s).takeWhile q = (trimStart s).takeWhile q := by
  induction s with
  | nil => rfl
  | cons c s ih =>
      cases blank : isBlank c with
      | true => rw [squeeze_cons_blank blank, ih, trimStart_cons_of_isBlank blank]
      | false =>
          rw [trimStart_cons blank]
          cases s with
          | nil => simp [squeeze, words, pieces, blank, consFirst]
          | cons d s =>
              cases next : isBlank d with
              | false =>
                  rw [trimStart_cons next] at ih
                  rw [squeeze_cons_cons blank next, List.takeWhile_cons, ih, ← List.takeWhile_cons]
              | true =>
                  have stops : q d = false := solid d next
                  have space : q ' ' = false := solid ' ' (by decide)
                  rw [squeeze_cons_gap blank next]
                  split <;> simp [List.takeWhile_cons, stops, space]

theorem trimStart_squeeze (s : List Char) : trimStart (squeeze s) = squeeze s := by
  induction s with
  | nil => rfl
  | cons c s ih =>
      cases blank : isBlank c with
      | true => rwa [squeeze_cons_blank blank]
      | false =>
          obtain ⟨gap, -, squeeze_eq⟩ := squeeze_cons_solid blank s
          rw [squeeze_eq, trimStart_cons blank]

theorem withoutBlanks_squeeze (s : List Char) : withoutBlanks (squeeze s) = withoutBlanks s := by
  induction s with
  | nil => rfl
  | cons c s ih =>
      cases blank : isBlank c with
      | true =>
          rw [squeeze_cons_blank blank, ih]
          simp [withoutBlanks, blank]
      | false =>
          obtain ⟨gap, gap_blank, squeeze_eq⟩ := squeeze_cons_solid blank s
          rw [squeeze_eq]
          have no_gap : gap.filter (fun c => !isBlank c) = [] := by
            simpa using gap_blank
          rw [withoutBlanks] at ih
          simp [withoutBlanks, blank, no_gap, ih]

/-- The part of a text in front of some character that is not blank has the same words whether the
text is squeezed or not. -/
theorem words_takeWhile_squeeze (passes : ∀ c, isBlank c = true → q c = true) (s : List Char) :
    words ((squeeze s).takeWhile q) = words (s.takeWhile q) := by
  induction s with
  | nil => rfl
  | cons c s ih =>
      cases blank : isBlank c with
      | true =>
          rw [squeeze_cons_blank blank, List.takeWhile_cons_of_pos (passes c blank), ih,
            words_eq_runs, words_eq_runs, runs_cons blank]
      | false =>
          cases inside : q c with
          | false =>
              obtain ⟨gap, -, squeeze_eq⟩ := squeeze_cons_solid blank s
              rw [squeeze_eq, List.takeWhile_cons_of_neg (by simp [inside]),
                List.takeWhile_cons_of_neg (by simp [inside])]
          | true =>
              rw [List.takeWhile_cons_of_pos inside]
              cases s with
              | nil => simp [squeeze, words, pieces, blank, consFirst, inside]
              | cons d s =>
                  cases next : isBlank d with
                  | true =>
                      have passed := passes d next
                      rw [List.takeWhile_cons_of_pos passed, words_cons_gap blank next]
                      rw [squeeze_cons_blank next, List.takeWhile_cons_of_pos passed,
                        words_eq_runs (d :: _), runs_cons next, ← words_eq_runs] at ih
                      rw [squeeze_cons_gap blank next]
                      split
                      next nothing =>
                        have squeezed : squeeze s = [] := by
                          rw [squeeze, nothing]
                          rfl
                        rw [squeezed] at ih
                        rw [← ih, List.takeWhile_cons_of_pos inside]
                        exact words_of_solid blank
                      next =>
                        rw [List.takeWhile_cons_of_pos inside,
                          List.takeWhile_cons_of_pos (passes ' ' (by decide)),
                          words_cons_gap blank (by decide), ih]
                  | false =>
                      rw [squeeze_cons_cons blank next, List.takeWhile_cons_of_pos inside]
                      obtain ⟨gap, -, squeeze_eq⟩ := squeeze_cons_solid next s
                      rw [squeeze_eq] at ih ⊢
                      cases inside_next : q d with
                      | false =>
                          rw [List.takeWhile_cons_of_neg (by simp [inside_next]),
                            List.takeWhile_cons_of_neg (by simp [inside_next])]
                      | true =>
                          rw [List.takeWhile_cons_of_pos inside_next,
                            List.takeWhile_cons_of_pos inside_next] at ih ⊢
                          rw [words_eq_runs, runs_cons_cons blank next, ← words_eq_runs, ih,
                            words_eq_runs (c :: _), runs_cons_cons blank next, ← words_eq_runs]

/-- Two ends of a text that differ in blanks alone are the same if neither begins with a blank. -/
theorem eq_of_suffix_of_squeeze (behind : s <:+ u) (also_behind : t <:+ u)
    (solid : ∀ c ∈ s.head?, isBlank c = false) (also_solid : ∀ c ∈ t.head?, isBlank c = false)
    (same : squeeze s = squeeze t) : s = t := by
  have eq_of_suffix {s t : List Char} (behind : s <:+ t)
      (solid : ∀ c ∈ t.head?, isBlank c = false) (same : squeeze s = squeeze t) : s = t := by
    obtain ⟨front, rfl⟩ := behind
    have flat := congrArg (fun s => (withoutBlanks s).length) same
    rw [withoutBlanks_squeeze, withoutBlanks_squeeze, withoutBlanks, withoutBlanks,
      List.filter_append, List.length_append] at flat
    cases front with
    | nil => rfl
    | cons c front => simp [solid c rfl] at flat
  rcases List.suffix_or_suffix_of_suffix behind also_behind with inside | inside
  · exact eq_of_suffix inside also_solid same
  · exact (eq_of_suffix inside solid same.symm).symm

end Text
end SorobanLint

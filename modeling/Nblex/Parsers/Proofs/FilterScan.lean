import Nblex.Core.FilterEngine.Proofs.Spaces
import Nblex.Parsers.NqlParser

/-!
# The extent of an embedded filter

The texts that the scanner of `parse_filter_expr` runs over as a whole: strings are closed,
parentheses balanced, and outside of both there is no pipe and none of the keywords that end the
filter in its place.
-/

namespace Nblex

namespace NqlParser

/-- `'` and `"`. -/
def isQuote (c : Char) : Bool := c = '\'' || c = '"'

/-- Outside of strings the scanner passes the character by without a further look. -/
def isOrdinary (c : Char) : Bool := !isQuote c && c ≠ '(' && c ≠ ')'

/-- The inside of a string. -/
inductive QuotedBy (quote : Char) : List Char → Prop where
  | nil : QuotedBy quote []
  | escape (c : Char) {rest : List Char} :
      QuotedBy quote rest → QuotedBy quote ('\\' :: c :: rest)
  | plain {c : Char} {rest : List Char} :
      c ≠ '\\' → c ≠ quote → QuotedBy quote rest → QuotedBy quote (c :: rest)

/-- The inside of parentheses. -/
inductive InParens : List Char → Prop where
  | nil : InParens []
  | plain {c : Char} {rest : List Char} :
      isOrdinary c = true → InParens rest → InParens (c :: rest)
  | quoted {quote : Char} {body rest : List Char} :
      isQuote quote = true → QuotedBy quote body → InParens rest →
      InParens (quote :: (body ++ quote :: rest))
  | group {body rest : List Char} :
      InParens body → InParens rest → InParens ('(' :: (body ++ ')' :: rest))

/-- A filter text, after the character in front of it. -/
inductive TopLevel (keywords : List (List Char)) : Option Char → List Char → Prop where
  | nil (prev : Option Char) : TopLevel keywords prev []
  | plain {prev : Option Char} {c : Char} {rest : List Char} :
      isOrdinary c = true → c ≠ '|' →
      keywords.any (keywordAtPosition prev (c :: rest)) = false →
      TopLevel keywords (some c) rest → TopLevel keywords prev (c :: rest)
  | quoted {prev : Option Char} {quote : Char} {body rest : List Char} :
      isQuote quote = true → QuotedBy quote body → TopLevel keywords (some quote) rest →
      TopLevel keywords prev (quote :: (body ++ quote :: rest))
  | group {prev : Option Char} {body rest : List Char} :
      InParens body → TopLevel keywords (some ')') rest →
      TopLevel keywords prev ('(' :: (body ++ ')' :: rest))

/-- Put a text in front of what was scanned. -/
def keepAll (text : List Char) (scanned : List Char × List Char) : List Char × List Char :=
  (text ++ scanned.1, scanned.2)

@[simp] theorem keepAll_nil (scanned : List Char × List Char) : keepAll [] scanned = scanned := rfl

theorem keepAll_append (text more : List Char) (scanned : List Char × List Char) :
    keepAll (text ++ more) scanned = keepAll text (keepAll more scanned) := by
  simp [keepAll]

/-! ## Steps of the scanner -/

section Scan

variable (keywords : List (List Char)) (stopOnPipe : Bool)

theorem scanFilter_escape (prev : Option Char) (quote : Char) (depth : Nat) (c : Char)
    (rest : List Char) :
    scanFilter keywords stopOnPipe prev (some quote) depth ('\\' :: c :: rest) =
      keepAll ['\\', c] (scanFilter keywords stopOnPipe (some c) (some quote) depth rest) := by
  rw [scanFilter]
  rfl

theorem scanFilter_inString (prev : Option Char) {quote c : Char} (depth : Nat)
    (rest : List Char) (noEscape : c ≠ '\\') :
    scanFilter keywords stopOnPipe prev (some quote) depth (c :: rest) =
      keep c (scanFilter keywords stopOnPipe (some c)
        (if c = quote then none else some quote) depth rest) := by
  rw [scanFilter]
  intro d more same
  exact absurd same noEscape

theorem isQuote_cases {c : Char} (quote : isQuote c = true) : c = '\'' ∨ c = '"' := by
  simpa [isQuote] using quote

theorem isQuote_noEscape {c : Char} (quote : isQuote c = true) : c ≠ '\\' := by
  rcases isQuote_cases quote with rfl | rfl
  · decide
  · decide

theorem scanFilter_openString (prev : Option Char) {quote : Char} (depth : Nat)
    (rest : List Char) (opens : isQuote quote = true) :
    scanFilter keywords stopOnPipe prev none depth (quote :: rest) =
      keep quote (scanFilter keywords stopOnPipe (some quote) (some quote) depth rest) := by
  rw [scanFilter]
  exact if_pos (isQuote_cases opens)

theorem scanFilter_openParen (prev : Option Char) (depth : Nat) (rest : List Char) :
    scanFilter keywords stopOnPipe prev none depth ('(' :: rest) =
      keep '(' (scanFilter keywords stopOnPipe (some '(') none (depth + 1) rest) := by
  simp [scanFilter]

theorem scanFilter_closeParen (prev : Option Char) (depth : Nat) (rest : List Char) :
    scanFilter keywords stopOnPipe prev none depth (')' :: rest) =
      keep ')' (scanFilter keywords stopOnPipe (some ')') none (depth - 1) rest) := by
  simp [scanFilter]

theorem isOrdinary_iff {c : Char} :
    isOrdinary c = true ↔ ¬(c = '\'' ∨ c = '"') ∧ c ≠ '(' ∧ c ≠ ')' := by
  simp [isOrdinary, isQuote, and_assoc]

theorem scanFilter_ordinary (prev : Option Char) (depth : Nat) {c : Char} (rest : List Char)
    (ordinary : isOrdinary c = true) :
    scanFilter keywords stopOnPipe prev none depth (c :: rest) =
      if stopOnPipe ∧ c = '|' ∧ depth = 0 then ([], c :: rest)
      else if depth = 0 ∧ keywords.any (keywordAtPosition prev (c :: rest)) then ([], c :: rest)
      else keep c (scanFilter keywords stopOnPipe (some c) none depth rest) := by
  obtain ⟨noQuote, noOpen, noClose⟩ := isOrdinary_iff.mp ordinary
  rw [scanFilter, if_neg noQuote, if_neg noOpen, if_neg noClose]

/-- Inside parentheses neither pipes nor keywords are looked for. -/
theorem scanFilter_nested (prev : Option Char) (depth : Nat) {c : Char} (rest : List Char)
    (ordinary : isOrdinary c = true) :
    scanFilter keywords stopOnPipe prev none (depth + 1) (c :: rest) =
      keep c (scanFilter keywords stopOnPipe (some c) none (depth + 1) rest) := by
  rw [scanFilter_ordinary keywords stopOnPipe prev _ rest ordinary, if_neg (by omega),
    if_neg (by omega)]

/-! ## Runs of the scanner -/

/-- A string is scanned to its closing quote, whatever it holds. -/
theorem scanFilter_string {quote : Char} (opens : isQuote quote = true) {body : List Char}
    (quoted : QuotedBy quote body) (prev : Option Char) (depth : Nat) (tail : List Char) :
    scanFilter keywords stopOnPipe prev (some quote) depth (body ++ quote :: tail) =
      keepAll (body ++ [quote])
        (scanFilter keywords stopOnPipe (some quote) none depth tail) := by
  induction quoted generalizing prev with
  | nil =>
      rw [List.nil_append, scanFilter_inString keywords stopOnPipe prev depth tail
        (isQuote_noEscape opens), if_pos rfl]
      rfl
  | escape c inside ih =>
      rw [List.cons_append, List.cons_append, scanFilter_escape, ih (some c)]
      rfl
  | plain noEscape noQuote inside ih =>
      rw [List.cons_append, scanFilter_inString keywords stopOnPipe prev depth _ noEscape,
        if_neg noQuote, ih (some _)]
      rfl

theorem scanFilter_quoted {quote : Char} (opens : isQuote quote = true) {body : List Char}
    (quoted : QuotedBy quote body) (prev : Option Char) (depth : Nat) (tail : List Char) :
    scanFilter keywords stopOnPipe prev none depth (quote :: (body ++ quote :: tail)) =
      keepAll (quote :: (body ++ [quote]))
        (scanFilter keywords stopOnPipe (some quote) none depth tail) := by
  rw [scanFilter_openString keywords stopOnPipe prev depth _ opens,
    scanFilter_string keywords stopOnPipe opens quoted]
  rfl

/-- Balanced text inside parentheses is scanned without a stop. -/
theorem scanFilter_inParens {body : List Char} (balanced : InParens body) (prev : Option Char)
    (depth : Nat) (tail : List Char) :
    ∃ prev', scanFilter keywords stopOnPipe prev none (depth + 1) (body ++ tail) =
      keepAll body (scanFilter keywords stopOnPipe prev' none (depth + 1) tail) := by
  induction balanced generalizing prev depth tail with
  | nil => exact ⟨prev, rfl⟩
  | @plain c rest ordinary inside ih =>
      obtain ⟨prev', scanned⟩ := ih (some c) depth tail
      refine ⟨prev', ?_⟩
      rw [List.cons_append, scanFilter_nested keywords stopOnPipe prev depth _ ordinary, scanned]
      rfl
  | @quoted quote body rest opens quoted inside ih =>
      obtain ⟨prev', scanned⟩ := ih (some quote) depth tail
      refine ⟨prev', ?_⟩
      rw [List.cons_append, List.append_assoc, List.cons_append,
        scanFilter_quoted keywords stopOnPipe opens quoted, scanned, ← keepAll_append]
      simp
  | @group body rest inside after ihInside ihAfter =>
      obtain ⟨prevIn, scannedIn⟩ := ihInside (some '(') (depth + 1) (')' :: (rest ++ tail))
      obtain ⟨prev', scanned⟩ := ihAfter (some ')') depth tail
      refine ⟨prev', ?_⟩
      rw [List.cons_append, List.append_assoc, List.cons_append, scanFilter_openParen, scannedIn,
        scanFilter_closeParen, Nat.add_sub_cancel, scanned]
      simp [keepAll, keep]

theorem scanFilter_group {body : List Char} (balanced : InParens body) (prev : Option Char)
    (depth : Nat) (tail : List Char) :
    scanFilter keywords stopOnPipe prev none depth ('(' :: (body ++ ')' :: tail)) =
      keepAll ('(' :: (body ++ [')']))
        (scanFilter keywords stopOnPipe (some ')') none depth tail) := by
  obtain ⟨prevIn, scannedIn⟩ :=
    scanFilter_inParens keywords stopOnPipe balanced (some '(') depth (')' :: tail)
  rw [scanFilter_openParen, scannedIn, scanFilter_closeParen, Nat.add_sub_cancel]
  simp [keepAll, keep]

end Scan

/-! ## Keywords -/

/-- The keywords a filter may end at hold no blanks, quotes or parentheses. -/
def areKeywords (keywords : List (List Char)) : Bool :=
  keywords.all fun keyword =>
    keyword ≠ [] && keyword.all fun c => !isspace c.toLower && isOrdinary c.toLower

theorem areKeywords_mem {keywords : List (List Char)} (clean : areKeywords keywords = true)
    {keyword : List Char} (mem : keyword ∈ keywords) :
    keyword ≠ [] ∧ (∀ c ∈ keyword, isspace c.toLower = false) ∧
      ∀ c ∈ keyword, isOrdinary c.toLower = true := by
  have inside := List.all_eq_true.mp clean keyword mem
  simp only [Bool.and_eq_true, List.all_eq_true, decide_eq_true_eq, Bool.not_eq_true'] at inside
  exact ⟨inside.1, fun c char => (inside.2 c char).1, fun c char => (inside.2 c char).2⟩

theorem endsKeyword_blankOrEnd {tail : List Char} (blank : BlankOrEnd tail) :
    endsKeyword tail = true := by
  cases tail with
  | nil => rfl
  | cons c rest =>
      have space : isspace c = true := blank
      simp [endsKeyword, space]

theorem startsWithCase_cons (c d : Char) (pos keyword : List Char) :
    startsWithCase (c :: pos) (d :: keyword) =
      (d.toLower == c.toLower && startsWithCase pos keyword) := rfl

/-- What follows a text neither completes a keyword nor separates one from its end. -/
theorem keywordEnd_append {tail : List Char} (blank : BlankOrEnd tail) (keyword : List Char)
    (clean : ∀ c ∈ keyword, isspace c.toLower = false) (text : List Char) :
    (startsWithCase (text ++ tail) keyword && endsKeyword ((text ++ tail).drop keyword.length)) =
      (startsWithCase text keyword && endsKeyword (text.drop keyword.length)) := by
  induction keyword generalizing text with
  | nil =>
      cases text with
      | nil =>
          rw [List.nil_append, List.length_nil, List.drop_zero, endsKeyword_blankOrEnd blank]
          simp [startsWithCase, startsWith, endsKeyword]
      | cons c rest => simp [startsWithCase, startsWith, endsKeyword]
  | cons d keyword ih =>
      have cleanRest : ∀ c ∈ keyword, isspace c.toLower = false :=
        fun c mem => clean c (List.mem_cons_of_mem d mem)
      cases text with
      | cons c rest =>
          simp only [List.cons_append, startsWithCase_cons, List.length_cons, List.drop_succ_cons,
            Bool.and_assoc, ih cleanRest rest]
      | nil =>
          cases tail with
          | nil => rfl
          | cons c rest =>
              have space : isspace c = true := blank
              have differs : (d.toLower == c.toLower) = false := by
                rw [isspace_toLower space, beq_eq_false_iff_ne]
                intro same
                rw [← same, clean d List.mem_cons_self] at space
                cases space
              simp [startsWithCase_cons, differs]
              simp [startsWithCase, startsWith]

theorem keywordAtPosition_append {tail : List Char} (blank : BlankOrEnd tail)
    {keyword : List Char} (clean : ∀ c ∈ keyword, isspace c.toLower = false) (prev : Option Char)
    (text : List Char) :
    keywordAtPosition prev (text ++ tail) keyword = keywordAtPosition prev text keyword := by
  have same := keywordEnd_append blank keyword clean text
  unfold keywordAtPosition
  rw [Bool.and_right_comm, same, Bool.and_right_comm]

theorem any_keyword_congr {keywords : List (List Char)} {p q : List Char → Bool}
    (same : ∀ keyword ∈ keywords, p keyword = q keyword) : keywords.any p = keywords.any q := by
  induction keywords with
  | nil => rfl
  | cons keyword rest ih =>
      rw [List.any_cons, List.any_cons, same keyword List.mem_cons_self,
        ih fun other mem => same other (List.mem_cons_of_mem keyword mem)]

theorem any_keywordAtPosition_append {tail : List Char} (blank : BlankOrEnd tail)
    {keywords : List (List Char)} (clean : areKeywords keywords = true) (prev : Option Char)
    (text : List Char) :
    keywords.any (keywordAtPosition prev (text ++ tail)) =
      keywords.any (keywordAtPosition prev text) := by
  apply any_keyword_congr
  intro keyword mem
  exact keywordAtPosition_append blank (areKeywords_mem clean mem).2.1 prev text

/-- The character in front only restricts where a keyword starts. -/
theorem keywordAtPosition_none {prev : Option Char} {position keyword : List Char}
    (absent : keywordAtPosition none position keyword = false) :
    keywordAtPosition prev position keyword = false := by
  have starts : (startsWithCase position keyword && endsKeyword (position.drop keyword.length)) =
      false := by
    simpa [keywordAtPosition, beginsKeyword] using absent
  unfold keywordAtPosition
  rw [Bool.and_right_comm, starts, Bool.false_and]

theorem keywordAtPosition_blank {c : Char} (space : isspace c = true) (position : List Char)
    (keyword : List Char) :
    keywordAtPosition (some c) position keyword = keywordAtPosition none position keyword := by
  simp [keywordAtPosition, beginsKeyword, space]

/-! ## Filter texts -/

theorem TopLevel.none_prev {keywords : List (List Char)} {text : List Char}
    (top : TopLevel keywords none text) (prev : Option Char) : TopLevel keywords prev text := by
  cases top with
  | nil => exact .nil prev
  | plain ordinary noPipe absent inside =>
      refine .plain ordinary noPipe ?_ inside
      rw [List.any_eq_false] at absent ⊢
      intro keyword mem
      have none_false := absent keyword mem
      rw [Bool.not_eq_true] at none_false ⊢
      exact keywordAtPosition_none none_false
  | quoted opens quoted inside => exact .quoted opens quoted inside
  | group balanced inside => exact .group balanced inside

theorem TopLevel.blank_prev {keywords : List (List Char)} {text : List Char} {c : Char}
    (space : isspace c = true) (top : TopLevel keywords (some c) text) :
    TopLevel keywords none text := by
  cases top with
  | nil => exact .nil none
  | plain ordinary noPipe absent inside =>
      refine .plain ordinary noPipe ?_ inside
      rw [← absent]
      apply any_keyword_congr
      intro keyword mem
      exact (keywordAtPosition_blank space _ keyword).symm
  | quoted opens quoted inside => exact .quoted opens quoted inside
  | group balanced inside => exact .group balanced inside

theorem TopLevel.skipSpace {keywords : List (List Char)} {text : List Char}
    (top : TopLevel keywords none text) : TopLevel keywords none (skipSpace text) := by
  induction text with
  | nil => exact top
  | cons c rest ih =>
      by_cases space : isspace c = true
      · have skipped : Nblex.skipSpace (c :: rest) = Nblex.skipSpace rest := by
          simp [Nblex.skipSpace, space]
        rw [skipped]
        apply ih
        generalize whole : c :: rest = text at top
        cases top with
        | nil => cases whole
        | plain ordinary noPipe absent inside =>
            cases whole
            exact inside.blank_prev space
        | quoted opens quoted inside =>
            cases whole
            rcases isQuote_cases opens with rfl | rfl
            · cases space
            · cases space
        | group balanced inside =>
            cases whole
            cases space
      · rw [Bool.not_eq_true] at space
        rw [skipSpace_of_head rest space]
        exact top

/-- A filter text is scanned as a whole. -/
theorem scanFilter_topLevel {keywords : List (List Char)} (clean : areKeywords keywords = true)
    {tail : List Char} (blank : BlankOrEnd tail) {prev : Option Char} {text : List Char}
    (top : TopLevel keywords prev text) :
    ∃ prev', scanFilter keywords true prev none 0 (text ++ tail) =
      keepAll text (scanFilter keywords true prev' none 0 tail) := by
  induction top with
  | nil prev => exact ⟨prev, rfl⟩
  | @plain prev c rest ordinary noPipe absent inside ih =>
      obtain ⟨prev', scanned⟩ := ih
      refine ⟨prev', ?_⟩
      have stays : keywords.any (keywordAtPosition prev (c :: (rest ++ tail))) = false := by
        rw [← List.cons_append, any_keywordAtPosition_append blank clean, absent]
      rw [List.cons_append, scanFilter_ordinary keywords true prev 0 _ ordinary,
        if_neg (fun stop => noPipe stop.2.1), stays, if_neg (by simp), scanned]
      rfl
  | @quoted prev quote body rest opens quoted inside ih =>
      obtain ⟨prev', scanned⟩ := ih
      refine ⟨prev', ?_⟩
      rw [List.cons_append, List.append_assoc, List.cons_append,
        scanFilter_quoted keywords true opens quoted, scanned, ← keepAll_append]
      simp
  | @group prev body rest balanced inside ih =>
      obtain ⟨prev', scanned⟩ := ih
      refine ⟨prev', ?_⟩
      rw [List.cons_append, List.append_assoc, List.cons_append,
        scanFilter_group keywords true balanced, scanned, ← keepAll_append]
      simp

/-- What ends a filter: the end of the input, a pipe, or one of its keywords. -/
def EndsFilter (keywords : List (List Char)) (tail : List Char) : Prop :=
  tail = [] ∨ ∃ rest, tail = ' ' :: rest ∧
    ((∃ more, rest = '|' :: more) ∨
      ∃ keyword ∈ keywords, keywordAtPosition none rest keyword = true)

theorem EndsFilter.blankOrEnd {keywords : List (List Char)} {tail : List Char}
    (ends : EndsFilter keywords tail) : BlankOrEnd tail := by
  rcases ends with rfl | ⟨rest, rfl, _⟩
  · trivial
  · exact (by decide : isspace ' ' = true)

/-- A keyword does not start with a blank. -/
theorem keywordAtPosition_visible {prev : Option Char} {c : Char} {rest keyword : List Char}
    (space : isspace c = true) (notEmpty : keyword ≠ [])
    (clean : ∀ d ∈ keyword, isspace d.toLower = false) :
    keywordAtPosition prev (c :: rest) keyword = false := by
  cases keyword with
  | nil => exact absurd rfl notEmpty
  | cons d keyword =>
      have differs : (d.toLower == c.toLower) = false := by
        rw [isspace_toLower space, beq_eq_false_iff_ne]
        intro same
        rw [← same, clean d List.mem_cons_self] at space
        cases space
      simp [keywordAtPosition, startsWithCase_cons, differs]

/-- A keyword starts with a character of its own. -/
theorem keywordAtPosition_head {prev : Option Char} {rest keyword : List Char}
    (found : keywordAtPosition prev rest keyword = true) (notEmpty : keyword ≠ []) :
    ∃ c more, rest = c :: more ∧ ∃ d ∈ keyword, c.toLower = d.toLower := by
  cases keyword with
  | nil => exact absurd rfl notEmpty
  | cons d keyword =>
      cases rest with
      | nil => simp [keywordAtPosition, startsWithCase, startsWith] at found
      | cons c more =>
          refine ⟨c, more, rfl, d, List.mem_cons_self, ?_⟩
          simp only [keywordAtPosition, startsWithCase_cons, Bool.and_eq_true, beq_iff_eq] at found
          exact found.1.1.1.symm

theorem isOrdinary_of_toLower {c : Char} (lower : isOrdinary c.toLower = true) :
    isOrdinary c = true := by
  by_contra other
  rw [isOrdinary_iff] at other
  have special : c = '\'' ∨ c = '"' ∨ c = '(' ∨ c = ')' := by
    by_contra none
    apply other
    refine ⟨?_, ?_, ?_⟩
    · rintro (same | same)
      · exact none (Or.inl same)
      · exact none (Or.inr (Or.inl same))
    · exact fun same => none (Or.inr (Or.inr (Or.inl same)))
    · exact fun same => none (Or.inr (Or.inr (Or.inr same)))
  rcases special with rfl | rfl | rfl | rfl
  all_goals exact absurd lower (by decide)

/-- The scanner takes at most the blank of what ends a filter. -/
theorem scanFilter_ends {keywords : List (List Char)} (clean : areKeywords keywords = true)
    {tail : List Char} (ends : EndsFilter keywords tail) (prev : Option Char) :
    ∃ blanks, (∀ c ∈ blanks, isspace c = true) ∧
      scanFilter keywords true prev none 0 tail = (blanks, skipSpace tail) := by
  rcases ends with rfl | ⟨rest, rfl, stops⟩
  · exact ⟨[], by simp, by simp [scanFilter]⟩
  · have noStop : keywords.any (keywordAtPosition prev (' ' :: rest)) = false := by
      rw [List.any_eq_false]
      intro keyword mem
      have inside := areKeywords_mem clean mem
      rw [keywordAtPosition_visible (by decide) inside.1 inside.2.1]
      decide
    have blank : scanFilter keywords true prev none 0 (' ' :: rest) =
        keep ' ' (scanFilter keywords true (some ' ') none 0 rest) := by
      rw [scanFilter_ordinary keywords true prev 0 rest (by decide),
        if_neg (fun stop => absurd stop.2.1 (by decide)), noStop, if_neg (by simp)]
    have stop : scanFilter keywords true (some ' ') none 0 rest = ([], skipSpace rest) := by
      rcases stops with ⟨more, rfl⟩ | ⟨keyword, mem, found⟩
      · rw [scanFilter_ordinary keywords true _ 0 more (by decide), if_pos (by simp),
          skipSpace_of_head more (by decide)]
      · have inside := areKeywords_mem clean mem
        obtain ⟨c, more, rfl, d, char, same⟩ := keywordAtPosition_head found inside.1
        have ordinary : isOrdinary c = true := by
          apply isOrdinary_of_toLower
          rw [same]
          exact inside.2.2 d char
        have visible : isspace c = false := by
          rw [Bool.eq_false_iff]
          intro space
          have lower := inside.2.1 d char
          rw [← same, isspace_toLower space, space] at lower
          cases lower
        have stopped : keywords.any (keywordAtPosition (some ' ') (c :: more)) = true := by
          rw [List.any_eq_true]
          refine ⟨keyword, mem, ?_⟩
          rw [keywordAtPosition_blank (by decide), found]
        rw [scanFilter_ordinary keywords true _ 0 more ordinary, stopped,
          skipSpace_of_head more visible]
        simp
    refine ⟨[' '], by simp [isspace], ?_⟩
    rw [blank, stop, skipSpace_blank]
    rfl

/-! ## Filters of a query -/

/-- A text that stands for a filter where the given keywords end it. -/
structure FilterText [Pcre2] (keywords : List (List Char)) where
  text : List Char
  filter : FilterNode
  accepted : nblexFilterNew text = some filter
  top : TopLevel keywords none text

theorem rdropWhile_blanks (text : List Char) {blanks : List Char}
    (all : ∀ c ∈ blanks, isspace c = true) :
    (text ++ blanks).rdropWhile isspace = text.rdropWhile isspace := by
  unfold List.rdropWhile
  rw [List.reverse_append, List.dropWhile_append_of_pos]
  intro c mem
  exact all c (List.mem_reverse.mp mem)

theorem skipSpace_append {text : List Char} (notBlank : skipSpace text ≠ []) (tail : List Char) :
    skipSpace (text ++ tail) = skipSpace text ++ tail := by
  unfold skipSpace at notBlank ⊢
  rw [List.dropWhile_append]
  simp [notBlank]

section Filters

variable [Pcre2]

theorem FilterText.not_blank {keywords : List (List Char)} (filter : FilterText keywords) :
    skipSpace filter.text ≠ [] := by
  intro blank
  have accepted := filter.accepted
  rw [← nblexFilterNew_trim, blank] at accepted
  cases accepted

/-- A filter text in its place is read back as its filter. -/
theorem parseFilterExpr_text (input : List Char) {keywords : List (List Char)}
    (clean : areKeywords keywords = true) (filter : FilterText keywords) {tail : List Char}
    (ends : EndsFilter keywords tail) :
    parseFilterExpr input keywords true (filter.text ++ tail) =
      .ok (filter.filter, skipSpace tail) := by
  have start : skipSpace (filter.text ++ tail) = skipSpace filter.text ++ tail :=
    skipSpace_append filter.not_blank tail
  obtain ⟨prev', run⟩ := scanFilter_topLevel clean ends.blankOrEnd
    (filter.top.skipSpace.none_prev (charBefore input (skipSpace filter.text ++ tail)))
  obtain ⟨blanks, all, stop⟩ := scanFilter_ends clean ends prev'
  have accepted : nblexFilterNew ((skipSpace filter.text ++ blanks).rdropWhile isspace) =
      some filter.filter := by
    rw [rdropWhile_blanks _ all, nblexFilterNew_trim, filter.accepted]
  have notEmpty : (skipSpace filter.text ++ blanks).rdropWhile isspace ≠ [] := by
    intro empty
    rw [empty] at accepted
    cases accepted
  have scanned : scanFilter keywords true (charBefore input (skipSpace filter.text ++ tail)) none 0
      (skipSpace filter.text ++ tail) = (skipSpace filter.text ++ blanks, skipSpace tail) := by
    rw [run, stop]
    rfl
  unfold parseFilterExpr
  simp only [start, scanned, if_neg notEmpty, accepted]

end Filters

end NqlParser

end Nblex

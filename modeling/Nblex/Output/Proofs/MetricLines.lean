import Nblex.Output.MetricsOutput
import Nblex.Misc.Exposition
import Nblex.Misc.Numerals
import Mathlib.Data.Rat.Floor
import Mathlib.Tactic.Linarith

/-!
# The sample lines of a flush

A line of a metric with labels closes its group twice, so it is not a sample line at all. The line
of a metric without labels reads back to the metric just in case no character of its name has to
be escaped and six decimal places are enough for its value.
-/

namespace Nblex

open Exposition

/-! ## Six decimal places -/

/-- The nearest integer, the even one of two. -/
def roundEven (q : ℚ) : Int :=
  if q - ⌊q⌋ < 1 / 2 then ⌊q⌋
  else if 1 / 2 < q - ⌊q⌋ then ⌊q⌋ + 1
  else if ⌊q⌋ % 2 = 0 then ⌊q⌋ else ⌊q⌋ + 1

/-- The value rounded to six decimal places. -/
def sixPlaces (q : ℚ) : ℚ := roundEven (q * 1000000) / 1000000

theorem roundEven_mem (q : ℚ) : ⌊q⌋ ≤ roundEven q ∧ roundEven q ≤ ⌊q⌋ + 1 := by
  unfold roundEven
  split
  · omega
  · split
    · omega
    · split <;> omega

/-- The rounded value with its sign, as `%.6f` prints it. -/
theorem signed_natAbs_roundEven (q : ℚ) :
    signed (decide (q < 0)) ((roundEven (q * 1000000)).natAbs : ℚ) = roundEven (q * 1000000) := by
  obtain ⟨low, high⟩ := roundEven_mem (q * 1000000)
  by_cases negative : q < 0
  · have below : ⌊q * 1000000⌋ < 0 := by
      rw [Int.floor_lt]
      push_cast
      linarith
    rw [signed, if_pos (decide_eq_true negative)]
    have natAbs : ((roundEven (q * 1000000)).natAbs : Int) = -roundEven (q * 1000000) := by omega
    have cast : ((roundEven (q * 1000000)).natAbs : ℚ) = ((-roundEven (q * 1000000) : Int) : ℚ) :=
        by
      rw [← natAbs]
      rfl
    rw [cast]
    push_cast
    ring
  · have above : 0 ≤ ⌊q * 1000000⌋ := by
      rw [Int.floor_nonneg]
      linarith
    rw [signed, if_neg (by simpa using negative)]
    have natAbs : ((roundEven (q * 1000000)).natAbs : Int) = roundEven (q * 1000000) := by omega
    exact congrArg (fun n : Int => (n : ℚ)) natAbs

/-- The digits behind the point: `%06d`. -/
def sixDigits (n : Nat) : List Char :=
  List.replicate (6 - (Nat.toDigits 10 n).length) '0' ++ Nat.toDigits 10 n

theorem sixDigits_spec {n : Nat} (small : n < 1000000) :
    Digits (sixDigits n) ∧ (sixDigits n).length = 6 ∧ decimalValue (sixDigits n) = n := by
  have length : (Nat.toDigits 10 n).length ≤ 6 :=
    (Nat.length_toDigits_le_iff (by decide) (by decide)).mpr small
  obtain ⟨nonempty, digits⟩ := toDigits_digits n
  refine ⟨⟨?_, ?_⟩, ?_, ?_⟩
  · exact List.append_ne_nil_of_right_ne_nil _ nonempty
  · intro c member
    rcases List.mem_append.mp member with zero | digit
    · rw [List.eq_of_mem_replicate zero]
      rfl
    · exact digits c digit
  · simp only [sixDigits, List.length_append, List.length_replicate]
    omega
  · rw [sixDigits, decimalValue_append, decimalValue_zeros, decimalValue_toDigits]
    omega

theorem formatFixed6_text (q : ℚ) :
    (formatFixed6 q).toList = signText (decide (q < 0)) ++
      (Nat.toDigits 10 ((roundEven (q * 1000000)).natAbs / 1000000) ++
        '.' :: sixDigits ((roundEven (q * 1000000)).natAbs % 1000000)) := by
  have rounded : roundEven (q * 1000000) =
      (let scaled := q * 1000000
       let floor := scaled.num / scaled.den
       let remainder := scaled - floor
       if remainder < 1 / 2 then floor
       else if 1 / 2 < remainder then floor + 1
       else if floor % 2 = 0 then floor else floor + 1) := by
    simp only [roundEven, Rat.floor_def']
  have sign : ((if q < 0 then "-" else "") : String).toList = signText (decide (q < 0)) := by
    by_cases negative : q < 0 <;> simp [signText, negative]
  have point : (".").toList = ['.'] := rfl
  unfold formatFixed6
  simp only [← rounded, String.toList_append, String.toList_ofList, sign, point,
    Nat.toString_eq_repr, Nat.toList_repr, sixDigits, List.append_assoc, List.singleton_append]

/-- `strtod` reads the rounded value. -/
theorem strtod_formatFixed6 (q : ℚ) : strtod (formatFixed6 q).toList = (sixPlaces q, []) := by
  obtain ⟨digits, length, value⟩ :=
    sixDigits_spec (Nat.mod_lt (roundEven (q * 1000000)).natAbs (by decide : 0 < 1000000))
  have whole := toDigits_digits ((roundEven (q * 1000000)).natAbs / 1000000)
  have stop : ∀ c ∈ ([] : List Char).head?, isdigit c = false ∧ c.toLower ≠ 'e' := nofun
  have read := strtodIn_fraction whole digits stop
  have parts : (roundEven (q * 1000000)).natAbs / 1000000 * 10 ^ 6 +
      (roundEven (q * 1000000)).natAbs % 1000000 = (roundEven (q * 1000000)).natAbs :=
    Nat.div_add_mod' _ _
  rw [List.append_nil, decimalValue_append, length, value, decimalValue_toDigits, parts] at read
  have noHex : ∀ c ∈ ('.' :: sixDigits ((roundEven (q * 1000000)).natAbs % 1000000)).head?,
      c.toLower ≠ 'x' := by
    rintro c ⟨⟩
    decide
  rw [formatFixed6_text, strtod_of_strtodIn _ whole noHex read, sixPlaces,
    ← signed_natAbs_roundEven]
  unfold signed
  split <;> ring_nf

theorem formatFixed6_number (q : ℚ) :
    (formatFixed6 q).toList ≠ [] ∧ ∀ c ∈ (formatFixed6 q).toList, isNumberChar c = true := by
  obtain ⟨⟨-, fraction⟩, -, -⟩ :=
    sixDigits_spec (Nat.mod_lt (roundEven (q * 1000000)).natAbs (by decide : 0 < 1000000))
  obtain ⟨-, whole⟩ := toDigits_digits ((roundEven (q * 1000000)).natAbs / 1000000)
  have digit : ∀ c, isdigit c = true → isNumberChar c = true := by
    intro c isDigit
    have isDigit : c.isDigit = true := isDigit
    simp [isNumberChar, isDigit]
  rw [formatFixed6_text]
  refine ⟨by simp, ?_⟩
  intro c member
  rcases List.mem_append.mp member with sign | unsigned
  · unfold signText at sign
    split at sign
    · rw [List.mem_singleton.mp sign]
      rfl
    · cases sign
  · rcases List.mem_append.mp unsigned with inWhole | later
    · exact digit c (whole c inWhole)
    · rcases List.mem_cons.mp later with rfl | inFraction
      · rfl
      · exact digit c (fraction c inFraction)

/-! ## What a line reads back to -/

/-- The number of a sample, as the rational it denotes. -/
def Exposition.Sample.value (sample : Sample) : Option ℚ :=
  match strtod sample.number with
  | (value, []) => some value
  | _ => none

/-- The name of the samples. -/
def aggregationName : List Char := "nblex_aggregation".toList

/-- The label that holds the name of a metric. -/
def metricLabel : List Char := "metric".toList

/-- The pairs of a stored metric: its name and its labels. A label whose value is no string has no
    value. -/
def AggregationMetric.pairs (metric : AggregationMetric) :
    List (List Char × Option (List Char)) :=
  (metricLabel, some metric.metricName.toList) ::
    match metric.labels with
    | some (.object fields) =>
        fields.map (fun entry => (entry.1.toList, (jsonStringValue entry.2).map String.toList))
    | _ => []

/-- The line is a sample line and reads back to the metric. `nearest` is how the reader rounds a
    decimal to its numbers. -/
def ReadsBack (nearest : ℚ → ℚ) (line : String) (metric : AggregationMetric) : Prop :=
  ∃ sample value, readSample line.toList = some sample ∧ sample.name = aggregationName ∧
    (sample.pairs.map (fun pair => (pair.1, some pair.2))).Perm metric.pairs ∧
    sample.value = some value ∧ nearest value = metric.value

/-- The metric has no labels. -/
def AggregationMetric.Unlabelled (metric : AggregationMetric) : Prop :=
  ∀ labels ∈ metric.labels, labels.isObject = false

/-- The line of a metric without labels. -/
def plainLine (metric : AggregationMetric) : List Char :=
  aggregationName ++ '{' :: (metricLabel ++ '=' :: '"' ::
    (metric.metricName.toList ++ '"' :: '}' :: ' ' :: (formatFixed6 metric.value).toList))

theorem metricLine_unlabelled {metric : AggregationMetric} (unlabelled : metric.Unlabelled) :
    ∃ line, metricLine metric = some line ∧ line.toList = plainLine metric := by
  have labels : formatPrometheusLabels metric.labels = some "" := by
    unfold formatPrometheusLabels
    split
    · next fields object => cases unlabelled _ object
    · rfl
  have short : ¬2 < ("").utf8ByteSize := by decide
  have front : ("nblex_aggregation\x7bmetric=\"").toList =
      aggregationName ++ '{' :: (metricLabel ++ ['=', '"']) := by decide +kernel
  have back : ("\"\x7d ").toList = ['"', '}', ' '] := by decide +kernel
  refine ⟨sampleLine metric "", by rw [metricLine, labels, Option.map_some], ?_⟩
  simp only [sampleLine, if_neg short, plainLine, String.toList_append, front, back,
    List.append_assoc, List.cons_append, List.nil_append]

theorem labelsBody_size {fields : List (String × Json)} (some_label : fields ≠ []) :
    0 < (labelsBody fields).utf8ByteSize := by
  have label : ∀ entry, 0 < (labelText entry).utf8ByteSize := by
    intro entry
    have quote : 0 < ("\"").utf8ByteSize := by decide
    rw [labelText, String.utf8ByteSize_append]
    omega
  cases fields with
  | nil => exact absurd rfl some_label
  | cons entry fields =>
      cases fields with
      | nil => exact label entry
      | cons next fields =>
          have here := label entry
          rw [labelsBody, String.utf8ByteSize_append, String.utf8ByteSize_append]
          · omega
          · exact List.cons_ne_nil _ _

/-- The line of a metric with labels has two closing braces in front of its number. -/
theorem metricLine_labelled {metric : AggregationMetric} {fields : List (String × Json)}
    (labels : metric.labels = some (.object fields)) {line : String}
    (written : metricLine metric = some line) :
    ∃ before, line.toList =
      (before ++ ['}']) ++ '}' :: ' ' :: (formatFixed6 metric.value).toList := by
  rw [metricLine, labels, formatPrometheusLabels] at written
  split at written
  · next fits =>
      obtain rfl := Option.some.inj written
      have some_label : fields ≠ [] := by
        rintro rfl
        exact absurd fits (by decide)
      have long : 2 < (labelsText fields).utf8ByteSize := by
        have body := labelsBody_size some_label
        have opening : ("\x7b").utf8ByteSize = 1 := rfl
        have closing : ("\x7d").utf8ByteSize = 1 := rfl
        rw [labelsText, String.utf8ByteSize_append, String.utf8ByteSize_append, opening, closing]
        omega
      have tail : (labelsText fields).toList.tail = (labelsBody fields).toList ++ ['}'] := by
        have opening : ("\x7b").toList = ['{'] := by decide
        have closing : ("\x7d").toList = ['}'] := by decide
        rw [labelsText, String.toList_append, String.toList_append, opening, closing]
        rfl
      have last : ("\x7d ").toList = ['}', ' '] := by decide
      refine ⟨("nblex_aggregation\x7bmetric=\"" ++ metric.metricName ++ "\",").toList ++
        (labelsBody fields).toList, ?_⟩
      simp only [sampleLine, if_pos long, String.toList_append, String.toList_ofList, tail, last,
        List.append_assoc, List.cons_append, List.nil_append]
  · cases written

/-! ## When lines read back -/

theorem aggregationName_chars : ∀ c ∈ aggregationName, isNameChar c = true := by
  have all : aggregationName.all isNameChar = true := by decide
  exact List.all_eq_true.mp all

theorem metricLabel_isName : IsName metricLabel := by
  have all : metricLabel.all isNameChar = true := by decide
  exact ⟨by decide, List.all_eq_true.mp all⟩

/-- A metric whose line is a sample line has no labels. -/
theorem unlabelled_of_read {metric : AggregationMetric} {line : String} {sample : Sample}
    (written : metricLine metric = some line) (read : readSample line.toList = some sample) :
    metric.Unlabelled := by
  intro labels member
  cases labels with
  | object fields =>
      exfalso
      obtain ⟨before, text⟩ := metricLine_labelled member written
      rw [text] at read
      obtain ⟨-, consumed, quoted⟩ := readSample_closed (formatFixed6_number metric.value).2 read
      have last := congrArg List.getLast? quoted
      simp at last
  | null => rfl
  | bool b => rfl
  | integer n => rfl
  | real q => rfl
  | string s => rfl
  | array items => rfl

theorem AggregationMetric.Unlabelled.pairs {metric : AggregationMetric}
    (unlabelled : metric.Unlabelled) :
    metric.pairs = [(metricLabel, some metric.metricName.toList)] := by
  unfold AggregationMetric.pairs
  split
  · next fields object => cases unlabelled _ object
  · rfl

/-- The line of a metric reads back just in case the metric has no labels, no character of its
    name has to be escaped and six decimal places are enough for its value. -/
theorem metricLine_readsBack_iff (nearest : ℚ → ℚ) (metric : AggregationMetric) :
    (∃ line, metricLine metric = some line ∧ ReadsBack nearest line metric) ↔
      metric.Unlabelled ∧ (∀ c ∈ metric.metricName.toList, IsPlain c) ∧
        nearest (sixPlaces metric.value) = metric.value := by
  obtain ⟨some_digit, number⟩ := formatFixed6_number metric.value
  constructor
  · rintro ⟨line, written, ⟨name, pairs, digits⟩, value, read, rfl, same, valued, rounded⟩
    have unlabelled := unlabelled_of_read written read
    obtain ⟨line', written', text⟩ := metricLine_unlabelled unlabelled
    obtain rfl : line' = line := Option.some.inj (written'.symm.trans written)
    rw [text] at read
    rw [unlabelled.pairs] at same
    obtain ⟨⟨label, inner⟩, rfl, pair⟩ :=
      List.map_eq_singleton_iff.mp (List.perm_singleton.mp same)
    obtain ⟨rfl, inner_eq⟩ := Prod.mk.inj pair
    obtain rfl : inner = metric.metricName.toList := Option.some.inj inner_eq
    have closed : plainLine metric =
        (aggregationName ++ '{' :: (metricLabel ++ '=' :: '"' ::
          (metric.metricName.toList ++ ['"']))) ++
          '}' :: ' ' :: (formatFixed6 metric.value).toList := by
      simp only [plainLine, List.append_assoc, List.cons_append, List.nil_append]
    obtain ⟨rfl, -⟩ := readSample_closed number (closed ▸ read)
    rw [Sample.value, strtod_formatFixed6] at valued
    obtain rfl := Option.some.inj valued
    exact ⟨unlabelled, readSample_single aggregationName_chars read, rounded⟩
  · rintro ⟨unlabelled, plain, rounded⟩
    obtain ⟨line, written, text⟩ := metricLine_unlabelled unlabelled
    let sample : Sample := ⟨aggregationName, [(metricLabel, metric.metricName.toList)],
      (formatFixed6 metric.value).toList⟩
    have line_text : line.toList = sample.text := by
      rw [text, Sample.text, pairsText, pairText, flatMap_escape_plain plain]
      simp only [plainLine, List.append_assoc, List.cons_append, List.nil_append, sample]
    refine ⟨line, written, sample, sixPlaces metric.value, ?_, rfl, ?_, ?_, rounded⟩
    · rw [line_text]
      refine readSample_text aggregationName_chars (List.cons_ne_nil _ _) ?_ some_digit number
      intro pair member
      rw [List.mem_singleton.mp member]
      exact metricLabel_isName
    · rw [unlabelled.pairs]
      exact List.Perm.refl _
    · rw [Sample.value, strtod_formatFixed6]

/-- The sample lines of a flush read back to the stored metrics just in case each of these has no
    labels, no character of its name has to be escaped and six decimal places are enough for its
    value. -/
theorem sampleLines_readBack_iff (nearest : ℚ → ℚ) (metrics : List AggregationMetric) :
    (∃ lines, sampleLines metrics = some lines ∧
      List.Forall₂ (ReadsBack nearest) lines metrics) ↔
    ∀ metric ∈ metrics, metric.Unlabelled ∧ (∀ c ∈ metric.metricName.toList, IsPlain c) ∧
      nearest (sixPlaces metric.value) = metric.value := by
  have each := metricLine_readsBack_iff nearest
  induction metrics with
  | nil => exact ⟨fun _ => nofun, fun _ => ⟨[], rfl, List.Forall₂.nil⟩⟩
  | cons metric metrics ih =>
      rw [List.forall_mem_cons]
      refine Iff.trans ?_ (and_congr (each metric) ih)
      rw [sampleLines_cons]
      constructor
      · rintro ⟨lines, written, all⟩
        obtain ⟨line, here, written⟩ := Option.bind_eq_some_iff.mp written
        obtain ⟨others, later, rfl⟩ := Option.map_eq_some_iff.mp written
        obtain ⟨first, rest⟩ := List.forall₂_cons.mp all
        exact ⟨⟨line, here, first⟩, others, later, rest⟩
      · rintro ⟨⟨line, here, first⟩, others, later, rest⟩
        refine ⟨line :: others, ?_, List.Forall₂.cons first rest⟩
        rw [here, later]
        rfl

/-- The count of the requests of a service. -/
def serviceCount : AggregationMetric where
  metricName := "count"
  labels := some (.object [("log.service", .string "api")])
  value := 5

/-- The line of a count with one label is no sample line. -/
theorem serviceCount_unread :
    ¬∀ metrics : List AggregationMetric, ∃ lines, sampleLines metrics = some lines ∧
      List.Forall₂ (ReadsBack id) lines metrics := by
  intro all
  obtain ⟨lines, written, read⟩ := all [serviceCount]
  have line : sampleLines [serviceCount] =
      some ["nblex_aggregation\x7bmetric=\"count\",log.service=\"api\"\x7d\x7d 5.000000"] := by
    decide +kernel
  obtain rfl := Option.some.inj (line.symm.trans written)
  obtain ⟨sample, value, accepted, -⟩ := (List.forall₂_cons.mp read).1
  have refused : readSample
      ("nblex_aggregation\x7bmetric=\"count\",log.service=\"api\"\x7d\x7d 5.000000").toList =
      none := by decide +kernel
  rw [refused] at accepted
  cases accepted

end Nblex

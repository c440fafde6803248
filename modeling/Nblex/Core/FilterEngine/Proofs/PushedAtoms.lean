import Nblex.Core.FilterEngine.BpfPushdown
import Nblex.Core.FilterEngine.Eval
import Nblex.Core.FilterEngine.Proofs.Chains

/-!
# What is pushed down to the kernel

The atoms on the `AND` spine of a filter hold wherever the filter does, so that a packet the filter
wants passes their conjunction. The text of that conjunction is exact as long as it fits the
buffers.
-/

namespace Nblex

/-- The atoms under `AND`s alone. -/
def andSpine : FilterNode → List FilterExpr
  | .and left right => andSpine left ++ andSpine right
  | .expr e => [e]
  | .or _ _ | .not _ => []

/-- The primitive of a comparison with a number. -/
def portPrimitive (field : String) (port : Int) : Option (List Char) :=
  if field = "network.dst_port" then some ("dst port ".toList ++ decimalText port)
  else if field = "network.src_port" then some ("src port ".toList ++ decimalText port)
  else none

/-- The primitive of a comparison with a text. -/
def textPrimitive (field value : String) : Option (List Char) :=
  if field = "network.protocol" then
    if value = "tcp" ∨ value = "udp" ∨ value = "icmp" then some value.toList else none
  else if field = "network.src_ip" then some ("src host ".toList ++ value.toList)
  else if field = "network.dst_ip" then some ("dst host ".toList ++ value.toList)
  else none

/-- The translation of a pushable atom. -/
def translation (e : FilterExpr) : Option (List Char) :=
  match e.op, e.value with
  | .eq, .integer n => portPrimitive e.field n
  | .eq, .real q => portPrimitive e.field (intOfReal q)
  | .eq, .string s => textPrimitive e.field s
  | _, _ => none

/-- The translations of the pushable atoms on the `AND` spine, in order. -/
def pushedTexts (filter : FilterNode) : List (List Char) := (andSpine filter).filterMap translation

/-- `" and "`. -/
def andText : List Char := " and ".toList

/-! ## The text -/

theorem extractBpfFromExpr_port (field : String) (regexCode : Option String) {value : FilterValue}
    {port : Int} (number : portValue value = some port) (noText : stringVal value = none)
    (bufSize : Nat) :
    extractBpfFromExpr ⟨field, .eq, value, regexCode⟩ bufSize =
      (portPrimitive field port).map (snprintf bufSize) := by
  unfold extractBpfFromExpr portPrimitive
  dsimp only
  rw [number, noText]
  by_cases dst : field = "network.dst_port"
  · rw [if_pos dst, if_pos dst, if_pos rfl]
    rfl
  · rw [if_neg dst, if_neg dst]
    by_cases src : field = "network.src_port"
    · rw [if_pos src, if_pos src, if_pos rfl]
      rfl
    · rw [if_neg src, if_neg src]
      rfl

theorem extractBpfFromExpr_text (field s : String) (regexCode : Option String) (bufSize : Nat) :
    extractBpfFromExpr ⟨field, .eq, .string s, regexCode⟩ bufSize =
      (textPrimitive field s).map (snprintf bufSize) := by
  unfold extractBpfFromExpr textPrimitive
  dsimp only
  by_cases dst : field = "network.dst_port"
  · rw [if_pos dst, if_pos rfl, dst, if_neg (by decide), if_neg (by decide), if_neg (by decide)]
    rfl
  · rw [if_neg dst]
    by_cases src : field = "network.src_port"
    · rw [if_pos src, if_pos rfl, src, if_neg (by decide), if_neg (by decide), if_neg (by decide)]
      rfl
    · rw [if_neg src]
      dsimp only [stringVal]
      simp only [true_and, if_true, apply_ite (Option.map (snprintf bufSize)), Option.map_some,
        Option.map_none]

theorem extractBpfFromExpr_other (field : String) {op : FilterOp} (other : op ≠ .eq)
    (value : FilterValue) (regexCode : Option String) (bufSize : Nat) :
    extractBpfFromExpr ⟨field, op, value, regexCode⟩ bufSize = none := by
  unfold extractBpfFromExpr
  dsimp only
  cases stringVal value with
  | none => simp only [if_neg other, ite_self]
  | some s => simp only [other, false_and, if_false, ite_self]

/-- Values that are neither numbers nor texts are not pushed. -/
theorem extractBpfFromExpr_unpushed (field : String) (regexCode : Option String)
    {value : FilterValue} (noNumber : portValue value = none) (noText : stringVal value = none)
    (bufSize : Nat) : extractBpfFromExpr ⟨field, .eq, value, regexCode⟩ bufSize = none := by
  unfold extractBpfFromExpr
  dsimp only
  rw [noNumber, noText]
  simp only [Option.map_none, ite_self]

theorem extractBpfFromExpr_eq (e : FilterExpr) (bufSize : Nat) :
    extractBpfFromExpr e bufSize = (translation e).map (snprintf bufSize) := by
  obtain ⟨field, op, value, regexCode⟩ := e
  by_cases equals : op = .eq
  · subst equals
    cases value with
    | integer n => exact extractBpfFromExpr_port field regexCode rfl rfl bufSize
    | real q => exact extractBpfFromExpr_port field regexCode rfl rfl bufSize
    | string s => exact extractBpfFromExpr_text field s regexCode bufSize
    | unset => exact extractBpfFromExpr_unpushed field regexCode rfl rfl bufSize
    | bool b => exact extractBpfFromExpr_unpushed field regexCode rfl rfl bufSize
    | pattern => exact extractBpfFromExpr_unpushed field regexCode rfl rfl bufSize
  · rw [extractBpfFromExpr_other field equals]
    cases op with
    | eq => exact absurd rfl equals
    | ne | lt | le | gt | ge | patMatch | patNmatch | isIn | contains => rfl

/-- The buffers after the atoms with the translations `texts`. -/
def bufferOf (texts : List (List Char)) : BpfBuffer :=
  ⟨snprintf bpfBufSize (joined andText (texts.map (snprintf tempBufSize))), decide (texts ≠ [])⟩

theorem bufferOf_concat (texts : List (List Char)) (text : List Char) :
    bufferOf (texts ++ [text]) =
      if (bufferOf texts).hasContent then
        { bufferOf texts with
          text := snprintfAt bpfBufSize (bufferOf texts).text
            (andText ++ snprintf tempBufSize text) }
      else ⟨snprintf bpfBufSize (snprintf tempBufSize text), true⟩ := by
  by_cases first : texts = []
  · subst first
    simp [bufferOf, joined]
  · have more : texts.map (snprintf tempBufSize) ≠ [] := by simpa using first
    simp [bufferOf, first, joined_concat andText more, snprintfAt_snprintf]

/-- The walk over a tree appends its atoms. -/
theorem extractBpfRecursive_bufferOf (filter : FilterNode) :
    ∀ texts, extractBpfRecursive filter (bufferOf texts) =
      bufferOf (texts ++ pushedTexts filter) := by
  induction filter with
  | and left right ihLeft ihRight =>
      intro texts
      rw [extractBpfRecursive, ihLeft, ihRight, List.append_assoc, pushedTexts, pushedTexts,
        pushedTexts, andSpine, List.filterMap_append]
  | or left right =>
      intro texts
      exact congrArg bufferOf (List.append_nil texts).symm
  | not operand =>
      intro texts
      exact congrArg bufferOf (List.append_nil texts).symm
  | expr e =>
      intro texts
      have atoms : pushedTexts (.expr e) = (translation e).toList := by
        rw [pushedTexts, andSpine]
        cases translated : translation e <;> simp [translated]
      rw [extractBpfRecursive, extractBpfFromExpr_eq, atoms]
      cases translation e with
      | none => exact congrArg bufferOf (List.append_nil texts).symm
      | some text => exact (bufferOf_concat texts text).symm

theorem nblexFilterToBpf_eq (filter : FilterNode) :
    nblexFilterToBpf filter =
      if pushedTexts filter = [] then none
      else some (snprintf bpfBufSize
        (joined andText ((pushedTexts filter).map (snprintf tempBufSize)))) := by
  have walked := extractBpfRecursive_bufferOf filter []
  have start : bufferOf [] = ⟨[], false⟩ := rfl
  rw [List.nil_append, start] at walked
  rw [nblexFilterToBpf, walked]
  by_cases nothing : pushedTexts filter = []
  · simp [bufferOf, nothing]
  · simp [bufferOf, nothing]

/-- The conjunction that is meant, `NULL` if it is empty. -/
def pushedText (filter : FilterNode) : Option (List Char) :=
  if pushedTexts filter = [] then none else some (joined andText (pushedTexts filter))

/-- Every atom and the whole fit their buffers. -/
def FitsBuffers (filter : FilterNode) : Prop :=
  (∀ text ∈ pushedTexts filter, text.length < tempBufSize) ∧
    (joined andText (pushedTexts filter)).length < bpfBufSize

theorem nblexFilterToBpf_exact_iff (filter : FilterNode) :
    nblexFilterToBpf filter = pushedText filter ↔ FitsBuffers filter := by
  have cut := snprintf_joined_iff andText bpfBufSize tempBufSize (by decide) (by decide)
    (pushedTexts filter)
  rw [nblexFilterToBpf_eq, pushedText, FitsBuffers, ← cut]
  by_cases nothing : pushedTexts filter = []
  · simp [nothing, joined, snprintf]
  · simp [nothing]

/-! ## The meaning -/

/-- One primitive of a kernel filter, as the atoms give them. The name of a host is one word. -/
inductive IsPrimitive : List Char → Prop where
  | srcPort (port : Int) : IsPrimitive ("src port ".toList ++ decimalText port)
  | dstPort (port : Int) : IsPrimitive ("dst port ".toList ++ decimalText port)
  | protocol {name : String} : name = "tcp" ∨ name = "udp" ∨ name = "icmp" →
      IsPrimitive name.toList
  | srcHost {host : List Char} : (∀ c ∈ host, isspace c = false) →
      IsPrimitive ("src host ".toList ++ host)
  | dstHost {host : List Char} : (∀ c ∈ host, isspace c = false) →
      IsPrimitive ("dst host ".toList ++ host)

/-- Packets, the data of their events, and which of them come through under the filter of a text.
    Where the data has a field, it is what the primitive tests, and `and` is conjunction. -/
structure PacketEvents (P : Type) where
  data : P → Json
  accepts : List Char → P → Prop
  srcPort : ∀ p value, (data p).get? "network.src_port" = some value →
    ∃ port, value = .integer port ∧ accepts ("src port ".toList ++ decimalText port) p
  dstPort : ∀ p value, (data p).get? "network.dst_port" = some value →
    ∃ port, value = .integer port ∧ accepts ("dst port ".toList ++ decimalText port) p
  protocol : ∀ p name, (data p).get? "network.protocol" = some (.string name) →
    name = "tcp" ∨ name = "udp" ∨ name = "icmp" → accepts name.toList p
  srcHost : ∀ p host, (data p).get? "network.src_ip" = some (.string host) →
    (∀ c ∈ host.toList, isspace c = false) ∧ accepts ("src host ".toList ++ host.toList) p
  dstHost : ∀ p host, (data p).get? "network.dst_ip" = some (.string host) →
    (∀ c ∈ host.toList, isspace c = false) ∧ accepts ("dst host ".toList ++ host.toList) p
  and_of_all : ∀ p texts, texts ≠ [] → (∀ text ∈ texts, IsPrimitive text ∧ accepts text p) →
    accepts (joined andText texts) p

/-- One packet to port 443 that comes through under every filter. -/
example : Nonempty (PacketEvents Unit) :=
  ⟨{ data := fun _ => .object [("network.dst_port", .integer 443)]
     accepts := fun _ _ => True
     srcPort := fun _ _ absent => by cases absent
     dstPort := fun _ value present => ⟨443, (Option.some.inj present).symm, trivial⟩
     protocol := fun _ _ _ _ => trivial
     srcHost := fun _ _ absent => by cases absent
     dstHost := fun _ _ absent => by cases absent
     and_of_all := fun _ _ _ _ => trivial }⟩

section Meaning

variable [Pcre2]

/-- The pushdown of a filter is exact, its atoms follow from the filter, and the kernel drops no
    packet whose data satisfies the filter. -/
structure PushedDown (filter : FilterNode) : Prop where
  text : nblexFilterToBpf filter = pushedText filter
  implied : ∀ data, evaluateFilterNode filter data = true →
    ∀ e ∈ andSpine filter, evaluateFilterExpr e data = true
  wanted : ∀ (P : Type) (capture : PacketEvents P) p,
    evaluateFilterNode filter (capture.data p) = true →
    ∀ text ∈ nblexFilterToBpf filter, capture.accepts text p

/-- The atoms on the spine hold where the filter does. -/
theorem andSpine_implied {filter : FilterNode} {data : Json}
    (holds : evaluateFilterNode filter data = true) :
    ∀ e ∈ andSpine filter, evaluateFilterExpr e data = true := by
  induction filter with
  | and left right ihLeft ihRight =>
      rw [evaluateFilterNode, Bool.and_eq_true] at holds
      intro e member
      rcases List.mem_append.mp member with member | member
      · exact ihLeft holds.1 e member
      · exact ihRight holds.2 e member
  | or left right => simp [andSpine]
  | not operand => simp [andSpine]
  | expr e =>
      rw [evaluateFilterNode] at holds
      intro other member
      rw [List.mem_singleton.mp member]
      exact holds

/-- An equality that holds finds the value in the data. -/
theorem equality_holds {field : String} {value : FilterValue} {regexCode : Option String}
    {data : Json} (holds : evaluateFilterExpr ⟨field, .eq, value, regexCode⟩ data = true) :
    ∃ found, data.get? field = some found ∧ fieldEquals found value = true := by
  unfold evaluateFilterExpr at holds
  dsimp only at holds
  cases present : data.get? field with
  | none =>
      rw [present] at holds
      cases holds
  | some found =>
      rw [present] at holds
      exact ⟨found, rfl, holds⟩

omit [Pcre2] in
theorem accepts_port {P : Type} (capture : PacketEvents P) {p : P} {field : String} {found : Json}
    (present : (capture.data p).get? field = some found) {n : Int} {text : List Char}
    (translated : portPrimitive field n = some text) :
    ∃ port, found = .integer port ∧
      (port = n → IsPrimitive text ∧ capture.accepts text p) := by
  unfold portPrimitive at translated
  by_cases dst : field = "network.dst_port"
  · rw [if_pos dst] at translated
    obtain rfl := Option.some.inj translated
    obtain ⟨port, isPort, accepted⟩ := capture.dstPort p found (dst ▸ present)
    refine ⟨port, isPort, ?_⟩
    rintro rfl
    exact ⟨.dstPort port, accepted⟩
  · rw [if_neg dst] at translated
    by_cases src : field = "network.src_port"
    · rw [if_pos src] at translated
      obtain rfl := Option.some.inj translated
      obtain ⟨port, isPort, accepted⟩ := capture.srcPort p found (src ▸ present)
      refine ⟨port, isPort, ?_⟩
      rintro rfl
      exact ⟨.srcPort port, accepted⟩
    · rw [if_neg src] at translated
      cases translated

omit [Pcre2] in
theorem accepts_text {P : Type} (capture : PacketEvents P) {p : P} {field s : String}
    (present : (capture.data p).get? field = some (.string s)) {text : List Char}
    (translated : textPrimitive field s = some text) :
    IsPrimitive text ∧ capture.accepts text p := by
  unfold textPrimitive at translated
  by_cases protocol : field = "network.protocol"
  · rw [if_pos protocol] at translated
    by_cases known : s = "tcp" ∨ s = "udp" ∨ s = "icmp"
    · rw [if_pos known] at translated
      obtain rfl := Option.some.inj translated
      exact ⟨.protocol known, capture.protocol p s (protocol ▸ present) known⟩
    · rw [if_neg known] at translated
      cases translated
  · rw [if_neg protocol] at translated
    by_cases src : field = "network.src_ip"
    · rw [if_pos src] at translated
      obtain rfl := Option.some.inj translated
      obtain ⟨word, accepted⟩ := capture.srcHost p s (src ▸ present)
      exact ⟨.srcHost word, accepted⟩
    · rw [if_neg src] at translated
      by_cases dst : field = "network.dst_ip"
      · rw [if_pos dst] at translated
        obtain rfl := Option.some.inj translated
        obtain ⟨word, accepted⟩ := capture.dstHost p s (dst ▸ present)
        exact ⟨.dstHost word, accepted⟩
      · rw [if_neg dst] at translated
        cases translated

/-- A packet whose data satisfies an atom passes its primitive. -/
theorem accepts_translation {P : Type} (capture : PacketEvents P) {p : P} {e : FilterExpr}
    (holds : evaluateFilterExpr e (capture.data p) = true) {text : List Char}
    (translated : translation e = some text) : IsPrimitive text ∧ capture.accepts text p := by
  obtain ⟨field, op, value, regexCode⟩ := e
  cases op with
  | ne | lt | le | gt | ge | patMatch | patNmatch | isIn | contains => cases translated
  | eq =>
      obtain ⟨found, present, same⟩ := equality_holds holds
      cases value with
      | unset | bool | pattern => cases translated
      | integer n =>
          obtain ⟨port, rfl, accepted⟩ := accepts_port capture present translated
          exact accepted (of_decide_eq_true same)
      | real q =>
          obtain ⟨port, rfl, -⟩ := accepts_port capture present translated
          cases same
      | string s =>
          have isText : found = .string s := by
            cases found with
            | string t => exact congrArg Json.string (beq_iff_eq.mp same)
            | null | bool | integer | real | array | object => cases same
          exact accepts_text capture (isText ▸ present) translated

theorem pushedDown_of_fits {filter : FilterNode} (fits : FitsBuffers filter) :
    PushedDown filter := by
  have exact' := (nblexFilterToBpf_exact_iff filter).mpr fits
  refine ⟨exact', fun data holds => andSpine_implied holds, fun P capture p holds text pushed => ?_⟩
  rw [exact', pushedText] at pushed
  split at pushed
  · cases pushed
  · next some =>
    obtain rfl := Option.some.inj pushed
    refine capture.and_of_all p _ some fun text member => ?_
    obtain ⟨e, inside, translated⟩ := List.mem_filterMap.mp member
    exact accepts_translation capture (andSpine_implied holds e inside) translated

/-- The pushdown of a filter does what it is for just in case nothing is cut off in the buffers. -/
theorem pushedDown_iff (filter : FilterNode) : PushedDown filter ↔ FitsBuffers filter :=
  ⟨fun pushed => (nblexFilterToBpf_exact_iff filter).mp pushed.text, pushedDown_of_fits⟩

/-! ## A filter that does not fit -/

omit [Pcre2] in
theorem pushedTexts_and (left right : FilterNode) :
    pushedTexts (.and left right) = pushedTexts left ++ pushedTexts right := by
  rw [pushedTexts, andSpine, List.filterMap_append]
  rfl

end Meaning

/-- `network.src_ip == "192.168.1.10"`. -/
def hostAtom : FilterAtom where
  field := "network.src_ip".toList
  op := .eq
  literal := .string "192.168.1.10".toList
  fieldNonempty := by decide
  fieldChars := by simp [isFieldChar, isalnum, Char.isAlphanum]
  comparison := isComparison_eq
  valid := quoted_plain (by simp)

/-- `network.dst_port == 443`. -/
def portAtom : FilterAtom where
  field := "network.dst_port".toList
  op := .eq
  literal := .integer false ['4', '4', '3']
  fieldNonempty := by decide
  fieldChars := by simp [isFieldChar, isalnum, Char.isAlphanum]
  comparison := isComparison_eq
  valid := ⟨by decide, by simp [isdigit]⟩

theorem valueBefore_port (later : List Char) :
    FilterLiteral.valueBefore later (.integer false ['4', '4', '3']) =
      if later.contains '.' then .real 443 else .integer 443 := by
  have number : decimalValue ['4', '4', '3'] = 443 := rfl
  have clamped : toInt32 (clampLong (signed false ((443 : Nat) : Int))) = 443 := by decide
  rw [FilterLiteral.valueBefore, number, clamped]
  rfl

/-- Read as an integer or as a real, the port has one translation. -/
theorem portAtom_pushed (later : List Char) :
    ∃ node, portAtom.node later = some node ∧ pushedTexts node = ["dst port 443".toList] := by
  have read : portAtom.node later = some (.expr ⟨"network.dst_port", .eq,
      FilterLiteral.valueBefore later (.integer false ['4', '4', '3']), none⟩) := rfl
  rw [valueBefore_port] at read
  refine ⟨_, read, ?_⟩
  split
  · decide
  · decide

/-- The chain of a host and `n` times a port. -/
theorem chainNode_ports (n : Nat) :
    ∀ left, ∃ node, chainNode left (List.replicate n (.and, portAtom)) = some node ∧
      pushedTexts node = pushedTexts left ++ List.replicate n "dst port 443".toList := by
  induction n with
  | zero => exact fun left => ⟨left, rfl, (List.append_nil _).symm⟩
  | succ n ih =>
      intro left
      obtain ⟨right, read, pushed⟩ :=
        portAtom_pushed (tailText (List.replicate n (.and, portAtom)))
      obtain ⟨node, chained, texts⟩ := ih (.and left right)
      refine ⟨node, ?_, ?_⟩
      · rw [List.replicate_succ, chainNode, read]
        exact chained
      · rw [texts, pushedTexts_and, pushed, List.append_assoc]
        rfl

/-- `network.src_ip == "192.168.1.10"`, and 59 times `AND network.dst_port == 443`. -/
def longFilterText : List Char := chainText hostAtom (List.replicate 59 (.and, portAtom))

/-- The last port of the kernel filter is 44. -/
theorem longFilterText_cut :
    ∃ filter, @nblexFilterNew literalPcre2 longFilterText = some filter ∧
      (∃ text, nblexFilterToBpf filter = some (text ++ " and dst port 44".toList)) ∧
      ¬@PushedDown literalPcre2 filter := by
  let _ := literalPcre2
  obtain ⟨filter, chained, texts⟩ := chainNode_ports 59
    (.expr ⟨"network.src_ip", .eq, .string "192.168.1.10", none⟩)
  have host : pushedTexts (.expr ⟨"network.src_ip", .eq, .string "192.168.1.10", none⟩) =
      ["src host 192.168.1.10".toList] := by decide
  rw [host] at texts
  have hostNode : ∀ later, hostAtom.node later =
      some (.expr ⟨"network.src_ip", .eq, .string "192.168.1.10", none⟩) := fun _ => rfl
  refine ⟨filter, ?_, ?_, fun pushed => ?_⟩
  · rw [longFilterText, nblexFilterNew_chain, hostNode, Option.bind_some, chained]
  · rw [nblexFilterToBpf_eq, texts, if_neg (by simp)]
    exact ⟨joined andText ("src host 192.168.1.10".toList ::
      List.replicate 58 "dst port 443".toList), by decide +kernel⟩
  · have fits := ((nblexFilterToBpf_exact_iff _).mp pushed.text).2
    rw [texts] at fits
    revert fits
    decide +kernel

end Nblex

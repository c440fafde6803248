import Nblex.Core.FilterEngine.Syntax
import Nblex.Misc.FixedBuffer
import Mathlib.Algebra.Order.Floor.Defs
import Mathlib.Data.Rat.Floor

/-!
# The kernel filter of a filter

`extract_bpf_from_expr`, `extract_bpf_recursive` and `nblex_filter_to_bpf` of
`src/core/filter_engine.c`. The text goes through a buffer of 512 bytes for each atom and one of
1024 bytes for the whole; a character is a byte. An atom with `==` has no bare pattern for a value,
so its `string_val` is not null.
-/

namespace Nblex

/-- `(int)float_val`: the fraction is dropped. Out of range the conversion is undefined in C, and is
    the least `int` here. -/
def intOfReal (q : ℚ) : Int :=
  let whole : Int := if q < 0 then -⌊-q⌋ else ⌊q⌋
  if -2 ^ 31 ≤ whole ∧ whole < 2 ^ 31 then whole else -2 ^ 31

/-- `%d`. -/
def decimalText (n : Int) : List Char := (toString n).toList

/-- The number of a value of type `JSON_INTEGER` or `JSON_REAL`, as an `int`. -/
def portValue : FilterValue → Option Int
  | .integer n => some n
  | .real q => some (intOfReal q)
  | _ => none

/-- `string_val` of a value of type `JSON_STRING`. -/
def stringVal : FilterValue → Option String
  | .string s => some s
  | _ => none

/-- `extract_bpf_from_expr`: what it leaves in the buffer, `none` where it returns `0`. -/
def extractBpfFromExpr (expr : FilterExpr) (bufSize : Nat) : Option (List Char) :=
  if expr.field = "network.dst_port" then
    if expr.op = .eq then
      (portValue expr.value).map fun port =>
        snprintf bufSize ("dst port ".toList ++ decimalText port)
    else none
  else if expr.field = "network.src_port" then
    if expr.op = .eq then
      (portValue expr.value).map fun port =>
        snprintf bufSize ("src port ".toList ++ decimalText port)
    else none
  else
    match stringVal expr.value with
    | none => none
    | some value =>
        if expr.field = "network.protocol" then
          if expr.op = .eq ∧ (value = "tcp" ∨ value = "udp" ∨ value = "icmp") then
            some (snprintf bufSize value.toList)
          else none
        else if expr.field = "network.src_ip" then
          if expr.op = .eq then some (snprintf bufSize ("src host ".toList ++ value.toList))
          else none
        else if expr.field = "network.dst_ip" then
          if expr.op = .eq then some (snprintf bufSize ("dst host ".toList ++ value.toList))
          else none
        else none

/-- `bpf_buf` and `has_content`. -/
structure BpfBuffer where
  text : List Char
  hasContent : Bool

/-- The sizes of `temp_buf` and `bpf_buf`. -/
def tempBufSize : Nat := 512
def bpfBufSize : Nat := 1024

/-- `extract_bpf_recursive`. -/
def extractBpfRecursive : FilterNode → BpfBuffer → BpfBuffer
  | .and left right, buffer => extractBpfRecursive right (extractBpfRecursive left buffer)
  | .or _ _, buffer => buffer
  | .not _, buffer => buffer
  | .expr e, buffer =>
      match extractBpfFromExpr e tempBufSize with
      | none => buffer
      | some temp =>
          if buffer.hasContent then
            { buffer with text := snprintfAt bpfBufSize buffer.text (" and ".toList ++ temp) }
          else ⟨snprintf bpfBufSize temp, true⟩

/-- `nblex_filter_to_bpf`. -/
def nblexFilterToBpf (filter : FilterNode) : Option (List Char) :=
  let buffer := extractBpfRecursive filter ⟨[], false⟩
  if buffer.hasContent then some buffer.text else none

end Nblex

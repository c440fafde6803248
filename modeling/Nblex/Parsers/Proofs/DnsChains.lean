import Nblex.Parsers.Proofs.DnsRoundTrip

/-!
# Compressed names

A name on the wire as a chain of labels and pointers, which lead forwards and backwards and to other
pointers. It is read to its labels with dots between them, whatever the way through the message, and
the offset comes to lie behind the first pointer.
-/

namespace Nblex

namespace Dns

section Chains

variable (memory : Nat → UInt8) (len : Nat)

/-- The chain that starts at an offset: its labels, where its first pointer stands if it has one,
    and where its zero byte stands. All of it lies inside the message. -/
inductive NameChain : Nat → List Label → Option Nat → Nat → Prop where
  | zero {offset : Nat} (inside : offset < len) (ends : memory offset = 0) :
      NameChain offset [] none offset
  | label {offset last : Nat} {label : Label} {labels : List Label} {pointer : Option Nat}
      (lies : BytesAt memory offset (UInt8.ofNat label.bytes.length :: label.bytes))
      (inside : offset + label.bytes.length < len)
      (rest : NameChain (offset + 1 + label.bytes.length) labels pointer last) :
      NameChain offset (label :: labels) pointer last
  | pointer {offset target last : Nat} {labels : List Label} {pointer : Option Nat}
      (fits : target < 2 ^ 14) (lies : BytesAt memory offset (bigEndian16 (0xC000 + target)))
      (inside : offset + 1 < len) (rest : NameChain target labels pointer last) :
      NameChain offset labels (some offset) last

variable {memory len}

/-- A pointer points to its fourteen bits. -/
theorem pointsTo_of_bytesAt {offset target : Nat} (fits : target < 2 ^ 14)
    (lies : BytesAt memory offset (bigEndian16 (0xC000 + target))) (inside : offset < len) :
    PointsTo memory len offset target := by
  obtain ⟨high, low, -⟩ := lies
  have quotient : target / 256 < 64 := by omega
  have highByte : (memory offset).toNat = 0xC0 + target / 256 := by
    rw [high, UInt8.toNat_ofNat']
    omega
  have lowByte : (memory (offset + 1)).toNat = target % 256 := by
    rw [low, UInt8.toNat_ofNat']
    omega
  have masks : ∀ h < 64, (0xC0 + h) &&& 0xC0 = 0xC0 ∧ (0xC0 + h) &&& 0x3F = h := by decide
  obtain ⟨marked, rest⟩ := masks _ quotient
  have bits : target % 256 < 2 ^ 8 := Nat.mod_lt _ (by decide)
  refine ⟨inside, ?_, ?_⟩
  · rw [highByte]
    exact decide_eq_true marked
  · rw [pointerTarget, highByte, lowByte, rest, ← Nat.shiftLeft_add_eq_or_of_lt bits,
      Nat.shiftLeft_eq]
    omega

/-- The loop walks along the chain to its zero byte. -/
theorem NameChain.runLoop {start last : Nat} {labels : List Label} {pointer : Option Nat}
    (chain : NameChain memory len start labels pointer last) :
    ∀ (name : List UInt8) (jump : Option Nat), (labels.foldl appendLabel name).length ≤ 253 →
      ∃ turns, Nblex.runLoop (nameTurn memory len) turns ⟨start, name, jump⟩ =
        some ⟨last + 1, labels.foldl appendLabel name, jump.or (pointer.map (· + 2))⟩ := by
  induction chain with
  | @zero offset inside ends =>
      intro name jump short
      have isZero : (memory offset).toNat = 0 := by
        rw [ends]
        rfl
      refine ⟨1, ?_⟩
      rw [runLoop_leave (nameTurn_stops (.zero inside isZero)), Option.map_none, Option.or_none]
      rfl
  | @label offset last label labels pointer lies inside rest ih =>
      intro name jump short
      have room : (appendLabel name label).length ≤ 253 :=
        Nat.le_trans (Nat.le_of_add_right_le (length_foldl_appendLabel labels _)) short
      obtain ⟨turns, done⟩ := ih (appendLabel name label) jump short
      refine ⟨turns + 1, ?_⟩
      rw [runLoop_again (nameTurn_at_label jump lies (by omega) room), done, List.foldl_cons]
  | @pointer offset target last labels pointer fits lies inside rest ih =>
      intro name jump short
      have points := pointsTo_of_bytesAt fits lies (Nat.lt_of_succ_lt inside)
      obtain ⟨turns, done⟩ := ih name (some (jump.getD (offset + 2))) short
      refine ⟨turns + 1, ?_⟩
      rw [runLoop_again (@nameTurn_pointer memory len ⟨offset, name, jump⟩ target points), done]
      cases jump <;> rfl

/-- A chain with a label and of at most 253 bytes with its dots is read to its labels, and the
    offset is left behind its first pointer or, without one, behind its zero byte. -/
theorem extractDnsName_chain {start last : Nat} {labels : List Label} {pointer : Option Nat}
    (chain : NameChain memory len start labels pointer last) (notRoot : labels ≠ [])
    (short : (dotted labels).length ≤ 253) :
    ∃ turns, ∀ fuel, turns ≤ fuel → extractDnsName memory len fuel start =
      some (some (dotted labels), (pointer.map (· + 2)).getD (last + 1)) := by
  let name : DomainName := ⟨labels, notRoot, short⟩
  rw [dotted_eq_foldl] at short
  obtain ⟨turns, done⟩ := chain.runLoop [] none short
  rw [← dotted_eq_foldl, Option.none_or] at done
  refine ⟨turns, fun fuel enough => ?_⟩
  have more := runLoop_more done (fuel - turns)
  rw [Nat.add_sub_of_le enough] at more
  have some : dotted labels ≠ [] := name.text_ne_nil
  have whole : (dotted labels).takeWhile (fun b => b ≠ 0) = dotted labels := name.takeWhile_text
  rw [extractDnsName, more, Option.map_some, nameResult, if_neg some, whole]

end Chains

/-- Two labels, a pointer forwards, and a pointer back from there. -/
def chainPacket : List UInt8 :=
  [0, 3, 99, 111, 109, 0, 3, 119, 119, 119, 0xC0, 13, 0xFF, 0xC0, 1]

theorem www_short : ([119, 119, 119] : List UInt8).length ≤ 63 := by simp

theorem www_printable :
    ∀ b ∈ ([119, 119, 119] : List UInt8), 0x20 ≤ b.toNat ∧ b.toNat ≤ 0x7E := by simp

def wwwLabel : Label := ⟨[119, 119, 119], by simp, www_short, www_printable⟩

def comLabel : Label := ⟨[99, 111, 109], by simp, by simp, by simp⟩

/-- The name `www.com` is read, and the offset is left behind the first of the pointers. -/
theorem chainPacket_read :
    ∃ turns, ∀ fuel, turns ≤ fuel →
      extractDnsName (memoryWith chainPacket fun _ => 0xFF) 15 fuel 6 =
        some (some [119, 119, 119, 46, 99, 111, 109], 12) := by
  have back : NameChain (memoryWith chainPacket fun _ => 0xFF) 15 1 [comLabel] none 5 :=
    .label ⟨rfl, rfl, rfl, rfl, trivial⟩ (by simp [comLabel]) (.zero (by simp [comLabel]) rfl)
  have pointer : NameChain (memoryWith chainPacket fun _ => 0xFF) 15 13 [comLabel] (some 13) 5 :=
    .pointer (by simp) ⟨rfl, rfl, trivial⟩ (by simp) back
  have forwards : NameChain (memoryWith chainPacket fun _ => 0xFF) 15 10 [comLabel] (some 10) 5 :=
    .pointer (by simp) ⟨rfl, rfl, trivial⟩ (by simp) pointer
  have whole : NameChain (memoryWith chainPacket fun _ => 0xFF) 15 6 [wwwLabel, comLabel]
      (some 10) 5 :=
    .label ⟨rfl, rfl, rfl, rfl, trivial⟩ (by simp [wwwLabel]) forwards
  exact extractDnsName_chain whole (by simp) (by simp [dotted, wwwLabel, comLabel])

end Dns

end Nblex

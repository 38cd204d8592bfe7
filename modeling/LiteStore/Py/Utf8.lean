import LiteStore.Py.Text

/-!
# `bytes.decode("utf-8", errors="replace")`

One byte at a time. Between characters nothing is pending; after the first bytes of a character of
several bytes, `Pending` says how many are missing and which ones may come next. A byte that may
not come ends the character: what was read of it becomes one replacement character, and the byte
starts anew.

A line feed is decoded from its own byte only (`newline_decode`), and what `encode` writes is read
back (`decode_encode`).
-/

namespace Py
set_option autoImplicit false

/-- A character of which the first bytes have been read. -/
structure Pending where
  missing : Nat
  /-- The least and the greatest byte that may come next. -/
  low : Nat
  high : Nat
  /-- The bits read so far. -/
  bits : Nat

/-- U+FFFD. -/
def replacement : Char := '\uFFFD'

/-- A byte between characters: what it decodes to and what is pending after it. -/
def decodeStart (b : Nat) : List Char × Option Pending :=
  if b < 0x80 then ([Char.ofNat b], none)
  else if 0xc2 ≤ b ∧ b ≤ 0xdf then ([], some ⟨1, 0x80, 0xbf, b - 0xc0⟩)
  else if b = 0xe0 then ([], some ⟨2, 0xa0, 0xbf, 0⟩)
  else if b = 0xed then ([], some ⟨2, 0x80, 0x9f, 0xd⟩)
  else if 0xe1 ≤ b ∧ b ≤ 0xef then ([], some ⟨2, 0x80, 0xbf, b - 0xe0⟩)
  else if b = 0xf0 then ([], some ⟨3, 0x90, 0xbf, 0⟩)
  else if 0xf1 ≤ b ∧ b ≤ 0xf3 then ([], some ⟨3, 0x80, 0xbf, b - 0xf0⟩)
  else if b = 0xf4 then ([], some ⟨3, 0x80, 0x8f, 4⟩)
  else ([replacement], none)

/-- One byte. -/
def decodeByte (pending : Option Pending) (b : Nat) : List Char × Option Pending :=
  match pending with
  | none => decodeStart b
  | some p =>
    if p.low ≤ b ∧ b ≤ p.high then
      let bits := p.bits * 0x40 + (b - 0x80)
      if p.missing = 1 then ([Char.ofNat bits], none)
      else ([], some ⟨p.missing - 1, 0x80, 0xbf, bits⟩)
    else (replacement :: (decodeStart b).1, (decodeStart b).2)

/-- The characters of the bytes; one that the end cuts short is replaced. -/
def decodeFrom (pending : Option Pending) : List UInt8 → List Char
  | [] => if pending.isSome then [replacement] else []
  | b :: bytes =>
    (decodeByte pending b.toNat).1 ++ decodeFrom (decodeByte pending b.toNat).2 bytes

/-- `bytes.decode("utf-8", errors="replace")`. -/
def decode (bytes : List UInt8) : List Char := decodeFrom none bytes

example : decode [0x61, 0xe2, 0x82, 0xac, 0xf0, 0x9f, 0x0a, 0xff] =
    ['a', '€', '\uFFFD', '\n', '\uFFFD'] := by decide

/-- Whatever bytes follow, the pending character will be none of the controls. -/
def Pending.High (p : Pending) : Prop :=
  0x80 ≤ p.low ∧ if p.missing = 1 then 2 ≤ p.bits else 0x90 ≤ 0x40 * p.bits + p.low

theorem Pending.high_last {low high bits : Nat} (least : 0x80 ≤ low) (large : 2 ≤ bits) :
    Pending.High ⟨1, low, high, bits⟩ := ⟨least, large⟩

theorem Pending.high_more {missing low high bits : Nat} (least : 0x80 ≤ low) (more : missing ≠ 1)
    (large : 0x90 ≤ 0x40 * bits + low) : Pending.High ⟨missing, low, high, bits⟩ := by
  refine ⟨least, ?_⟩
  rw [if_neg more]
  exact large

theorem decodeStart_high (b : Nat) :
    (∀ p, (decodeStart b).2 = some p → p.High) ∧ (b ≠ 10 → '\n' ∉ (decodeStart b).1) := by
  unfold decodeStart
  constructor
  · intro p pending
    split_ifs at pending <;> cases pending
    · apply Pending.high_last <;> omega
    all_goals apply Pending.high_more <;> omega
  · intro other m
    split_ifs at m
    · exact other (newline_ofNat (List.mem_singleton.mp m).symm)
    iterate 7 · cases m
    · exact absurd (List.mem_singleton.mp m) (by decide)

/-- One byte. -/
theorem decodeByte_high {pending : Option Pending} (high : ∀ p, pending = some p → p.High) (b : Nat) :
    (∀ p, (decodeByte pending b).2 = some p → p.High) ∧ (b ≠ 10 → '\n' ∉ (decodeByte pending b).1) := by
  cases pending with
  | none => exact decodeStart_high b
  | some p =>
    obtain ⟨low, bits⟩ := high p rfl
    unfold decodeByte
    by_cases next : p.low ≤ b ∧ b ≤ p.high
    · simp only [if_pos next]
      by_cases last : p.missing = 1
      · rw [if_pos last] at bits
        simp only [if_pos last]
        refine ⟨by rintro _ ⟨⟩, fun _ m => ?_⟩
        have := newline_ofNat (List.mem_singleton.mp m).symm
        omega
      · rw [if_neg last] at bits
        simp only [if_neg last]
        refine ⟨?_, fun _ => List.not_mem_nil⟩
        rintro _ ⟨⟩
        refine ⟨le_refl _, ?_⟩
        dsimp only
        split <;> omega
    · simp only [if_neg next]
      refine ⟨(decodeStart_high b).1, fun other m => ?_⟩
      rcases List.mem_cons.mp m with replaced | m
      · exact absurd replaced (by decide)
      · exact (decodeStart_high b).2 other m

/-- Bytes without a line feed decode to characters without one. -/
theorem newline_decodeFrom {pending : Option Pending} (high : ∀ p, pending = some p → p.High)
    {bytes : List UInt8} (free : (10 : UInt8) ∉ bytes) : '\n' ∉ decodeFrom pending bytes := by
  induction bytes generalizing pending with
  | nil =>
    unfold decodeFrom
    split <;> simp [replacement]
  | cons b bytes ih =>
    rw [List.mem_cons, not_or] at free
    obtain ⟨other, rest⟩ := free
    have step := decodeByte_high high b.toNat
    rw [decodeFrom, List.mem_append, not_or]
    refine ⟨step.2 fun same => other ?_, ih step.1 rest⟩
    exact UInt8.toNat_inj.mp same.symm

theorem newline_decode {bytes : List UInt8} (free : (10 : UInt8) ∉ bytes) : '\n' ∉ decode bytes :=
  newline_decodeFrom (by rintro _ ⟨⟩) free

/-- A line feed after any bytes ends the line. -/
theorem decodeFrom_line {pending : Option Pending} (high : ∀ p, pending = some p → p.High)
    (bytes : List UInt8) :
    decodeFrom pending (bytes ++ [10]) = decodeFrom pending bytes ++ ['\n'] := by
  induction bytes generalizing pending with
  | nil =>
    cases pending with
    | none => rfl
    | some p =>
      obtain ⟨low, _⟩ := high p rfl
      have early : ¬ (p.low ≤ 10 ∧ 10 ≤ p.high) := by omega
      simp only [List.nil_append, decodeFrom, decodeByte, show (10 : UInt8).toNat = 10 from rfl,
        if_neg early]
      rfl
  | cons b bytes ih =>
    rw [List.cons_append, decodeFrom, decodeFrom, List.append_assoc,
      ih (decodeByte_high high b.toNat).1]

theorem decode_line (bytes : List UInt8) : decode (bytes ++ [10]) = decode bytes ++ ['\n'] :=
  decodeFrom_line (by rintro _ ⟨⟩) bytes

/-! ## Encoding -/

/-- `str.encode("utf-8")`. -/
def encode (text : List Char) : List UInt8 := text.flatMap String.utf8EncodeChar

/-- The first byte of a character of several bytes. -/
theorem decodeFrom_lead {lead : Nat} {p : Pending} (small : lead < 256) (start : decodeStart lead = ([], some p))
    (bytes : List UInt8) : decodeFrom none (UInt8.ofNat lead :: bytes) = decodeFrom (some p) bytes := by
  rw [decodeFrom, UInt8.toNat_ofNat_of_lt' small]
  simp only [decodeByte, start, List.nil_append]

/-- A byte in the middle of a character. -/
theorem decodeFrom_more {missing low high bits b : Nat} (within : low ≤ b ∧ b ≤ high) (small : b < 256)
    (more : missing ≠ 1) (bytes : List UInt8) :
    decodeFrom (some ⟨missing, low, high, bits⟩) (UInt8.ofNat b :: bytes) =
      decodeFrom (some ⟨missing - 1, 0x80, 0xbf, bits * 0x40 + (b - 0x80)⟩) bytes := by
  rw [decodeFrom, UInt8.toNat_ofNat_of_lt' small]
  simp only [decodeByte, if_pos within, if_neg more, List.nil_append]

/-- The last byte of a character. -/
theorem decodeFrom_last {low high bits b : Nat} (within : low ≤ b ∧ b ≤ high) (small : b < 256)
    (bytes : List UInt8) :
    decodeFrom (some ⟨1, low, high, bits⟩) (UInt8.ofNat b :: bytes) =
      Char.ofNat (bits * 0x40 + (b - 0x80)) :: decodeFrom none bytes := by
  rw [decodeFrom, UInt8.toNat_ofNat_of_lt' small]
  simp only [decodeByte, if_pos within, if_true, List.singleton_append]

theorem decodeStart_two {b : Nat} (low : 0xc2 ≤ b) (high : b ≤ 0xdf) :
    decodeStart b = ([], some ⟨1, 0x80, 0xbf, b - 0xc0⟩) := by
  rw [decodeStart, if_neg (by omega), if_pos ⟨low, high⟩]

theorem decodeStart_three {b : Nat} (low : 0xe0 ≤ b) (high : b ≤ 0xef) :
    decodeStart b = ([], some ⟨2, if b = 0xe0 then 0xa0 else 0x80, if b = 0xed then 0x9f else 0xbf, b - 0xe0⟩) := by
  rw [decodeStart, if_neg (by omega), if_neg (by omega)]
  split
  · rename_i least
    subst least
    rfl
  · split
    · rename_i surrogates
      subst surrogates
      rfl
    · rw [if_pos (by omega)]

theorem decodeStart_four {b : Nat} (low : 0xf0 ≤ b) (high : b ≤ 0xf4) :
    decodeStart b = ([], some ⟨3, if b = 0xf0 then 0x90 else 0x80, if b = 0xf4 then 0x8f else 0xbf, b - 0xf0⟩) := by
  rw [decodeStart, if_neg (by omega), if_neg (by omega), if_neg (by omega), if_neg (by omega), if_neg (by omega)]
  split
  · rename_i least
    subst least
    rfl
  · split
    · rw [if_neg (by omega)]
    · obtain rfl : b = 0xf4 := by omega
      rfl

/-- A character is decoded from its bytes. -/
theorem decodeFrom_encodeChar (c : Char) (bytes : List UInt8) :
    decodeFrom none (String.utf8EncodeChar c ++ bytes) = c :: decodeFrom none bytes := by
  have read : Char.ofNat c.val.toNat = c := Char.ofNat_toNat c
  have valid : c.val.toNat < 0xd800 ∨ 0xdfff < c.val.toNat ∧ c.val.toNat < 0x110000 := c.valid
  unfold String.utf8EncodeChar
  generalize c.val.toNat = v at read valid
  dsimp only
  split
  · have ascii : decodeStart v = ([Char.ofNat v], none) := if_pos (by omega)
    rw [List.singleton_append, decodeFrom, UInt8.toNat_ofNat_of_lt' (show v < 256 by omega)]
    simp only [decodeByte, ascii, read, List.singleton_append]
  · split
    · rw [List.cons_append, List.singleton_append, decodeFrom_lead (by omega) (decodeStart_two (by omega) (by omega)),
        decodeFrom_last (by omega) (by omega),
        show (v / 64 % 0x20 + 0xc0 - 0xc0) * 0x40 + (v % 0x40 + 0x80 - 0x80) = v by omega, read]
    · split
      · rw [List.cons_append, List.cons_append, List.singleton_append,
          decodeFrom_lead (by omega) (decodeStart_three (by omega) (by omega)),
          decodeFrom_more (by split <;> split <;> omega) (by omega) (by omega),
          decodeFrom_last (by omega) (by omega),
          show ((v / 4096 % 0x10 + 0xe0 - 0xe0) * 0x40 + (v / 64 % 0x40 + 0x80 - 0x80)) * 0x40 +
            (v % 0x40 + 0x80 - 0x80) = v by omega, read]
      · rw [List.cons_append, List.cons_append, List.cons_append, List.singleton_append,
          decodeFrom_lead (by omega) (decodeStart_four (by omega) (by omega)),
          decodeFrom_more (by split <;> split <;> omega) (by omega) (by omega),
          decodeFrom_more (by omega) (by omega) (by omega), decodeFrom_last (by omega) (by omega),
          show (((v / 262144 % 0x08 + 0xf0 - 0xf0) * 0x40 + (v / 4096 % 0x40 + 0x80 - 0x80)) * 0x40 +
            (v / 64 % 0x40 + 0x80 - 0x80)) * 0x40 + (v % 0x40 + 0x80 - 0x80) = v by omega, read]

/-- **A text is decoded from its bytes.** -/
theorem decode_encode (text : List Char) : decode (encode text) = text := by
  induction text with
  | nil => rfl
  | cons c text ih =>
    rw [decode] at ih ⊢
    rw [encode, List.flatMap_cons, decodeFrom_encodeChar]
    exact congrArg (c :: ·) ih

theorem encode_append (text more : List Char) : encode (text ++ more) = encode text ++ encode more :=
  List.flatMap_append

theorem length_le_encode (text : List Char) : text.length ≤ (encode text).length := by
  induction text with
  | nil => exact Nat.le_refl 0
  | cons c text ih =>
    have size : 0 < (String.utf8EncodeChar c).length := by
      rw [String.length_utf8EncodeChar]
      exact c.utf8Size_pos
    have split : encode (c :: text) = String.utf8EncodeChar c ++ encode text := List.flatMap_cons
    rw [split, List.length_append, List.length_cons]
    omega

/-- A line feed is encoded from itself only. -/
theorem newline_encode {text : List Char} (free : '\n' ∉ text) : (10 : UInt8) ∉ encode text := by
  intro m
  obtain ⟨c, there, m⟩ := List.mem_flatMap.mp m
  have valid : c.val.toNat < 0x110000 := by
    have := c.valid
    rcases this with low | ⟨_, high⟩ <;> omega
  have other : c.val.toNat ≠ 10 := fun same => by
    have feed : c = '\n' := (Char.ofNat_toNat c).symm.trans (congrArg Char.ofNat same)
    exact free (feed ▸ there)
  have byte {b : Nat} (small : b < 256) (same : (10 : UInt8) = UInt8.ofNat b) : b = 10 := by
    have value := congrArg UInt8.toNat same
    rw [UInt8.toNat_ofNat_of_lt' small] at value
    exact value.symm
  unfold String.utf8EncodeChar at m
  generalize c.val.toNat = v at m other valid
  dsimp only at m
  split at m
  · have := byte (by omega) (List.mem_singleton.mp m)
    omega
  · split at m
    · simp only [List.mem_cons, List.not_mem_nil, or_false] at m
      rcases m with same | same <;> have := byte (by omega) same <;> omega
    · split at m
      · simp only [List.mem_cons, List.not_mem_nil, or_false] at m
        rcases m with same | same | same <;> have := byte (by omega) same <;> omega
      · simp only [List.mem_cons, List.not_mem_nil, or_false] at m
        rcases m with same | same | same | same <;> have := byte (by omega) same <;> omega

end Py

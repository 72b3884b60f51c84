import Mathlib.Data.List.Basic

namespace IcoDashboard.Data.Utf8

/-! # UTF-8

A decoder that puts a replacement character for every ill-formed part, and reads
what the encoder of the library has written.
-/

def isContinuation (low high : Nat) (byte : UInt8) : Bool :=
  low ≤ byte.toNat && byte.toNat ≤ high

/-- The bounds of the second byte after each first byte of a longer sequence. -/
def secondBounds (first : Nat) : Nat × Nat :=
  if first = 0xe0 then (0xa0, 0xbf) else if first = 0xed then (0x80, 0x9f)
  else if first = 0xf0 then (0x90, 0xbf) else if first = 0xf4 then (0x80, 0x8f)
  else (0x80, 0xbf)

def replacement : Char := Char.ofNat 0xfffd

def decode : List UInt8 → List Char
  | [] => []
  | first :: rest =>
      let lead := first.toNat
      let (low, high) := secondBounds lead
      if lead < 0x80 then Char.ofNat lead :: decode rest
      else if lead < 0xc2 || 0xf4 < lead then replacement :: decode rest
      else match rest with
        | [] => [replacement]
        | second :: rest2 =>
            if !isContinuation low high second then replacement :: decode (second :: rest2)
            else if lead < 0xe0 then
              Char.ofNat ((lead - 0xc0) * 64 + (second.toNat - 0x80)) :: decode rest2
            else match rest2 with
              | [] => [replacement]
              | third :: rest3 =>
                  if !isContinuation 0x80 0xbf third then replacement :: decode (third :: rest3)
                  else if lead < 0xf0 then
                    Char.ofNat ((lead - 0xe0) * 4096 + (second.toNat - 0x80) * 64 +
                      (third.toNat - 0x80)) :: decode rest3
                  else match rest3 with
                    | [] => [replacement]
                    | fourth :: rest4 =>
                        if !isContinuation 0x80 0xbf fourth then replacement :: decode (fourth :: rest4)
                        else
                          Char.ofNat ((lead - 0xf0) * 262144 + (second.toNat - 0x80) * 4096 +
                            (third.toNat - 0x80) * 64 + (fourth.toNat - 0x80)) :: decode rest4

variable {first second third fourth : UInt8} {rest : List UInt8} {char : Char}

/-! ## One sequence of each length -/

/-- The second byte is within the bounds that the first one sets. -/
def Continues (first second : UInt8) : Prop :=
  (secondBounds first.toNat).1 ≤ second.toNat ∧ second.toNat ≤ (secondBounds first.toNat).2

def Continuation (byte : UInt8) : Prop := 0x80 ≤ byte.toNat ∧ byte.toNat ≤ 0xbf

theorem Continues.accepted (continues : Continues first second) :
    ¬ (!isContinuation (secondBounds first.toNat).1 (secondBounds first.toNat).2 second) = true := by
  simp [isContinuation, continues.1, continues.2]

theorem Continuation.accepted (continuation : Continuation third) :
    ¬ (!isContinuation 0x80 0xbf third) = true := by
  simp [isContinuation, continuation.1, continuation.2]

theorem decode_one (ascii : first.toNat < 0x80) :
    decode (first :: rest) = Char.ofNat first.toNat :: decode rest := by
  rw [decode]
  simp only [ascii, if_true]

theorem decode_two (low : 0xc2 ≤ first.toNat) (high : first.toNat < 0xe0)
    (continues : Continues first second) :
    decode (first :: second :: rest) =
      Char.ofNat ((first.toNat - 0xc0) * 64 + (second.toNat - 0x80)) :: decode rest := by
  rw [decode]
  simp only
  rw [if_neg (by omega), if_neg (by simp; omega), if_neg continues.accepted, if_pos high]

theorem decode_three (low : 0xe0 ≤ first.toNat) (high : first.toNat < 0xf0)
    (continues : Continues first second) (third_continues : Continuation third) :
    decode (first :: second :: third :: rest) =
      Char.ofNat ((first.toNat - 0xe0) * 4096 + (second.toNat - 0x80) * 64 +
        (third.toNat - 0x80)) :: decode rest := by
  rw [decode]
  simp only
  rw [if_neg (by omega), if_neg (by simp; omega), if_neg continues.accepted, if_neg (by omega),
    if_neg third_continues.accepted, if_pos high]

theorem decode_four (low : 0xf0 ≤ first.toNat) (high : first.toNat ≤ 0xf4)
    (continues : Continues first second) (third_continues : Continuation third)
    (fourth_continues : Continuation fourth) :
    decode (first :: second :: third :: fourth :: rest) =
      Char.ofNat ((first.toNat - 0xf0) * 262144 + (second.toNat - 0x80) * 4096 +
        (third.toNat - 0x80) * 64 + (fourth.toNat - 0x80)) :: decode rest := by
  rw [decode]
  simp only
  rw [if_neg (by omega), if_neg (by simp; omega), if_neg continues.accepted, if_neg (by omega),
    if_neg third_continues.accepted, if_neg (by omega), if_neg fourth_continues.accepted]

/-! ## What is encoded -/

variable {value : Nat}

theorem toNat_ofNat_byte {byte : Nat} (fits : byte < 256) : (UInt8.ofNat byte).toNat = byte := by
  rw [UInt8.toNat_ofNat', Nat.mod_eq_of_lt fits]

theorem continuation_ofNat (value : Nat) : Continuation (UInt8.ofNat (value % 0x40 + 0x80)) := by
  rw [Continuation, toNat_ofNat_byte (by omega)]
  omega

theorem decode_encoded_one (small : value ≤ 0x7f) :
    decode (UInt8.ofNat value :: rest) = Char.ofNat value :: decode rest := by
  have byte := toNat_ofNat_byte (show value < 256 by omega)
  rw [decode_one (by omega), byte]

theorem decode_encoded_two (large : 0x7f < value) (small : value ≤ 0x7ff) :
    decode (UInt8.ofNat (value / 64 % 0x20 + 0xc0) :: UInt8.ofNat (value % 0x40 + 0x80) :: rest) =
      Char.ofNat value :: decode rest := by
  have lead := toNat_ofNat_byte (show value / 64 % 0x20 + 0xc0 < 256 by omega)
  have last := toNat_ofNat_byte (show value % 0x40 + 0x80 < 256 by omega)
  have continues : Continues (UInt8.ofNat (value / 64 % 0x20 + 0xc0))
      (UInt8.ofNat (value % 0x40 + 0x80)) := by
    rw [Continues, lead, last, secondBounds, if_neg (by omega), if_neg (by omega), if_neg (by omega),
      if_neg (by omega)]
    omega
  have back : (value / 64 % 0x20 + 0xc0 - 0xc0) * 64 + (value % 0x40 + 0x80 - 0x80) = value := by
    omega
  rw [decode_two (by omega) (by omega) continues, lead, last, back]

/-- The bounds of the second byte exclude the surrogates and the shorter values. -/
theorem decode_encoded_three (large : 0x7ff < value) (small : value ≤ 0xffff)
    (scalar : value < 0xd800 ∨ 0xdfff < value) :
    decode (UInt8.ofNat (value / 4096 % 0x10 + 0xe0) :: UInt8.ofNat (value / 64 % 0x40 + 0x80) ::
      UInt8.ofNat (value % 0x40 + 0x80) :: rest) = Char.ofNat value :: decode rest := by
  have lead := toNat_ofNat_byte (show value / 4096 % 0x10 + 0xe0 < 256 by omega)
  have middle := toNat_ofNat_byte (show value / 64 % 0x40 + 0x80 < 256 by omega)
  have last := toNat_ofNat_byte (show value % 0x40 + 0x80 < 256 by omega)
  have continues : Continues (UInt8.ofNat (value / 4096 % 0x10 + 0xe0))
      (UInt8.ofNat (value / 64 % 0x40 + 0x80)) := by
    rw [Continues, lead, middle, secondBounds]
    split
    · omega
    split
    · omega
    rw [if_neg (by omega), if_neg (by omega)]
    omega
  have back : (value / 4096 % 0x10 + 0xe0 - 0xe0) * 4096 + (value / 64 % 0x40 + 0x80 - 0x80) * 64 +
      (value % 0x40 + 0x80 - 0x80) = value := by
    omega
  rw [decode_three (by omega) (by omega) continues (continuation_ofNat _), lead, middle, last, back]

theorem decode_encoded_four (large : 0xffff < value) (small : value < 0x110000) :
    decode (UInt8.ofNat (value / 262144 % 0x08 + 0xf0) :: UInt8.ofNat (value / 4096 % 0x40 + 0x80) ::
      UInt8.ofNat (value / 64 % 0x40 + 0x80) :: UInt8.ofNat (value % 0x40 + 0x80) :: rest) =
      Char.ofNat value :: decode rest := by
  have lead := toNat_ofNat_byte (show value / 262144 % 0x08 + 0xf0 < 256 by omega)
  have second := toNat_ofNat_byte (show value / 4096 % 0x40 + 0x80 < 256 by omega)
  have third := toNat_ofNat_byte (show value / 64 % 0x40 + 0x80 < 256 by omega)
  have last := toNat_ofNat_byte (show value % 0x40 + 0x80 < 256 by omega)
  have continues : Continues (UInt8.ofNat (value / 262144 % 0x08 + 0xf0))
      (UInt8.ofNat (value / 4096 % 0x40 + 0x80)) := by
    rw [Continues, lead, second, secondBounds, if_neg (by omega), if_neg (by omega)]
    split
    · omega
    split
    · omega
    omega
  have back : (value / 262144 % 0x08 + 0xf0 - 0xf0) * 262144 +
      (value / 4096 % 0x40 + 0x80 - 0x80) * 4096 + (value / 64 % 0x40 + 0x80 - 0x80) * 64 +
      (value % 0x40 + 0x80 - 0x80) = value := by
    omega
  rw [decode_four (by omega) (by omega) continues (continuation_ofNat _) (continuation_ofNat _), lead,
    second, third, last, back]

/-- The sequence of a character is read as the character. -/
theorem decode_char (char : Char) (rest : List UInt8) :
    decode (String.utf8EncodeChar char ++ rest) = char :: decode rest := by
  have valid : char.val.toNat < 0xd800 ∨ 0xdfff < char.val.toNat ∧ char.val.toNat < 0x110000 :=
    char.valid
  have same : Char.ofNat char.val.toNat = char := Char.ofNat_toNat char
  unfold String.utf8EncodeChar
  dsimp only
  generalize char.val.toNat = value at valid same ⊢
  rw [← same]
  split
  · rename_i one
    exact decode_encoded_one one
  split
  · rename_i notOne two
    exact decode_encoded_two (by omega) two
  split
  · rename_i notTwo three
    exact decode_encoded_three (by omega) three (by omega)
  · rename_i notThree
    exact decode_encoded_four (by omega) (by omega)

theorem decode_encode (chars : List Char) :
    decode (chars.flatMap String.utf8EncodeChar) = chars := by
  induction chars with
  | nil => rw [List.flatMap_nil, decode]
  | cons char rest ih => rw [List.flatMap_cons, decode_char, ih]

/-! ## The bytes of a text -/

theorem toList_loop (bytes : ByteArray) (place : Nat) (front : List UInt8) :
    ByteArray.toList.loop bytes place front = front.reverse ++ bytes.data.toList.drop place := by
  fun_induction ByteArray.toList.loop bytes place front with
  | case1 place front within ih =>
      have byte : bytes.get! place = bytes.data.toList[place] := by
        change bytes.data[place]! = _
        rw [getElem!_pos bytes.data place within]
        rfl
      rw [ih, byte, List.reverse_cons, List.append_assoc, List.singleton_append,
        ← List.drop_eq_getElem_cons]
  | case2 place front beyond =>
      have none : bytes.data.toList.drop place = [] := List.drop_eq_nil_of_le (Nat.le_of_not_lt beyond)
      rw [none, List.append_nil]

theorem toUTF8_toList (text : String) :
    text.toUTF8.toList = text.toList.flatMap String.utf8EncodeChar := by
  have bytes : text.toUTF8 = (text.toList.flatMap String.utf8EncodeChar).toByteArray :=
    String.utf8Encode_toList.symm
  rw [bytes, ByteArray.toList, toList_loop, List.toList_data_toByteArray]
  rfl

theorem decode_toUTF8 (text : String) : decode text.toUTF8.toList = text.toList := by
  rw [toUTF8_toList, decode_encode]

end IcoDashboard.Data.Utf8

import LoxLex.Proofs.Findings

/-! Texts as the bytes of their UTF-8 form. A line feed is one byte, and that byte is in no other
character, so lines can be counted in bytes as well as in characters. -/

namespace LoxLex.Text

def encode (text : List Char) : List UInt8 := text.flatMap String.utf8EncodeChar

def utf8 (source : String) : List UInt8 := source.toUTF8.data.toList

@[simp] theorem encode_nil : encode [] = [] := rfl

@[simp] theorem encode_append (first second : List Char) :
    encode (first ++ second) = encode first ++ encode second := List.flatMap_append

theorem encode_cons (char : Char) (rest : List Char) :
    encode (char :: rest) = String.utf8EncodeChar char ++ encode rest := rfl

@[simp] theorem utf8_ofList (text : List Char) : utf8 (.ofList text) = encode text := by
  rw [utf8, String.toUTF8_eq_toByteArray, String.toByteArray_ofList]
  exact List.toList_data_toByteArray

theorem utf8_eq (source : String) : utf8 source = encode source.toList := by
  rw [← utf8_ofList, String.ofList_toList]

theorem utf8_inj {first second : String} : utf8 first = utf8 second ↔ first = second := by
  constructor
  · intro same
    exact String.toByteArray_inj.mp (ByteArray.ext (Array.toList_inj.mp same))
  · rintro rfl
    rfl

@[simp] theorem length_encode (text : List Char) : (encode text).length = byteLength text := by
  induction text with
  | nil => rfl
  | cons char rest ih => simp [encode_cons, byteLength, ih]

theorem length_utf8 (source : String) : (utf8 source).length = source.utf8ByteSize := by
  rw [utf8_eq, length_encode, byteLength_toList]

theorem take_encode_append (before after : List Char) :
    (encode (before ++ after)).take (byteLength before) = encode before := by
  rw [encode_append, ← length_encode before, List.take_left]

/-- Below 128 a character is its own byte, and all other bytes are from 128 on. -/
theorem lineFeed_not_mem_utf8EncodeChar {char : Char} (other : char ≠ '\n') :
    0x0A ∉ String.utf8EncodeChar char := by
  have code : char.val.toNat ≠ 10 := by
    intro same
    exact other (Char.ext (UInt32.toNat_inj.mp same))
  have byte : ∀ value : Nat, (0x0A : UInt8) = .ofNat value ↔ 10 = value % 256 := by
    intro value
    rw [← UInt8.toNat_inj, UInt8.toNat_ofNat']
    rfl
  unfold String.utf8EncodeChar
  dsimp only
  split
  · simp only [List.mem_singleton, byte]
    omega
  split
  · simp only [List.mem_cons, List.not_mem_nil, or_false, byte]
    omega
  split <;> simp only [List.mem_cons, List.not_mem_nil, or_false, byte] <;> omega

theorem count_encode (text : List Char) : (encode text).count 0x0A = lineFeeds text := by
  induction text with
  | nil => rfl
  | cons char rest ih =>
    rw [encode_cons, List.count_append, ih, lineFeeds, lineFeeds, List.count_cons, Nat.add_comm]
    congr 1
    by_cases feed : char = '\n'
    · subst feed
      rfl
    · simp [feed, List.count_eq_zero_of_not_mem (lineFeed_not_mem_utf8EncodeChar feed)]

end LoxLex.Text

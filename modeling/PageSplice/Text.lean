/-!
# Texts and their bytes

A text is a list of characters; a file holds bytes.  Writing a text encodes it as UTF-8, and
reading decodes, which fails on bytes that are not the encoding of any text.  Main statement:
decoding accepts exactly what encoding produces (`decode?_eq_some_iff`).
-/

namespace PageSplice

abbrev Text := List Char

/-- Contents are compared byte by byte. -/
instance contentDecidableEq : DecidableEq ByteArray := ByteArray.instDecidableEq

namespace Text

def encode (t : Text) : ByteArray := (String.ofList t).toUTF8

def decode? (b : ByteArray) : Option Text := (String.fromUTF8? b).map String.toList

theorem decode?_encode (t : Text) : decode? (encode t) = some t := by
  have h : String.fromUTF8? (String.ofList t).toUTF8 = some (String.ofList t) := by
    unfold String.fromUTF8?
    rw [String.toUTF8_eq_toByteArray, dif_pos (String.ofList t).isValidUTF8]
    rfl
  rw [decode?, encode, h, Option.map_some, String.toList_ofList]

theorem encode_of_decode? {b : ByteArray} {t : Text} (h : decode? b = some t) : b = encode t := by
  obtain ⟨s, hs, rfl⟩ := Option.map_eq_some_iff.1 h
  unfold String.fromUTF8? at hs
  split at hs
  · cases hs
    rw [encode, String.ofList_toList, String.toUTF8_eq_toByteArray]
    rfl
  · cases hs

theorem decode?_eq_some_iff {b : ByteArray} {t : Text} : decode? b = some t ↔ b = encode t :=
  ⟨encode_of_decode?, fun h => h ▸ decode?_encode t⟩

theorem encode_injective {s t : Text} (h : encode s = encode t) : s = t := by
  simpa [decode?_encode] using congrArg decode? h

/-- The number of bytes a text takes in a file, a path or a line of output. -/
def byteLength : Text → Nat
  | [] => 0
  | c :: t => c.utf8Size + byteLength t

@[simp] theorem byteLength_nil : byteLength [] = 0 := rfl

@[simp] theorem byteLength_cons (c : Char) (t : Text) :
    byteLength (c :: t) = c.utf8Size + byteLength t := rfl

@[simp] theorem byteLength_append (s t : Text) :
    byteLength (s ++ t) = byteLength s + byteLength t := by
  induction s with
  | nil => simp
  | cons c s ih => simp [ih, Nat.add_assoc]

theorem encode_append (s t : Text) : encode (s ++ t) = encode s ++ encode t := by
  simp only [encode, String.ofList_append, String.toUTF8_eq_toByteArray, String.toByteArray_append]

@[simp] theorem size_encode (t : Text) : (encode t).size = byteLength t := by
  induction t with
  | nil => rfl
  | cons c t ih =>
    have hc : (encode [c]).size = c.utf8Size := by
      show (List.utf8Encode [c]).size = _
      rw [List.utf8Encode_singleton, List.size_toByteArray, String.length_utf8EncodeChar]
    rw [← List.singleton_append, encode_append, ByteArray.size_append, hc, ih,
      List.singleton_append, byteLength_cons]

/-- Upper-case ASCII letters become lower-case; every other character stays. -/
def lower (t : Text) : Text := t.map Char.toLower

@[simp] theorem length_lower (t : Text) : (lower t).length = t.length := by simp [lower]

end Text

end PageSplice

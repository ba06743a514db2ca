import PageSplice.Text

/-!
# Bytes taken for a text

Bytes that are not UTF-8 can be read as a text all the same: U+FFFD takes the place of each longest
piece that begins like a character and does not become one.  What was UTF-8 is read as it is
(`lossy_encode`); anything else becomes the text of other bytes.
-/

namespace PageSplice.Text

/-- The number of bytes of a character by the first of them; 0 where no character begins so. -/
def width (b : UInt8) : Nat :=
  if b < 0x80 then 1
  else if b < 0xc2 then 0
  else if b < 0xe0 then 2
  else if b < 0xf0 then 3
  else if b < 0xf5 then 4
  else 0

def isContinuation (b : UInt8) : Bool := 0x80 ≤ b && b < 0xc0

/-- Whether a byte can come behind the first one of a character.  Not all continuations can: some
would encode a character in too many bytes, a surrogate, or no character at all. -/
def canFollow (first second : UInt8) : Bool :=
  isContinuation second && (first != 0xe0 || 0xa0 ≤ second) && (first != 0xed || second < 0xa0) &&
    (first != 0xf0 || 0x90 ≤ second) && (first != 0xf4 || second < 0x90)

/-- The length of the piece at the beginning of some bytes that is no character. -/
def brokenLength : List UInt8 → Nat
  | b :: c :: rest =>
    if width b < 3 || !canFollow b c then 1
    else match rest with
      | d :: _ => if width b = 4 && isContinuation d then 3 else 2
      | [] => 2
  | _ => 1

/-- The text of some bytes but for those at the beginning that are done with already. -/
def repair : Nat → List UInt8 → Text
  | _, [] => []
  | done + 1, _ :: bs => repair done bs
  | 0, b :: bs =>
    match decode? ⟨((b :: bs).take (width b)).toArray⟩ with
    | some (c :: _) => c :: repair (width b - 1) bs
    | _ => '\uFFFD' :: repair (brokenLength (b :: bs) - 1) bs

def lossy (b : ByteArray) : Text := (decode? b).getD (repair 0 b.data.toList)

example : lossy ⟨#[0x63, 0xe9, 0xe2, 0x82, 0x41, 0xf0, 0x80, 0xc3, 0xa9]⟩ =
    "c\uFFFD\uFFFDA\uFFFD\uFFFDé".toList := by decide +kernel

end PageSplice.Text

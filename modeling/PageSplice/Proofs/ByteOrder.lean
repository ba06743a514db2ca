import Mathlib.Algebra.Group.Nat.Defs
import PageSplice.Text

/-!
# The order of bytes

UTF-8 writes a number in base 64, the highest digit first, and the first byte of a character is
greater the more bytes follow.  So texts are in the order of their bytes (`bytes_lt`): comparing
names letter by letter and comparing them byte by byte is the same.
-/

namespace PageSplice.Text

/-- The bytes of a text in a file or a path. -/
def bytes (t : Text) : List UInt8 := (encode t).data.toList

theorem bytes_eq_flatMap (t : Text) : bytes t = t.flatMap String.utf8EncodeChar := by
  show (List.utf8Encode t).data.toList = _
  rw [List.utf8Encode, List.toList_data_toByteArray]

/-! ## Numbers in base 64 -/

/-- The digits of a number in base 64 as bytes, `k` of them behind the first one. -/
def sextets (lead : Nat) : Nat → Nat → List UInt8
  | 0, v => [UInt8.ofNat (v + lead)]
  | k + 1, v => sextets lead k (v / 64) ++ [UInt8.ofNat (v % 64 + 128)]

theorem ofNat_lt_ofNat {x y : Nat} (h : x < y) (hy : y < 256) : UInt8.ofNat x < UInt8.ofNat y := by
  rw [UInt8.lt_iff_toNat_lt, UInt8.toNat_ofNat', UInt8.toNat_ofNat',
    Nat.mod_eq_of_lt (Nat.lt_trans h hy), Nat.mod_eq_of_lt hy]
  exact h

/-- With as many digits, the smaller number comes first. -/
theorem sextets_lt {lead k m n : Nat} (h : m < n) (hn : n / 64 ^ k + lead < 256)
    (x y : List UInt8) : sextets lead k m ++ x < sextets lead k n ++ y := by
  induction k generalizing m n x y with
  | zero =>
    rw [Nat.pow_zero, Nat.div_one] at hn
    exact List.cons_lt_cons_iff.2 (.inl (ofNat_lt_ofNat (by omega) hn))
  | succ k ih =>
    rw [Nat.pow_succ', ← Nat.div_div_eq_div_mul] at hn
    simp only [sextets, List.append_assoc]
    obtain hlt | ⟨heq, hlt⟩ : m / 64 < n / 64 ∨ m / 64 = n / 64 ∧ m % 64 < n % 64 := by omega
    · exact ih hlt hn _ _
    · rw [heq]
      exact List.append_left_lt
        (List.cons_lt_cons_iff.2 (.inl (ofNat_lt_ofNat (by omega) (by omega))))

theorem sextets_eq_cons (lead k v : Nat) :
    ∃ rest, sextets lead k v = UInt8.ofNat (v / 64 ^ k + lead) :: rest := by
  induction k generalizing v with
  | zero => exact ⟨[], by simp [sextets]⟩
  | succ k ih =>
    obtain ⟨rest, h⟩ := ih (v / 64)
    rw [sextets, h, Nat.div_div_eq_div_mul, ← Nat.pow_succ']
    exact ⟨_, List.cons_append⟩

/-- The first byte decides where it differs. -/
theorem sextets_lt_of_first {a b j k m n : Nat} (h : m / 64 ^ j + a < n / 64 ^ k + b)
    (hn : n / 64 ^ k + b < 256) (x y : List UInt8) : sextets a j m ++ x < sextets b k n ++ y := by
  obtain ⟨u, hu⟩ := sextets_eq_cons a j m
  obtain ⟨v, hv⟩ := sextets_eq_cons b k n
  rw [hu, hv]
  exact List.cons_lt_cons_iff.2 (.inl (ofNat_lt_ofNat h hn))

/-! ## Characters and texts -/

theorem utf8EncodeChar_cases (c : Char) :
    (c.val.toNat ≤ 0x7f ∧ String.utf8EncodeChar c = sextets 0 0 c.val.toNat) ∨
    (0x7f < c.val.toNat ∧ c.val.toNat ≤ 0x7ff ∧
      String.utf8EncodeChar c = sextets 192 1 c.val.toNat) ∨
    (0x7ff < c.val.toNat ∧ c.val.toNat ≤ 0xffff ∧
      String.utf8EncodeChar c = sextets 224 2 c.val.toNat) ∨
    (0xffff < c.val.toNat ∧ c.val.toNat < 0x110000 ∧
      String.utf8EncodeChar c = sextets 240 3 c.val.toNat) := by
  have hmax : c.val.toNat < 0x110000 := by
    have hvalid := c.valid
    simp only [UInt32.isValidChar, Nat.isValidChar] at hvalid
    omega
  unfold String.utf8EncodeChar
  simp only
  generalize c.val.toNat = v at *
  split
  · exact .inl ⟨‹_›, by simp [sextets]⟩
  · split
    · have hfirst : v / 64 % 32 = v / 64 := by omega
      exact .inr (.inl ⟨by omega, ‹_›, by simp [sextets, hfirst]⟩)
    · split
      · have hfirst : v / 4096 % 16 = v / 4096 := by omega
        exact .inr (.inr (.inl
          ⟨by omega, ‹_›, by simp [sextets, hfirst, Nat.div_div_eq_div_mul]⟩))
      · have hfirst : v / 262144 % 8 = v / 262144 := by omega
        exact .inr (.inr (.inr
          ⟨by omega, hmax, by simp [sextets, hfirst, Nat.div_div_eq_div_mul]⟩))

/-- The smaller character comes first, whatever follows the two. -/
theorem utf8EncodeChar_lt {c d : Char} (h : c < d) (x y : List UInt8) :
    String.utf8EncodeChar c ++ x < String.utf8EncodeChar d ++ y := by
  have hlt : c.val.toNat < d.val.toNat := h
  rcases utf8EncodeChar_cases c with
    ⟨hc, ec⟩ | ⟨hc₀, hc, ec⟩ | ⟨hc₀, hc, ec⟩ | ⟨hc₀, hc, ec⟩ <;>
  rcases utf8EncodeChar_cases d with
    ⟨hd, ed⟩ | ⟨hd₀, hd, ed⟩ | ⟨hd₀, hd, ed⟩ | ⟨hd₀, hd, ed⟩ <;>
  rw [ec, ed] <;>
  first
  | exact sextets_lt hlt (by omega) x y
  | exact sextets_lt_of_first (by omega) (by omega) x y

theorem bytes_lt {s t : Text} (h : s < t) : bytes s < bytes t := by
  rw [bytes_eq_flatMap, bytes_eq_flatMap]
  induction s generalizing t with
  | nil =>
    cases t with
    | nil => exact absurd h (List.lt_irrefl _)
    | cons d t =>
      have hne : String.utf8EncodeChar d ≠ [] := by
        rw [ne_eq, ← List.length_eq_zero_iff, String.length_utf8EncodeChar]
        exact Nat.ne_of_gt d.utf8Size_pos
      obtain ⟨b, rest, hb⟩ := List.exists_cons_of_ne_nil hne
      rw [List.flatMap_nil, List.flatMap_cons, hb]
      exact List.nil_lt_cons ..
  | cons c s ih =>
    cases t with
    | nil => exact absurd h (List.not_lt_nil _)
    | cons d t =>
      rw [List.flatMap_cons, List.flatMap_cons]
      obtain hlt | ⟨rfl, hlt⟩ := List.cons_lt_cons_iff.1 h
      · exact utf8EncodeChar_lt hlt _ _
      · exact List.append_left_lt (ih hlt)

end PageSplice.Text

import PageSplice.Text.Occurrence

/-!
# Log lines

A line tells in brackets what it is about and then a message.  Progress lines are cut to the width
of the screen; errors and messages of several lines are shown whole.  Main statements: a cut message
is the longest beginning that fits (`cut_isPrefix`, `byteLength_cut_le`, `lt_byteLength_cut`).  It
ends where a search backwards for a place between two characters ends too (`encode_cut` in
`Proofs.Clipping`).
-/

namespace PageSplice

structure LogLine where
  topic : Text
  message : Text
deriving DecidableEq, Repr

namespace LogLine

def screenWidth : Nat := 120

def isAlarm (l : LogLine) : Bool := Text.lower l.topic = "error".toList

/-- The longest beginning of a text with at most so many bytes. -/
def cut : Nat → Text → Text
  | _, [] => []
  | room, c :: t => if c.utf8Size ≤ room then c :: cut (room - c.utf8Size) t else []

/-- The bytes left for the message. -/
def room (l : LogLine) : Nat := screenWidth - (Text.byteLength l.topic + 3)

/-- The message as it is shown. -/
def shown (l : LogLine) : Text :=
  if l.isAlarm ∨ '\n' ∈ l.message then l.message else cut l.room l.message

/-- The number of the colour of a topic. -/
def colour (l : LogLine) : Text :=
  let topic := Text.lower l.topic
  if topic = "rebuild".toList then "94".toList
  else if topic = "retemplate".toList then "92".toList
  else if l.isAlarm then "91".toList
  else "93".toList

def escape : Char := '\x1b'

/-- What makes the text behind it bold and gives it the colour of the topic. -/
def style (l : LogLine) : Text := [escape] ++ "[1;".toList ++ l.colour ++ ['m']

/-- What ends all styles. -/
def reset : Text := [escape] ++ "[0m".toList

/-- The topic in brackets.  Where a topic ends all styles itself, its own begins again. -/
def label (l : LogLine) (coloured : Bool) : Text :=
  let plain := ['['] ++ l.topic ++ [']']
  if coloured then l.style ++ Text.replaceAll reset (reset ++ l.style) plain ++ reset else plain

/-- What is printed.  A progress line first clears what is left of the screen's line. -/
def text (l : LogLine) (coloured : Bool) : Text :=
  (if l.isAlarm then [] else [escape] ++ "[K".toList) ++
    l.label coloured ++ [' '] ++ l.shown ++ ['\n']

/-- What of a line goes to one of the two streams.  Alarms go to the one for errors. -/
def sent (coloured toErrors : Bool) (l : LogLine) : Text :=
  if l.isAlarm = toErrors then l.text coloured else []

/-! ## Cutting -/

theorem cut_isPrefix (room : Nat) (t : Text) : cut room t <+: t := by
  induction t generalizing room with
  | nil => simp [cut]
  | cons c t ih =>
    unfold cut
    split
    · exact (List.cons_prefix_cons).2 ⟨rfl, ih _⟩
    · exact List.nil_prefix

theorem byteLength_cut_le (room : Nat) (t : Text) : Text.byteLength (cut room t) ≤ room := by
  induction t generalizing room with
  | nil => simp [cut]
  | cons c t ih =>
    unfold cut
    split
    · next h =>
      have := ih (room - c.utf8Size)
      rw [Text.byteLength_cons]
      omega
    · simp

/-- What was cut off did not fit: the next character is wider than the room left. -/
theorem lt_byteLength_cut {room : Nat} {t rest : Text} {c : Char}
    (h : cut room t ++ c :: rest = t) : room < Text.byteLength (cut room t) + c.utf8Size := by
  induction t generalizing room with
  | nil => simp at h
  | cons d t ih =>
    unfold cut at h ⊢
    split
    · next hd =>
      rw [if_pos hd] at h
      have := ih (List.cons.inj h).2
      rw [Text.byteLength_cons]
      omega
    · next hd =>
      rw [if_neg hd] at h
      have hc : c = d := (List.cons.inj h).1
      subst hc
      rw [Text.byteLength_nil]
      omega

end LogLine

end PageSplice

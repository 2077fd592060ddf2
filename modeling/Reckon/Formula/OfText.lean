import Reckon.Error
import Reckon.Formula
import Reckon.Lexeme

/-!
# The formula that a text spells

A text is read from the front: blanks are passed over, and everything else is cut
into longest lexemes. The whole text is cut before anything is evaluated, so a
character that begins no token is reported even where what precedes it makes no
sense either, and it is the first such character that is reported.

`scan` keeps the tokens it has found in reverse, so that long texts need no stack.
-/

namespace Reckon

namespace Formula

/-- The tokens of the text `s`, which begins at byte `offset`, after the tokens
`found`, latest first. -/
def scan (offset : Nat) (s : List Char) (found : List Token) : Except ScanError (List Token) :=
  match s with
  | [] => .ok found.reverse
  | c :: rest =>
      if isBlank c then scan (offset + 1) rest found
      else
        match h : Lexeme.longest? (c :: rest) with
        | none => .error (.stray c (.ofLength offset c.utf8Size))
        | some lexeme =>
            have := Lexeme.length_drop_lt h
            scan (offset + lexeme.text.length) ((c :: rest).drop lexeme.text.length)
              (⟨lexeme.kind, .ofLength offset lexeme.text.length⟩ :: found)
termination_by s.length
decreasing_by
  · simp
  · assumption

/-- The formula that a text spells. A text whose length does not fit an offset is
refused unread. -/
def ofText (source : String) : Except ScanError Formula :=
  if source.utf8ByteSize < UInt32.size then
    (scan 0 source.toList []).map fun tokens => ⟨tokens, source.utf8ByteSize.toUInt32⟩
  else .error (.oversized source.utf8ByteSize.toUInt64)

/-- At the end of the text the tokens found are all there are. -/
@[simp] theorem scan_nil (offset : Nat) (found : List Token) :
    scan offset [] found = .ok found.reverse := by
  rw [scan]

/-- A blank is passed over. -/
theorem scan_blank {c : Char} (h : isBlank c) (offset : Nat) (rest : List Char)
    (found : List Token) : scan offset (c :: rest) found = scan (offset + 1) rest found := by
  rw [scan, if_pos h]

/-- A character that is no blank and begins no lexeme ends the scan. -/
theorem scan_stray {c : Char} {rest : List Char} (hb : isBlank c = false)
    (h : Lexeme.longest? (c :: rest) = none) (offset : Nat) (found : List Token) :
    scan offset (c :: rest) found = .error (.stray c (.ofLength offset c.utf8Size)) := by
  rw [scan, if_neg (by simp [hb])]
  split
  next => rfl
  next lexeme h' => simp [h] at h'

/-- A lexeme becomes a token, and the scan goes on behind it. -/
theorem scan_lexeme {c : Char} {rest : List Char} {l : Lexeme} (hb : isBlank c = false)
    (h : Lexeme.longest? (c :: rest) = some l) (offset : Nat) (found : List Token) :
    scan offset (c :: rest) found =
      scan (offset + l.text.length) ((c :: rest).drop l.text.length)
        (⟨l.kind, .ofLength offset l.text.length⟩ :: found) := by
  rw [scan, if_neg (by simp [hb])]
  split
  next h' => simp [h] at h'
  next lexeme h' =>
    obtain rfl : lexeme = l := by simpa [h] using h'.symm
    rfl

end Formula

end Reckon

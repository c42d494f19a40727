/-
Bytes.Lines — a file of lines that `fgets` reads one by one into an array.
-/
import LtpDdt.CTypes.CString

namespace LtpDdt.Bytes

open CTypes List

structure IsLine (size : Nat) (line : List UInt8) : Prop where
  noNewline : (0x0a : UInt8) ∉ line
  noNul : (0 : UInt8) ∉ line
  fits : line.length + 2 ≤ size

def linesText (lines : List (List UInt8)) : List UInt8 := lines.flatMap (· ++ [0x0a])

variable {size : Nat}

lemma fgetsAll_linesText {lines : List (List UInt8)} (h : ∀ line ∈ lines, IsLine size line) :
    fgetsAll (size - 1) [] (linesText lines) = lines.map (· ++ [0x0a]) := by
  induction lines with
  | nil => rfl
  | cons line lines ih =>
    obtain ⟨hline, hlines⟩ := forall_mem_cons.1 h
    have hfits := hline.fits
    have hread := fgetsAll_line (n := size - 1) hline.noNewline (linesText lines) []
      (by rw [length_nil]; omega)
    rw [linesText, flatMap_cons, append_assoc, singleton_append, ← linesText]
    rw [show (0x0a : UInt8) = CChar.newline from rfl, hread, nil_append, ih hlines, map_cons]
    rfl

end LtpDdt.Bytes

import ModulePack.Text.Space
import ModulePack.Text.Quoted.Table

/-!
# Quoted text in messages

A text between double quotes with every character visible: quote and backslash are escaped, the
usual controls have short names, and all else without a form of its own is written by its code
point.
-/

namespace ModulePack.Text

/-- Hexadecimal digits in lower case, no leading zero. -/
def hexDigits (n : Nat) : Text := Nat.toDigits 16 n

def quotedChar (c : Char) : Text :=
  match c with
  | '"' => "\\\"".toList
  | '\\' => "\\\\".toList
  | '\n' => "\\n".toList
  | '\r' => "\\r".toList
  | '\t' => "\\t".toList
  | '\x00' => "\\0".toList
  | _ =>
    if inRanges extendingRanges c || inRanges unprintableRanges c then
      "\\u\x7b".toList ++ hexDigits c.toNat ++ "\x7d".toList
    else [c]

def quoted (s : Text) : Text := '"' :: (s.flatMap quotedChar ++ ['"'])

end ModulePack.Text

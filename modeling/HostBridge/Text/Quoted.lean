import HostBridge.Text.Glyph
/-!
# Quoted text

A text in double quotes, in which every character without a glyph of its own is written by its code
point. A single quote needs no escape.
-/

namespace HostBridge

namespace Quoted

def codePoint (c : Char) : List Char := '\\' :: 'u' :: '\x7b' :: Nat.toDigits 16 c.toNat ++ ['\x7d']

def escape (c : Char) : List Char :=
  match c with
  | '"' => ['\\', '"']
  | '\\' => ['\\', '\\']
  | '\x00' => ['\\', '0']
  | '\t' => ['\\', 't']
  | '\r' => ['\\', 'r']
  | '\n' => ['\\', 'n']
  | c => if Glyph.isPlain c then [c] else codePoint c

end Quoted

def quoted (text : String) : String :=
  String.ofList ('"' :: text.toList.flatMap Quoted.escape ++ ['"'])

end HostBridge

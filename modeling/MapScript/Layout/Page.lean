import MapScript.Failure
import MapScript.Text.Blank

/-!
# Pages

A page is text that grows line by line. Each line is indented by the page's unit as often as the page is deep when the
line is written; a nested part of the text is written one level deeper.
-/

namespace MapScript

structure Page where
  unit : Text
  level : Nat
  lines : List Text
  deriving DecidableEq

namespace Page

/-- A page without lines that is indented by `unit`. -/
def blank (unit : Text) : Page := ⟨unit, 0, []⟩

/-- Adds a line at the current level. -/
def line (p : Page) (text : Text) : Page := { p with lines := p.lines ++ [.times p.level p.unit ++ text] }

def indent (p : Page) : Page := { p with level := p.level + 1 }

/-- Goes back one level. -/
def dedent (p : Page) : Except Failure Page :=
  match p.level with
  | 0 => .error (.print .underflow)
  | n + 1 => .ok { p with level := n }

/-- Writes a part of the text one level deeper. -/
def nested (p : Page) (body : Page → Except Failure Page) : Except Failure Page :=
  body p.indent >>= dedent

/-- The lines of the page, blanks at the end taken away and one line feed put there. -/
def text (p : Page) : Text := ⟨trimEnd (Text.intercalate "\n" p.lines).points ++ [.char '\n']⟩

end Page

end MapScript

/-! # Lines of a text -/

namespace Pascal.Text

/-- Splits after every newline. Each line comes without its newline and with a mark that tells
whether it had one; `read` holds what the current line already has, last character first. -/
def linesFrom (read : List Char) : List Char → List (List Char × Bool)
  | [] => if read.isEmpty then [] else [(read.reverse, false)]
  | c :: cs => if c = '\n' then (read.reverse, true) :: linesFrom [] cs else linesFrom (c :: read) cs

def dropReturn (line : List Char) : List Char :=
  match line.reverse with
  | '\r' :: rest => rest.reverse
  | _ => line

/-- The lines of a text. A line ends with a newline or with a carriage return and a newline, and the
last one may have no end. -/
def lines (s : String) : List String :=
  (linesFrom [] s.toList).map fun (line, ended) =>
    String.ofList (if ended then dropReturn line else line)

/-- The lines of a terminal: every carriage return at the end of a line belongs to its end. -/
def terminalLines (s : String) : List String :=
  (linesFrom [] s.toList).map fun (line, _) =>
    String.ofList (line.reverse.dropWhile (fun c => c = '\n' || c = '\r')).reverse

end Pascal.Text

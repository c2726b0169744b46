import EvidenceLock.Text.Blank

/-
  Text with style tags, as the terminal shows it without colours. A tag stands in
  square brackets and starts with a lower-case letter or one of `#`, `/` and `@`;
  tags leave nothing behind. A closing tag needs an open one of its name, and an
  empty closing tag needs any open one. A backslash before a tag keeps its text.
-/

namespace EvidenceLock.Markup

open EvidenceLock.Text

/-- A tag may start with this character. -/
def startsTag (c : Char) : Bool := ('a' ≤ c && c ≤ 'z') || c == '#' || c == '/' || c == '@'

/-- The text of a tag and what follows its closing bracket, given what follows its opening bracket;
no other bracket may open within. -/
def tagAfter? (cs : List Char) : Option (List Char × List Char) :=
  match cs with
  | [] => none
  | c :: r =>
    if startsTag c then
      let body := r.takeWhile fun d => d != '[' && d != ']'
      match r.drop body.length with
      | ']' :: rest => some (c :: body, rest)
      | _ => none
    else none

/-- The name of a tag: what stands before an equals sign, trimmed. -/
def tagName (tag : List Char) : List Char := trim (tag.takeWhile (· != '='))

/-- The open tags after one more tag, innermost first; nothing when it closes none. -/
def openTags? (stack : List (List Char)) (tag : List Char) : Option (List (List Char)) :=
  match tagName tag with
  | '/' :: name =>
    let name := trim name
    if name.isEmpty then if stack.isEmpty then none else some (stack.drop 1)
    else if stack.contains name then some (stack.erase name)
    else none
  | name => some (name :: stack)

/-- The text that is shown; nothing when a closing tag closes no open one. -/
def shown? : (fuel : Nat) → (stack : List (List Char)) → (acc : List Char) → List Char →
    Option (List Char)
  | 0, _, acc, _ => some acc.reverse
  | fuel + 1, stack, acc, cs =>
    match cs with
    | [] => some acc.reverse
    | c :: r =>
      let slashes := cs.takeWhile (· == '\\')
      match cs.drop slashes.length with
      | '[' :: inner =>
        match tagAfter? inner with
        | some (tag, rest) =>
          let kept := List.replicate (slashes.length / 2) '\\'
          if slashes.length % 2 = 1 then
            shown? fuel stack (((kept ++ '[' :: tag ++ [']']).reverse) ++ acc) rest
          else
            match openTags? stack tag with
            | some stack => shown? fuel stack (kept ++ acc) rest
            | none => none
        | none =>
          let kept := slashes.dropLast
          shown? fuel stack ('[' :: kept ++ acc) inner
      | rest =>
        if slashes.isEmpty then shown? fuel stack (c :: acc) r
        else shown? fuel stack (slashes ++ acc) rest

/-- A character that the terminal is never sent. -/
def isControl (c : Char) : Bool := [7, 8, 11, 12, 13].contains c.toNat

/-- The text that is shown, without control characters. -/
def plain? (s : String) : Option (List Char) :=
  (shown? (s.length + 1) [] [] s.toList).map fun cs => cs.filter fun c => !isControl c

example : plain? "[red]Error:[/red] a[id].ts" = some "Error: a.ts".toList := by decide +kernel
example : plain? "x[/y]" = none ∧ plain? "[Errno 2]" = some "[Errno 2]".toList := by
  decide +kernel

end EvidenceLock.Markup

import EvidenceLock.Language
import EvidenceLock.Text.Lines

/-
  Removing comments without moving lines. A comment is replaced by its own line
  feeds, so line `k` of the result is line `k` of the text with characters left
  out. Comments of one style are removed from left to right, style after style.
-/

namespace EvidenceLock

open EvidenceLock.Text

/-- The number of characters up to and including the next star and slash, `seen` more than those of
the text. -/
def closingLength? (seen : Nat) : List Char → Option Nat
  | [] => none
  | '*' :: '/' :: _ => some (seen + 2)
  | _ :: r => closingLength? (seen + 1) r

namespace CommentStyle

/-- The length of the comment that starts a text. -/
def lengthAt? (style : CommentStyle) (cs : List Char) : Option Nat :=
  match style with
  | .enclosed =>
    match cs with
    | '/' :: '*' :: r => closingLength? 2 r
    | _ => none
  | .toLineEnd marker =>
    if startsWith cs marker then
      some (marker.length + ((cs.drop marker.length).takeWhile (· != '\n')).length)
    else none

/-- The text with every comment of a style replaced by its line feeds. -/
def strip (style : CommentStyle) (cs : List Char) : List Char := go 0 [] cs
where
  /-- `left` characters of the open comment remain; `acc` is the result so far, reversed. -/
  go (left : Nat) (acc : List Char) : List Char → List Char
    | [] => acc.reverse
    | c :: r =>
      let kept := if c = '\n' then c :: acc else acc
      match left with
      | left + 1 => go left kept r
      | 0 =>
        match style.lengthAt? (c :: r) with
        | some (n + 1) => go n kept r
        | _ => go 0 (c :: acc) r

end CommentStyle

/-- The text without the comments of a language. -/
def Language.stripComments (l : Language) (cs : List Char) : List Char :=
  l.comments.foldl (fun cs style => style.strip cs) cs

end EvidenceLock

import EvidenceLock.Syntax.Braced.Expressions

/-
  Markup elements in scripts. Between the tags stands text as it is, up to the next tag or
  brace; a brace holds an expression.
-/

namespace EvidenceLock.Syntax.Braced

open Scan

/-- An expression in braces; it may be missing. -/
def embedded (forms : Forms) : Scan Node := do
  let start ← here
  let parts ← between "\x7b" "\x7d" do
    let _ ← eat "..."
    return (← maybe (sequence forms)).toList
  node .other start parts

/-- The name of a tag or of an attribute: words joined by hyphens, points and colons. -/
def tagName : Scan Unit := do
  let code ← code
  let start ← here
  let stop := code.skipWhile (fun c => Code.isWordChar c || ['-', '.', ':'].contains c) start
  check (start < stop && !(code.char start).isDigit)
  stopAt stop

/-- A quoted value; no character but the quote ends it. -/
def attributeText : Scan Node := do
  let q ← char
  check (q == '"' || q == '\'')
  leafTo .string ((← code).skipWhile (· != q) ((← here) + 1) + 1)

/-- An attribute of a tag. -/
def tagAttribute (forms : Forms) : Scan (List Node) := do
  if (← char) == '{' then return [← embedded forms]
  tagName
  if ← eat "=" then
    match ← char with
    | '{' => return [← embedded forms]
    | '<' => return [← forms .element]
    | _ => return [← attributeText]
  return []

/-- Something between tags: the text up to it is passed over. -/
def content (forms : Forms) : Scan Node := do
  let code ← code
  jumpTo (code.skipWhile (fun c => c != '<' && c != '{') (← previous))
  if (← char) == '{' then embedded forms
  else
    check (code.char (code.skipWhile Code.isSpace ((← here) + 1)) != '/')
    forms .element

/-- An element with its tags and everything in between. -/
def element (forms : Forms) : Scan Node := do
  let start ← here
  expect "<"
  let _ ← maybe tagName
  let types ← typeParameters forms
  let attributes ← many (tagAttribute forms)
  if ← eat "/" then
    expect ">"
    node .other start (types ++ attributes.flatten)
  else
    expect ">"
    let inner ← many (content forms)
    let code ← code
    jumpTo (code.skipWhile (fun c => c != '<' && c != '{') (← previous))
    expect "<"
    expect "/"
    let _ ← maybe tagName
    expect ">"
    node .other start (types ++ attributes.flatten ++ inner)

end EvidenceLock.Syntax.Braced

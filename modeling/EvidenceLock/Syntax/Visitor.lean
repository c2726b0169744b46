import EvidenceLock.Syntax.Braced.Program
import EvidenceLock.Syntax.Indented.Program

/-
  The structure of source files: each language has a reader for its trees and a grammar
  that says what the nodes mean.
-/

namespace EvidenceLock.Syntax

/-- The facts of a text in a language. -/
def factsOf (language : Language) (content path : String) : FileFacts :=
  let code := Code.ofString content
  let script (typed markup : Bool) :=
    Braced.grammar.walk code path (Braced.parse code typed markup)
  match language with
  | .typescript => script true false
  | .tsx => script true true
  | .javascript => script false true
  | .python => Indented.grammar.walk code path (Indented.parse code)

/-- The structure of a text in the language of a name. -/
def visit (language content path : String) : Outcome FileFacts :=
  match Language.named? language with
  | some l => .ok (factsOf l content path)
  | none => fail (.parsing path language "no grammar available")

/-- The extractor of each language. -/
def visitors : Visitors := fun l content path => .ok (factsOf l content path)

end EvidenceLock.Syntax

import EvidenceLock.Path

/-
  The source languages: their extensions, how comments are written, what an import
  without extension may stand for, and which file names are those of tests.
-/

namespace EvidenceLock

open EvidenceLock.Text

/-- How a comment begins and ends. -/
inductive CommentStyle where
  /-- From a slash and a star up to the next star and slash. -/
  | enclosed
  /-- From a marker up to the end of the line. -/
  | toLineEnd (marker : List Char)
  deriving DecidableEq, Repr

/-- How the names of test files look. -/
inductive TestNaming where
  /-- `.spec` or `.test` before a script extension. -/
  | dotted
  /-- `test_` in front or `_test` behind. -/
  | underscored
  deriving DecidableEq, Repr

/-- A language that can be analysed. -/
inductive Language where
  /-- Typed scripts. -/
  | typescript
  /-- Typed scripts with markup elements. -/
  | tsx
  /-- Scripts. -/
  | javascript
  /-- The language with blocks by indentation. -/
  | python
  deriving DecidableEq, Repr

namespace Language

/-- All languages. -/
def all : List Language := [.typescript, .tsx, .javascript, .python]

/-- The name of a language. -/
def name : Language → String
  | .typescript => "typescript"
  | .tsx => "tsx"
  | .javascript => "javascript"
  | .python => "python"

/-- The language of a name. -/
def named? (name : String) : Option Language := all.find? fun l => l.name == name

/-- The file extensions of a language. -/
def extensions : Language → List String
  | .typescript => [".ts"]
  | .tsx => [".tsx"]
  | .javascript => [".js", ".jsx", ".mjs", ".cjs"]
  | .python => [".py"]

/-- The comment styles of a language, in the order in which comments are removed. -/
def comments : Language → List CommentStyle
  | .python => [.toLineEnd ['#']]
  | _ => [.enclosed, .toLineEnd ['/', '/']]

/-- The extensions that an import may leave out, in the order in which they are tried. -/
def resolveExtensions : Language → List String
  | .python => [".py"]
  | _ => [".ts", ".tsx", ".js", ".jsx", ".mjs", ".cjs"]

/-- The names, without extension, of the file that stands for its folder. -/
def indexStems : Language → List String
  | .python => ["__init__"]
  | _ => ["index"]

/-- How test files are named. -/
def testNaming : Language → TestNaming
  | .python => .underscored
  | _ => .dotted

/-- The language of an extension, upper or lower case. -/
def ofExtension? (ext : String) : Option Language :=
  let low := lowered ext
  all.find? fun l => l.extensions.contains low

/-- The language of a path, by the suffix of its last part. -/
def ofPath? (path : String) : Option Language :=
  ofExtension? (String.ofList (Path.suffix path.toList))

/-- Every extension of a language. -/
def sourceExtensions : List String := all.flatMap extensions

end Language

/-- The endings of the names of test files with a dotted marker. -/
def dottedTestEndings : List (List Char) :=
  [".spec", ".test"].flatMap fun marker =>
    [".js", ".jsx", ".ts", ".tsx"].map fun ext => (marker ++ ext).toList

/-- The text ends with the given characters. -/
def endsWith (text ending : List Char) : Bool := ending.isSuffixOf text

/-- The name is that of a test file. -/
def TestNaming.accepts (naming : TestNaming) (name : List Char) : Bool :=
  match naming with
  | .dotted => dottedTestEndings.any (endsWith name)
  | .underscored =>
    endsWith name "_test.py".toList ||
      (startsWith name "test_".toList && endsWith (name.drop 5) ".py".toList &&
        !((name.drop 5).contains '\n'))

end EvidenceLock

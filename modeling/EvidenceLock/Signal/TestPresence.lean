import EvidenceLock.Language

/-
  Which paths are those of tests: every file below a test folder, and every file
  that is named like a test of its language.
-/

namespace EvidenceLock

/-- The names of test folders. -/
def testFolders : List (List Char) := ["__tests__".toList, "test".toList, "tests".toList]

/-- The path is that of a test. -/
def isTestPath (path : String) : Bool :=
  let parts := Path.parts path.toList
  if parts.dropLast.any testFolders.contains then true
  else
    match Language.ofPath? path, parts.getLast? with
    | some language, some name => language.testNaming.accepts name
    | _, _ => false

/-- The test paths in order. -/
def testPaths (paths : List String) : List String :=
  (paths.filter isTestPath).mergeSort fun a b => decide (a ≤ b)

end EvidenceLock

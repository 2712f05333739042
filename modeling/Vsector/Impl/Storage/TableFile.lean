import Vsector.Framework.Lines
import Vsector.Impl.Storage.Recovery

/-!
# SSTable files

The bytes of an SSTable's file, as `SSTable.flush` writes them and
`SSTable.scan` reads them, and what a crash in the middle of a flush leaves.
-/

namespace Vsector.Storage

open Framework Models

/-- What the code takes from pydantic and from text files. -/
structure JsonLines where
  /-- The bytes of `r.model_dump_json()`. -/
  modelDumpBytes : VectorRecord → List UInt8
  /-- The document of a line: none where its bytes are not UTF-8 or its text is not JSON. -/
  loads : List UInt8 → Text

/-- The documented behaviour of a `JsonLines`. -/
structure JsonLines.Lawful (J : JsonLines) (X : Externals) : Prop where
  loads_dump : ∀ r, J.loads (J.modelDumpBytes r) = some (X.modelDumpJson r)
  /-- An object that is not closed is no JSON. -/
  loads_take : ∀ r k, 0 < k → k < (J.modelDumpBytes r).length →
    J.loads ((J.modelDumpBytes r).take k) = none
  /-- An object opens with a brace. -/
  head : ∀ r, (J.modelDumpBytes r).head? = some 123
  /-- Newlines in a string are escaped. -/
  no_newline : ∀ r, ∀ b ∈ J.modelDumpBytes r, b ≠ 10 ∧ b ≠ 13
  /-- Validating a text is validating the document it spells. -/
  validateJson : ∀ r, X.modelValidateJson (X.modelDumpJson r) = X.modelValidate (X.modelDumpJson r)

namespace JsonLines

variable (J : JsonLines)

/-- ASCII whitespace. -/
def isSpace (b : UInt8) : Bool := b == 32 || (9 ≤ b && b ≤ 13) || (28 ≤ b && b ≤ 31)

/-- `for line in f` of a file in text mode splits at `\n` and `\r`; a line is skipped where
`line.strip()` is empty. -/
def format : LineFormat UInt8 VectorRecord where
  encode := J.modelDumpBytes
  newline := 10
  isNewline b := b == 10 || b == 13
  isBlank line := line.all isSpace

/-- The file `SSTable.flush` writes. -/
def tableBytes (records : List VectorRecord) : List UInt8 := J.format.write records

/-- The lines `SSTable.scan` reads. -/
def tableLines (file : List UInt8) : List Text := (J.format.lines file).map J.loads

end JsonLines

/-- What is left where the process dies in `flush` with `k` bytes of the file written. -/
def SegmentStore.crashInFlush (J : JsonLines) (s : SegmentStore) (ts pid k : Nat) : SegmentStore :=
  { s with hot := s.hot.set (sstName ts pid) (J.tableLines
    ((J.tableBytes s.memtable.scan).take k)) }

end Vsector.Storage

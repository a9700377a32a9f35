import Streamer.Lib.Text

/-!
# Types and constants (`include/streamer/Types.hpp`)
-/

namespace Streamer
open Text

def DEFAULT_CHUNK_SIZE : Nat := 64 * 1024

structure MediaFileInfo where
  filename : Bytes
  sizeBytes : UInt64
deriving DecidableEq, Repr

/-- What the calls of the standard library that report failure by throwing can throw. -/
inductive Exn where
  | outOfRange
  | lengthError
  | badAlloc
  | filesystemError
deriving DecidableEq, Repr

/-- The largest `std::vector<char>`. -/
def VECTOR_MAX_SIZE : Nat := 2 ^ 63 - 1

end Streamer

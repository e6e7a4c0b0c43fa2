/-!
# Sites

What is found at the path where a storage is to be opened. Missing directories above it are made,
so a path in them is as good as an empty file.
-/

namespace RecordStore

/-- What is found at a path. -/
inductive Site where
  /-- A file; an empty one stands for none. -/
  | file (content : ByteArray)
  /-- A directory. -/
  | directory
  /-- Nothing, below what is a file and no directory. -/
  | belowFile

end RecordStore

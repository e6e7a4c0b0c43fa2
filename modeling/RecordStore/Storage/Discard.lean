import RecordStore.Storage.Basic

/-!
# No storage

Takes every record and keeps none.

Model of `NoopBackend`, section 13 of the specification.
-/

namespace RecordStore

/-- What keeps nothing. -/
structure DiscardStore where
  deriving DecidableEq, Inhabited

namespace DiscardStore

instance : Storage DiscardStore where
  name _ := "none"
  retains _ := false
  write _ s := .ok () s
  read key s := .fail (.keyNotFound key) s
  delete _ s := .ok () s
  load s := .ok [] s
  keys s := .ok [] s

end DiscardStore

end RecordStore

import Mathlib

/-!
# The three kinds of backup

`full`, `diff` and `log` is the vocabulary the listing, the retention rule and
the restore chain match on.
-/

namespace DbaBrain.Lib

inductive BackupKind where
  | full
  | diff
  | log
  deriving DecidableEq

end DbaBrain.Lib

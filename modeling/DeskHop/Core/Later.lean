/-
  DeskHop.Core.Later — the same times, later by a constant.

  The clock wraps, so does adding to it, and the wrapped difference of two times is what it
  was when the same is added to both.
-/

import DeskHop.Core.Types

namespace DeskHop

theorem timeDiff_add (a b c : Time) : timeDiff (a + c) (b + c) = timeDiff a b := by
  have h : a + c - (b + c) = a - b := by grind
  rw [timeDiff, timeDiff, h]

/-- A deadline is past after as long as before. -/
theorem timeAfter_add (now t c d : Time) : timeAfter (now + c) (t + c + d) = timeAfter now (t + d) := by
  have h : t + c + d = t + d + c := by grind
  rw [h, timeAfter, timeAfter, timeDiff_add]

theorem timeAfter_add_self (now t c : Time) : timeAfter (now + c) (t + c) = timeAfter now t := by
  rw [timeAfter, timeAfter, timeDiff_add]

end DeskHop

/-! The health of a resolver: how often it failed since the last good probe, and
whether a probe loop is running. -/

namespace DnsFanout

structure Health where
  fails : UInt32 := 0
  probing : Bool := false
  /-- Milliseconds between probes. -/
  interval : UInt64 := 500
deriving DecidableEq, Repr

namespace Health

/-- Down after more than `maxFails` failures; never when that is zero. -/
def isDown (h : Health) (maxFails : UInt32) : Bool := maxFails ≠ 0 && maxFails < h.fails

def maxCount : UInt32 := 4294967295

/-- The counter stays at its maximum. -/
def markFailed (h : Health) : Health :=
  if h.fails = maxCount then h else { h with fails := h.fails + 1 }

def markHealthy (h : Health) : Health := { h with fails := 0 }

/-- Claims the one probe loop; none while another runs. -/
def beginProbe? (h : Health) : Option Health :=
  if h.probing then none else some { h with probing := true }

def endProbe (h : Health) : Health := { h with probing := false }

def setInterval (h : Health) (interval : UInt64) : Health := { h with interval }

end Health

end DnsFanout

/-!
The epochs that system clocks count from. Network time counts seconds since 1900-01-01.
-/
namespace Reflector.Sntp

inductive Epoch where
  /-- Since 1970-01-01 00:00:00. -/
  | unix
  /-- Since 2000-01-01 00:00:00. -/
  | y2k
  deriving DecidableEq, Repr

namespace Epoch

/-- Seconds from 1900-01-01 to the epoch. -/
def offset : Epoch → UInt32
  | .unix => 2208988800
  | .y2k => 3155673600

def name : Epoch → String
  | .unix => "Unix"
  | .y2k => "Y2k"

/-- Network seconds as seconds since the epoch, modulo 2 ^ 32 like network time itself. -/
def ofNetwork (e : Epoch) (secs : UInt32) : UInt32 := secs - e.offset

end Epoch

end Reflector.Sntp

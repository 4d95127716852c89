import SevMicroLoader.Boot.Clock
import SevMicroLoader.Time.Server

/-!
# Where the clock comes from

The tasks that `query_roughtime` awaits are runs of `querySingleRoughtime`, one for each server
(`Queried`). So every midpoint that counts for the clock is authenticated under the key of its
server, for a nonce that was drawn in this boot. If most of the servers that answered are honest,
the clock is set inside the interval these vouch for.
-/

namespace SevMicroLoader.Boot
open Rust Time

/-! ## The servers that answer -/

/-- The servers whose tasks were awaited. -/
def askedNext (asked : List RoughtimeServer) : (c : InitCall) → c.Reply → List RoughtimeServer
  | .querySingleRoughtime srv _, _ => asked ++ [srv]
  | _, _ => asked

/-- A server is asked in its place of the list, once. -/
def InTurn (asked : List RoughtimeServer) : InitCall → Prop
  | .querySingleRoughtime srv _ => (asked ++ [srv]).Sublist roughtimeServers
  | _ => True

section Asked
variable {α : Type} {asked : List RoughtimeServer} {K : Dns.Packages}

/-- After the servers `asked`, `p` asks the next ones in turn, and ends in `Q`. -/
abbrev Asks (Q : List RoughtimeServer → α → Prop) (p : Init α) (asked : List RoughtimeServer) :
    Prop :=
  Prog.Holds askedNext InTurn Q p asked

end Asked

end SevMicroLoader.Boot

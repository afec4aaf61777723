import Piercloud.Construction.Client
import Piercloud.Proof.Parser.Sessions
import Piercloud.Proof.Tunnel.Judged
import Piercloud.Proof.Tunnel.Pings

/-
This file follows an accepted attempt from the answer of the server to the session behind it.
-/

namespace Piercloud.Client

open CLib Liblst Socket Loop Wire Runs

end Piercloud.Client

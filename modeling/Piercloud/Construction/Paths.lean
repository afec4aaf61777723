import Piercloud.Construction.Authorization
import Piercloud.Construction.Routing

/-
This file embeds the file names that `Respond`, `Connect` and `Pier` of the server's `piercloud-cgi.c` print. A result
of `none` is an `ASSERT` on a number that is zero.
-/

namespace Piercloud.Cgi

open CLib

/-- This is `RUN_PATH`. -/
def runPath : Bytes := text "/tmp/piercloud"

/-- Every name has the device in front. -/
def devicePath (device : Int) (rest : Bytes) : Bytes := runPath ++ text "/" ++ signedDecimal device ++ rest

/-- `Respond` writes into this FIFO. -/
def respondWfifo (pier pid : Int) : Option Bytes :=
  if pier = 0 ∨ pid = 0 then none else some (devicePath pier (text ".0/" ++ signedDecimal pid))

/-- `Connect` reads from this FIFO. -/
def connectRfifo (connect : Int) : Option Bytes := if connect = 0 then none else some (devicePath connect [])

def connectLockName (connect : Int) : Option Bytes :=
  if connect = 0 then none else some (devicePath connect (text ".lock"))

/-- `Pier` reads the response to its request from this FIFO. -/
def pierRfifo (connect myPid : Int) : Option Bytes :=
  if connect = 0 then none else some (devicePath connect (text ".0/" ++ signedDecimal myPid))

/-- `Pier` writes its request into this FIFO. -/
def pierWfifo (connect : Int) : Option Bytes := if connect = 0 then none else some (devicePath connect [])

def pierLockName (connect : Int) : Option Bytes :=
  if connect = 0 then none else some (devicePath connect (text ".lock"))

/-- The web server passes on the second word of a request as the URI. -/
def requestTarget (request : Bytes) : Bytes := (request.splitOn 32).getD 1 []

end Piercloud.Cgi

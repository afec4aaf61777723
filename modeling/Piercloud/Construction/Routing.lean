import Piercloud.Construction.Header

/-
This file embeds the choice that `main` of the server's `piercloud-cgi.c` makes from the host name.
-/

namespace Piercloud.Cgi

open CLib Liblst

/-- A device connects or answers a request through the bare domain, and a browser talks to a device. -/
inductive Route where
  | connect (pier : Int)
  | respond (pier pid : Int)
  | pier (connect : Int)
  deriving DecidableEq, Repr

/-- The first slash of the URI is skipped; the next one stands in front of the pid. Behind an empty URI the code
reads out of bounds, which is outside of this model. -/
def uriRoute (requestUri : Bytes) : Route :=
  match strchr (requestUri.drop 1) 47 with
  | none => .connect (atol (requestUri.drop 1))
  | some t => .respond (atol ((requestUri.drop 1).take t)) (atol ((requestUri.drop 1).drop (t + 1)))

/-- A result of `none` is an `ASSERT` that fires: a variable is missing, or the host has less than two labels. -/
def mainRoute (environ : List Bytes) : Option Route :=
  match getenv environ (text "HTTP_HOST") with
  | none => none
  | some httpHost =>
      match lstSplitStr 46 httpHost with
      | [] | [_] => none
      | [_, _] => (getenv environ (text "REQUEST_URI")).map uriRoute
      | label :: _ => some (.pier (atol label))

end Piercloud.Cgi

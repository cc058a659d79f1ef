import QueryServer.Number.Numeral
import QueryServer.Text.Blank
/-!
The port to listen on, chosen leniently: any text that denotes no port gives the default one.
-/

namespace QueryServer

abbrev Port := UInt16

namespace Port

def fallback : Port := 7778

/-- A port number with blanks around it. -/
def parse? (s : String) : Option Port :=
  (Numeral.read 65535 (Text.trim s.toList)).toOption.map UInt16.ofNat

def choose (argument : Option String) : Port :=
  (argument.bind parse?).getD fallback

def isInvalid (argument : String) : Bool :=
  (parse? argument).isNone

end Port
end QueryServer

import LearnInternet.Calculator.Client
import LearnInternet.Calculator.Session

/-!
Two sessions over the same bytes that start from different memory. `deserialize` returns its fresh
`Info` as it is when jsoncpp cannot parse the payload, and `obtain` returns true all the same.
-/

namespace LearnInternet.Calculator

open LearnInternet

namespace CalculatorServer

variable {json : JsonCpp}

def requestOf (value : String → Int) : Info :=
  ⟨Int16.ofInt (value "x"), Int16.ofInt (value "y"), Int8.ofInt (value "oper")⟩

end CalculatorServer

end LearnInternet.Calculator

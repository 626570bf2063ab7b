/-
The program: its arguments in, its answer out.

The program runs in host memory. Its clock counts readings, one second to each, so that a run
depends on nothing but its arguments.
-/
import FourierAudit.CommandLine

namespace FourierAudit

/-- The surroundings of the program. -/
def environment : CommandLine.Environment where
  registry := .detect none
  accelerator := none
  clock := Nat.toFloat
  cases := standardCases

end FourierAudit

def main (arguments : List String) : IO UInt32 := do
  let response := FourierAudit.CommandLine.respond FourierAudit.environment arguments
  for line in response.output do IO.println line
  for line in response.complaints do IO.eprintln line
  return UInt32.ofNat response.exitCode

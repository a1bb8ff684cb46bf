/-
# The line loop of the stratum client

`EthStratumClient::onRecvSocketDataCompleted` in
`libpool/stratum/EthStratumClient.cpp`, for a read without error.  The bytes of a
transmission are appended to what is left of the ones before; every complete line is
trimmed, parsed and handled, and a `std::exception` of the handler is swallowed.  At
the end the job is dispatched if one was accepted: "as multiple jobs may come in with
a single transmission only the last will be dispatched".

An exception of another kind leaves the loop, the function and the thread of the
`io_service`, which ends the program: what `m_message` holds then is of no account, so
the lines are taken off it at the end.  The next read from the socket is not modelled.
-/

import EtcMiner.Stratum.ProcessResponse

namespace EtcMiner
namespace Stratum

open Common Eth Lib

/-- The lines of a text, and what follows the last newline. -/
def takeLines : List Char → List (List Char) × List Char
  | [] => ([], [])
  | c :: cs =>
    match c, takeLines cs with
    | '\n', (lines, rest) => ([] :: lines, rest)
    | c, ([], rest) => ([], c :: rest)
    | c, (line :: lines, rest) => ((c :: line) :: lines, rest)

/-- `boost::trim`. -/
def trim (line : List Char) : List Char :=
  ((line.dropWhile isSpace).reverse.dropWhile isSpace).reverse

/-- The message of a line, if it holds one. -/
def messageOf (rt : Runtime) (line : List Char) : Option Json :=
  if trim line = [] then none else rt.parse (trim line)

section Loop

variable (rt : Runtime) (now : ℤ)

/-- `try { processResponse(jMsg); } catch (const exception&) { }`. -/
def tryProcessResponse (jMsg : Json) : ClientM Unit :=
  tryCatch (processResponse rt now jMsg) fun
    | .stdException => pure ()
    | e => throw e

/-- The loop over the lines. -/
def processLines : List (List Char) → ClientM Unit
  | [] => pure ()
  | line :: lines => do
    match messageOf rt line with
    | some jMsg => tryProcessResponse rt now jMsg
    | none => pure ()
    processLines lines

/-- `onRecvSocketDataCompleted` up to "There is a new job - dispatch it", with the job to
dispatch. -/
def receive (rxMessage : List Char) : ClientM (Option WorkPackage) := do
  modify fun c => { c with message := c.message ++ rxMessage, newjobprocessed := false }
  let (lines, rest) := takeLines (← get).message
  processLines rt now lines
  modify fun c => { c with message := rest }
  let c ← get
  return if c.newjobprocessed then some c.current else none

/-- `onRecvSocketDataCompleted`. -/
def onRecvSocketDataCompleted (rxMessage : List Char) : ClientM Unit := do
  match ← receive rt now rxMessage with
  | some w => emit (.onWorkReceived w)
  | none => pure ()

/-- The package a transmission dispatches, if it does. -/
def dispatched (c : Client) (rxMessage : List Char) : Option WorkPackage :=
  match receive rt now rxMessage c with
  | .ok w _ => w
  | .error _ _ => none

/-- The messages a transmission completes, in order. -/
def messages (c : Client) (rxMessage : List Char) : List Json :=
  (takeLines (c.message ++ rxMessage)).1.filterMap (messageOf rt)

end Loop

end Stratum
end EtcMiner
